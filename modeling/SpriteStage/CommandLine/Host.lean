import SpriteStage.CommandLine.FileTree
import SpriteStage.CommandLine.HostConfig
import SpriteStage.Replay.Player
import SpriteStage.Script.Lint
set_option autoImplicit false

/-! # The commands `run` and `check`

`run` plays a timeline on a program and writes the replay as JSON; `check` writes the remarks on a
program. An error is written as a chain: the error and the causes behind it. -/

namespace SpriteStage

/-- What `run` is asked to do. -/
structure RunOptions where
  program : String
  timeline : Option String := none
  /-- The instant at which the play ends; without one it ends when the stage is settled. -/
  cutoff : Option Instant := none
  seed : Option Nat := none
  /-- Let stale timers fire. -/
  legacyTimers : Bool := false
  /-- Write the events, too. -/
  events : Bool := false

/-- A command with its arguments. -/
inductive HostCommand where
  | run (options : RunOptions)
  | check (program : String)

/-- An error with the causes behind it, outermost first. -/
abbrev ErrorChain := List String

/-- The outcome of a command that failed. -/
def Output.failure (chain : ErrorChain) : Output :=
  ⟨1, "", "❌ " ++ ": ".intercalate chain ++ "\n"⟩

/-- The chain of an error about a file. -/
def aboutFile (what path : String) (causes : ErrorChain) : ErrorChain := (what ++ path) :: causes

/-- The text of a file, or an error that names it. -/
def FileTree.readOr (tree : FileTree) (what path : String) : Except ErrorChain String :=
  match tree.read? path with
  | some text => .ok text
  | none => .error (aboutFile what path ["没有这个文件"])

/-- The settings of a file; the defaults if it is not there or cannot be read. -/
def HostConfig.load (tree : FileTree) (path : String) : HostConfig :=
  ((tree.read? path).bind HostConfig.parse?).getD {}

/-! ## Running -/

/-- The text of a file with a program. -/
def programText (tree : FileTree) (path : String) : Except ErrorChain String :=
  tree.readOr "程序读取失败: " path

/-- The program of a file. -/
def loadProgram (tree : FileTree) (path : String) : Except ErrorChain Program := do
  let text ← programText tree path
  match Program.parse text with
  | .ok program => .ok program
  | .error e => .error (aboutFile "程序无效: " path e.chain)

/-- The timeline to play: that of a file, or a click on the flag. -/
def loadTimeline (tree : FileTree) : Option String → Except ErrorChain (List TimelineEntry)
  | none => .ok [.flagAtStart]
  | some path => do
    let text ← tree.readOr "时间线读取失败: " path
    match parseTimeline? text with
    | some entries => .ok entries
    | none => .error (aboutFile "时间线解析失败: " path ["不是时间线"])

/-- Play a timeline on a program: the player at the end, or none if the end never comes. Loading the
    program may perform an action, whose events are the first. -/
def Player.playProgram (config : StageConfig) (program : Program) (entries : List TimelineEntry)
    (cutoff : Option Instant) : Except StageError (Option Player) := do
  let stage ← Stage.withConfig .empty config
  let (stage, loaded) := stage.load program
  return ((Player.new stage).record loaded).play? entries cutoff

namespace RunOptions

/-- The settings of the stage: options come before the settings file, and a random seed takes the
    place of one that is not chosen. -/
def stageConfig (o : RunOptions) (config : HostConfig) (entropy : Nat) : StageConfig :=
  let stage := config.stage
  let stage := { stage with seed := some ((o.seed.or stage.seed).getD entropy) }
  if o.legacyTimers then stage.withStalePolicy .fire else stage

/-- Play the timeline on the program. -/
def replay (o : RunOptions) (config : HostConfig) (tree : FileTree) (entropy : Nat) :
    Except ErrorChain (Option Replay) := do
  let program ← loadProgram tree o.program
  let entries ← loadTimeline tree o.timeline
  match Player.playProgram (o.stageConfig config entropy) program entries o.cutoff with
  | .error e => .error e.chain
  | .ok player => .ok (player.map (·.finish o.events))

end RunOptions

/-! ## Checking -/

/-- How a check ends, by the numbers of errors and warnings. -/
def checkSummary (errors warnings : Nat) : String :=
  if 0 < errors then s!"❌ {errors} 个错误, {warnings} 个警告\n"
  else if 0 < warnings then s!"⚠️  0 个错误, {warnings} 个警告\n"
  else "✅ 检查通过，无错误\n"

/-- A text with the end of a line. -/
def line (text : String) : String := text ++ "\n"

/-- Write the remarks on the program of a file. Errors among them make the check fail. -/
def checkProgram (tree : FileTree) (path : String) : Except ErrorChain Output := do
  let text ← programText tree path
  match Draft.parse? text with
  | none => .error (aboutFile "程序无效: " path ProgramError.unreadable.chain)
  | some draft =>
    let remarks := draft.remarks
    let errors := countRemarks .error remarks
    let warnings := countRemarks .warn remarks
    .ok ⟨if 0 < errors then 1 else 0, String.join (remarks.map fun r => line (r.text path)),
      checkSummary errors warnings⟩

/-! ## Both commands -/

/-- Carry out a command; none if it never ends. The random seed is used where none is chosen. -/
def HostCommand.execute (tree : FileTree) (config : String) (entropy : Nat) :
    HostCommand → Option Output
  | .run options =>
    match options.replay (.load tree config) tree entropy with
    | .error chain => some (.failure chain)
    | .ok none => none
    | .ok (some replay) => some ⟨0, line replay.toJson.pretty, ""⟩
  | .check program =>
    match checkProgram tree program with
    | .error chain => some (.failure chain)
    | .ok output => some output

end SpriteStage
