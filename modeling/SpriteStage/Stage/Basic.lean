import SpriteStage.Action.Perform
import SpriteStage.Stage.Agenda
import SpriteStage.Stage.Config
import SpriteStage.Stage.Event
import SpriteStage.Stage.History
import SpriteStage.Stage.Input
import SpriteStage.Stage.Pointer
import SpriteStage.Stage.Runs
import SpriteStage.Stage.Snapshot
set_option autoImplicit false

/-! # The stage

`Stage` holds all that can change. Its parts know nothing of each other; what ties them together is
here: a click remembers the sprite, starts runs and makes their first steps; a step performs an
action and schedules the step after it; an action schedules the clearing of what it fills. Each
operation returns the stage after it and the events in between.

Inputs can be refused. The answer to an input is an `Attempt`, which changes the stage as it goes
along: if it stops with an error, the stage is what it has become by then.

Nothing here lets time pass: see `SpriteStage.Stage.Passage`. -/

namespace SpriteStage

/-- The stage. -/
structure Stage where
  config : StageConfig
  program : Program
  sprite : Sprite
  generator : Generator
  runs : RunTable
  history : UndoHistory
  agenda : Agenda
  pointer : PointerSampler
  demo : Demo
  /-- The origin of the stage on the screen. -/
  origin : Point
  now : Instant

/-- Why the stage refuses something. -/
inductive StageError where
  /-- The cats cannot walk while the window of the demo is closed. -/
  | demoNotOpen
  | invalidConfig (fault : ConfigFault)
  | invalidAction (cause : ActionError)
  | invalidProgram (cause : ProgramError)

namespace StageError

/-- The wording of an error, that of its cause included. -/
def message : StageError → String
  | .demoNotOpen => "当前状态不允许此操作：期望 演示对话框已打开，实际 演示对话框未打开"
  | .invalidConfig fault => "无效的配置: " ++ fault.message
  | .invalidAction cause => "无效的动作: " ++ cause.message
  | .invalidProgram cause => "无效的程序: " ++ cause.message

/-- The error and the causes behind it, outermost first. -/
def chain (e : StageError) : List String :=
  match e with
  | .demoNotOpen | .invalidConfig _ => [e.message]
  | .invalidAction cause => [e.message, cause.message]
  | .invalidProgram cause => e.message :: cause.chain

end StageError

/-! ## What can be refused -/

namespace Stage

variable {α : Type}

/-- The stage after something that was not refused, and the result. -/
def accepted (result : Stage × α) : Stage × Except StageError α := (result.1, .ok result.2)

/-- What is not refused but may never end has a result if it ends. -/
theorem map_accepted_eq_some {result? : Option (Stage × α)} {s : Stage}
    {answer : Except StageError α} :
    result?.map accepted = some (s, answer) ↔ ∃ a, result? = some (s, a) ∧ answer = .ok a := by
  rw [Option.map_eq_some_iff]
  constructor
  · rintro ⟨⟨s, a⟩, hresult, heq⟩
    cases heq
    exact ⟨a, hresult, rfl⟩
  · rintro ⟨a, hresult, rfl⟩
    exact ⟨(s, a), hresult, rfl⟩

end Stage

/-- Something to be tried on a stage. It changes the stage as it goes along, and an error takes
    nothing back of what was changed before. -/
abbrev Attempt (α : Type) : Type := ExceptT StageError (StateM Stage) α

namespace Attempt

variable {α β : Type}

/-- Do something that is never refused. -/
def always (operation : Stage → Stage × α) : Attempt α := modifyGet fun s => (operation s).swap

/-- Try it: the stage afterwards, and the result or why it was refused. -/
def on (attempt : Attempt α) (s : Stage) : Stage × Except StageError α :=
  (Id.run (attempt.run.run s)).swap

@[simp]
theorem on_pure (a : α) (s : Stage) : (pure a : Attempt α).on s = (s, .ok a) := rfl

@[simp]
theorem on_throw (e : StageError) (s : Stage) : (throw e : Attempt α).on s = (s, .error e) := rfl

@[simp]
theorem on_get (s : Stage) : (get : Attempt Stage).on s = (s, .ok s) := rfl

@[simp]
theorem on_modify (f : Stage → Stage) (s : Stage) :
    (modify f : Attempt PUnit).on s = (f s, .ok ()) := rfl

/-- What comes next starts from the stage that is left. -/
@[simp]
theorem on_bind (attempt : Attempt α) (next : α → Attempt β) (s : Stage) :
    (attempt >>= next).on s =
      match attempt.on s with
      | (s, .ok a) => (next a).on s
      | (s, .error e) => (s, .error e) := by
  unfold on
  rw [ExceptT.run_bind, StateT.run_bind, Id.run_bind]
  cases Id.run (attempt.run.run s) with
  | mk result after => cases result <;> rfl

example (f : Stage → Stage) (e : StageError) (s : Stage) :
    (do modify f; throw e : Attempt α).on s = (f s, .error e) := rfl

@[simp]
theorem on_map (f : α → β) (attempt : Attempt α) (s : Stage) :
    (f <$> attempt).on s = ((attempt.on s).1, (attempt.on s).2.map f) := by
  rw [← bind_pure_comp, on_bind]
  cases attempt.on s with
  | mk after result => cases result <;> rfl

end Attempt

namespace Stage

/-! ## Making a stage -/

/-- A stage with settings that are not looked at. Without a seed the random numbers are those of
    seed 0. -/
def build (program : Program) (config : StageConfig) : Stage where
  config := config
  program := program
  sprite := .initial
  generator := .seeded (config.seed.getD 0).toUInt64
  runs := .empty
  history := UndoHistory.empty.withMaxDepth config.historyDepth
  agenda := .empty
  pointer := .new config.pointerThrottleMs
  demo := .new config.demo
  origin := config.geometry.origin
  now := 0

/-- A stage with the default settings. -/
def new (program : Program) : Stage := build program {}

/-- A stage with settings of one's own, unless they have a fault. -/
def withConfig (program : Program) (config : StageConfig) : Except StageError Stage :=
  match config.fault? with
  | some fault => .error (.invalidConfig fault)
  | none => .ok (build program config)

/-! ## Looking at a stage -/

/-- The middle of the sprite on the screen. -/
def centre (s : Stage) : Point :=
  let position := s.sprite.transform.position
  let half := s.config.geometry.halfExtent
  ⟨s.origin.x + position.x + half.x, s.origin.y + position.y + half.y⟩

/-- Whether something runs. -/
def isPlaying (s : Stage) : Bool := s.runs.isPlaying

/-- Whether neither a step nor a clearing is to come. The demo does not count. -/
def isSettled (s : Stage) : Bool := !s.agenda.any (!·.isDemoTick)

/-- What a screen shows. -/
def snapshot (s : Stage) : StageSnapshot where
  now := s.now
  transform := s.sprite.transform
  speech := s.sprite.speech.value
  glide := s.sprite.glide.value
  playing := s.isPlaying
  historyDepth := s.history.depth
  demo := .ofDemo s.demo

/-! ## Actions and runs -/

/-- Schedule a timer some milliseconds from now. -/
def scheduleAfter (s : Stage) (ms : Nat) (timer : Timer) : Stage :=
  { s with agenda := s.agenda.schedule (after s.now ms) timer }

/-- Schedule the clearing that an action asks for, if it asks. -/
def scheduleClear (s : Stage) : Option ClearRequest → Stage
  | none => s
  | some request => s.scheduleAfter request.afterMs (.clear request.cell request.version)

/-- Perform an action now. -/
def perform (s : Stage) (action : Action) : Stage :=
  let (position, pointer) := s.pointer.positionAt s.now
  let done := action.perform ⟨position, s.centre⟩ s.config.randomExtent s.generator s.sprite
  { s with pointer, sprite := done.sprite, generator := done.generator }.scheduleClear done.clear

/-- Perform an action outside any run. -/
def performOnce (s : Stage) (action : Action) : Stage × List StageEvent :=
  (s.perform action, [.actionApplied action.name])

/-- Make a step of a run and schedule the next one; with the last one the run is finished. Nothing
    happens if the run is no longer under way. -/
def runStep (s : Stage) (run : RunId) (index : Nat) : Stage × List StageEvent :=
  match s.runs.enter? run index with
  | none => (s, [])
  | some (action, runs) =>
    let s := { s with runs }.perform action
    let applied := StageEvent.stepApplied run index action.name
    let (next, runs) := s.runs.complete run index
    let s := { s with runs }
    match next with
    | some next => (s.scheduleAfter s.config.stepIntervalMs (.step run next), [applied])
    | none => (s, [applied, .runFinished run])

/-- Put runs on the table, in order: the stage, the numbers of the runs, and the events. -/
def startRuns (s : Stage) (origin : RunOrigin) :
    List (List Action) → Stage × List RunId × List StageEvent
  | [] => (s, [], [])
  | actions :: rest =>
    let (run, runs) := s.runs.start origin actions
    let (s, ids, events) := startRuns { s with runs } origin rest
    (s, run :: ids, .runStarted run origin actions.length :: events)

/-- Make the first steps of runs, in order. -/
def firstSteps (s : Stage) : List RunId → Stage × List StageEvent
  | [] => (s, [])
  | run :: rest =>
    let (s, events) := s.runStep run 0
    let (s, later) := firstSteps s rest
    (s, events ++ later)

/-- Answer a click: if it starts any runs, remember the sprite once, start them all, and then make
    the first step of each. -/
def dispatch (s : Stage) (origin : RunOrigin) : Stage × List StageEvent :=
  match s.program.plan origin s.isPlaying with
  | .ignore reason => (s, [.triggerIgnored origin.trigger? reason])
  | .start runs =>
    let s := { s with history := s.history.push (.capture s.sprite) }
    let (s, ids, started) := s.startRuns origin runs
    let (s, steps) := s.firstSteps ids
    (s, .historyPushed s.history.depth :: started ++ steps)

/-- Cancel all runs and the steps that are scheduled. -/
def cancelRuns (s : Stage) : Stage × List StageEvent :=
  let (cancelled, runs) := s.runs.cancelAll
  ({ s with runs, agenda := s.agenda.cancel Timer.isStep },
    cancelled.map fun (run, atStep) => .runCancelled run atStep)

/-! ## Undoing and resetting -/

/-- Put back what was remembered last. Unless stale timers fire, all runs are cancelled first.
    Without a memory nothing happens. -/
def undo (s : Stage) : Stage × List StageEvent :=
  if s.history.memories.isEmpty then (s, [])
  else
    let (s, cancelled) := if s.config.stalePolicy = .drop then s.cancelRuns else (s, [])
    match s.history.undo? s.sprite with
    | none => (s, cancelled)
    | some (history, sprite) =>
      ({ s with history, sprite }, cancelled ++ [.undone history.depth])

/-- Back to the start: no runs, no memories, the sprite as it was in the beginning. Unless stale
    timers fire, the clearings that are scheduled are cancelled, too. -/
def reset (s : Stage) : Stage × List StageEvent :=
  let (s, cancelled) := s.cancelRuns
  let agenda :=
    if s.config.stalePolicy = .drop then s.agenda.cancel Timer.isClear else s.agenda
  ({ s with agenda, sprite := s.sprite.reset, history := s.history.clear }, cancelled ++ [.reset])

/-! ## The demo -/

/-- Open the window of the demo. -/
def openDemo (s : Stage) : Stage × List StageEvent :=
  ({ s with demo := s.demo.openWindow }, [.demoOpened])

/-- Close the window of the demo; this stops the cats. -/
def closeDemo (s : Stage) : Stage × List StageEvent :=
  let agenda := if s.demo.isAnimating then s.agenda.cancel Timer.isDemoTick else s.agenda
  ({ s with demo := s.demo.closeWindow, agenda }, [.demoClosed])

/-- Let the cats walk. The window has to be open; if they walk already nothing happens. -/
def startDemo : Attempt (List StageEvent) := do
  let s ← get
  if !s.demo.isOpen then throw .demoNotOpen
  else
    match s.demo.start? with
    | none => return []
    | some demo =>
      modify ({ · with demo })
      modify (·.scheduleAfter demo.config.tickMs (.demoTick demo.session))
      return [.demoStarted demo.session]

/-! ## Inputs -/

/-- Replace the program; its action for a single click is performed at once. Runs go on. -/
def load (s : Stage) (program : Program) : Stage × List StageEvent :=
  let s := { s with program }
  match program.clicked with
  | none => (s, [])
  | some action => s.performOnce action

/-- Choose the origin so that the middle of the sprite is where it was measured. -/
def calibrate (s : Stage) (measured : Point) : Stage :=
  let position := s.sprite.transform.position
  let half := s.config.geometry.halfExtent
  { s with
    origin := ⟨measured.x - position.x - half.x, measured.y - position.y - half.y⟩ }

/-- The answer to an input. Triggers come first; of the other inputs each has its own answer. -/
def answer (input : StageInput) : Attempt (List StageEvent) := do
  if let some trigger := input.trigger? then
    return ← Attempt.always (·.dispatch (.trigger trigger))
  match input with
  | .pointerMoved position =>
    modify fun s => { s with pointer := (s.pointer.record position s.now).2 }
    return []
  -- clicks and the space bar are triggers, and other keys mean nothing
  | .keyDown _ | .spriteClicked | .flagClicked => return []
  | .runAll => Attempt.always (·.dispatch .runAll)
  | .undo => Attempt.always undo
  | .reset => Attempt.always reset
  | .clicked descriptor =>
    let action ← MonadExcept.ofExcept ((Action.ofDescriptor descriptor).mapError .invalidAction)
    Attempt.always (·.performOnce action)
  | .spriteCentre position =>
    modify (·.calibrate position)
    return []
  | .viewportResized width =>
    modify fun s => { s with demo := s.demo.resize width }
    return []
  | .demoOpen => Attempt.always openDemo
  | .demoClose => Attempt.always closeDemo
  | .demoStart => startDemo

/-- Answer an input: the stage afterwards, and the events or why the input was refused. -/
def handle (s : Stage) (input : StageInput) : Stage × Except StageError (List StageEvent) :=
  (answer input).on s

end Stage

end SpriteStage
