import SpriteStage.CommandLine.Host
import SpriteStage.CommandLine.ProgramCheck
import SpriteStage.Number.Numeral
set_option autoImplicit false

/-! # Arguments

The words behind the name of the program. Options may stand anywhere, those that take a value have
it as the next word. -/

namespace SpriteStage

/-- What the arguments say. -/
structure Arguments where
  /-- The command and its file. -/
  words : List String := []
  config : String := "stage.json"
  timeline : Option String := none
  cutoff : Option Instant := none
  seed : Option Nat := none
  legacyTimers : Bool := false
  events : Bool := false

/-- A natural number below the end of the clock, in digits. -/
def naturalArgument? (word : String) : Option Nat :=
  let digits := word.toList
  if digits.isEmpty || digits.any (!isDigit ·) then none
  else
    let value := digitsValue digits
    if value ≤ lastInstant then some value else none

namespace Arguments

/-- Take the words one after the other; none if one cannot be understood. -/
def take? (a : Arguments) : List String → Option Arguments
  | [] => some a
  | "--config" :: value :: rest | "-c" :: value :: rest => take? { a with config := value } rest
  | "--log-level" :: value :: rest => do
    let _ ← LogLevel.ofName? value
    take? a rest
  | "--timeline" :: value :: rest | "-t" :: value :: rest =>
    take? { a with timeline := some value } rest
  | "--until-ms" :: value :: rest | "-u" :: value :: rest => do
    let cutoff ← naturalArgument? value
    take? { a with cutoff := some cutoff } rest
  | "--seed" :: value :: rest => do
    let seed ← naturalArgument? value
    take? { a with seed := some seed } rest
  | "--legacy-timers" :: rest => take? { a with legacyTimers := true } rest
  | "--events" :: rest | "-e" :: rest => take? { a with events := true } rest
  | word :: rest =>
    if word.startsWith "-" then none else take? { a with words := a.words ++ [word] } rest

/-- The command that the arguments ask for. -/
def command? (a : Arguments) : Option HostCommand :=
  match a.words with
  | ["run", program] =>
    some (.run ⟨program, a.timeline, a.cutoff, a.seed, a.legacyTimers, a.events⟩)
  | ["check", program] => some (.check program)
  | _ => none

end Arguments

/-- What is written if the arguments cannot be understood. -/
def usage : String :=
  "usage: stage [--config FILE] [--log-level LEVEL] COMMAND

  run FILE [--timeline FILE] [--until-ms N] [--seed N] [--legacy-timers] [--events]
  check FILE
"

/-- Carry out `run` or `check` as the arguments say; none if it never ends. -/
def executeHost (tree : FileTree) (entropy : Nat) (words : List String) : Option Output :=
  match (({} : Arguments).take? words).bind fun a => a.command?.map (a.config, ·) with
  | some (config, command) => command.execute tree config entropy
  | none => some ⟨2, "", usage⟩

end SpriteStage
