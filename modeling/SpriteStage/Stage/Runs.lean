import SpriteStage.Script.Plan
import SpriteStage.Stage.Agenda
set_option autoImplicit false

/-! # Runs

A run is a row of actions that is performed step by step. The table of runs knows which step each
run is at and which comes next; it neither performs actions nor knows the time. A run leaves the
table when its last step is done or when it is cancelled. -/

namespace SpriteStage

/-- A run that is under way. -/
structure Run where
  id : RunId
  origin : RunOrigin
  actions : List Action
  /-- The step it is at; none before the first one. -/
  step : Option Nat

/-- The runs that are under way, in the order in which they were started, and the number of the
    last run that was started. -/
structure RunTable where
  runs : List Run
  lastId : RunId

namespace RunTable

/-- No run was ever started. -/
def empty : RunTable := ⟨[], 0⟩

/-- The run with this number. -/
def find? (t : RunTable) (id : RunId) : Option Run := t.runs.find? (·.id == id)

/-- Whether anything runs. -/
def isPlaying (t : RunTable) : Bool := !t.runs.isEmpty

/-- Start a run, before its first step. -/
def start (t : RunTable) (origin : RunOrigin) (actions : List Action) : RunId × RunTable :=
  let id := t.lastId + 1
  (id, ⟨t.runs ++ [⟨id, origin, actions, none⟩], id⟩)

/-- Enter a step of a run: its action, and the table with the run at that step. There is none if
    the run is not under way or has no such step. -/
def enter? (t : RunTable) (id : RunId) (index : Nat) : Option (Action × RunTable) :=
  match t.find? id with
  | none => none
  | some run =>
    match run.actions[index]? with
    | none => none
    | some action =>
      some (action, { t with
        runs := t.runs.map fun r => if r.id = id then { r with step := some index } else r })

/-- Complete a step of a run: the step that comes next, if there is one. After its last step a run
    is taken off the table. -/
def complete (t : RunTable) (id : RunId) (index : Nat) : Option Nat × RunTable :=
  match t.find? id with
  | none => (none, t)
  | some run =>
    if index + 1 < run.actions.length then (some (index + 1), t)
    else (none, { t with runs := t.runs.filter (·.id ≠ id) })

/-- Cancel all runs: each with the step it was at. -/
def cancelAll (t : RunTable) : List (RunId × Option Nat) × RunTable :=
  (t.runs.map fun r => (r.id, r.step), { t with runs := [] })

end RunTable

end SpriteStage
