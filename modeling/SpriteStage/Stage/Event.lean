import SpriteStage.Stage.Demo
import SpriteStage.Stage.Runs
set_option autoImplicit false

/-! # Events

What has happened on the stage, in the order in which it happened. Every change of the sprite, the
runs and the history shows in some event. -/

namespace SpriteStage

/-- Something that has happened. -/
inductive StageEvent where
  | runStarted (run : RunId) (origin : RunOrigin) (length : Nat)
  | stepApplied (run : RunId) (index : Nat) (action : String)
  | runFinished (run : RunId)
  | runCancelled (run : RunId) (atStep : Option Nat)
  /-- An action was performed outside any run. -/
  | actionApplied (action : String)
  | triggerIgnored (trigger : Option Trigger) (reason : IgnoreReason)
  | historyPushed (depth : Nat)
  | undone (depth : Nat)
  | reset
  /-- A timer has cleared a cell. -/
  | cleared (cell : Cell)
  /-- A timer was to clear a cell that has been written since. -/
  | staleTimerDropped (timer : String)
  | demoOpened
  | demoClosed
  | demoStarted (session : Nat)
  | demoFlipped (flip : Flip)

namespace StageEvent

/-- Whether a run is over with this event. -/
def endsRun : StageEvent → Bool
  | .runFinished _ | .runCancelled _ _ => true
  | _ => false

/-! ## JSON -/

/-- The name of an event. -/
def name : StageEvent → String
  | .runStarted _ _ _ => "run_started"
  | .stepApplied _ _ _ => "step_applied"
  | .runFinished _ => "run_finished"
  | .runCancelled _ _ => "run_cancelled"
  | .actionApplied _ => "action_applied"
  | .triggerIgnored _ _ => "trigger_ignored"
  | .historyPushed _ => "history_pushed"
  | .undone _ => "undone"
  | .reset => "reset"
  | .cleared .speech => "speech_cleared"
  | .cleared .glide => "animation_cleared"
  | .staleTimerDropped _ => "stale_timer_dropped"
  | .demoOpened => "demo_opened"
  | .demoClosed => "demo_closed"
  | .demoStarted _ => "demo_started"
  | .demoFlipped _ => "demo_flipped"

/-- The fields of an event with their values. -/
def parameters : StageEvent → List (String × Json)
  | .runStarted run origin length =>
    [("run", .ofNat run), ("origin", origin.toJson), ("len", .ofNat length)]
  | .stepApplied run index action =>
    [("run", .ofNat run), ("index", .ofNat index), ("action", .string action)]
  | .runFinished run => [("run", .ofNat run)]
  | .runCancelled run atStep => [("run", .ofNat run), ("at_step", .ofOption .ofNat atStep)]
  | .actionApplied action => [("action", .string action)]
  | .triggerIgnored trigger reason =>
    [("trigger", .ofOption Trigger.toJson trigger), ("reason", reason.toJson)]
  | .historyPushed depth | .undone depth => [("depth", .ofNat depth)]
  | .staleTimerDropped timer => [("timer", .string timer)]
  | .demoStarted session => [("session", .ofNat session)]
  | .demoFlipped flip => flip.toMembers
  | .reset | .cleared _ | .demoOpened | .demoClosed => []

/-- The name and the fields of an event. -/
def toMembers (event : StageEvent) : List (String × Json) :=
  ("event", .string event.name) :: event.parameters

/-- The JSON form of an event. -/
def toJson (event : StageEvent) : Json := .object event.toMembers

/-- Read an event without parameters. -/
def ofNothing? (event : StageEvent) (body : Json) : Option StageEvent :=
  if body.hasNoFields then some event else none

/-- Read an event whose only parameter is a number. -/
def ofNat? (field : String) (make : Nat → StageEvent) (body : Json) : Option StageEvent := do
  let members ← body.members? (Json.plainFields [field])
  let value ← Json.required? field Json.asNat? members
  some (make value)

/-- Read an event whose only parameter is a string. -/
def ofString? (field : String) (make : String → StageEvent) (body : Json) : Option StageEvent := do
  let members ← body.members? (Json.plainFields [field])
  let value ← Json.required? field Json.asString? members
  some (make value)

/-- Read an event. -/
def ofJson? (json : Json) : Option StageEvent := do
  let (name, body) ← json.tagged? "event"
  match name with
  | "run_started" => do
    let members ← body.members? (Json.plainFields ["run", "origin", "len"])
    let run ← Json.required? "run" Json.asNat? members
    let origin ← Json.required? "origin" (RunOrigin.ofJson? .lenient) members
    let length ← Json.required? "len" Json.asNat? members
    some (.runStarted run origin length)
  | "step_applied" => do
    let members ← body.members? (Json.plainFields ["run", "index", "action"])
    let run ← Json.required? "run" Json.asNat? members
    let index ← Json.required? "index" Json.asNat? members
    let action ← Json.required? "action" Json.asString? members
    some (.stepApplied run index action)
  | "run_finished" => ofNat? "run" .runFinished body
  | "run_cancelled" => do
    let members ← body.members? (Json.plainFields ["run", "at_step"])
    let run ← Json.required? "run" Json.asNat? members
    let atStep ← Json.optional? "at_step" Json.asNat? members
    some (.runCancelled run atStep)
  | "action_applied" => ofString? "action" .actionApplied body
  | "trigger_ignored" => do
    let members ← body.members? (Json.plainFields ["trigger", "reason"])
    let trigger ← Json.optional? "trigger" (Trigger.ofJson? .lenient) members
    let reason ← Json.required? "reason" (IgnoreReason.ofJson? .lenient) members
    some (.triggerIgnored trigger reason)
  | "history_pushed" => ofNat? "depth" .historyPushed body
  | "undone" => ofNat? "depth" .undone body
  | "reset" => ofNothing? .reset body
  | "speech_cleared" => ofNothing? (.cleared .speech) body
  | "animation_cleared" => ofNothing? (.cleared .glide) body
  | "stale_timer_dropped" => ofString? "timer" .staleTimerDropped body
  | "demo_opened" => ofNothing? .demoOpened body
  | "demo_closed" => ofNothing? .demoClosed body
  | "demo_started" => ofNat? "session" .demoStarted body
  | "demo_flipped" => (Flip.ofJson? body).map .demoFlipped
  | _ => none

end StageEvent

end SpriteStage
