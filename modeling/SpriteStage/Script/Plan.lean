import SpriteStage.Script.Program
set_option autoImplicit false

/-! # Which runs a click starts

A trigger starts a run for each group it stands in; the trigger at the head of a group is left out,
so that the first real action comes at once. Running all makes a single run of everything.
`Program.plan` only decides: it changes nothing. -/

namespace SpriteStage

/-- Why runs are started. -/
inductive RunOrigin where
  | trigger (event : Trigger)
  | runAll
deriving DecidableEq

/-- Why nothing is started. -/
inductive IgnoreReason where
  /-- No group has anything to do. -/
  | noMatchingGroup
  /-- The flag does nothing while something runs. -/
  | busy
deriving DecidableEq

/-- The answer to a click: the actions of each run to start, or the reason why none is. -/
inductive Plan where
  | start (runs : List (List Action))
  | ignore (reason : IgnoreReason)

namespace RunOrigin

/-- The trigger, if it was one. -/
def trigger? : RunOrigin → Option Trigger
  | .trigger event => some event
  | .runAll => none

/-- The JSON form of an origin. -/
def toJson : RunOrigin → Json
  | .trigger event => .object [("trigger", event.toJson)]
  | .runAll => .string "run_all"

/-- The origin without parameters that has this name. -/
def ofName? (name : String) : Option RunOrigin := if name = "run_all" then some .runAll else none

/-- Read an origin. -/
def ofJson? (rule : ChoiceRule) : Json → Option RunOrigin
  | .object [("trigger", event)] => (Trigger.ofJson? rule event).map .trigger
  | json => json.choice? rule ofName?

end RunOrigin

namespace IgnoreReason

/-- The name of a reason. -/
def name : IgnoreReason → String
  | noMatchingGroup => "no_matching_group"
  | busy => "busy"

/-- The reason with this name. -/
def ofName? : String → Option IgnoreReason
  | "no_matching_group" => some noMatchingGroup
  | "busy" => some busy
  | _ => none

/-- The JSON form of a reason. -/
def toJson (r : IgnoreReason) : Json := .string r.name

/-- Read a reason. -/
def ofJson? (rule : ChoiceRule) : Json → Option IgnoreReason := Json.choice? rule ofName?

end IgnoreReason

/-- A group without the trigger at its head. -/
def Group.withoutLeadingTrigger : Group → List Action
  | [] => []
  | first :: rest => if first.isTrigger then rest else first :: rest

namespace Plan

/-- Start these runs; without any there was no group to match. -/
def ofRuns (runs : List (List Action)) : Plan :=
  if runs.isEmpty then .ignore .noMatchingGroup else .start runs

end Plan

/-- Decide what a click starts. -/
def Program.plan (p : Program) (origin : RunOrigin) (playing : Bool) : Plan :=
  match origin with
  | .runAll => .ofRuns ([p.flatten].filter (!·.isEmpty))
  | .trigger event =>
    if playing && event == .flagClicked then .ignore .busy
    else .ofRuns (((p.groupsFor event).map (·.withoutLeadingTrigger)).filter (!·.isEmpty))

end SpriteStage
