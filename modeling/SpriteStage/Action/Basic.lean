import SpriteStage.Json.Record
set_option autoImplicit false

/-! # Actions

An action is one step of a script with its parameters checked: numbers are numbers, durations are
milliseconds. Among the actions are the triggers, which do nothing themselves but say which click
starts the group they stand in, and the unknown ones, which do nothing at all. -/

namespace SpriteStage

/-- A click or key press that starts groups. -/
inductive Trigger where
  | flagClicked
  | spriteClicked
  | spaceClicked
deriving DecidableEq

/-- The two looks of a bubble. -/
inductive Bubble where
  | say
  | think
deriving DecidableEq

/-- One step of a script. -/
inductive Action where
  | trigger (event : Trigger)
  | move (dx : Float)
  | goTo (x y : Float)
  | random
  | turn (degrees : Float)
  | glide (x y : Float) (durationMs : Nat)
  | glideBy (dx dy : Float) (durationMs : Nat)
  | glideRandom (durationMs : Nat)
  | pointInDirection (direction : Float)
  | pointTowardsPointer
  | changeXBy (dx : Float)
  | setX (x : Float)
  | changeYBy (dy : Float)
  | setY (y : Float)
  /-- A bubble without a timeout stays until something else takes its place. -/
  | speak (message : String) (bubble : Bubble) (timeoutMs : Option Nat)
  | changeSize (delta : Float)
  | unknown (name : String)

/-! ## Triggers and bubbles by name -/

namespace Trigger

/-- The name of a trigger in scripts. -/
def name : Trigger → String
  | flagClicked => "flag_clicked"
  | spriteClicked => "sprite_clicked"
  | spaceClicked => "space_clicked"

/-- The trigger with this name. -/
def ofName? : String → Option Trigger
  | "flag_clicked" => some flagClicked
  | "sprite_clicked" => some spriteClicked
  | "space_clicked" => some spaceClicked
  | _ => none

/-- The JSON form of a trigger. -/
def toJson (t : Trigger) : Json := .string t.name

/-- Read a trigger. -/
def ofJson? (rule : ChoiceRule) : Json → Option Trigger := Json.choice? rule ofName?

end Trigger

namespace Bubble

/-- The name of a look. -/
def name : Bubble → String
  | say => "say"
  | think => "think"

/-- The look with this name. -/
def ofName? : String → Option Bubble
  | "say" => some say
  | "think" => some think
  | _ => none

/-- The JSON form of a look. -/
def toJson (b : Bubble) : Json := .string b.name

/-- Read a look. -/
def ofJson? (rule : ChoiceRule) : Json → Option Bubble := Json.choice? rule ofName?

end Bubble

namespace Action

/-! ## What kind of action it is -/

/-- Whether the action is a trigger. -/
def isTrigger : Action → Bool
  | .trigger _ => true
  | _ => false

/-- Whether the action is unknown. -/
def isUnknown : Action → Bool
  | .unknown _ => true
  | _ => false

/-- The name by which events tell of an action. -/
def name : Action → String
  | .trigger event => event.name
  | .move _ => "move"
  | .goTo _ _ => "go_to"
  | .random => "random"
  | .turn _ => "turn"
  | .glide _ _ _ => "glide"
  | .glideBy _ _ _ => "custom_action"
  | .glideRandom _ => "glide_random"
  | .pointInDirection _ => "point_in_direction"
  | .pointTowardsPointer => "mouse_pointer"
  | .changeXBy _ => "change_x_by"
  | .setX _ => "set_x"
  | .changeYBy _ => "change_y_by"
  | .setY _ => "set_y"
  | .speak _ bubble _ => bubble.name
  | .changeSize _ => "change_size"
  | .unknown name => name

/-! ## JSON -/

/-- The JSON form of an action: its kind and its parameters. -/
def toJson : Action → Json
  | .trigger event => .tagged "kind" "trigger" [("event", event.toJson)]
  | .move dx => .tagged "kind" "move" [("dx", .ofFloat dx)]
  | .goTo x y => .tagged "kind" "go_to" [("x", .ofFloat x), ("y", .ofFloat y)]
  | .random => .tagged "kind" "random" []
  | .turn degrees => .tagged "kind" "turn" [("degrees", .ofFloat degrees)]
  | .glide x y durationMs =>
    .tagged "kind" "glide"
      [("x", .ofFloat x), ("y", .ofFloat y), ("duration_ms", .ofNat durationMs)]
  | .glideBy dx dy durationMs =>
    .tagged "kind" "glide_by"
      [("dx", .ofFloat dx), ("dy", .ofFloat dy), ("duration_ms", .ofNat durationMs)]
  | .glideRandom durationMs => .tagged "kind" "glide_random" [("duration_ms", .ofNat durationMs)]
  | .pointInDirection direction =>
    .tagged "kind" "point_in_direction" [("direction", .ofFloat direction)]
  | .pointTowardsPointer => .tagged "kind" "point_towards_pointer" []
  | .changeXBy dx => .tagged "kind" "change_x_by" [("dx", .ofFloat dx)]
  | .setX x => .tagged "kind" "set_x" [("x", .ofFloat x)]
  | .changeYBy dy => .tagged "kind" "change_y_by" [("dy", .ofFloat dy)]
  | .setY y => .tagged "kind" "set_y" [("y", .ofFloat y)]
  | .speak message bubble timeoutMs =>
    .tagged "kind" "speak"
      [("message", .string message), ("bubble", bubble.toJson),
        ("timeout_ms", .ofOption .ofNat timeoutMs)]
  | .changeSize delta => .tagged "kind" "change_size" [("delta", .ofFloat delta)]
  | .unknown name => .tagged "kind" "unknown" [("name", .string name)]

/-- Read an action that has a single number as its parameter. -/
def ofNumber? (field : String) (make : Float → Action) (body : Json) : Option Action := do
  let members ← body.members? (Json.plainFields [field])
  let value ← Json.required? field Json.asFloat? members
  some (make value)

/-- Read an action that has two numbers and a duration as its parameters. -/
def ofGlide? (first second : String) (make : Float → Float → Nat → Action) (body : Json) :
    Option Action := do
  let members ← body.members? (Json.plainFields [first, second, "duration_ms"])
  let x ← Json.required? first Json.asFloat? members
  let y ← Json.required? second Json.asFloat? members
  let durationMs ← Json.required? "duration_ms" Json.asNat? members
  some (make x y durationMs)

/-- Read an action without parameters. -/
def ofNothing? (action : Action) (body : Json) : Option Action :=
  if body.hasNoFields then some action else none

/-- Read an action. -/
def ofJson? (json : Json) : Option Action := do
  let (kind, body) ← json.tagged? "kind"
  match kind with
  | "trigger" => do
    let members ← body.members? (Json.plainFields ["event"])
    let event ← Json.required? "event" (Trigger.ofJson? .lenient) members
    some (.trigger event)
  | "move" => ofNumber? "dx" .move body
  | "go_to" => do
    let members ← body.members? (Json.plainFields ["x", "y"])
    let x ← Json.required? "x" Json.asFloat? members
    let y ← Json.required? "y" Json.asFloat? members
    some (.goTo x y)
  | "random" => ofNothing? .random body
  | "turn" => ofNumber? "degrees" .turn body
  | "glide" => ofGlide? "x" "y" .glide body
  | "glide_by" => ofGlide? "dx" "dy" .glideBy body
  | "glide_random" => do
    let members ← body.members? (Json.plainFields ["duration_ms"])
    let durationMs ← Json.required? "duration_ms" Json.asNat? members
    some (.glideRandom durationMs)
  | "point_in_direction" => ofNumber? "direction" .pointInDirection body
  | "point_towards_pointer" => ofNothing? .pointTowardsPointer body
  | "change_x_by" => ofNumber? "dx" .changeXBy body
  | "set_x" => ofNumber? "x" .setX body
  | "change_y_by" => ofNumber? "dy" .changeYBy body
  | "set_y" => ofNumber? "y" .setY body
  | "speak" => do
    let members ← body.members? (Json.plainFields ["message", "bubble", "timeout_ms"])
    let message ← Json.required? "message" Json.asString? members
    let bubble ← Json.required? "bubble" (Bubble.ofJson? .lenient) members
    let timeoutMs ← Json.optional? "timeout_ms" Json.asNat? members
    some (.speak message bubble timeoutMs)
  | "change_size" => ofNumber? "delta" .changeSize body
  | "unknown" => do
    let members ← body.members? (Json.plainFields ["name"])
    let name ← Json.required? "name" Json.asString? members
    some (.unknown name)
  | _ => none

end Action

end SpriteStage
