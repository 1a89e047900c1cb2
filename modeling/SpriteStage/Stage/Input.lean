import SpriteStage.Script.Plan
import SpriteStage.Sprite.Geometry
set_option autoImplicit false

/-! # Inputs

What the user does, as the stage is told of it. The passing of time is no input. -/

namespace SpriteStage

/-- A key; only the space bar matters. -/
inductive Key where
  | space
  | other (code : String)
deriving DecidableEq

/-- Something the user does. -/
inductive StageInput where
  | pointerMoved (position : Point)
  | keyDown (key : Key)
  | spriteClicked
  | flagClicked
  | runAll
  | undo
  | reset
  /-- Perform one action outside any run. -/
  | clicked (action : Descriptor)
  /-- The middle of the sprite was measured on the screen. -/
  | spriteCentre (position : Point)
  | viewportResized (width : Float)
  | demoOpen
  | demoClose
  | demoStart

namespace Key

/-- The key with this code. -/
def ofCode (code : String) : Key := if code = "Space" then .space else .other code

/-- The JSON form of a key. -/
def toJson : Key → Json
  | .space => .string "space"
  | .other code => .object [("other", .string code)]

/-- The key without parameters that has this name. -/
def ofName? (name : String) : Option Key := if name = "space" then some .space else none

/-- Read a key. -/
def ofJson? (rule : ChoiceRule) : Json → Option Key
  | .object [("other", code)] => code.asString?.map .other
  | json => json.choice? rule ofName?

end Key

namespace StageInput

/-- Why runs are to be started, if the input asks for it. -/
def origin? : StageInput → Option RunOrigin
  | .flagClicked => some (.trigger .flagClicked)
  | .spriteClicked => some (.trigger .spriteClicked)
  | .keyDown .space => some (.trigger .spaceClicked)
  | .runAll => some .runAll
  | _ => none

/-- The trigger that an input sets off. -/
def trigger? (input : StageInput) : Option Trigger := input.origin?.bind RunOrigin.trigger?

/-! ## JSON -/

/-- The name of an input. -/
def name : StageInput → String
  | .pointerMoved _ => "pointer_moved"
  | .keyDown _ => "key_down"
  | .spriteClicked => "sprite_clicked"
  | .flagClicked => "flag_clicked"
  | .runAll => "run_all"
  | .undo => "undo"
  | .reset => "reset"
  | .clicked _ => "clicked"
  | .spriteCentre _ => "sprite_centre"
  | .viewportResized _ => "viewport_resized"
  | .demoOpen => "demo_open"
  | .demoClose => "demo_close"
  | .demoStart => "demo_start"

/-- The fields of an input with their values. -/
def parameters : StageInput → List (String × Json)
  | .pointerMoved p | .spriteCentre p => [("x", .ofFloat p.x), ("y", .ofFloat p.y)]
  | .keyDown key => [("key", key.toJson)]
  | .clicked action => [("action", action.toJson)]
  | .viewportResized width => [("width", .ofFloat width)]
  | _ => []

/-- The name and the fields of an input. -/
def toMembers (input : StageInput) : List (String × Json) :=
  ("input", .string input.name) :: input.parameters

/-- The JSON form of an input. -/
def toJson (input : StageInput) : Json := .object input.toMembers

/-- Read an input whose parameters are a point. -/
def ofPoint? (make : Point → StageInput) (body : Json) : Option StageInput :=
  (Point.ofJson? body).map make

/-- Read an input without parameters. -/
def ofNothing? (input : StageInput) (body : Json) : Option StageInput :=
  if body.hasNoFields then some input else none

/-- Read the parameters of the input with this name. -/
def ofNamed? (name : String) (body : Json) : Option StageInput :=
  match name with
  | "pointer_moved" => ofPoint? .pointerMoved body
  | "key_down" => do
    let members ← body.members? (Json.plainFields ["key"])
    let key ← Json.required? "key" (Key.ofJson? .lenient) members
    some (.keyDown key)
  | "sprite_clicked" => ofNothing? .spriteClicked body
  | "flag_clicked" => ofNothing? .flagClicked body
  | "run_all" => ofNothing? .runAll body
  | "undo" => ofNothing? .undo body
  | "reset" => ofNothing? .reset body
  | "clicked" => do
    let members ← body.members? (Json.plainFields ["action"])
    let action ← Json.required? "action" Descriptor.ofJson? members
    some (.clicked action)
  | "sprite_centre" => ofPoint? .spriteCentre body
  | "viewport_resized" => do
    let members ← body.members? (Json.plainFields ["width"])
    let width ← Json.required? "width" Json.asFloat? members
    some (.viewportResized width)
  | "demo_open" => ofNothing? .demoOpen body
  | "demo_close" => ofNothing? .demoClose body
  | "demo_start" => ofNothing? .demoStart body
  | _ => none

/-- Read an input. -/
def ofJson? (json : Json) : Option StageInput := do
  let (name, body) ← json.tagged? "input"
  ofNamed? name body

/-- The names of all inputs in a fixed order. -/
def names : List String :=
  ["pointer_moved", "key_down", "sprite_clicked", "flag_clicked", "run_all", "undo", "reset",
    "clicked", "sprite_centre", "viewport_resized", "demo_open", "demo_close", "demo_start"]

/-- The name of an input that is given by its name or by its place in `names`, counted from 0. -/
def nameOrPlace? : Json → Option String
  | .string name => some name
  | json => json.asNat?.bind fun place => names[place]?

/-- Read an input that may also be called by its place in `names`. -/
def ofNumbered? (json : Json) : Option StageInput := do
  let (name, body) ← json.taggedBy? nameOrPlace? "input"
  ofNamed? name body

/-- Read the text of an input. -/
def parse? (text : String) : Option StageInput := (Json.parse? text).bind ofJson?

end StageInput

end SpriteStage
