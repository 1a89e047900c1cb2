import SpriteStage.Number.DecimalText
import SpriteStage.Number.Numeral
import SpriteStage.Json.Canonical
import SpriteStage.Json.Printer
import SpriteStage.Action.Basic
set_option autoImplicit false

/-! # Descriptors

A script arrives as descriptors: the name of an action and a bag of parameters, which is any JSON
value. `Action.ofDescriptor` checks the parameters that the action reads and makes the action of
them. A name it does not know makes an unknown action and is no error. -/

namespace SpriteStage

/-! ## Parameter bags -/

/-- A bag of parameters, in which the order of names carries no meaning. -/
structure ParameterBag where
  value : Json
  canonical : value.isCanonical = true

namespace ParameterBag

/-- The bag that holds nothing. -/
def empty : ParameterBag := ⟨.null, rfl⟩

/-- Read a bag. -/
def ofJson? (json : Json) : Option ParameterBag :=
  match h : json.canonical? with
  | some value => some ⟨value, Json.isCanonical_of_canonical? h⟩
  | none => none

/-- The value of a parameter; null counts as absent. -/
def get? (bag : ParameterBag) (name : String) : Option Json :=
  match bag.value.member? name with
  | some .null | none => none
  | some value => some value

end ParameterBag

/-! ## Descriptors -/

/-- The name of an action with its parameters. -/
structure Descriptor where
  name : String
  bag : ParameterBag

/-- What is wrong with a descriptor. -/
inductive ActionError where
  | missingParameter (action parameter : String)
  | notANumber (action parameter : String) (value : Json)
  | delayTooLong (action parameter : String) (seconds : Float)
  | notText (action parameter : String)

namespace ActionError

/-- The wording of an error. -/
def message : ActionError → String
  | .missingParameter action parameter => s!"动作 '{action}' 缺少参数 '{parameter}'"
  | .notANumber action parameter value =>
    s!"动作 '{action}' 的参数 '{parameter}' 不是数字: {value.compact}"
  | .delayTooLong action parameter seconds =>
    s!"动作 '{action}' 的参数 '{parameter}' 类型无效 - 时长超过上限 86400 秒: "
      ++ decimalText .plain seconds
  | .notText action parameter =>
    s!"动作 '{action}' 的参数 '{parameter}' 类型无效 - 需要字符串"

end ActionError

namespace Descriptor

/-- A descriptor without parameters. -/
def bare (name : String) : Descriptor := ⟨name, .empty⟩

/-- The JSON form of a descriptor. -/
def toJson (d : Descriptor) : Json :=
  .object [("type", .string d.name), ("initialValue", d.bag.value)]

/-- Read a descriptor; without parameters its bag holds nothing. -/
def ofJson? (json : Json) : Option Descriptor := do
  let members ← json.members? [⟨"type", false⟩, ⟨"initialValue", true⟩]
  let name ← Json.required? "type" Json.asString? members
  let bag ← Json.defaulted? "initialValue" ParameterBag.ofJson? .empty members
  some ⟨name, bag⟩

/-! ## Reading parameters -/

/-- A parameter that has to be there. -/
def require (d : Descriptor) (parameter : String) : Except ActionError Json :=
  match d.bag.get? parameter with
  | some value => .ok value
  | none => .error (.missingParameter d.name parameter)

/-- Take a number that was read from a value, if one was read and it is finite. -/
def finite (d : Descriptor) (parameter : String) (value : Json) (number : Option Float) :
    Except ActionError Float :=
  match number.filter Float.isFinite with
  | some x => .ok x
  | none => .error (.notANumber d.name parameter value)

/-- A whole number: a number rounded toward zero, or the integer at the start of a string. -/
def integer (d : Descriptor) (parameter : String) : Except ActionError Float := do
  let value ← d.require parameter
  d.finite parameter value <| match value with
    | .number n => some (truncate n.toFloat)
    | .string s => leadingInteger? s.toList
    | _ => none

/-- A number as it is, or a string that is a number as a whole. -/
def number (d : Descriptor) (parameter : String) : Except ActionError Float := do
  let value ← d.require parameter
  d.finite parameter value <| match value with
    | .number n => some n.toFloat
    | .string s => numeral? (trim s.toList)
    | _ => none

/-- The longest delay, in seconds. -/
def longestDelay : Float := 86400

/-- A delay in whole seconds, as milliseconds. A negative one counts as 0. -/
def delayMs (d : Descriptor) (parameter : String) : Except ActionError Nat := do
  let seconds ← d.integer parameter
  if seconds > longestDelay then .error (.delayTooLong d.name parameter seconds)
  else .ok (1000 * wholePart seconds)

/-- A string; numbers and truth values are taken by their text. -/
def text (d : Descriptor) (parameter : String) : Except ActionError String := do
  let value ← d.require parameter
  match value with
  | .string s => .ok s
  | .number n => .ok n.text
  | .bool b => .ok (toString b)
  | _ => .error (.notText d.name parameter)

end Descriptor

/-! ## From descriptors to actions -/

/-- Check a descriptor and make the action that it describes. The parameters are read in the order
    in which they stand here, and the first one that is wrong is reported. -/
def Action.ofDescriptor (d : Descriptor) : Except ActionError Action :=
  match Trigger.ofName? d.name with
  | some event => .ok (.trigger event)
  | none =>
    match d.name with
    | "move" => return .move (← d.integer "x")
    | "go_to" => return .goTo (← d.integer "x") (← d.integer "y")
    | "random" => return .random
    | "clockwise" => return .turn (← d.integer "rotation")
    | "anticlockwise" => return .turn (-(← d.integer "rotation"))
    | "glide" => return .glide (← d.integer "x") (← d.integer "y") (← d.delayMs "delay")
    | "custom_action" =>
      return .glideBy (← d.number "x") (← d.integer "y") (← d.delayMs "delay")
    | "glide_random" =>
      -- `delay` if it is there, else `seconds`
      match d.bag.get? "delay" with
      | some _ => return .glideRandom (← d.delayMs "delay")
      | none => return .glideRandom (← d.delayMs "seconds")
    | "point_in_direction" => return .pointInDirection (← d.integer "direction")
    | "mouse_pointer" => return .pointTowardsPointer
    | "change_x_by" => return .changeXBy (← d.integer "x")
    | "set_x" => return .setX (← d.integer "x")
    | "change_y_by" => return .changeYBy (← d.integer "y")
    | "set_y" => return .setY (← d.number "y")
    | "say" => return .speak (← d.text "message") .say none
    | "say_for_seconds" => return .speak (← d.text "message") .say (some (← d.delayMs "delay"))
    | "think" => return .speak (← d.text "message") .think none
    | "think_for_seconds" =>
      return .speak (← d.text "message") .think (some (← d.delayMs "delay"))
    | "change_size" => return .changeSize (← d.number "size")
    | name => return .unknown name

end SpriteStage
