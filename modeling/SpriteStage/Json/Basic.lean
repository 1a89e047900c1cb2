set_option autoImplicit false

/-! # JSON values

A value keeps the members of an object in the order in which they stand in the text, repeated names
included: what a repeated name means is for the reader of the object to say. Integers that fit into
64 bits stay integers, every other number is a `Float`.

A text can be grammatical and still hold a part that denotes no value: a number beyond the range of
`Float`, a string with an unpaired surrogate escape, an object with such a name, or a container
nested too deeply. Such a part becomes `Json.unreadable`. It may stand where nobody looks, in a
member that is ignored; whoever looks at it fails. -/

namespace SpriteStage

/-- A number of a JSON text. -/
inductive Number where
  | int (value : Int)
  | float (value : Float)
deriving DecidableEq

/-- The nearest `Float`. -/
def Number.toFloat : Number → Float
  | .int n => .ofInt n
  | .float x => x

/-- A JSON value. -/
inductive Json where
  | null
  | bool (value : Bool)
  | number (value : Number)
  | string (value : String)
  | array (items : List Json)
  | object (members : List (String × Json))
  | unreadable

namespace Json

/-! ## Writing simple values -/

/-- A number; NaN and the infinities have no JSON form and become `null`. -/
def ofFloat (x : Float) : Json := if x.isFinite then .number (.float x) else .null

/-- A natural number. -/
def ofNat (n : Nat) : Json := .number (.int n)

/-- A value that may be absent; absence is `null`. -/
def ofOption {α : Type} (encode : α → Json) : Option α → Json
  | some a => encode a
  | none => .null

/-- The values of a list, in order. -/
def ofList {α : Type} (encode : α → Json) (items : List α) : Json := .array (items.map encode)

/-! ## Looking into values -/

/-- The member of an object with this name, the first one if the name is repeated. -/
def member? (name : String) : Json → Option Json
  | .object members => members.lookup name
  | _ => none

mutual

/-- Whether no part of a value is unreadable. -/
def isReadable : Json → Bool
  | .array items => areReadable items
  | .object members => areReadableMembers members
  | .unreadable => false
  | _ => true

/-- `isReadable` for every item of a list. -/
def areReadable : List Json → Bool
  | [] => true
  | item :: rest => item.isReadable && areReadable rest

/-- `isReadable` for the value of every member. -/
def areReadableMembers : List (String × Json) → Bool
  | [] => true
  | (_, value) :: rest => value.isReadable && areReadableMembers rest

end

end Json

end SpriteStage
