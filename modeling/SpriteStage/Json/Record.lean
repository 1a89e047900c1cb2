import SpriteStage.Json.Basic
set_option autoImplicit false

/-! # The shapes of decoded values

How the types of the stage are laid out in JSON, said once for all of them:

- a *record* is an object with named fields, or an array of the fields in their declared order
  (`Json.members?`);
- a *choice* is the name of an alternative, or an object whose only member has that name and an
  empty value (`Json.choice?`); what counts as empty depends on where the choice stands
  (`ChoiceRule`);
- a *tagged record* is a record with one more field, the tag, that says which fields follow
  (`Json.tagged?`).

Unknown members of a record are ignored. A known one may not be repeated. -/

namespace SpriteStage

/-- What counts as an empty value in the object form of a choice. -/
inductive ChoiceRule where
  /-- Null alone. -/
  | strict
  /-- Null or an object without members; this is the rule inside tagged records. -/
  | lenient
deriving DecidableEq

/-- Whether a value counts as empty. -/
def ChoiceRule.admits : ChoiceRule → Json → Bool
  | _, .null => true
  | .lenient, .object [] => true
  | _, _ => false

namespace Json

/-! ## Simple values -/

/-- A natural number. -/
def asNat? : Json → Option Nat
  | .number (.int n) => if 0 ≤ n then some n.toNat else none
  | _ => none

/-- A whole number of eight bits. -/
def asInt8? : Json → Option Int8
  | .number (.int n) => if -128 ≤ n ∧ n ≤ 127 then some (.ofInt n) else none
  | _ => none

/-- Any number. -/
def asFloat? : Json → Option Float
  | .number n => some n.toFloat
  | _ => none

/-- A truth value. -/
def asBool? : Json → Option Bool
  | .bool b => some b
  | _ => none

/-- A string. -/
def asString? : Json → Option String
  | .string s => some s
  | _ => none

/-- An array of values of one type. -/
def asList? {α : Type} (decode : Json → Option α) : Json → Option (List α)
  | .array items => items.mapM decode
  | _ => none

/-- An array of exactly two values of one type. -/
def asPair? {α : Type} (decode : Json → Option α) : Json → Option (α × α)
  | .array [first, second] => do
    let first ← decode first
    let second ← decode second
    some (first, second)
  | _ => none

/-- A value that may be null. -/
def asOption? {α : Type} (decode : Json → Option α) : Json → Option (Option α)
  | .null => some none
  | value => (decode value).map some

/-! ## Choices -/

/-- One of a few named alternatives. -/
def choice? {α : Type} (rule : ChoiceRule) (named : String → Option α) : Json → Option α
  | .string name => named name
  | .object [(name, value)] => if rule.admits value then named name else none
  | _ => none

/-! ## Records -/

/-- A field of a record. One that has a default may be missing at the end of an array. -/
structure Field where
  name : String
  hasDefault : Bool

/-- Fields that have no default. -/
def plainFields (names : List String) : List Field := names.map fun name => ⟨name, false⟩

/-- Fields that all have a default. -/
def defaultFields (names : List String) : List Field := names.map fun name => ⟨name, true⟩

/-- How many members have this name. -/
def countName (name : String) (members : List (String × Json)) : Nat :=
  members.countP (·.1 == name)

/-- The members of a record with the given fields, whichever way it is written. -/
def members? (fields : List Field) : Json → Option (List (String × Json))
  | .object members =>
    if fields.any fun f => decide (1 < countName f.name members) then none else some members
  | .array items =>
    if items.length ≤ fields.length ∧ (fields.drop items.length).all (·.hasDefault) then
      some ((fields.map (·.name)).zip items)
    else none
  | _ => none

/-- The value of a field that has to be there. -/
def required? {α : Type} (name : String) (decode : Json → Option α)
    (members : List (String × Json)) : Option α :=
  (members.lookup name).bind decode

/-- The value of a field that may be null, or be left out of an object. -/
def optional? {α : Type} (name : String) (decode : Json → Option α)
    (members : List (String × Json)) : Option (Option α) :=
  match members.lookup name with
  | some value => asOption? decode value
  | none => some none

/-- The value of a field that may be left out. -/
def defaulted? {α : Type} (name : String) (decode : Json → Option α) (default : α)
    (members : List (String × Json)) : Option α :=
  match members.lookup name with
  | some value => decode value
  | none => some default

/-! ## Tagged records -/

/-- A record with the tag in front. -/
def tagged (tagName tag : String) (members : List (String × Json)) : Json :=
  .object ((tagName, .string tag) :: members)

/-- The tag of a tagged record, as `readTag` reads it, and the record without it. In an array the
    tag comes first. Every part of the value has to be readable, parts that are ignored included. -/
def taggedBy? (readTag : Json → Option String) (tagName : String) : Json → Option (String × Json)
  | .object members =>
    if areReadableMembers members then
      match members.filter (·.1 == tagName) with
      | [(_, tag)] => (readTag tag).map (·, .object (members.filter (·.1 != tagName)))
      | _ => none
    else none
  | .array (tag :: rest) =>
    if areReadable rest then (readTag tag).map (·, .array rest) else none
  | _ => none

/-- The tag of a tagged record, which is a string, and the record without it. -/
def tagged? (tagName : String) : Json → Option (String × Json) := taggedBy? asString? tagName

/-- Whether a record without its tag can be one that has no fields. -/
def hasNoFields : Json → Bool
  | .object _ => true
  | .array [] => true
  | _ => false

end Json

end SpriteStage
