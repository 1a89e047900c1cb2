import SpriteStage.Json.Token
set_option autoImplicit false

/-! # Reading JSON

A text is read token by token with a stack of the containers that are open (`ReadState.step`), so
the recursion is that of the token list. The reader refuses whatever is not strict JSON: a trailing
comma, anything after the value, a name that is no string. -/

namespace SpriteStage

/-- An open container, its parts last first. An object also keeps the name that waits for its
    value. Names are absent where they hold an unpaired surrogate. -/
inductive Frame where
  | array (items : List Json)
  | object (members : List (Option String × Json)) (name : Option String)

/-- What may come next. -/
inductive Expecting where
  | value
  /-- Directly after an opening bracket: a value or the closing bracket. -/
  | firstItem
  /-- Directly after an opening brace: a name or the closing brace. -/
  | firstName
  | name
  | colon
  /-- After a value: a comma, the end of the container, or the end of the text. -/
  | separator
deriving DecidableEq

/-- The state of reading: the open containers, innermost first, and the value of the text once it
    is complete. -/
structure ReadState where
  frames : List Frame
  expecting : Expecting
  result : Option Json

namespace ReadState

/-- Nothing is read yet. -/
def start : ReadState := ⟨[], .value, none⟩

/-- The greatest number of containers around each other, the innermost included. -/
def greatestDepth : Nat := 127

/-- Put a complete value where it belongs. -/
def place (value : Json) (frames : List Frame) : ReadState :=
  match frames with
  | [] => ⟨[], .separator, some value⟩
  | .array items :: outer => ⟨.array (value :: items) :: outer, .separator, none⟩
  | .object members name :: outer =>
    ⟨.object ((name, value) :: members) none :: outer, .separator, none⟩

/-- The members of an object, unless a name is missing. -/
def namedMembers? (members : List (Option String × Json)) : Option (List (String × Json)) :=
  members.mapM fun (name, value) => name.map (·, value)

/-- The value of a container that is being closed. -/
def closed : Frame → Json
  | .array items => .array items.reverse
  | .object members _ =>
    match namedMembers? members.reverse with
    | some members => .object members
    | none => .unreadable

/-- Close the innermost container; one that is nested too deeply has no value. -/
def close (frame : Frame) (outer : List Frame) : ReadState :=
  place (if outer.length < greatestDepth then closed frame else .unreadable) outer

/-- Read a token where a value is due. -/
def value? (frames : List Frame) : Token → Option ReadState
  | .literal value => some (place value frames)
  | .text (some content) => some (place (.string content) frames)
  | .text none => some (place .unreadable frames)
  | .openArray => some ⟨.array [] :: frames, .firstItem, none⟩
  | .openObject => some ⟨.object [] none :: frames, .firstName, none⟩
  | _ => none

/-- Read one token; none if it may not stand here. -/
def step (state : ReadState) (token : Token) : Option ReadState :=
  match state.expecting, token, state.frames with
  | .firstItem, .closeArray, frame :: outer => some (close frame outer)
  | .firstName, .closeObject, frame :: outer => some (close frame outer)
  | .firstName, .text name, .object members _ :: outer
  | .name, .text name, .object members _ :: outer =>
    some ⟨.object members name :: outer, .colon, none⟩
  | .colon, .colon, frames => some ⟨frames, .value, none⟩
  | .separator, .comma, .array items :: outer => some ⟨.array items :: outer, .value, none⟩
  | .separator, .comma, .object members name :: outer =>
    some ⟨.object members name :: outer, .name, none⟩
  | .separator, .closeArray, .array items :: outer => some (close (.array items) outer)
  | .separator, .closeObject, .object members name :: outer =>
    some (close (.object members name) outer)
  | .value, token, frames | .firstItem, token, frames => value? frames token
  | _, _, _ => none

end ReadState

/-- Read a text that consists of one JSON value. -/
def Json.parse? (text : String) : Option Json := do
  let tokens ← Token.scan? text.toList
  let final ← tokens.foldlM ReadState.step .start
  final.result

end SpriteStage
