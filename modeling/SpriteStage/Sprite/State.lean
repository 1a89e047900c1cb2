import SpriteStage.Sprite.Geometry
set_option autoImplicit false

/-! # The sprite

What the sprite shows: its transform, a bubble with speech, and a tag that tells the screen to draw
the last move as a glide. Bubble and tag are cells that a timer may clear later on. Each write to a
cell raises its version, so a timer that remembers the version of its own write can tell whether the
cell has been written since. -/

namespace SpriteStage

/-! ## Bubbles and glide tags -/

/-- A bubble; one of duration 0 is not shown. -/
structure Speech where
  message : String
  durationMs : Nat
  isThought : Bool
deriving DecidableEq

/-- The next moves are to be drawn as a glide of this duration. -/
structure GlideTag where
  durationMs : Nat
deriving DecidableEq

namespace Speech

/-- No bubble. -/
def silent : Speech := ⟨"", 0, false⟩

/-- The duration that marks a bubble without a timeout. -/
def untimedMs : Nat := 100

/-- Whether the bubble is shown. -/
def isVisible (s : Speech) : Bool := decide (0 < s.durationMs)

/-- The JSON form of a bubble. -/
def toJson (s : Speech) : Json :=
  .object [("message", .string s.message), ("duration_ms", .ofNat s.durationMs),
    ("is_thought", .bool s.isThought)]

/-- Read a bubble. -/
def ofJson? (json : Json) : Option Speech := do
  let members ← json.members? (Json.plainFields ["message", "duration_ms", "is_thought"])
  let message ← Json.required? "message" Json.asString? members
  let durationMs ← Json.required? "duration_ms" Json.asNat? members
  let isThought ← Json.required? "is_thought" Json.asBool? members
  some ⟨message, durationMs, isThought⟩

end Speech

namespace GlideTag

/-- The only kind of tag there is. -/
def kindName? (name : String) : Option Unit := if name = "glide" then some () else none

/-- The JSON form of a tag. -/
def toJson (tag : GlideTag) : Json :=
  .object [("kind", .string "glide"), ("duration_ms", .ofNat tag.durationMs)]

/-- Read a tag. -/
def ofJson? (json : Json) : Option GlideTag := do
  let members ← json.members? (Json.plainFields ["kind", "duration_ms"])
  let _ ← Json.required? "kind" (Json.choice? .strict kindName?) members
  let durationMs ← Json.required? "duration_ms" Json.asNat? members
  some ⟨durationMs⟩

end GlideTag

/-! ## Versioned cells -/

/-- A value with the number of times it has been written. -/
structure Versioned (α : Type) where
  value : α
  version : Nat

/-- Write a value. -/
def Versioned.write {α : Type} (cell : Versioned α) (value : α) : Versioned α :=
  ⟨value, cell.version + 1⟩

/-- The two cells of a sprite that timers clear. -/
inductive Cell where
  | speech
  | glide
deriving DecidableEq

/-! ## The sprite itself -/

/-- The state of the sprite. -/
structure Sprite where
  transform : Transform
  speech : Versioned Speech
  glide : Versioned (Option GlideTag)

namespace Sprite

/-- A sprite that nothing has happened to. -/
def initial : Sprite := ⟨.zero, ⟨.silent, 0⟩, ⟨none, 0⟩⟩

/-- How often a cell has been written. -/
def version (s : Sprite) : Cell → Nat
  | .speech => s.speech.version
  | .glide => s.glide.version

/-- Show a bubble. -/
def say (s : Sprite) (speech : Speech) : Sprite := { s with speech := s.speech.write speech }

/-- Set or remove the glide tag. -/
def tagGlide (s : Sprite) (tag : Option GlideTag) : Sprite := { s with glide := s.glide.write tag }

/-- Empty a cell. -/
def clear (s : Sprite) : Cell → Sprite
  | .speech => s.say .silent
  | .glide => s.tagGlide none

/-- Back to the start; the versions go on counting, so no earlier write is taken for current. -/
def reset (s : Sprite) : Sprite := (({ s with transform := .zero }).clear .speech).clear .glide

/-- The JSON form of a sprite, without the versions. -/
def toJson (s : Sprite) : Json :=
  .object [("transform", s.transform.toJson), ("speech", s.speech.value.toJson),
    ("animation", .ofOption GlideTag.toJson s.glide.value)]

/-- Read a sprite; its cells count as never written. -/
def ofJson? (json : Json) : Option Sprite := do
  let members ← json.members? (Json.plainFields ["transform", "speech", "animation"])
  let transform ← Json.required? "transform" Transform.ofJson? members
  let speech ← Json.required? "speech" Speech.ofJson? members
  let glide ← Json.optional? "animation" GlideTag.ofJson? members
  some ⟨transform, ⟨speech, 0⟩, ⟨glide, 0⟩⟩

end Sprite

end SpriteStage
