import SpriteStage.Clock
import SpriteStage.Sprite.State
import SpriteStage.Stage.Demo
set_option autoImplicit false

/-! # Snapshots

All that a screen needs to draw the stage at an instant. -/

namespace SpriteStage

/-- What is to be seen of the demo. -/
structure DemoView where
  isOpen : Bool
  isAnimating : Bool
  cats : Cats
  facing : Int8 × Int8

/-- What is to be seen of the stage. -/
structure StageSnapshot where
  now : Instant
  transform : Transform
  speech : Speech
  glide : Option GlideTag
  playing : Bool
  historyDepth : Nat
  demo : DemoView

namespace DemoView

/-- The view of a demo. -/
def ofDemo (d : Demo) : DemoView := ⟨d.isOpen, d.isAnimating, d.cats, d.cats.facing⟩

/-- The JSON form of the view. -/
def toJson (v : DemoView) : Json :=
  .object [("open", .bool v.isOpen), ("animating", .bool v.isAnimating), ("cats", v.cats.toJson),
    ("facing", directionsToJson v.facing)]

/-- Read a view. -/
def ofJson? (json : Json) : Option DemoView := do
  let members ← json.members? (Json.plainFields ["open", "animating", "cats", "facing"])
  let isOpen ← Json.required? "open" Json.asBool? members
  let isAnimating ← Json.required? "animating" Json.asBool? members
  let cats ← Json.required? "cats" Cats.ofJson? members
  let facing ← Json.required? "facing" (Json.asPair? Json.asInt8?) members
  some ⟨isOpen, isAnimating, cats, facing⟩

end DemoView

namespace StageSnapshot

/-- The JSON form of a snapshot. -/
def toJson (s : StageSnapshot) : Json :=
  .object [("now_ms", .ofNat s.now), ("transform", s.transform.toJson),
    ("speech", s.speech.toJson), ("animation", .ofOption GlideTag.toJson s.glide),
    ("playing", .bool s.playing), ("history_depth", .ofNat s.historyDepth),
    ("demo", s.demo.toJson)]

/-- The fields of a snapshot. -/
def fields : List String :=
  ["now_ms", "transform", "speech", "animation", "playing", "history_depth", "demo"]

/-- Read a snapshot. -/
def ofJson? (json : Json) : Option StageSnapshot := do
  let members ← json.members? (Json.plainFields fields)
  let now ← Json.required? "now_ms" Json.asNat? members
  let transform ← Json.required? "transform" Transform.ofJson? members
  let speech ← Json.required? "speech" Speech.ofJson? members
  let glide ← Json.optional? "animation" GlideTag.ofJson? members
  let playing ← Json.required? "playing" Json.asBool? members
  let historyDepth ← Json.required? "history_depth" Json.asNat? members
  let demo ← Json.required? "demo" DemoView.ofJson? members
  some ⟨now, transform, speech, glide, playing, historyDepth, demo⟩

end StageSnapshot

end SpriteStage
