import SpriteStage.Number.Binary
import SpriteStage.Json.Record
set_option autoImplicit false

/-! # Points, transforms and directions

The sprite's transform holds its position, its rotation in degrees and its change of size. Rotations
add up without bound; `normalizeDegrees` brings one into the full turn from 0 below 360. -/

namespace SpriteStage

/-- A point of the plane. -/
structure Point where
  x : Float
  y : Float
deriving BEq, DecidableEq

/-- Where the sprite is and how it is turned and sized. -/
structure Transform where
  x : Float
  y : Float
  rotation : Float
  size : Float
deriving DecidableEq

namespace Point

/-- The corner of the plane. -/
def zero : Point := ⟨0, 0⟩

/-- The point that is meant where none is given. -/
def default : Point := ⟨0, 0⟩

/-- The JSON form of a point. -/
def toJson (p : Point) : Json := .object [("x", .ofFloat p.x), ("y", .ofFloat p.y)]

/-- Read a point. -/
def ofJson? (json : Json) : Option Point := do
  let members ← json.members? (Json.plainFields ["x", "y"])
  let x ← Json.required? "x" Json.asFloat? members
  let y ← Json.required? "y" Json.asFloat? members
  some ⟨x, y⟩

end Point

/-! ## Directions -/

/-- Bring an angle into the range from 0 below 360. A tiny negative angle would round up to 360; it
    counts as 0. -/
def normalizeDegrees (degrees : Float) : Float :=
  let r := remainder degrees 360
  let turned := if r < 0 then r + 360 else r
  if turned >= 360 then 0 else turned

/-- The number of degrees in a radian. -/
def degreesPerRadian : Float := 57.29577951308232

/-- The direction in which one point sees another. -/
def headingTo (centre pointer : Point) : Float :=
  normalizeDegrees (Float.atan2 (pointer.y - centre.y) (pointer.x - centre.x) * degreesPerRadian)

namespace Transform

/-- At the corner, not turned, of the given size. -/
def zero : Transform := ⟨0, 0, 0, 0⟩

/-- The position. -/
def position (t : Transform) : Point := ⟨t.x, t.y⟩

/-- The direction in which the sprite looks. -/
def heading (t : Transform) : Float := normalizeDegrees t.rotation

/-- The same sprite at another place. -/
def moveTo (t : Transform) (p : Point) : Transform := { t with x := p.x, y := p.y }

/-- The JSON form of a transform. -/
def toJson (t : Transform) : Json :=
  .object [("x", .ofFloat t.x), ("y", .ofFloat t.y), ("rotation", .ofFloat t.rotation),
    ("size", .ofFloat t.size)]

/-- Read a transform. -/
def ofJson? (json : Json) : Option Transform := do
  let members ← json.members? (Json.plainFields ["x", "y", "rotation", "size"])
  let x ← Json.required? "x" Json.asFloat? members
  let y ← Json.required? "y" Json.asFloat? members
  let rotation ← Json.required? "rotation" Json.asFloat? members
  let size ← Json.required? "size" Json.asFloat? members
  some ⟨x, y, rotation, size⟩

end Transform

end SpriteStage
