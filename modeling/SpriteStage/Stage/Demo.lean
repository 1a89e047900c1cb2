import SpriteStage.Json.Record
set_option autoImplicit false

/-! # The demo of two cats

Two cats walk along a line, one step of fixed length at a time. When they come nearer than a
threshold both turn round, once for each approach: a latch is set with the turn and released when
they are apart again. The second cat stays at its resting place as long as it looks away from the
first. The demo knows nothing of the sprite. -/

namespace SpriteStage

/-! ## Settings -/

namespace DemoConfig

/-- The time between two steps, if none is given. -/
def defaultTickMs : Nat := 50

/-- The length of a step, if none is given. -/
def defaultStride : Float := 2

/-- The distance below which the cats turn round, if none is given. -/
def defaultThreshold : Float := 30

/-- The resting place of the second cat, if none is given. -/
def defaultRest : Float := 200

/-- The width within which the cats stay, if none is given. -/
def defaultViewportWidth : Float := 1280

end DemoConfig

/-- The settings of the demo. -/
structure DemoConfig where
  tickMs : Nat := DemoConfig.defaultTickMs
  /-- The length of a step. -/
  stride : Float := DemoConfig.defaultStride
  /-- The distance below which the cats turn round. -/
  threshold : Float := DemoConfig.defaultThreshold
  /-- The resting place of the second cat, where it also begins. -/
  rest : Float := DemoConfig.defaultRest
  /-- The cats stay between zero and here. -/
  viewportWidth : Float := DemoConfig.defaultViewportWidth
deriving BEq

namespace DemoConfig

/-- The JSON form of the settings. -/
def toJson (c : DemoConfig) : Json :=
  .object [("tick_ms", .ofNat c.tickMs), ("step", .ofFloat c.stride),
    ("threshold", .ofFloat c.threshold), ("cat2_rest", .ofFloat c.rest),
    ("viewport_width", .ofFloat c.viewportWidth)]

/-- Read settings; for each that is left out the default of its field is taken. -/
def ofJson? (json : Json) : Option DemoConfig := do
  let members ← json.members?
    (Json.defaultFields ["tick_ms", "step", "threshold", "cat2_rest", "viewport_width"])
  let tickMs ← Json.defaulted? "tick_ms" Json.asNat? defaultTickMs members
  let stride ← Json.defaulted? "step" Json.asFloat? defaultStride members
  let threshold ← Json.defaulted? "threshold" Json.asFloat? defaultThreshold members
  let rest ← Json.defaulted? "cat2_rest" Json.asFloat? defaultRest members
  let viewportWidth ← Json.defaulted? "viewport_width" Json.asFloat? defaultViewportWidth members
  some ⟨tickMs, stride, threshold, rest, viewportWidth⟩

end DemoConfig

/-! ## Where the cats are -/

/-- Places and directions of the cats; a direction is 1 or -1. -/
structure Cats where
  cat1 : Float
  cat2 : Float
  dir1 : Int8
  dir2 : Int8
  /-- The latch: the cats have turned round and have not been apart since. -/
  colliding : Bool
deriving DecidableEq

/-- A turn of both cats: the number of the step, the directions around it, and the distance. -/
structure Flip where
  tick : Nat
  before : Int8 × Int8
  after : Int8 × Int8
  distance : Float
deriving DecidableEq

/-- A direction as a JSON number. -/
def directionToJson (d : Int8) : Json := .number (.int d.toInt)

/-- The directions of both cats as JSON. -/
def directionsToJson (d : Int8 × Int8) : Json := .array [directionToJson d.1, directionToJson d.2]

namespace Cats

/-- The first cat at zero and the second at rest, looking at each other. -/
def initial (rest : Float) : Cats := ⟨0, rest, 1, -1, false⟩

/-- How far the cats are from each other. -/
def distance (c : Cats) : Float := (c.cat1 - c.cat2).abs

/-- The directions of both cats. -/
def directions (c : Cats) : Int8 × Int8 := (c.dir1, c.dir2)

/-- The sides to which the cats are drawn to look. -/
def facing (c : Cats) : Int8 × Int8 :=
  (if c.dir1 = 1 then 1 else -1, if c.dir2 = 1 then 1 else -1)

/-- The JSON form of the cats. -/
def toJson (c : Cats) : Json :=
  .object [("cat1", .ofFloat c.cat1), ("cat2", .ofFloat c.cat2), ("dir1", directionToJson c.dir1),
    ("dir2", directionToJson c.dir2), ("colliding", .bool c.colliding)]

/-- Read the cats. -/
def ofJson? (json : Json) : Option Cats := do
  let members ← json.members? (Json.plainFields ["cat1", "cat2", "dir1", "dir2", "colliding"])
  let cat1 ← Json.required? "cat1" Json.asFloat? members
  let cat2 ← Json.required? "cat2" Json.asFloat? members
  let dir1 ← Json.required? "dir1" Json.asInt8? members
  let dir2 ← Json.required? "dir2" Json.asInt8? members
  let colliding ← Json.required? "colliding" Json.asBool? members
  some ⟨cat1, cat2, dir1, dir2, colliding⟩

end Cats

namespace Flip

/-- The fields of a turn. -/
def fields : List String := ["tick", "before", "after", "distance"]

/-- The fields of a turn with their values. -/
def toMembers (f : Flip) : List (String × Json) :=
  [("tick", .ofNat f.tick), ("before", directionsToJson f.before),
    ("after", directionsToJson f.after), ("distance", .ofFloat f.distance)]

/-- The JSON form of a turn. -/
def toJson (f : Flip) : Json := .object f.toMembers

/-- Read a turn. -/
def ofJson? (json : Json) : Option Flip := do
  let members ← json.members? (Json.plainFields fields)
  let tick ← Json.required? "tick" Json.asNat? members
  let before ← Json.required? "before" (Json.asPair? Json.asInt8?) members
  let after ← Json.required? "after" (Json.asPair? Json.asInt8?) members
  let distance ← Json.required? "distance" Json.asFloat? members
  some ⟨tick, before, after, distance⟩

end Flip

/-! ## The demo -/

/-- The demo: whether its window is open, whether the cats walk, how many steps they have made, and
    the number of the walk. -/
structure Demo where
  config : DemoConfig
  cats : Cats
  isOpen : Bool
  isAnimating : Bool
  ticks : Nat
  session : Nat

namespace Demo

/-- A demo that is closed, with the cats at their places. -/
def new (config : DemoConfig) : Demo := ⟨config, .initial config.rest, false, false, 0, 0⟩

/-- Open the window. -/
def openWindow (d : Demo) : Demo := { d with isOpen := true }

/-- Close the window and stop the cats. -/
def closeWindow (d : Demo) : Demo := { d with isOpen := false, isAnimating := false }

/-- Let the cats walk, as a new session; none if they walk already. -/
def start? (d : Demo) : Option Demo :=
  if d.isAnimating then none else some { d with isAnimating := true, session := d.session + 1 }

/-- Change the width within which the cats stay; it is never negative. -/
def resize (d : Demo) (width : Float) : Demo :=
  { d with config := { d.config with viewportWidth := if width > 0 then width else 0 } }

/-- The nearest place between zero and the width. -/
def clamp (width x : Float) : Float := if x < 0 then 0 else if x > width then width else x

/-- Both cats after a step of their own, without a look at each other. -/
def walk (config : DemoConfig) (c : Cats) : Cats :=
  let cat1 := c.cat1 + .ofInt c.dir1.toInt * config.stride
  let cat2 :=
    if c.cat2 != config.rest || c.dir2 == -1 then c.cat2 + .ofInt c.dir2.toInt * config.stride
    else c.cat2
  { c with cat1 := clamp config.viewportWidth cat1, cat2 := clamp config.viewportWidth cat2 }

/-- One step of the cats, and their turn if they make one. -/
def step (d : Demo) : Demo × Option Flip :=
  let ticks := d.ticks + 1
  let cats := walk d.config d.cats
  if cats.distance < d.config.threshold then
    if cats.colliding then ({ d with ticks, cats }, none)
    else
      let turned := { cats with dir1 := -cats.dir1, dir2 := -cats.dir2, colliding := true }
      ({ d with ticks, cats := turned },
        some ⟨ticks, cats.directions, turned.directions, turned.distance⟩)
  else ({ d with ticks, cats := { cats with colliding := false } }, none)

end Demo

end SpriteStage
