import SpriteStage.Action.Basic
import SpriteStage.Sprite.Random
import SpriteStage.Sprite.State
set_option autoImplicit false

/-! # Performing an action

`Action.perform` applies one action to the sprite. An action that fills a cell for a limited time
asks for the cell to be cleared later; the request carries the version that the write gave to the
cell. Only `random` and `glideRandom` draw random numbers. -/

namespace SpriteStage

/-- What an action sees outside the sprite. -/
structure Surroundings where
  /-- The mouse pointer. -/
  pointer : Point
  /-- The middle of the sprite on the screen. -/
  centre : Point

/-- A wish to have a cell cleared, if it still has this version then. -/
structure ClearRequest where
  cell : Cell
  afterMs : Nat
  version : Nat
deriving DecidableEq

/-- The result of an action. -/
structure Performed where
  sprite : Sprite
  generator : Generator
  clear : Option ClearRequest

namespace Generator

/-- A random point in the square from zero below the extent, the x coordinate drawn first. -/
def point (g : Generator) (extent : Float) : Point × Generator :=
  let (x, g) := below extent drawLimit g
  let (y, g) := below extent drawLimit g
  (⟨x, y⟩, g)

end Generator

namespace Sprite

/-- Change the transform and nothing else. -/
def mapTransform (s : Sprite) (f : Transform → Transform) : Sprite :=
  { s with transform := f s.transform }

/-- Show the last move as a glide, and ask for the tag to be cleared when the glide is over. -/
def startGlide (s : Sprite) (durationMs : Nat) : Sprite × ClearRequest :=
  let s := s.tagGlide (some ⟨durationMs⟩)
  (s, ⟨.glide, durationMs, s.version .glide⟩)

end Sprite

/-- Apply an action to the sprite. Random points lie below `extent`. -/
def Action.perform (action : Action) (around : Surroundings) (extent : Float) (g : Generator)
    (s : Sprite) : Performed :=
  match action with
  | .trigger _ | .unknown _ => ⟨s, g, none⟩
  | .move dx | .changeXBy dx => ⟨s.mapTransform fun t => { t with x := t.x + dx }, g, none⟩
  | .changeYBy dy => ⟨s.mapTransform fun t => { t with y := t.y + dy }, g, none⟩
  | .setX x => ⟨s.mapTransform fun t => { t with x := x }, g, none⟩
  | .setY y => ⟨s.mapTransform fun t => { t with y := y }, g, none⟩
  | .goTo x y => ⟨s.mapTransform (·.moveTo ⟨x, y⟩), g, none⟩
  | .random =>
    let (p, g) := g.point extent
    ⟨s.mapTransform (·.moveTo p), g, none⟩
  | .turn degrees => ⟨s.mapTransform fun t => { t with rotation := t.rotation + degrees }, g, none⟩
  | .pointInDirection direction =>
    ⟨s.mapTransform fun t => { t with rotation := direction }, g, none⟩
  | .pointTowardsPointer =>
    let direction := headingTo around.centre around.pointer
    ⟨(s.mapTransform fun t => { t with rotation := direction }).tagGlide none, g, none⟩
  | .changeSize delta => ⟨s.mapTransform fun t => { t with size := t.size + delta }, g, none⟩
  | .glide x y durationMs =>
    let (s, clear) := (s.mapTransform (·.moveTo ⟨x, y⟩)).startGlide durationMs
    ⟨s, g, some clear⟩
  | .glideBy dx dy durationMs =>
    let moved := s.mapTransform fun t => { t with x := t.x + dx, y := t.y + dy }
    let (s, clear) := moved.startGlide durationMs
    ⟨s, g, some clear⟩
  | .glideRandom durationMs =>
    let (p, g) := g.point extent
    let (s, clear) := (s.mapTransform (·.moveTo p)).startGlide durationMs
    ⟨s, g, some clear⟩
  | .speak message bubble timeoutMs =>
    let duration := timeoutMs.getD Speech.untimedMs
    let s := s.say ⟨message, duration, bubble == .think⟩
    ⟨s, g, timeoutMs.map fun ms => ⟨.speech, ms, s.version .speech⟩⟩

end SpriteStage
