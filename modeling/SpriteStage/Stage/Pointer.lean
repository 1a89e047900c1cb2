import SpriteStage.Clock
import SpriteStage.Sprite.Geometry
set_option autoImplicit false

/-! # The mouse pointer

Movements of the pointer come in faster than they are needed. A movement takes effect at once if no
other has within the throttle; otherwise it waits, and the last one that waits takes effect at the
instant the throttle is over. Waiting movements are looked at only when somebody asks, and take
effect as of the instant at which they were due. -/

namespace SpriteStage

/-- The pointer as the stage sees it. -/
structure PointerSampler where
  /-- The position in effect. -/
  current : Point
  /-- The instant as of which it took effect; none before the first movement. -/
  since : Option Instant
  /-- The movement that waits. -/
  waiting : Option Point
  throttleMs : Nat

namespace PointerSampler

/-- A pointer that never moved. -/
def new (throttleMs : Nat) : PointerSampler := ⟨.zero, none, none, throttleMs⟩

/-- Let the movement that waits take effect if it is due. -/
def flush (s : PointerSampler) (now : Instant) : PointerSampler :=
  match s.waiting, s.since with
  | some position, some since =>
    let due := after since s.throttleMs
    if due ≤ now then { s with current := position, since := some due, waiting := none } else s
  | _, _ => s

/-- Whether a movement would take effect at once. -/
def isOpen (s : PointerSampler) (now : Instant) : Bool :=
  match s.since with
  | none => true
  | some since => decide (after since s.throttleMs ≤ now)

/-- Take note of a movement, and tell whether it takes effect at once. -/
def record (s : PointerSampler) (position : Point) (now : Instant) : Bool × PointerSampler :=
  let s := s.flush now
  if s.isOpen now then
    (true, { s with current := position, since := some now, waiting := none })
  else (false, { s with waiting := some position })

/-- The position that is in effect at an instant. -/
def positionAt (s : PointerSampler) (now : Instant) : Point × PointerSampler :=
  let s := s.flush now
  (s.current, s)

end PointerSampler

end SpriteStage
