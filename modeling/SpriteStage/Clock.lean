set_option autoImplicit false

/-! # The clock

Time is counted in whole milliseconds from the moment the stage was made. The clock has a last
instant, and sums that lie beyond it stay there. -/

namespace SpriteStage

/-- An instant, in milliseconds. -/
abbrev Instant := Nat

/-- The end of the clock: the last instant that 64 bits can count. -/
def lastInstant : Instant := 18446744073709551615

/-- The instant some milliseconds after another one. -/
def after (now : Instant) (ms : Nat) : Instant := min (now + ms) lastInstant

theorem after_le_last (now : Instant) (ms : Nat) : after now ms ≤ lastInstant :=
  Nat.min_le_right _ _

end SpriteStage
