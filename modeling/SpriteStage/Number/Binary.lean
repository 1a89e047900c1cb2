set_option autoImplicit false

/-! # Binary64 numbers, exactly

A finite `Float` is a sign, a natural significand and a power of two. Reading it apart turns
questions about its integer part, its remainder and its decimal digits into questions about
natural numbers, which are answered exactly: no step here rounds. -/

namespace SpriteStage

/-- A finite binary64 value: `significand * 2 ^ exponent`, negated if `negative`. -/
structure Binary where
  negative : Bool
  significand : Nat
  exponent : Int
deriving DecidableEq

namespace Binary

/-- The exponent of the least positive value. -/
def leastExponent : Int := -1074

/-- Take a finite value apart; NaN and the infinities have no such form. The leading bit of the
    significand is written unless the value lies below the normal range. -/
def ofFloat? (x : Float) : Option Binary :=
  let bits := x.toBits.toNat
  let fraction : Nat := bits % Nat.pow 2 52
  let biased : Nat := bits / Nat.pow 2 52 % Nat.pow 2 11
  let negative := decide (Nat.pow 2 63 ≤ bits)
  if biased = 2047 then none
  else if biased = 0 then some ⟨negative, fraction, leastExponent⟩
  else some ⟨negative, Nat.pow 2 52 + fraction, biased - 1075⟩

/-- The power of two with the given exponent, for exponents from `leastExponent` to `1023`. -/
def powerOfTwo (exponent : Int) : Float :=
  if exponent < -1022 then .ofBits (1 <<< (exponent - leastExponent).toNat.toUInt64)
  else .ofBits ((exponent + 1023).toNat.toUInt64 <<< 52)

/-- The value as a `Float`; exact when the significand has at most 53 bits and the exponent is in
    the range of `powerOfTwo`. -/
def toFloat (b : Binary) : Float :=
  let magnitude := b.significand.toUInt64.toFloat * powerOfTwo b.exponent
  if b.negative then -magnitude else magnitude

/-- The integer part of the magnitude. -/
def wholePart (b : Binary) : Nat :=
  if 0 ≤ b.exponent then b.significand * Nat.pow 2 b.exponent.toNat
  else b.significand / Nat.pow 2 (-b.exponent).toNat

/-- Whether the value is an integer. -/
def isWhole (b : Binary) : Bool :=
  decide (0 ≤ b.exponent) || decide (b.significand % Nat.pow 2 (-b.exponent).toNat = 0)

/-- The value rounded toward zero; zero keeps the sign. -/
def truncate (b : Binary) : Binary :=
  if 0 ≤ b.exponent then b
  else ⟨b.negative, b.significand / Nat.pow 2 (-b.exponent).toNat, 0⟩

/-- What is left of the value after taking away the whole multiples of `n` toward zero; it has
    the sign of the value. -/
def remainder (b : Binary) (n : Nat) : Binary :=
  if 0 ≤ b.exponent then ⟨b.negative, b.significand * Nat.pow 2 b.exponent.toNat % n, 0⟩
  else ⟨b.negative, b.significand % (n * Nat.pow 2 (-b.exponent).toNat), b.exponent⟩

end Binary

/-- Round toward zero; NaN and the infinities stay as they are. -/
def truncate (x : Float) : Float :=
  match Binary.ofFloat? x with
  | some b => b.truncate.toFloat
  | none => x

/-- Whether a number has no fraction. NaN and the infinities are no whole numbers. -/
def isWhole (x : Float) : Bool :=
  match Binary.ofFloat? x with
  | some b => b.isWhole
  | none => false

/-- The integer part of a number that is not negative; a negative number has none and gives 0,
    as do NaN and the infinities. -/
def wholePart (x : Float) : Nat :=
  match Binary.ofFloat? x with
  | some b => if b.negative then 0 else b.wholePart
  | none => 0

/-- The remainder of `x` by `n` with the sign of `x`; NaN where `x` is no finite number. -/
def remainder (x : Float) (n : Nat) : Float :=
  match Binary.ofFloat? x with
  | some b => (b.remainder n).toFloat
  | none => 0.0 / 0.0

end SpriteStage
