import SpriteStage.Number.Binary
set_option autoImplicit false

/-! # The fewest decimal digits that read back

The reals that round to a binary64 value form an interval around it, from halfway to the neighbour
below to halfway to the neighbour above; the ends belong to it exactly when the significand is
even. `Binary.shortest` walks through ever finer decimal grids and takes the first grid that has a
point in the interval. If any point of a grid lies in the interval then one of the two grid points
next to the value does, so only these two are tried. All comparisons are between naturals. -/

namespace SpriteStage

/-- The number `digits * 10 ^ exponent`. -/
structure Decimal where
  digits : Nat
  exponent : Int
deriving DecidableEq

/-- Which of two equally near candidates is taken. -/
inductive Tie where
  | toEven
  | up
deriving DecidableEq

namespace Decimal

/-- Compare `a * 10 ^ i` with `b * 2 ^ j`. -/
def compareBinary (a : Nat) (i : Int) (b : Nat) (j : Int) : Ordering :=
  compare (a * Nat.pow 10 i.toNat * Nat.pow 2 (-j).toNat)
    (b * Nat.pow 2 j.toNat * Nat.pow 10 (-i).toNat)

/-- The same number without trailing zeros among the digits; the fuel bounds their count. -/
def stripped : Nat → Decimal → Decimal
  | 0, d => d
  | fuel + 1, d =>
    if d.digits ≠ 0 ∧ d.digits % 10 = 0 then stripped fuel ⟨d.digits / 10, d.exponent + 1⟩ else d

end Decimal

namespace Binary

/-- Whether the value below is half as far away as the value above: so it is at a power of two,
    except at the foot of the normal range. -/
def narrowBelow (b : Binary) : Bool :=
  decide (b.significand = Nat.pow 2 52) && decide (leastExponent < b.exponent)

/-- Whether a decimal lies among the reals that round to the magnitude of `b`. Quarters of the
    last place measure both halves of the interval. -/
def readsBack (b : Binary) (d : Decimal) : Bool :=
  let low := if b.narrowBelow then 4 * b.significand - 1 else 4 * b.significand - 2
  let high := 4 * b.significand + 2
  let closed := b.significand % 2 == 0
  let toLow := Decimal.compareBinary d.digits d.exponent low (b.exponent - 2)
  let toHigh := Decimal.compareBinary d.digits d.exponent high (b.exponent - 2)
  (toLow == .gt || closed && toLow == .eq) && (toHigh == .lt || closed && toHigh == .eq)

/-- The exponent of the leading decimal digit of a magnitude other than zero: an estimate from the
    binary logarithm, corrected by at most one. -/
def leadingExponent (b : Binary) : Int :=
  let estimate := ((Nat.log2 b.significand : Int) + b.exponent) * 30103 / 100000
  let atLeast (k : Int) : Bool := Decimal.compareBinary 1 k b.significand b.exponent != .gt
  if atLeast (estimate + 1) then estimate + 1
  else if atLeast estimate then estimate
  else estimate - 1

/-- The magnitude in units of `10 ^ unit`, rounded down. -/
def floorIn (b : Binary) (unit : Int) : Nat :=
  b.significand * Nat.pow 2 b.exponent.toNat * Nat.pow 10 (-unit).toNat
    / (Nat.pow 2 (-b.exponent).toNat * Nat.pow 10 unit.toNat)

/-- The point of the grid `10 ^ unit` that reads back and lies nearest, if one reads back. -/
def onGrid? (b : Binary) (tie : Tie) (unit : Int) : Option Decimal :=
  let n := b.floorIn unit
  let below : Decimal := ⟨n, unit⟩
  let above : Decimal := ⟨n + 1, unit⟩
  match b.readsBack below, b.readsBack above with
  | false, false => none
  | true, false => some below
  | false, true => some above
  | true, true =>
    -- twice the value against the sum of the two candidates
    match Decimal.compareBinary (2 * n + 1) unit (2 * b.significand) b.exponent, tie with
    | .gt, _ => some below
    | .lt, _ => some above
    | .eq, .up => some above
    | .eq, .toEven => some (if n % 2 = 0 then below else above)

/-- The exact decimal value of the magnitude. -/
def exactDecimal (b : Binary) : Decimal :=
  ⟨b.significand * Nat.pow 2 b.exponent.toNat * Nat.pow 5 (-b.exponent).toNat, min b.exponent 0⟩

/-- The shortest decimal that reads back as the magnitude of `b`, of these the nearest. Seventeen
    digits always suffice; past them stands the exact value. -/
def shortest (b : Binary) (tie : Tie) : Decimal :=
  if b.significand = 0 then ⟨0, 0⟩
  else
    let lead := b.leadingExponent
    let found := (List.range 17).findSome? fun (k : Nat) => b.onGrid? tie (lead - k)
    (found.getD b.exactDecimal).stripped 400

end Binary

end SpriteStage
