import SpriteStage.Number.Shortest
set_option autoImplicit false

/-! # Decimal text of numbers

A number is written with the fewest digits that read back. Where the point stands is decided by a
`DecimalStyle`: the stage writes numbers in two of them, one inside JSON (`DecimalStyle.json`) and
one inside messages (`DecimalStyle.plain`). -/

namespace SpriteStage

/-- The decisions of a way of writing finite numbers. -/
structure DecimalStyle where
  /-- The exponents of the leading digit, from the first to the second, for which the number is
      written without an exponent; all of them if there is no such range. -/
  positional : Option (Int × Int)
  /-- What follows the digits of a whole number that is written without an exponent. -/
  wholeSuffix : String
  /-- The choice between two equally near shortest decimals. -/
  tie : Tie

namespace DecimalStyle

/-- In JSON a number without an exponent always has a fraction, and exponents appear from `1e-6`
    down and from `1e+16` up. -/
def json : DecimalStyle := ⟨some (-5, 15), ".0", .toEven⟩

/-- In messages a number never has an exponent, and a whole number has no fraction. -/
def plain : DecimalStyle := ⟨none, "", .up⟩

/-- Whether a number whose leading digit has this exponent is written without an exponent. -/
def isPositional (style : DecimalStyle) (lead : Int) : Bool :=
  match style.positional with
  | none => true
  | some (least, greatest) => decide (least ≤ lead) && decide (lead ≤ greatest)

end DecimalStyle

/-- A row of zeros. -/
def zeros (n : Nat) : String := "".pushn '0' n

/-- The digits with the point where the exponent of the leading digit puts it. -/
def positionalText (digits : String) (lead : Int) (wholeSuffix : String) : String :=
  let count := digits.length
  let whole := (lead + 1).toNat
  if lead < 0 then "0." ++ zeros (-lead - 1).toNat ++ digits
  else if count ≤ whole then digits ++ zeros (whole - count) ++ wholeSuffix
  else
    let chars := digits.toList
    String.ofList (chars.take whole) ++ "." ++ String.ofList (chars.drop whole)

/-- One digit, the rest as a fraction, and the exponent with its sign. -/
def scientificText (digits : String) (lead : Int) : String :=
  let chars := digits.toList
  let fraction := if chars.length ≤ 1 then "" else "." ++ String.ofList (chars.drop 1)
  let sign := if lead < 0 then "-" else "+"
  String.ofList (chars.take 1) ++ fraction ++ "e" ++ sign ++ toString lead.natAbs

/-- The text of a magnitude. -/
def Binary.magnitudeText (b : Binary) (style : DecimalStyle) : String :=
  let d := b.shortest style.tie
  let digits := toString d.digits
  let lead := d.exponent + digits.length - 1
  if style.isPositional lead then positionalText digits lead style.wholeSuffix
  else scientificText digits lead

/-- The text of a number; the sign of zero is written, and NaN and the infinities by name. -/
def decimalText (style : DecimalStyle) (x : Float) : String :=
  match Binary.ofFloat? x with
  | some b => (if b.negative then "-" else "") ++ b.magnitudeText style
  | none => if x < 0 then "-inf" else if 0 < x then "inf" else "NaN"

end SpriteStage
