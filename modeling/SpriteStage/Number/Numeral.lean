import SpriteStage.Text.Blank
set_option autoImplicit false

/-! # Numbers written in text

Two readers for numbers inside strings. `numeral?` reads a whole text as a decimal number with an
optional fraction and exponent; `leadingInteger?` takes the integer a text begins with and looks at
nothing after it. Both round to the nearest `Float`, so a large number may be infinite. -/

namespace SpriteStage

/-- Whether a character is one of the ten ASCII digits. -/
def isDigit (c : Char) : Bool := decide ('0' ≤ c) && decide (c ≤ '9')

/-- The value of a digit. -/
def digitValue (c : Char) : Nat := c.toNat - '0'.toNat

/-- The number that a row of digits denotes. -/
def digitsValue (digits : List Char) : Nat :=
  digits.foldl (fun value c => 10 * value + digitValue c) 0

/-- Take the digits at the start of a text. -/
def spanDigits (text : List Char) : List Char × List Char :=
  (text.takeWhile isDigit, text.dropWhile isDigit)

/-- Take a sign; `true` stands for minus. -/
def takeSign : List Char → Bool × List Char
  | '-' :: rest => (true, rest)
  | '+' :: rest => (false, rest)
  | text => (false, text)

/-- The `Float` nearest to `significand * 10 ^ exponent`. Beyond 310 digits before the point the
    result is infinite, and 400 places after it zero, so huge exponents are cut off there. -/
def nearestFloat (significand : Nat) (exponent : Int) : Float :=
  let lead := exponent + (Nat.toDigits 10 significand).length
  if significand = 0 ∨ lead < -400 then 0
  else if 310 < lead then 1.0 / 0.0
  else if exponent < 0 then .ofScientific significand true exponent.natAbs
  else .ofScientific significand false exponent.natAbs

/-- Negate a number if a minus sign stood before it. -/
def withSign (negative : Bool) (x : Float) : Float := if negative then -x else x

/-- The exponent at the end of a numeral: nothing, or `e`, a sign and digits. -/
def exponentPart? : List Char → Option Int
  | [] => some 0
  | 'e' :: rest | 'E' :: rest =>
    let (negative, digits) := takeSign rest
    if digits.isEmpty || digits.any (!isDigit ·) then none
    else some (if negative then -(digitsValue digits) else digitsValue digits)
  | _ :: _ => none

/-- Read a whole text as a number: a sign, digits with at most one point among or around them, and
    an exponent. There is at least one digit before or after the point. -/
def numeral? (text : List Char) : Option Float := do
  let (negative, unsigned) := takeSign text
  let (whole, rest) := spanDigits unsigned
  let (fraction, rest) := match rest with
    | '.' :: afterPoint => spanDigits afterPoint
    | _ => ([], rest)
  if whole.isEmpty && fraction.isEmpty then none
  else
    let exponent ← exponentPart? rest
    let significand := digitsValue (whole ++ fraction)
    some (withSign negative (nearestFloat significand (exponent - fraction.length)))

/-- The integer at the start of a text: white space, a sign, and at least one digit. What follows
    the digits has no influence. -/
def leadingInteger? (text : List Char) : Option Float :=
  let (negative, unsigned) := takeSign (trimStart text)
  let digits := unsigned.takeWhile isDigit
  if digits.isEmpty then none else some (withSign negative (nearestFloat (digitsValue digits) 0))

end SpriteStage
