import SpriteStage.Number.Numeral
import SpriteStage.Json.Basic
set_option autoImplicit false

/-! # Tokens of a JSON text

`Token.scan?` cuts a text into tokens and checks all of the grammar below the level of brackets:
spelling of numbers, escapes in strings, no raw control characters. A number out of range and a
string with an unpaired surrogate are grammatical, so they are tokens that carry no value. -/

namespace SpriteStage

/-- A token of a JSON text. -/
inductive Token where
  | openArray
  | closeArray
  | openObject
  | closeObject
  | colon
  | comma
  /-- A number, a truth value or null. -/
  | literal (value : Json)
  /-- A string; none if it holds an unpaired surrogate. -/
  | text (content : Option String)

/-! ## Numbers -/

/-- The largest integer kept as an integer: all 64 bits are set. -/
def greatestWord : Nat := 18446744073709551615

/-- The largest magnitude of a negative integer: the highest of 64 bits is set. -/
def greatestNegated : Nat := 9223372036854775808

/-- Append digits to a number as long as it fits into 64 bits; the digits left over come second. -/
def takeFitting (value : Nat) : List Char → Nat × List Char
  | [] => (value, [])
  | c :: rest =>
    let next := 10 * value + digitValue c
    if greatestWord < next then (value, c :: rest) else takeFitting next rest

/-- Divide by a power of ten that may lie beyond the range of `Float`. -/
def scaleDown (x : Float) (power : Nat) : Float :=
  if power ≤ 308 then x / .ofScientific 1 false power
  else if x == 0 then x
  else scaleDown (x / 1e308) (power - 308)
termination_by power
decreasing_by omega

/-- `significand * 10 ^ exponent` with one rounding for the significand and one for each scaling
    step, so the result can miss the nearest `Float`; none if it is out of range. -/
def scaled? (significand : Nat) (exponent : Int) : Option Float :=
  let x := significand.toUInt64.toFloat
  if exponent < 0 then some (scaleDown x exponent.natAbs)
  else if 308 < exponent then (if x == 0 then some x else none)
  else
    let y := x * .ofScientific 1 false exponent.natAbs
    if y.isFinite then some y else none

/-- The value of a number without fraction and exponent: an integer if it fits into 64 bits with
    its sign. Minus zero is no integer. -/
def wholeNumber (negative : Bool) (significand : Nat) : Json :=
  if !negative then .number (.int significand)
  else if 0 < significand && significand ≤ greatestNegated then .number (.int (-significand))
  else .number (.float (-significand.toUInt64.toFloat))

/-- The value of a number, from its sign, its digits before and after the point, and its exponent.
    Digits from the first one on that would overflow 64 bits are dropped; those before the point
    count in the exponent. -/
def numberValue (negative : Bool) (whole fraction : List Char) (exponent : Int) : Json :=
  let (significand, dropped) := takeFitting 0 whole
  let (significand, unused) := takeFitting significand fraction
  let shift := (dropped.length : Int) - (fraction.length - unused.length : Nat)
  match scaled? significand (exponent + shift) with
  | some x => .number (.float (withSign negative x))
  | none => .unreadable

/-- Whether digits may stand before the point: at least one, and no zero in front of others. -/
def isWholePart : List Char → Bool
  | [] => false
  | [_] => true
  | c :: _ => c != '0'

/-- Read a complete number literal; none if it is not spelled as JSON demands. -/
def numberLiteral? (text : List Char) : Option Json := do
  let (negative, unsigned) := match text with
    | '-' :: rest => (true, rest)
    | _ => (false, text)
  let (whole, rest) := spanDigits unsigned
  if !isWholePart whole then none
  else match rest with
    | [] =>
      let (significand, dropped) := takeFitting 0 whole
      if dropped.isEmpty then some (wholeNumber negative significand)
      else some (numberValue negative whole [] 0)
    | '.' :: afterPoint =>
      let (fraction, rest) := spanDigits afterPoint
      if fraction.isEmpty then none
      else
        let exponent ← exponentPart? rest
        some (numberValue negative whole fraction exponent)
    | _ =>
      let exponent ← exponentPart? rest
      some (numberValue negative whole [] exponent)

/-- Whether a character can stand in a number. -/
def isNumberChar (c : Char) : Bool := isDigit c || "+-.eE".toList.contains c

/-! ## Strings -/

/-- A part of a string: a character, or a 16-bit unit from an escape. -/
inductive TextPiece where
  | char (c : Char)
  | unit (value : Nat)

/-- The value of a hexadecimal digit in either case. -/
def hexDigit? (c : Char) : Option Nat :=
  if isDigit c then some (digitValue c)
  else if 'a' ≤ c ∧ c ≤ 'f' then some (c.toNat - 'a'.toNat + 10)
  else if 'A' ≤ c ∧ c ≤ 'F' then some (c.toNat - 'A'.toNat + 10)
  else none

/-- The value of four hexadecimal digits. -/
def hexUnit? (a b c d : Char) : Option Nat := do
  let a ← hexDigit? a
  let b ← hexDigit? b
  let c ← hexDigit? c
  let d ← hexDigit? d
  some (((a * 16 + b) * 16 + c) * 16 + d)

/-- The character that a one-letter escape stands for. -/
def escapedChar? : Char → Option Char
  | '"' => some '"'
  | '\\' => some '\\'
  | '/' => some '/'
  | 'b' => some '\x08'
  | 'f' => some '\x0c'
  | 'n' => some '\n'
  | 'r' => some '\r'
  | 't' => some '\t'
  | _ => none

/-- The pieces of a string up to the closing quote, and the text after it. -/
def stringBody? : List Char → Option (List TextPiece × List Char)
  | [] => none
  | '"' :: rest => some ([], rest)
  | '\\' :: 'u' :: a :: b :: c :: d :: rest => do
    let value ← hexUnit? a b c d
    let (pieces, rest) ← stringBody? rest
    some (.unit value :: pieces, rest)
  | '\\' :: e :: rest => do
    let c ← escapedChar? e
    let (pieces, rest) ← stringBody? rest
    some (.char c :: pieces, rest)
  | c :: rest =>
    if c = '\\' ∨ c.toNat < 0x20 then none
    else do
      let (pieces, rest) ← stringBody? rest
      some (.char c :: pieces, rest)

theorem stringBody?_length {text rest : List Char} {pieces : List TextPiece}
    (h : stringBody? text = some (pieces, rest)) : rest.length < text.length := by
  fun_induction stringBody? text generalizing pieces rest with
  | case1 => simp at h
  | case2 rest => simp_all
  | case3 a b c d text ih =>
    simp only [Option.bind_eq_bind, Option.bind_eq_some_iff, Prod.exists, Option.some.injEq,
      Prod.mk.injEq] at h
    obtain ⟨_, _, _, _, hr, _, rfl⟩ := h
    have := ih hr
    simp only [List.length_cons]
    omega
  | case4 e text _ ih =>
    simp only [Option.bind_eq_bind, Option.bind_eq_some_iff, Prod.exists, Option.some.injEq,
      Prod.mk.injEq] at h
    obtain ⟨_, _, _, _, hr, _, rfl⟩ := h
    have := ih hr
    simp only [List.length_cons]
    omega
  | case5 => simp at h
  | case6 c text _ _ _ _ ih =>
    simp only [Option.bind_eq_bind, Option.bind_eq_some_iff, Prod.exists, Option.some.injEq,
      Prod.mk.injEq] at h
    obtain ⟨_, _, hr, _, rfl⟩ := h
    have := ih hr
    simp only [List.length_cons]
    omega

/-- Whether a 16-bit unit is the first half of a surrogate pair. -/
def isLeadUnit (unit : Nat) : Bool := decide (0xD800 ≤ unit) && decide (unit < 0xDC00)

/-- Whether a 16-bit unit is the second half of a surrogate pair. -/
def isTrailUnit (unit : Nat) : Bool := decide (0xDC00 ≤ unit) && decide (unit < 0xE000)

/-- The characters of a string; none if a surrogate stands unpaired. -/
def joinPieces? : List TextPiece → Option (List Char)
  | [] => some []
  | .char c :: rest => (joinPieces? rest).map (c :: ·)
  | .unit lead :: .unit trail :: rest =>
    if isLeadUnit lead then
      if isTrailUnit trail then
        let c := Char.ofNat (0x10000 + (lead - 0xD800) * 0x400 + (trail - 0xDC00))
        (joinPieces? rest).map (c :: ·)
      else none
    else if isTrailUnit lead then none
    else (joinPieces? (.unit trail :: rest)).map (Char.ofNat lead :: ·)
  | .unit unit :: rest =>
    if isLeadUnit unit || isTrailUnit unit then none
    else (joinPieces? rest).map (Char.ofNat unit :: ·)

/-! ## The whole text -/

namespace Token

/-- Whether a character may stand between tokens. -/
def isSpace (c : Char) : Bool := c == ' ' || c == '\t' || c == '\n' || c == '\r'

/-- The token at the start of a text, and the text after it. -/
def next? : List Char → Option (Token × List Char)
  | '[' :: rest => some (openArray, rest)
  | ']' :: rest => some (closeArray, rest)
  | '{' :: rest => some (openObject, rest)
  | '}' :: rest => some (closeObject, rest)
  | ':' :: rest => some (colon, rest)
  | ',' :: rest => some (comma, rest)
  | '"' :: rest => do
    let (pieces, rest) ← stringBody? rest
    some (text ((joinPieces? pieces).map String.ofList), rest)
  | 'n' :: 'u' :: 'l' :: 'l' :: rest => some (literal .null, rest)
  | 't' :: 'r' :: 'u' :: 'e' :: rest => some (literal (.bool true), rest)
  | 'f' :: 'a' :: 'l' :: 's' :: 'e' :: rest => some (literal (.bool false), rest)
  | c :: rest => do
    let value ← numberLiteral? (c :: rest.takeWhile isNumberChar)
    some (literal value, rest.dropWhile isNumberChar)
  | [] => none

theorem next?_length {chars rest : List Char} {token : Token}
    (h : next? chars = some (token, rest)) : rest.length < chars.length := by
  unfold next? at h
  split at h
  case h_7 =>
    simp only [Option.bind_eq_bind, Option.bind_eq_some_iff, Prod.exists, Option.some.injEq,
      Prod.mk.injEq] at h
    obtain ⟨_, _, hr, _, rfl⟩ := h
    have := stringBody?_length hr
    simp only [List.length_cons]
    omega
  case h_11 c tail _ _ _ _ _ _ _ _ _ _ =>
    simp only [Option.bind_eq_bind, Option.bind_eq_some_iff, Option.some.injEq,
      Prod.mk.injEq] at h
    obtain ⟨_, _, _, rfl⟩ := h
    have := (List.dropWhile_sublist isNumberChar (l := tail)).length_le
    simp only [List.length_cons]
    omega
  case h_12 => simp at h
  all_goals
    simp only [Option.some.injEq, Prod.mk.injEq] at h
    obtain ⟨_, rfl⟩ := h
    simp only [List.length_cons]
    omega

/-- The tokens of a text; none if some part of it is no token. -/
def scan? (chars : List Char) : Option (List Token) :=
  match chars with
  | [] => some []
  | c :: rest =>
    if isSpace c then scan? rest
    else
      match h : next? (c :: rest) with
      | none => none
      | some (token, after) =>
        have : after.length < (c :: rest).length := next?_length h
        (scan? after).map (token :: ·)
termination_by chars.length
decreasing_by
  all_goals simp_all

end Token

end SpriteStage
