import Mathlib.Data.List.TakeWhile
import SpriteStage.Number.Numeral
set_option autoImplicit false

/-! # Integers at the start of a text

A text begins with an integer if it is white space, a sign, digits and a rest that does not go on
with a digit, where white space, sign and rest may be missing (`IntegerText`). A text can be taken
apart like this in at most one way, `leadingInteger?` reads just the texts for which there is one,
and what it reads is the number of the digits alone under the sign. The number can also be found
along the UTF-8 bytes of the text (`scanLeadingInteger`). That takes slices by byte offsets, and
none of them leaves the text or cuts through a character. `leadingInteger_keeps_to_grammar` says
all this. -/

namespace SpriteStage

/-! ## The parts of a text -/

/-- What stands before the digits of an integer. -/
inductive Sign where
  | absent
  | plus
  | minus
deriving DecidableEq

namespace Sign

/-- A sign as it is written. -/
def chars : Sign → List Char
  | .absent => []
  | .plus => ['+']
  | .minus => ['-']

theorem chars_inj {sign other : Sign} (h : sign.chars = other.chars) : sign = other := by
  cases sign <;> cases other <;> first | rfl | simp [chars] at h

end Sign

/-- A text that begins with an integer, in its parts. -/
@[ext]
structure IntegerText where
  blanks : List Char
  sign : Sign
  digits : List Char
  rest : List Char
  isBlank_of_mem : ∀ c ∈ blanks, isBlank c = true
  digits_ne_nil : digits ≠ []
  isDigit_of_mem : ∀ c ∈ digits, isDigit c = true
  /-- The digits go on as far as they can. -/
  isDigit_head : ∀ c ∈ rest.head?, isDigit c = false

namespace IntegerText

/-- The parts one after the other. -/
def chars (i : IntegerText) : List Char := i.blanks ++ (i.sign.chars ++ (i.digits ++ i.rest))

/-- The text that has these parts. -/
def text (i : IntegerText) : String := String.ofList i.chars

end IntegerText

/-! ## Signs and digits -/

theorem isDigit_eq_decide (c : Char) : isDigit c = decide (48 ≤ c.toNat ∧ c.toNat ≤ 57) :=
  (Bool.decide_and ..).symm

theorem isBlank_of_isDigit {c : Char} (h : isDigit c = true) : isBlank c = false := by
  rw [isDigit_eq_decide, decide_eq_true_eq] at h
  simp only [isBlank, blankRanges, List.any_cons, List.any_nil, Bool.or_false,
    Bool.or_eq_false_iff, Bool.and_eq_false_imp, decide_eq_true_eq, decide_eq_false_iff_not]
  omega

theorem takeWhile_append_of_head? {p : Char → Bool} {taken rest : List Char}
    (htaken : ∀ c ∈ taken, p c = true) (hrest : ∀ c ∈ rest.head?, p c = false) :
    (taken ++ rest).takeWhile p = taken := by
  rw [List.takeWhile_append_of_pos htaken]
  cases rest with
  | nil => simp
  | cons c rest => simp [hrest c rfl]

theorem takeSign_of_isDigit {digit : Char} (h : isDigit digit = true) (later : List Char) :
    takeSign (digit :: later) = (false, digit :: later) := by
  unfold takeSign
  split
  case h_1 heq => cases heq; cases h
  case h_2 heq => cases heq; cases h
  case h_3 => rfl

theorem takeSign_append (sign : Sign) {digit : Char} (h : isDigit digit = true)
    (later : List Char) :
    takeSign (sign.chars ++ digit :: later) = (sign == .minus, digit :: later) := by
  cases sign with
  | absent => exact takeSign_of_isDigit h later
  | plus => rfl
  | minus => rfl

theorem trimStart_append (sign : Sign) {digit : Char} (h : isDigit digit = true)
    (later : List Char) :
    trimStart (sign.chars ++ digit :: later) = sign.chars ++ digit :: later := by
  cases sign with
  | absent => exact List.dropWhile_cons_of_neg (by simp [isBlank_of_isDigit h])
  | plus => rfl
  | minus => rfl

theorem exists_sign (text : List Char) :
    ∃ sign : Sign, text = sign.chars ++ (takeSign text).2 := by
  fun_cases takeSign text with
  | case1 rest => exact ⟨.minus, rfl⟩
  | case2 rest => exact ⟨.plus, rfl⟩
  | case3 => exact ⟨.absent, rfl⟩

/-- Digits alone are a numeral. -/
theorem numeral?_of_digits {digits : List Char} (hne : digits ≠ [])
    (h : ∀ c ∈ digits, isDigit c = true) :
    numeral? digits = some (nearestFloat (digitsValue digits) 0) := by
  have hsign : takeSign digits = (false, digits) := by
    obtain ⟨digit, later, rfl⟩ := List.exists_cons_of_ne_nil hne
    exact takeSign_of_isDigit (h digit (List.mem_cons_self ..)) later
  have hspan : spanDigits digits = (digits, []) :=
    Prod.ext (List.takeWhile_eq_self_iff.2 h) (List.dropWhile_eq_nil_iff.2 h)
  simp [numeral?, hsign, hspan, hne, exponentPart?, withSign]

/-- The digits after the sign are read as a numeral of their own. -/
theorem leadingInteger?_eq (text : List Char) :
    leadingInteger? text
      = (numeral? ((takeSign (trimStart text)).2.takeWhile isDigit)).map
          (withSign (takeSign (trimStart text)).1) := by
  rw [leadingInteger?]
  rcases takeSign (trimStart text) with ⟨negative, unsigned⟩
  by_cases hnil : unsigned.takeWhile isDigit = []
  · simp only [hnil]
    rfl
  · rw [numeral?_of_digits hnil fun c hc => List.mem_takeWhile_imp hc]
    simp [hnil]

/-! ## Reading the parts -/

namespace IntegerText

variable (i : IntegerText)

theorem exists_digit :
    ∃ digit later, i.digits ++ i.rest = digit :: later ∧ isDigit digit = true := by
  obtain ⟨digit, later, hdigits⟩ := List.exists_cons_of_ne_nil i.digits_ne_nil
  refine ⟨digit, later ++ i.rest, by rw [hdigits, List.cons_append], ?_⟩
  exact i.isDigit_of_mem digit (by simp [hdigits])

theorem trimStart_chars : trimStart i.chars = i.sign.chars ++ (i.digits ++ i.rest) := by
  obtain ⟨digit, later, hunsigned, hdigit⟩ := i.exists_digit
  rw [trimStart, chars, List.dropWhile_append_of_pos i.isBlank_of_mem, hunsigned]
  exact trimStart_append i.sign hdigit later

theorem takeSign_trimStart :
    takeSign (trimStart i.chars) = (i.sign == .minus, i.digits ++ i.rest) := by
  obtain ⟨digit, later, hunsigned, hdigit⟩ := i.exists_digit
  rw [trimStart_chars, hunsigned]
  exact takeSign_append i.sign hdigit later

theorem takeWhile_isDigit : (i.digits ++ i.rest).takeWhile isDigit = i.digits :=
  takeWhile_append_of_head? i.isDigit_of_mem i.isDigit_head

theorem leadingInteger?_text :
    leadingInteger? i.text.toList = (numeral? i.digits).map (withSign (i.sign == .minus)) := by
  rw [text, String.toList_ofList, leadingInteger?_eq, takeSign_trimStart, takeWhile_isDigit]

/-- A text can be taken apart in one way only. -/
theorem text_injective : Function.Injective text := by
  intro i j h
  have hchars : i.chars = j.chars := String.ofList_injective h
  -- trimming stops at the sign or the first digit, so it takes off the same white space
  have hsigned : i.sign.chars ++ (i.digits ++ i.rest) = j.sign.chars ++ (j.digits ++ j.rest) := by
    rw [← trimStart_chars, hchars, trimStart_chars]
  have hunsigned : i.digits ++ i.rest = j.digits ++ j.rest := by
    have htaken := congrArg (fun text => (takeSign (trimStart text)).2) hchars
    simpa only [takeSign_trimStart] using htaken
  have hdigits : i.digits = j.digits := by
    rw [← takeWhile_isDigit, hunsigned, takeWhile_isDigit]
  ext1
  · rw [chars, chars, hsigned] at hchars
    exact List.append_cancel_right hchars
  · rw [hunsigned] at hsigned
    exact Sign.chars_inj (List.append_cancel_right hsigned)
  · exact hdigits
  · rw [hdigits] at hunsigned
    exact List.append_cancel_left hunsigned

end IntegerText

/-- A text from which an integer is read has its parts. -/
theorem exists_integerText {text : List Char} (h : (leadingInteger? text).isSome = true) :
    ∃ i : IntegerText, i.chars = text := by
  obtain ⟨sign, hsign⟩ := exists_sign (trimStart text)
  have hne : (takeSign (trimStart text)).2.takeWhile isDigit ≠ [] := by
    intro hnil
    rw [leadingInteger?_eq, hnil] at h
    cases h
  let i : IntegerText := {
    blanks := text.takeWhile isBlank
    sign := sign
    digits := (takeSign (trimStart text)).2.takeWhile isDigit
    rest := (takeSign (trimStart text)).2.dropWhile isDigit
    isBlank_of_mem := fun c hc => List.mem_takeWhile_imp hc
    digits_ne_nil := hne
    isDigit_of_mem := fun c hc => List.mem_takeWhile_imp hc
    isDigit_head := by
      intro c hc
      have hstop := List.head?_dropWhile_not isDigit (takeSign (trimStart text)).2
      rw [hc] at hstop
      simpa using hstop }
  refine ⟨i, ?_⟩
  rw [IntegerText.chars, List.takeWhile_append_dropWhile, ← hsign]
  exact List.takeWhile_append_dropWhile

theorem leadingInteger?_isSome_iff {s : String} :
    (leadingInteger? s.toList).isSome = true ↔ ∃ i : IntegerText, i.text = s := by
  constructor
  · intro h
    obtain ⟨i, hchars⟩ := exists_integerText h
    exact ⟨i, by rw [IntegerText.text, hchars, String.ofList_toList]⟩
  · rintro ⟨i, rfl⟩
    rw [i.leadingInteger?_text, numeral?_of_digits i.digits_ne_nil i.isDigit_of_mem]
    rfl

/-! ## Slices by byte offsets -/

/-- A slice that cannot be taken. -/
structure BadSlice where
  text : String
  first : Nat
  last : Nat
deriving DecidableEq

/-- The part of a text between two byte offsets. Each of them has to lie between two characters or
    at an end of the text, and they have to be in order. -/
def slice (text : String) (first last : Nat) : Except BadSlice String :=
  if h : (String.Pos.Raw.IsValid text ⟨first⟩ ∧ String.Pos.Raw.IsValid text ⟨last⟩) ∧
      first ≤ last then
    .ok (text.extract ⟨⟨first⟩, h.1.1⟩ ⟨⟨last⟩, h.1.2⟩)
  else .error ⟨text, first, last⟩

theorem slice_append (before part after : String) :
    slice (before ++ part ++ after) before.utf8ByteSize (before ++ part).utf8ByteSize
      = .ok part := by
  -- an offset is valid where whole characters stand before it and after it
  have hfirst : String.Pos.Raw.IsValid (before ++ part ++ after) ⟨before.utf8ByteSize⟩ :=
    String.Pos.Raw.isValid_iff_exists_append.2
      ⟨before, part ++ after, String.append_assoc .., rfl⟩
  have hlast : String.Pos.Raw.IsValid (before ++ part ++ after)
      ⟨(before ++ part).utf8ByteSize⟩ :=
    String.Pos.Raw.isValid_iff_exists_append.2 ⟨before ++ part, after, rfl, rfl⟩
  have hle : before.utf8ByteSize ≤ (before ++ part).utf8ByteSize := by
    rw [String.utf8ByteSize_append]
    exact Nat.le_add_right _ _
  rw [slice, dif_pos ⟨⟨hfirst, hlast⟩, hle⟩]
  refine congrArg Except.ok (String.toByteArray_inj.1 ?_)
  calc (before ++ part ++ after).toByteArray.extract before.utf8ByteSize
        (before ++ part).utf8ByteSize
      = (before.toByteArray ++ (part.toByteArray ++ after.toByteArray)).extract
          (before.toByteArray.size + 0) (before.toByteArray.size + part.toByteArray.size) := by
        simp only [String.toByteArray_append, String.utf8ByteSize_append,
          String.size_toByteArray, ByteArray.append_assoc, Nat.add_zero]
    _ = (part.toByteArray ++ after.toByteArray).extract 0 part.toByteArray.size :=
        ByteArray.extract_append_size_add
    _ = part.toByteArray := ByteArray.extract_append_eq_left rfl

example : (slice "1é" 0 1, slice "1é" 0 2) = (.ok "1", .error ⟨"1é", 0, 2⟩) := by decide

/-- What follows the first character of a text. -/
theorem slice_tail (c : Char) (later : List Char) :
    slice (String.ofList (c :: later)) c.utf8Size (String.ofList (c :: later)).utf8ByteSize
      = .ok (String.ofList later) := by
  have hslice := slice_append (String.singleton c) (String.ofList later) ""
  rw [String.append_empty, String.utf8ByteSize_singleton, String.singleton_eq_ofList,
    ← String.ofList_append] at hslice
  exact hslice

/-! ## Going along the bytes -/

/-- The bytes of a text in UTF-8. -/
def bytesOf (text : String) : List UInt8 := text.toByteArray.data.toList

/-- Whether a byte is the code of an ASCII digit. -/
def isDigitByte (b : UInt8) : Bool := decide (0x30 ≤ b) && decide (b ≤ 0x39)

/-- Take a sign off a text, looking at its first byte; `true` stands for minus. -/
def scanSign (text : String) : Except BadSlice (Bool × String) := do
  match (bytesOf text).head? with
  | some 0x2D => return (true, ← slice text 1 text.utf8ByteSize)
  | some 0x2B => return (false, ← slice text 1 text.utf8ByteSize)
  | _ => return (false, text)

/-- The offset of the first byte that is no digit, or the end. -/
def digitsEnd (text : String) : Nat := (bytesOf text).findIdx (!isDigitByte ·)

/-- The integer at the start of a text, found along its bytes. -/
def scanLeadingInteger (text : String) : Except BadSlice (Option Float) := do
  let (negative, unsigned) ← scanSign (String.ofList (trimStart text.toList))
  let last := digitsEnd unsigned
  if last = 0 then return none
  let digits ← slice unsigned 0 last
  return (numeral? digits.toList).map (withSign negative)

theorem bytesOf_cons (c : Char) (later : List Char) :
    bytesOf (String.ofList (c :: later))
      = String.utf8EncodeChar c ++ bytesOf (String.ofList later) := by
  rw [bytesOf, String.toByteArray_ofList, List.utf8Encode_cons, List.utf8Encode_singleton]
  simp [bytesOf]

theorem length_bytesOf (text : String) : (bytesOf text).length = text.utf8ByteSize := by
  rw [← String.size_toByteArray]
  rfl

theorem isDigitByte_eq_decide (b : UInt8) :
    isDigitByte b = decide (48 ≤ b.toNat ∧ b.toNat ≤ 57) :=
  (Bool.decide_and ..).symm

/-- An ASCII character is its code. The bytes of any other begin with one that is no such code. -/
theorem exists_utf8EncodeChar_eq (c : Char) :
    ∃ b others, String.utf8EncodeChar c = b :: others ∧
      (b.toNat = c.toNat ∧ others = [] ∨ 128 ≤ b.toNat ∧ 128 ≤ c.toNat) := by
  have hcode : c.val.toNat = c.toNat := rfl
  fun_cases String.utf8EncodeChar c with
  | case1 v h =>
      refine ⟨_, _, rfl, .inl ⟨?_, rfl⟩⟩
      rw [UInt8.toNat_ofNat']
      omega
  | _ =>
      refine ⟨_, _, rfl, .inr ?_⟩
      rw [UInt8.toNat_ofNat']
      omega

/-- A first byte that is the code of an ASCII character stands for that character. -/
theorem exists_cons_of_head?_bytesOf {text : List Char} {b : UInt8} (hb : b.toNat < 128)
    (h : (bytesOf (String.ofList text)).head? = some b) :
    ∃ c later, text = c :: later ∧ c.toNat = b.toNat := by
  cases text with
  | nil => cases h
  | cons c later =>
      obtain ⟨first, others, hbytes, hcode⟩ := exists_utf8EncodeChar_eq c
      rw [bytesOf_cons, hbytes] at h
      cases h
      exact ⟨c, later, rfl, by omega⟩

theorem scanSign_ofList (text : List Char) :
    scanSign (String.ofList text)
      = .ok ((takeSign text).1, String.ofList (takeSign text).2) := by
  fun_cases takeSign text with
  | case1 rest =>
      have htail : slice (String.ofList ('-' :: rest)) 1 _ = .ok (String.ofList rest) :=
        slice_tail '-' rest
      rw [scanSign, bytesOf_cons]
      exact congrArg (Except.map (true, ·)) htail
  | case2 rest =>
      have htail : slice (String.ofList ('+' :: rest)) 1 _ = .ok (String.ofList rest) :=
        slice_tail '+' rest
      rw [scanSign, bytesOf_cons]
      exact congrArg (Except.map (false, ·)) htail
  | case3 text hminus hplus =>
      rw [scanSign]
      split
      case h_1 hhead =>
        obtain ⟨c, later, rfl, hcode⟩ := exists_cons_of_head?_bytesOf (by decide) hhead
        exact absurd (congrArg (· :: later) (Char.toNat_inj.1 hcode)) (hminus later)
      case h_2 hhead =>
        obtain ⟨c, later, rfl, hcode⟩ := exists_cons_of_head?_bytesOf (by decide) hhead
        exact absurd (congrArg (· :: later) (Char.toNat_inj.1 hcode)) (hplus later)
      case h_3 => rfl

/-- The bytes up to the first that is no digit are those of the digits. -/
theorem digitsEnd_ofList (text : List Char) :
    digitsEnd (String.ofList text) = (String.ofList (text.takeWhile isDigit)).utf8ByteSize := by
  induction text with
  | nil => rfl
  | cons c later ih =>
      obtain ⟨b, others, hbytes, hcode⟩ := exists_utf8EncodeChar_eq c
      -- from 128 up there is no digit among the characters and none among the bytes
      have hsame : isDigitByte b = isDigit c := by
        rw [isDigitByte_eq_decide, isDigit_eq_decide]
        exact decide_eq_decide.2 (by omega)
      rw [digitsEnd, bytesOf_cons, hbytes, List.cons_append, List.findIdx_cons, hsame]
      cases hdigit : isDigit c with
      | false =>
          rw [List.takeWhile_cons_of_neg (by simp [hdigit])]
          rfl
      | true =>
          have hothers : others = [] := by
            rw [isDigit_eq_decide, decide_eq_true_eq] at hdigit
            exact (hcode.resolve_right (by omega)).2
          rw [List.takeWhile_cons_of_pos hdigit, ← length_bytesOf, bytesOf_cons, hbytes, hothers,
            List.length_append, length_bytesOf, ← ih, digitsEnd]
          exact Nat.add_comm _ 1

theorem digitsEnd_eq_zero_iff {text : List Char} :
    digitsEnd (String.ofList text) = 0 ↔ text.takeWhile isDigit = [] := by
  rw [digitsEnd_ofList, String.utf8ByteSize_eq_zero_iff, String.ofList_eq_empty_iff]

theorem slice_digits (text : List Char) :
    slice (String.ofList text) 0 (digitsEnd (String.ofList text))
      = .ok (String.ofList (text.takeWhile isDigit)) := by
  have hslice := slice_append "" (String.ofList (text.takeWhile isDigit))
    (String.ofList (text.dropWhile isDigit))
  rw [String.empty_append, ← String.ofList_append, List.takeWhile_append_dropWhile] at hslice
  rw [digitsEnd_ofList]
  exact hslice

/-- Along the bytes every slice can be taken, and the same is read. -/
theorem scanLeadingInteger_eq (s : String) :
    scanLeadingInteger s = .ok (leadingInteger? s.toList) := by
  rw [scanLeadingInteger, scanSign_ofList, leadingInteger?_eq]
  simp only [Except.bind, bind, pure, slice_digits, digitsEnd_eq_zero_iff, String.toList_ofList]
  split
  case isTrue hnil =>
    rw [hnil]
    rfl
  case isFalse => rfl

/-! ## The grammar -/

/-- An integer is read from a text exactly if the text is white space, a sign, digits and a rest.
    There is only one way to see the text as that; the number is the one that the digits denote when
    they are read alone, negated after a minus, so that neither the white space nor the rest
    matters; and going along the bytes finds the same and takes no slice that cannot be taken. -/
theorem leadingInteger_keeps_to_grammar :
    (∀ s : String, (leadingInteger? s.toList).isSome = true ↔ ∃ i : IntegerText, i.text = s) ∧
    Function.Injective IntegerText.text ∧
    (∀ i : IntegerText, ∃ x, numeral? i.digits = some x ∧
      leadingInteger? i.text.toList = some (if i.sign = .minus then -x else x)) ∧
    (∀ i j : IntegerText, i.sign = j.sign → i.digits = j.digits →
      leadingInteger? i.text.toList = leadingInteger? j.text.toList) ∧
    ∀ s : String, scanLeadingInteger s = .ok (leadingInteger? s.toList) := by
  refine ⟨fun s => leadingInteger?_isSome_iff, IntegerText.text_injective, fun i => ?_,
    fun i j hsign hdigits => ?_, scanLeadingInteger_eq⟩
  · have hnumeral := numeral?_of_digits i.digits_ne_nil i.isDigit_of_mem
    refine ⟨_, hnumeral, ?_⟩
    rw [i.leadingInteger?_text, hnumeral]
    simp [withSign]
  · rw [i.leadingInteger?_text, j.leadingInteger?_text, hsign, hdigits]

/-- Neither the wide space nor the digit of another script, the point or the exponent matters. -/
theorem leadingInteger_of_two_texts :
    ∃ x, numeral? ['4', '2'] = some x ∧
      leadingInteger? "\u3000-42\u0663".toList = some (-x) ∧
      leadingInteger? "-42.5e9".toList = some (-x) ∧
      scanLeadingInteger "\u3000-42\u0663" = .ok (some (-x)) := by
  have hdigits : ∀ c ∈ ['4', '2'], isDigit c = true := List.all_eq_true.1 rfl
  let i : IntegerText := ⟨['\u3000'], .minus, ['4', '2'], ['\u0663'],
    List.all_eq_true.1 rfl, nofun, hdigits, by rintro c ⟨⟩; rfl⟩
  let j : IntegerText := ⟨[], .minus, ['4', '2'], ['.', '5', 'e', '9'],
    nofun, nofun, hdigits, by rintro c ⟨⟩; rfl⟩
  have hi : i.text = "\u3000-42\u0663" := rfl
  have hj : j.text = "-42.5e9" := rfl
  obtain ⟨-, -, hvalue, hsame, hscan⟩ := leadingInteger_keeps_to_grammar
  obtain ⟨x, hnumeral, hread⟩ := hvalue i
  have hread : leadingInteger? i.text.toList = some (-x) := hread
  refine ⟨x, hnumeral, hi ▸ hread, ?_, ?_⟩
  · rw [← hj, ← hsame i j rfl rfl, hread]
  · rw [← hi, hscan, hread]

/-- No integer stands at the start of these: nothing, a sign alone, two signs, white space behind
    the sign, and a digit of another script. -/
example : ["", "-", "+-1", "- 1", "\u0664"].map (fun s => (leadingInteger? s.toList).isSome)
    = [false, false, false, false, false] := by decide

end SpriteStage
