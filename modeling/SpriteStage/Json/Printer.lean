import SpriteStage.Number.DecimalText
import SpriteStage.Json.Basic
set_option autoImplicit false

/-! # Writing JSON

Two forms of the same text: `Json.compact` on one line without spaces, and `Json.pretty` with one
item or member on a line, indented by two spaces for each level. In both an object keeps the order
of its members. -/

namespace SpriteStage

/-! ## Strings -/

/-- The lower-case hexadecimal digit of a number below 16. -/
def hexDigit (n : Nat) : Char := (Nat.toDigits 16 n).headD '0'

/-- A character inside quotes. Quotes, backslashes and control characters are escaped, all else
    stands for itself. -/
def escaped (c : Char) : String :=
  match c with
  | '"' => "\\\""
  | '\\' => "\\\\"
  | '\x08' => "\\b"
  | '\x0c' => "\\f"
  | '\n' => "\\n"
  | '\r' => "\\r"
  | '\t' => "\\t"
  | c =>
    if c.toNat < 0x20 then
      "\\u00" ++ (hexDigit (c.toNat / 16)).toString ++ (hexDigit (c.toNat % 16)).toString
    else c.toString

/-- A string with its quotes. -/
def quoted (s : String) : String :=
  "\"" ++ s.foldl (fun text c => text ++ escaped c) "" ++ "\""

/-! ## Values -/

/-- The text of a number; one that is not finite is written as `null`. -/
def Number.text : Number → String
  | .int n => toString n
  | .float x => if x.isFinite then decimalText .json x else "null"

namespace Json

mutual

/-- The text of a value without any spaces. -/
def compact : Json → String
  | .null | .unreadable => "null"
  | .bool b => if b then "true" else "false"
  | .number n => n.text
  | .string s => quoted s
  | .array items => "[" ++ compactItems items ++ "]"
  | .object members => "\x7b" ++ compactMembers members ++ "\x7d"

/-- Items with commas between them. -/
def compactItems : List Json → String
  | [] => ""
  | [item] => item.compact
  | item :: rest => item.compact ++ "," ++ compactItems rest

/-- Members with commas between them. -/
def compactMembers : List (String × Json) → String
  | [] => ""
  | [(name, value)] => quoted name ++ ":" ++ value.compact
  | (name, value) :: rest => quoted name ++ ":" ++ value.compact ++ "," ++ compactMembers rest

end

/-- The start of a line at a level of nesting. -/
def newLine (level : Nat) : String := "\n" ++ "".pushn ' ' (2 * level)

mutual

/-- The indented text of a value that stands at a level of nesting. -/
def prettyAt (level : Nat) : Json → String
  | .null | .unreadable => "null"
  | .bool b => if b then "true" else "false"
  | .number n => n.text
  | .string s => quoted s
  | .array [] => "[]"
  | .array (item :: rest) =>
    "[" ++ prettyItems (level + 1) (item :: rest) ++ newLine level ++ "]"
  | .object [] => "\x7b\x7d"
  | .object (member :: rest) =>
    "\x7b" ++ prettyMembers (level + 1) (member :: rest) ++ newLine level ++ "\x7d"

/-- Items, each on a line of its own. -/
def prettyItems (level : Nat) : List Json → String
  | [] => ""
  | [item] => newLine level ++ item.prettyAt level
  | item :: rest => newLine level ++ item.prettyAt level ++ "," ++ prettyItems level rest

/-- Members, each on a line of its own. -/
def prettyMembers (level : Nat) : List (String × Json) → String
  | [] => ""
  | [(name, value)] => newLine level ++ quoted name ++ ": " ++ value.prettyAt level
  | (name, value) :: rest =>
    newLine level ++ quoted name ++ ": " ++ value.prettyAt level ++ ","
      ++ prettyMembers level rest

end

/-- The indented text of a value. -/
def pretty (value : Json) : String := value.prettyAt 0

end Json

end SpriteStage
