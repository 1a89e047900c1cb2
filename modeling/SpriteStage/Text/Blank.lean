set_option autoImplicit false

/-! # White space

The characters with the white space property of the Unicode character database, and trimming text
by them. There are 25; core's `Char.isWhitespace` knows the ASCII ones among them. -/

namespace SpriteStage

/-- The ranges of code points with the white space property, ascending. -/
def blankRanges : List (Nat × Nat) :=
  [(0x0009, 0x000D), (0x0020, 0x0020), (0x0085, 0x0085), (0x00A0, 0x00A0), (0x1680, 0x1680),
   (0x2000, 0x200A), (0x2028, 0x2029), (0x202F, 0x202F), (0x205F, 0x205F), (0x3000, 0x3000)]

/-- Whether a character has the white space property. -/
def isBlank (c : Char) : Bool :=
  blankRanges.any fun (first, last) => decide (first ≤ c.toNat) && decide (c.toNat ≤ last)

/-- The text after its leading white space. -/
def trimStart (text : List Char) : List Char := text.dropWhile isBlank

/-- The text without the white space at its two ends. -/
def trim (text : List Char) : List Char := (trimStart (trimStart text).reverse).reverse

end SpriteStage
