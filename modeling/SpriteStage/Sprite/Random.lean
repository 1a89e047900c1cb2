set_option autoImplicit false

/-! # Random numbers

A generator of four 64-bit words that are mixed by rotations and exclusive or. A seed is stretched
into the four words by a linear congruential sequence whose words are permuted by their own top
bits. The same seed always gives the same numbers. -/

namespace SpriteStage

/-- The state of the generator. -/
structure Generator where
  s0 : UInt64
  s1 : UInt64
  s2 : UInt64
  s3 : UInt64
deriving DecidableEq

/-- Rotate a word to the left. -/
def rotateLeft (x : UInt64) (n : UInt64) : UInt64 := (x <<< n) ||| (x >>> (64 - n))

/-- Rotate half a word to the right. -/
def rotateRight32 (x : UInt32) (n : UInt32) : UInt32 := (x >>> n) ||| (x <<< ((32 - n) % 32))

/-- The next state of the sequence that stretches a seed. -/
def stretch (state : UInt64) : UInt64 := state * 6364136223846793005 + 11634580027462260723

/-- Half a word from a state of the stretching sequence. -/
def halfWord (state : UInt64) : UInt32 :=
  rotateRight32 (((state >>> 18) ^^^ state) >>> 27).toUInt32 (state >>> 59).toUInt32

/-- A word from two successive states, the first for its low half, and the second of the states. -/
def stretchWord (state : UInt64) : UInt64 × UInt64 :=
  let low := stretch state
  let high := stretch low
  ((halfWord low).toUInt64 ||| ((halfWord high).toUInt64 <<< 32), high)

namespace Generator

/-- The generator for a seed. -/
def seeded (seed : UInt64) : Generator :=
  let (s0, state) := stretchWord seed
  let (s1, state) := stretchWord state
  let (s2, state) := stretchWord state
  let (s3, _) := stretchWord state
  ⟨s0, s1, s2, s3⟩

/-- The next word, and the generator after it. -/
def next (g : Generator) : UInt64 × Generator :=
  let result := rotateLeft (g.s0 + g.s3) 23 + g.s0
  let shifted := g.s1 <<< 17
  let s2 := g.s2 ^^^ g.s0
  let s3 := g.s3 ^^^ g.s1
  let s1 := g.s1 ^^^ s2
  let s0 := g.s0 ^^^ s3
  (result, ⟨s0, s1, s2 ^^^ shifted, rotateLeft s3 45⟩)

/-- A number from 0 below 1, with 52 random binary places. -/
def unit (word : UInt64) : Float := (word >>> 12).toFloat * (1.0 / 4503599627370496.0)

/-- A number from 0 below the extent. A draw that rounds up to the extent is thrown away; the bound
    on the number of draws is there for extents below which there is nothing, and gives 0. -/
def below (extent : Float) : Nat → Generator → Float × Generator
  | 0, g => (0, g)
  | draws + 1, g =>
    let (word, g) := g.next
    let value := unit word * extent + 0
    if value < extent then (value, g) else below extent draws g

/-- How often a draw is repeated at most. -/
def drawLimit : Nat := 1000

end Generator

end SpriteStage
