import SerialContract.Text.Alphabetic
import SerialContract.Text.Numeric
import SerialContract.Text.Word

/-!
# Classes of characters

Which characters are letters, which may stand in the name of a placeholder, and which make up words.
For ASCII characters the classes are spelt out, all others are looked up in the tables. The names of
placeholders follow a later edition of Unicode than the words that a pattern captures.
-/

namespace SerialContract

/-- Whether a code point lies in one of the ranges, which are in increasing order. -/
def inRanges (n : Nat) : List (Nat × Nat) → Bool
  | [] => false
  | (low, high) :: rest => low ≤ n && (n ≤ high || inRanges n rest)

/-- Whether a character is alphabetic. -/
def isAlphabetic (c : Char) : Bool :=
  if c.toNat < 128 then c.isAlpha else inRanges c.toNat alphabeticRanges

/-- Whether a character is alphabetic or numeric. -/
def isAlphanumeric (c : Char) : Bool :=
  if c.toNat < 128 then c.isAlphanum
  else inRanges c.toNat alphabeticRanges || inRanges c.toNat numericRanges

/-- Whether a character is part of a word: it is alphabetic, a mark, a decimal digit, connecting
punctuation or a control of joined forms. -/
def isWordChar (c : Char) : Bool :=
  if c.toNat < 128 then c.isAlphanum || c == '_' else inRanges c.toNat wordRanges

end SerialContract
