import ClassAccess.Text.Split

/-!
# Blank characters

The blank characters are those with the Unicode property `White_Space`. Rule
lines are trimmed and cut into words at blanks and at nothing else.
-/

namespace ClassAccess.Text

/-- First and last code point of every range of the property `White_Space`. -/
def blankRanges : List (Nat × Nat) :=
  [(0x0009, 0x000D), (0x0020, 0x0020), (0x0085, 0x0085), (0x00A0, 0x00A0), (0x1680, 0x1680),
   (0x2000, 0x200A), (0x2028, 0x2029), (0x202F, 0x202F), (0x205F, 0x205F), (0x3000, 0x3000)]

/-- Whether a character lies in one of the blank ranges. -/
def isBlank (c : Char) : Bool :=
  blankRanges.any fun range => range.1 ≤ c.toNat && c.toNat ≤ range.2

/-- The words of a line: its maximal runs of non-blank characters. -/
def words (line : List Char) : List (List Char) :=
  (pieces isBlank line).filter fun piece => !piece.isEmpty

/-- A line without the blanks at its two ends. -/
def trim (line : List Char) : List Char :=
  ((line.dropWhile isBlank).reverse.dropWhile isBlank).reverse

end ClassAccess.Text
