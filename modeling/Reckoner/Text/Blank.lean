/-!
# Blank characters

Three sets of characters that look alike and are kept apart. `isBlank` is the
whitespace of Unicode, with the four information separators: a text of blanks
alone is an empty input, and a name ends at the first blank. `isMargin` is the
whitespace without the separators, which may surround a number. `isGap` is the
small part of both that may stand between two tokens.
-/

namespace Reckoner.Text

/-- The blanks as inclusive ranges of code points, in ascending order. -/
def blankRanges : List (Nat × Nat) :=
  [(0x09, 0x0D), (0x1C, 0x20), (0x85, 0x85), (0xA0, 0xA0), (0x1680, 0x1680), (0x2000, 0x200A),
    (0x2028, 0x2029), (0x202F, 0x202F), (0x205F, 0x205F), (0x3000, 0x3000)]

/-- `c` lies in one of the blank ranges. -/
def isBlank (c : Char) : Bool :=
  blankRanges.any fun (low, high) => low ≤ c.toNat && c.toNat ≤ high

/-- The characters that may surround a number: the blanks other than the
information separators. -/
def isMargin (c : Char) : Bool :=
  isBlank c && !(0x1C ≤ c.toNat && c.toNat ≤ 0x1F)

/-- The characters that may separate tokens: space, tab, carriage return, line feed. -/
def isGap (c : Char) : Bool :=
  c == ' ' || c == '\t' || c == '\r' || c == '\n'

/-- Every gap character is a blank. -/
theorem isBlank_of_isGap {c : Char} (h : isGap c = true) : isBlank c = true := by
  simp only [isGap, Bool.or_eq_true, beq_iff_eq] at h
  rcases h with ((rfl | rfl) | rfl) | rfl <;> rfl

/-- `s` has no character that is not blank; the empty text is blank. -/
def isBlankText (s : String) : Bool :=
  s.toList.all isBlank

/-- `s` without the margins at its two ends. -/
def trimMargins (s : List Char) : List Char :=
  ((s.dropWhile isMargin).reverse.dropWhile isMargin).reverse

end Reckoner.Text
