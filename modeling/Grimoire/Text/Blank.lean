import Grimoire.Text.Ranges

/-!
# Blank characters

The 25 characters with the `White_Space` property. Trimming, the gaps between words and the space
around operators all use this class; the zero-width space and the byte-order mark are not in it.
-/

namespace Grimoire

/-- The characters with the `White_Space` property. -/
def blankRanges : Ranges :=
  [(0x9, 0xD), (0x20, 0x20), (0x85, 0x85), (0xA0, 0xA0), (0x1680, 0x1680), (0x2000, 0x200A),
    (0x2028, 0x2029), (0x202F, 0x202F), (0x205F, 0x205F), (0x3000, 0x3000)]

/-- Whether `c` is white space. -/
def isBlank (c : Char) : Bool :=
  blankRanges.covers c

/-- Every blank that the standard library knows is blank here. -/
theorem isBlank_of_isWhitespace {c : Char} (h : c.isWhitespace = true) : isBlank c = true := by
  simp only [Char.isWhitespace, Bool.or_eq_true, decide_eq_true_eq] at h
  rcases h with ((rfl | rfl) | rfl) | rfl <;> decide

end Grimoire
