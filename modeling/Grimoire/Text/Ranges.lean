/-!
# Character classes as ranges

A class of characters is a list of inclusive ranges of code points. The classes of the character
standard that the language refers to are kept in this form, one module each.
-/

namespace Grimoire

/-- Inclusive ranges of code points, in increasing order. -/
abbrev Ranges := List (Nat × Nat)

namespace Ranges

/-- Whether the code point of `c` lies in one of the ranges. -/
def covers (ranges : Ranges) (c : Char) : Bool :=
  ranges.any fun range => range.1 ≤ c.toNat && c.toNat ≤ range.2

theorem covers_iff {ranges : Ranges} {c : Char} :
    ranges.covers c = true ↔ ∃ range ∈ ranges, range.1 ≤ c.toNat ∧ c.toNat ≤ range.2 := by
  simp [covers]

end Ranges

end Grimoire
