import Grimoire.Nesting
import Grimoire.Pattern
import Grimoire.Text.Digit
import Mathlib.Data.List.Basic

/-!
# Classes of characters

The classes that the recognisers use, compared with each other. Digits and letters are word
characters, and a word character is none of the characters that a scan of an expression looks for.
-/

namespace Grimoire

/-- Whether all characters of a text are of a kind is decided by going through the text, and not
through all characters that there are. -/
instance (priority := 2000) Text.decidableForallMem {p : Char → Prop} [DecidablePred p] (s : Text) :
    Decidable (∀ c ∈ s, p c) :=
  List.decidableBAll p s

/-- A property of the first block of 128 characters, checked one by one. -/
theorem forall_ascii {P : Char → Prop} (h : ∀ n, n < 128 → P (Char.ofNat n)) {c : Char}
    (hc : c.toNat < 128) : P c := by
  have hchar := h c.toNat hc
  rwa [Char.ofNat_toNat] at hchar

namespace Ranges

variable {ranges others : Ranges} {c : Char}

/-- What is in a class that is a part of another class from a code point on. -/
theorem covers_of_within {least : Nat}
    (h : (ranges.all fun r => r.2 < least || others.any fun o => o.1 ≤ r.1 && r.2 ≤ o.2) = true)
    (hleast : least ≤ c.toNat) (hc : ranges.covers c = true) : others.covers c = true := by
  obtain ⟨range, hrange, hlow, hhigh⟩ := covers_iff.1 hc
  have hrange := List.all_eq_true.1 h range hrange
  rw [Bool.or_eq_true, decide_eq_true_eq] at hrange
  rcases hrange with hbelow | hany
  · omega
  obtain ⟨other, hother, hwithin⟩ := List.any_eq_true.1 hany
  rw [Bool.and_eq_true, decide_eq_true_eq, decide_eq_true_eq] at hwithin
  exact covers_iff.2 ⟨other, hother, by omega, by omega⟩

/-- What is in one of two classes that have nothing in common. -/
theorem not_covers_of_apart
    (h : (ranges.all fun r => others.all fun o => r.2 < o.1 || o.2 < r.1) = true)
    (hc : ranges.covers c = true) : others.covers c = false := by
  rw [Bool.eq_false_iff]
  intro hother
  obtain ⟨range, hrange, hlow, hhigh⟩ := covers_iff.1 hc
  obtain ⟨other, hmem, hlow', hhigh'⟩ := covers_iff.1 hother
  have hapart := List.all_eq_true.1 (List.all_eq_true.1 h range hrange) other hmem
  rw [Bool.or_eq_true, decide_eq_true_eq, decide_eq_true_eq] at hapart
  omega

end Ranges

/-! ## Plain characters -/

/-- Whether a character means nothing to the scans of expressions: no blank, no quote or bracket, no
comma or colon and no operator. -/
def isPlain (c : Char) : Bool :=
  !isBlank c && !Nesting.delimits c && c != ',' && c != ':' && (Operator.ofChar? c).isNone

variable {c : Char}

/-- Above the first block only the blanks are not plain. -/
theorem isPlain_of_not_ascii (hc : ¬ c.toNat < 128) (hblank : isBlank c = false) :
    isPlain c = true := by
  have hne : ∀ d : Char, d.toNat < 128 → c ≠ d := by
    rintro d hd rfl
    exact hc hd
  have hdelimits : Nesting.delimits c = false := by
    simp only [Nesting.delimits, decide_eq_false_iff_not, List.mem_cons, List.not_mem_nil, or_false,
      not_or]
    refine ⟨?_, ?_, ?_, ?_, ?_, ?_, ?_, ?_⟩ <;> exact hne _ (by decide)
  have hop : Operator.ofChar? c = none := by
    unfold Operator.ofChar?
    split
    case h_6 => rfl
    all_goals exact absurd rfl (hne _ (by decide))
  simp [isPlain, hblank, hdelimits, hop, hne ',' (by decide), hne ':' (by decide)]

theorem isBlank_of_isPlain (h : isPlain c = true) : isBlank c = false := by
  simp only [isPlain, Bool.and_eq_true, Bool.not_eq_true'] at h
  exact h.1.1.1.1

theorem delimits_of_isPlain (h : isPlain c = true) : Nesting.delimits c = false := by
  simp only [isPlain, Bool.and_eq_true, Bool.not_eq_true'] at h
  exact h.1.1.1.2

theorem ofChar?_of_isPlain (h : isPlain c = true) : Operator.ofChar? c = none := by
  simp only [isPlain, Bool.and_eq_true, Option.isNone_iff_eq_none] at h
  exact h.2

/-! ## Words and digits -/

theorem isPlain_of_isWord (h : isWord c = true) : isPlain c = true := by
  by_cases hc : c.toNat < 128
  · have hall : ∀ n, n < 128 → isWord (Char.ofNat n) = true → isPlain (Char.ofNat n) = true := by
      decide +kernel
    exact forall_ascii (P := fun c => isWord c = true → isPlain c = true) hall hc h
  · rw [isWord, if_neg hc] at h
    refine isPlain_of_not_ascii hc ?_
    exact Ranges.not_covers_of_apart (by decide +kernel) h

theorem isWord_of_isDigit (h : isDigit c = true) : isWord c = true := by
  by_cases hc : c.toNat < 128
  · have hall : ∀ n, n < 128 → isDigit (Char.ofNat n) = true → isWord (Char.ofNat n) = true := by
      decide +kernel
    exact forall_ascii (P := fun c => isDigit c = true → isWord c = true) hall hc h
  · rw [isDigit, if_neg hc] at h
    rw [isWord, if_neg hc]
    exact Ranges.covers_of_within (by decide +kernel) (Nat.le_of_not_lt hc) h

theorem toNat_lt_of_isAlpha (h : c.isAlpha = true) : c.toNat < 128 := by
  have hletter : (decide (c.val ≥ 'A'.val ∧ c.val ≤ 'Z'.val) ||
      decide (c.val ≥ 'a'.val) && decide (c.val ≤ 'z'.val)) = true := h
  rw [Bool.or_eq_true, Bool.and_eq_true, decide_eq_true_eq, decide_eq_true_eq,
    decide_eq_true_eq] at hletter
  rcases hletter with hupper | hlower
  · exact Nat.lt_of_le_of_lt hupper.2 (by decide)
  · exact Nat.lt_of_le_of_lt hlower.2 (by decide)

theorem isWord_of_isAlpha (h : c.isAlpha = true) : isWord c = true := by
  have hall : ∀ n, n < 128 → (Char.ofNat n).isAlpha = true → isWord (Char.ofNat n) = true := by
    decide +kernel
  exact forall_ascii (P := fun c => c.isAlpha = true → isWord c = true) hall
    (toNat_lt_of_isAlpha h) h

theorem isDigit_of_isAlpha (h : c.isAlpha = true) : isDigit c = false := by
  have hall : ∀ n, n < 128 → (Char.ofNat n).isAlpha = true → isDigit (Char.ofNat n) = false := by
    decide +kernel
  exact forall_ascii (P := fun c => c.isAlpha = true → isDigit c = false) hall
    (toNat_lt_of_isAlpha h) h

/-! ## Letters of keywords -/

/-- A character that folds to a letter is one of the two that keywords know outside the first block,
or an ASCII letter. -/
theorem letter_of_isLower_foldCase (h : (foldCase c).isLower = true) :
    c = 'ſ' ∨ c = '\u212a' ∨ c.isAlpha = true := by
  by_cases hs : c = 'ſ'
  · exact .inl hs
  by_cases hk : c = '\u212a'
  · exact .inr (.inl hk)
  refine .inr (.inr ?_)
  rw [foldCase, if_neg hs, if_neg hk] at h
  show (c.isUpper || c.isLower) = true
  rw [Bool.or_eq_true]
  by_cases hupper : c.val ≥ 'A'.val ∧ c.val ≤ 'Z'.val
  · exact .inl (decide_eq_true hupper)
  · have hsame : c.toLower = c := dif_neg hupper
    exact .inr (hsame ▸ h)

theorem isWord_of_isLower_foldCase (h : (foldCase c).isLower = true) : isWord c = true := by
  rcases letter_of_isLower_foldCase h with rfl | rfl | hc
  · decide +kernel
  · decide +kernel
  · exact isWord_of_isAlpha hc

/-- A character that folds to a letter is no blank. -/
theorem isBlank_of_isLower_foldCase (h : (foldCase c).isLower = true) : isBlank c = false :=
  isBlank_of_isPlain (isPlain_of_isWord (isWord_of_isLower_foldCase h))

/-- No digit folds to a letter. -/
theorem isLower_foldCase_of_isDigit (h : isDigit c = true) : (foldCase c).isLower = false := by
  rw [Bool.eq_false_iff]
  intro hlower
  rcases letter_of_isLower_foldCase hlower with rfl | rfl | hc
  · exact absurd h (by decide +kernel)
  · exact absurd h (by decide +kernel)
  · rw [isDigit_of_isAlpha hc] at h
    cases h

end Grimoire
