import Grimoire.Number.Decimal
import Mathlib.Algebra.Ring.Nat
import Mathlib.Data.List.Basic
import Mathlib.Data.List.Induction

/-!
# Decimal digits of counts

A count is written without leading zeros, so its digits give the count again, and digits are written
again as they were once they are filled up with zeros to their number. Texts of a fixed width rest
on the second fact: only the zeros at their start can be lost.
-/

namespace Grimoire

namespace Text

variable {n : Nat} {c : Char}

/-! ## The digits of a count -/

theorem ofNat_of_lt_ten (h : n < 10) : ofNat n = [Nat.digitChar n] :=
  Nat.toDigits_of_lt_base h

theorem ofNat_of_ten_le (h : 10 ≤ n) : ofNat n = ofNat (n / 10) ++ [Nat.digitChar (n % 10)] :=
  Nat.toDigits_of_base_le (by decide) h

theorem ofNat_ne_nil (n : Nat) : ofNat n ≠ [] :=
  Nat.toDigits_ne_nil

theorem head?_ofNat_ne (hn : 0 < n) : (ofNat n).head? ≠ some '0' := by
  induction n using Nat.strongRecOn with
  | ind n ih =>
    by_cases hsmall : n < 10
    · have hall : ∀ d, d < 10 → 0 < d → [Nat.digitChar d].head? ≠ some '0' := by decide
      rw [ofNat_of_lt_ten hsmall]
      exact hall n hsmall hn
    · rw [ofNat_of_ten_le (by omega), List.head?_append_of_ne_nil _ (ofNat_ne_nil _)]
      exact ih (n / 10) (by omega) (by omega)

theorem isDigit_of_mem_ofNat (hc : c ∈ ofNat n) : c.isDigit = true :=
  Nat.isDigit_of_mem_toDigits (by decide) (by decide) hc

theorem length_ofNat_le_iff {k : Nat} (hk : 0 < k) : (ofNat n).length ≤ k ↔ n < 10 ^ k :=
  Nat.length_toDigits_le_iff (by decide) hk

/-! ## Zeros before the digits -/

variable {width : Nat} {s : Text}

theorem length_padZeros (width : Nat) (s : Text) :
    (padZeros width s).length = max width s.length := by
  rw [padZeros, List.length_append, List.length_replicate]
  omega

theorem padZeros_of_le (h : width ≤ s.length) : padZeros width s = s := by
  rw [padZeros, Nat.sub_eq_zero_of_le h]
  rfl

theorem length_padZeros_ofNat {n : Nat} (hwidth : 0 < width) (hn : n < 10 ^ width) :
    (padZeros width (ofNat n)).length = width := by
  have hlength := (length_ofNat_le_iff hwidth).2 hn
  rw [length_padZeros]
  omega

theorem isDigit_of_mem_padZeros (h : ∀ d ∈ s, d.isDigit = true) (hc : c ∈ padZeros width s) :
    c.isDigit = true := by
  rcases List.mem_append.1 hc with hzero | hc
  · rw [(List.mem_replicate.1 hzero).2]
    decide
  · exact h c hc

end Text

namespace Number

/-! ## The value of digits -/

theorem digitsValue_eq (digits : Text) : digitsValue digits = Nat.ofDigitChars 10 digits 0 := by
  unfold digitsValue Nat.ofDigitChars
  simp only [Nat.mul_comm]

theorem digitsValue_ofNat (n : Nat) : digitsValue (Text.ofNat n) = n := by
  rw [digitsValue_eq]
  exact Nat.ofDigitChars_ten_toDigits

theorem digitsValue_padZeros (width : Nat) (digits : Text) :
    digitsValue (Text.padZeros width digits) = digitsValue digits := by
  rw [digitsValue_eq, digitsValue_eq, Text.padZeros, Nat.ofDigitChars_append,
    Nat.ofDigitChars_replicate_zero, Nat.mul_zero]

theorem digitsValue_append_singleton (digits : Text) (c : Char) :
    digitsValue (digits ++ [c]) = digitsValue digits * 10 + (c.toNat - 48) := by
  unfold digitsValue
  rw [List.foldl_append]
  rfl

/-- A digit is written as it was. -/
theorem digitChar_of_isDigit {c : Char} (h : c.isDigit = true) :
    c.toNat - 48 < 10 ∧ Nat.digitChar (c.toNat - 48) = c := by
  have hrange : 48 ≤ c.toNat ∧ c.toNat ≤ 57 := by
    simp only [Char.isDigit, Bool.and_eq_true, decide_eq_true_eq] at h
    exact ⟨UInt32.le_iff_toNat_le.1 h.1, UInt32.le_iff_toNat_le.1 h.2⟩
  have hlt : c.toNat - 48 < 10 := by omega
  refine ⟨hlt, Char.toNat_inj.1 ?_⟩
  rw [Nat.toNat_digitChar_of_lt_ten hlt]
  omega

/-- Digits are written again as they were, with zeros before them up to their number. -/
theorem padZeros_digitsValue {digits : Text} (hne : digits ≠ [])
    (h : ∀ c ∈ digits, c.isDigit = true) :
    Text.padZeros digits.length (Text.ofNat (digitsValue digits)) = digits := by
  induction digits using List.reverseRecOn with
  | nil => exact absurd rfl hne
  | append_singleton front c ih =>
    obtain ⟨hsmall, hc⟩ := digitChar_of_isDigit (h c (by simp))
    rw [digitsValue_append_singleton, List.length_append, List.length_singleton]
    by_cases hfront : front = []
    · subst hfront
      have hvalue : digitsValue [] * 10 + (c.toNat - 48) = c.toNat - 48 := Nat.zero_add _
      rw [hvalue, Text.ofNat_of_lt_ten hsmall, hc]
      rfl
    have ih := ih hfront fun d hd => h d (by simp [hd])
    have hlength : 0 < front.length := List.length_pos_iff.2 hfront
    -- digits of value zero are all zeros, and before the last digit nothing else is written
    rcases Nat.eq_zero_or_pos (digitsValue front) with hzero | hpos
    · rw [hzero, Text.ofNat_of_lt_ten (by decide), Text.padZeros] at ih
      rw [hzero, Nat.zero_mul, Nat.zero_add, Text.ofNat_of_lt_ten hsmall, hc, Text.padZeros]
      have hzeros : List.replicate front.length '0' = front := by
        rw [List.length_singleton] at ih
        have hsplit : front.length = front.length - 1 + 1 := by omega
        rw [hsplit, List.replicate_add]
        exact ih
      rw [List.length_singleton, Nat.add_sub_cancel, hzeros]
    · have hquotient : (digitsValue front * 10 + (c.toNat - 48)) / 10 = digitsValue front := by
        omega
      have hremainder : (digitsValue front * 10 + (c.toNat - 48)) % 10 = c.toNat - 48 := by omega
      rw [Text.ofNat_of_ten_le (by omega), hquotient, hremainder, hc, Text.padZeros,
        List.length_append, List.length_singleton, Nat.add_sub_add_right, ← List.append_assoc]
      exact congrArg (· ++ [c]) ih

/-- Digits are written again without more zeros exactly if none of them is too small to need all
their places. -/
theorem ofNat_digitsValue_eq_iff {digits : Text} (h : ∀ c ∈ digits, c.isDigit = true)
    (hlength : 1 < digits.length) :
    Text.ofNat (digitsValue digits) = digits ↔ 10 ^ (digits.length - 1) ≤ digitsValue digits := by
  have hne : digits ≠ [] := by
    rintro rfl
    exact absurd hlength (by decide)
  have hpadded := padZeros_digitsValue hne h
  have hshort := Text.length_ofNat_le_iff (n := digitsValue digits) (k := digits.length - 1)
    (by omega)
  constructor
  · intro heq
    by_contra hless
    have hle := hshort.2 (by omega)
    rw [heq] at hle
    omega
  · intro hle
    rw [Text.padZeros_of_le] at hpadded
    · exact hpadded
    · by_contra hlonger
      have hless := hshort.1 (by omega)
      omega

end Number

end Grimoire
