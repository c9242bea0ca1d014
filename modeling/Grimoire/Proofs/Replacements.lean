import Grimoire.Text.Basic
import Mathlib.Data.List.Basic

/-!
# Replacing by cutting and joining

Occurrences are found from the left and without overlap: a text is passed character by character
until an occurrence begins, and is taken up again behind it. The two steps are the equations by
which occurrences are counted and replaced.
-/

namespace Grimoire

namespace Text

variable {needle new s : Text} {c : Char}

/-! ## Cutting -/

/-- What has been read before stands in front of what is still cut. -/
theorem cutFrom_eq (needle : Text) (skip : Nat) (piece : Text) (done : List Text) (s : Text) :
    cutFrom needle skip piece done s =
      done.reverse ++ (cutFrom needle skip [] [] s).modifyHead (piece.reverse ++ ·) := by
  induction s generalizing skip piece done with
  | nil => simp [cutFrom]
  | cons c s ih =>
    cases skip with
    | succ left => exact ih left piece done
    | zero =>
      rw [cutFrom, cutFrom]
      split
      · rw [ih _ [] (piece.reverse :: done), ih _ [] [[].reverse]]
        simp
      · rw [ih 0 (c :: piece) done, ih 0 [c] []]
        cases cutFrom needle 0 [] [] s <;> simp

/-- The characters of an occurrence are passed over. -/
theorem cutFrom_skip (needle : Text) (piece : Text) (done : List Text) (t s : Text) :
    cutFrom needle t.length piece done (t ++ s) = cutFrom needle 0 piece done s := by
  induction t with
  | nil => rfl
  | cons c t ih => exact ih

theorem cut_ne_nil (needle s : Text) : cut needle s ≠ [] := by
  suffices h : ∀ skip, cutFrom needle skip [] [] s ≠ [] from h 0
  induction s with
  | nil => simp [cutFrom]
  | cons c s ih =>
    intro skip
    cases skip with
    | succ left => exact ih left
    | zero =>
      rw [cutFrom]
      split <;> rw [cutFrom_eq] <;> simp [ih]

theorem cut_nil (needle : Text) : cut needle [] = [[]] := rfl

/-- Behind an occurrence a text is cut anew. -/
theorem cut_append (hne : needle ≠ []) (s : Text) :
    cut needle (needle ++ s) = [] :: cut needle s := by
  cases needle with
  | nil => exact absurd rfl hne
  | cons d t =>
    have hstart : (d :: t).isPrefixOf (d :: (t ++ s)) = true :=
      List.isPrefixOf_iff_prefix.2 (List.prefix_append (d :: t) s)
    rw [cut, List.cons_append, cutFrom, if_pos hstart, List.length_cons, Nat.add_sub_cancel,
      cutFrom_skip, cutFrom_eq, cut]
    cases cutFrom (d :: t) 0 [] [] s <;> rfl

/-- A character at which no occurrence begins belongs to the first piece. -/
theorem cut_cons (h : ¬ needle <+: c :: s) :
    cut needle (c :: s) = (cut needle s).modifyHead (c :: ·) := by
  rw [← List.isPrefixOf_iff_prefix] at h
  rw [cut, cutFrom, if_neg h, cutFrom_eq]
  rfl

/-! ## Counting -/

theorem occurrences_nil (needle : Text) : occurrences needle [] = 0 := by
  rw [occurrences, cut_nil]
  split <;> rfl

theorem occurrences_append (hne : needle ≠ []) (s : Text) :
    occurrences needle (needle ++ s) = occurrences needle s + 1 := by
  have hempty : ¬ needle.isEmpty = true := by simpa using hne
  have hpos := List.length_pos_iff.2 (cut_ne_nil needle s)
  rw [occurrences, occurrences, if_neg hempty, if_neg hempty, cut_append hne, List.length_cons]
  omega

theorem occurrences_cons (h : ¬ needle <+: c :: s) :
    occurrences needle (c :: s) = occurrences needle s := by
  rw [occurrences, occurrences, cut_cons h, List.length_modifyHead]

/-! ## Replacing -/

theorem join_cons (sep piece : Text) {pieces : List Text} (h : pieces ≠ []) :
    join sep (piece :: pieces) = piece ++ sep ++ join sep pieces :=
  List.intercalate_cons_of_ne_nil h

theorem replace_nil (hne : needle ≠ []) (new : Text) : replace needle new [] = [] := by
  rw [replace, if_neg (by simpa using hne), cut_nil]
  rfl

theorem replace_append (hne : needle ≠ []) (new s : Text) :
    replace needle new (needle ++ s) = new ++ replace needle new s := by
  have hempty : ¬ needle.isEmpty = true := by simpa using hne
  rw [replace, replace, if_neg hempty, if_neg hempty, cut_append hne,
    join_cons new [] (cut_ne_nil needle s), List.nil_append]

theorem replace_cons (hne : needle ≠ []) (new : Text) (h : ¬ needle <+: c :: s) :
    replace needle new (c :: s) = c :: replace needle new s := by
  have hempty : ¬ needle.isEmpty = true := by simpa using hne
  rw [replace, replace, if_neg hempty, if_neg hempty, cut_cons h]
  cases hcut : cut needle s with
  | nil => exact absurd hcut (cut_ne_nil needle s)
  | cons piece pieces => exact List.intercalate_cons_cons_left

/-! ## Characters at which no occurrence begins -/

theorem not_prefix_of_ne {d : Char} {t : Text} (h : c ≠ d) : ¬ d :: t <+: c :: s := by
  rintro ⟨u, hu⟩
  exact h (List.cons.inj hu).1.symm

theorem occurrences_of_not_mem {d : Char} {t : Text} (hd : d ∉ s) (u : Text) :
    occurrences (d :: t) (s ++ u) = occurrences (d :: t) u := by
  induction s with
  | nil => rfl
  | cons c s ih =>
    rw [List.mem_cons, not_or] at hd
    rw [List.cons_append, occurrences_cons (not_prefix_of_ne (Ne.symm hd.1)), ih hd.2]

theorem replace_of_not_mem {d : Char} {t : Text} (new : Text) (hd : d ∉ s) (u : Text) :
    replace (d :: t) new (s ++ u) = s ++ replace (d :: t) new u := by
  induction s with
  | nil => rfl
  | cons c s ih =>
    rw [List.mem_cons, not_or] at hd
    rw [List.cons_append, replace_cons (List.cons_ne_nil d t) new (not_prefix_of_ne (Ne.symm hd.1)),
      ih hd.2, List.cons_append]

end Text

end Grimoire
