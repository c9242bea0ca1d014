import Grimoire.Nesting

/-!
# Parts are shorter

The pieces between commas, the values of pairs and the operands of an operator are all parts of
the text they come from; operands are shorter than it, since the operator itself is left out.
-/

namespace Grimoire

namespace Text

theorem length_le_of_mem_rawPieces {n : Nesting} {s piece : Text} (h : piece ∈ rawPieces n s) :
    piece.length ≤ s.length := by
  induction s generalizing n piece with
  | nil =>
    rw [rawPieces, List.mem_singleton] at h
    simp [h]
  | cons c rest ih =>
    rw [rawPieces] at h
    split at h
    · rw [List.mem_cons] at h
      rcases h with rfl | h
      · simp
      · exact Nat.le_succ_of_le (ih h)
    · split at h
      · rw [List.mem_singleton] at h
        simp [h]
      · next first more hmore =>
        rw [List.mem_cons] at h
        rcases h with rfl | h
        · have hfirst : first ∈ rawPieces (n.feed c) rest := by simp [hmore]
          have := ih hfirst
          simpa using this
        · exact Nat.le_succ_of_le (ih (n := n.feed c) (by simp [hmore, h]))

theorem length_le_of_mem_topLevelPieces {s piece : Text} (h : piece ∈ topLevelPieces s) :
    piece.length ≤ s.length := by
  have h : piece ∈ (rawPieces {} s).map trim := by
    rw [topLevelPieces] at h
    split at h
    · exact (List.dropLast_sublist _).mem h
    · exact h
  rw [List.mem_map] at h
  obtain ⟨raw, hraw, rfl⟩ := h
  exact Nat.le_trans (length_trim_le raw) (length_le_of_mem_rawPieces hraw)

theorem length_splitFrom_le {needle : Char} {n : Nesting} {before s first second : Text}
    (h : splitFrom needle n before s = some (first, second)) : second.length ≤ s.length := by
  induction s generalizing n before with
  | nil => simp [splitFrom] at h
  | cons c rest ih =>
    rw [splitFrom] at h
    split at h
    · injection h with h
      injection h with _ h
      simp [h]
    · exact Nat.le_succ_of_le (ih h)

theorem length_splitPair_le (s : Text) : (splitPair s).2.length ≤ s.length := by
  rw [splitPair]
  split
  · next key value h =>
    exact Nat.le_trans (length_trim_le value) (length_splitFrom_le h)
  · simp

theorem place_lt_of_mem_operatorsFrom {n : Nesting} {afterBlank : Bool} {start place : Nat}
    {op : Operator} {s : Text} (h : (place, op) ∈ operatorsFrom n afterBlank start s) :
    place < start + s.length := by
  induction s generalizing n afterBlank start with
  | nil => simp [operatorsFrom] at h
  | cons c rest ih =>
    rw [operatorsFrom] at h
    have hmore : ∀ {n b}, (place, op) ∈ operatorsFrom n b (start + 1) rest →
        place < start + (c :: rest).length := fun h => by
      have := ih h
      simp only [List.length_cons]
      omega
    split at h
    · split at h
      · rw [List.mem_cons] at h
        rcases h with h | h
        · injection h with h
          simp only [List.length_cons]
          omega
        · exact hmore h
      · exact hmore h
    · exact hmore h

theorem place_lt_of_mainOperator? {s : Text} {place : Nat} {op : Operator}
    (h : mainOperator? s = some (place, op)) : place < s.length := by
  have h : (place, op) ∈ operatorsFrom {} false 0 s := by
    rw [mainOperator?] at h
    split at h
    · next additive ha =>
      injection h with h
      subst h
      exact (List.mem_filter.1 (List.mem_of_getLast? ha)).1
    · exact List.mem_of_getLast? h
  simpa using place_lt_of_mem_operatorsFrom h

theorem length_splitBinary?_lt {s left right : Text} {op : Operator}
    (h : splitBinary? s = some (left, op, right)) :
    left.length < s.length ∧ right.length < s.length := by
  simp only [splitBinary?, Option.bind_eq_bind, Option.bind_eq_some_iff] at h
  obtain ⟨⟨place, op'⟩, hop, h⟩ := h
  have hplace := place_lt_of_mainOperator? hop
  simp only at h
  split at h
  · simp at h
  · injection h with h
    injection h with hleft h
    injection h with _ hright
    subst hleft hright
    refine ⟨Nat.lt_of_le_of_lt (length_trim_le _) ?_, Nat.lt_of_le_of_lt (length_trim_le _) ?_⟩
    · simp only [List.length_take]
      omega
    · simp only [List.length_drop]
      omega

end Text

end Grimoire
