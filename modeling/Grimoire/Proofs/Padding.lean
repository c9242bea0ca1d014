import Grimoire.Text.Shaping
import Mathlib.Tactic.ByContra

/-!
# Padded texts

Copies of a fill are placed one after the other, as many as it takes and no more, and the last of
them is trimmed where it goes beyond the width. On the left side and on the right side the trimmed
end is an end of the copies. In the middle it is the end of the copies behind the text, unless all
copies have gone before the text; then the text itself is trimmed if they go beyond the width.
-/

namespace Grimoire

namespace Text

variable {side : Side} {fill before after missing : Nat}

/-! ## Copies of a text -/

theorem repeated_zero (s : Text) : repeated 0 s = [] := by
  unfold repeated
  split <;> rfl

theorem length_repeated (times : Nat) (s : Text) :
    (repeated times s).length = times * s.length := by
  unfold repeated
  split
  · next hempty =>
    rw [List.isEmpty_iff.1 hempty]
    rfl
  · induction times with
    | zero => simp [Nat.repeat]
    | succ times ih => rw [Nat.repeat, List.length_append, ih, Nat.succ_mul, Nat.add_comm]

theorem filler_length_pos (fill : Text) : 0 < (filler fill).length := by
  unfold filler
  split
  · exact Nat.one_pos
  · next hempty => exact List.length_pos_iff.2 (by simpa using hempty)

/-! ## Placing copies -/

theorem placed_of_pos (hfill : 0 < fill) (hmissing : 0 < missing) :
    placed side fill before after missing =
      if goesAfter side missing then placed side fill before (after + 1) (missing - fill)
      else placed side fill (before + 1) after (missing - fill) := by
  obtain ⟨missing, rfl⟩ := Nat.exists_eq_add_one.2 hmissing
  have hleft : missing - (fill - 1) = missing + 1 - fill := by omega
  rw [placed, hleft]

/-- What holds when nothing is missing, and before a copy is placed if it holds afterwards, holds
however much is missing. -/
theorem missing_induction {motive : Nat → Prop} (hfill : 0 < fill) (done : motive 0)
    (copy : ∀ missing, 0 < missing → motive (missing - fill) → motive missing) (missing : Nat) :
    motive missing := by
  induction missing using Nat.strongRecOn with
  | ind missing ih =>
    rcases Nat.eq_zero_or_pos missing with rfl | hmissing
    · exact done
    · exact copy missing hmissing (ih (missing - fill) (by omega))

/-- The copies placed so far stay. -/
theorem placed_eq_add (hfill : 0 < fill) :
    placed side fill before after missing =
      (before + (placed side fill 0 0 missing).1, after + (placed side fill 0 0 missing).2) := by
  induction missing using missing_induction hfill generalizing before after with
  | done => simp [placed]
  | copy missing hmissing ih =>
    rw [placed_of_pos hfill hmissing, placed_of_pos hfill hmissing]
    split
    · rw [ih, @ih 0 (0 + 1)]
      simp [Nat.add_assoc]
    · rw [ih, @ih (0 + 1) 0]
      simp [Nat.add_assoc]

/-- The copies before a text. -/
def copiesBefore (side : Side) (fill missing : Nat) : Nat :=
  (placed side fill 0 0 missing).1

/-- The copies behind a text. -/
def copiesAfter (side : Side) (fill missing : Nat) : Nat :=
  (placed side fill 0 0 missing).2

theorem copies_zero (side : Side) (fill : Nat) :
    copiesBefore side fill 0 = 0 ∧ copiesAfter side fill 0 = 0 := by
  simp [copiesBefore, copiesAfter, placed]

/-- One step places one copy. -/
theorem copies_step (side : Side) (hfill : 0 < fill) (hmissing : 0 < missing) :
    copiesBefore side fill missing =
        copiesBefore side fill (missing - fill) + (if goesAfter side missing then 0 else 1) ∧
      copiesAfter side fill missing =
        copiesAfter side fill (missing - fill) + (if goesAfter side missing then 1 else 0) := by
  unfold copiesBefore copiesAfter
  rw [placed_of_pos hfill hmissing]
  split
  · rw [placed_eq_add hfill]
    omega
  · rw [placed_eq_add hfill]
    omega

/-- Copies are placed until no character is missing, and the last one is needed. -/
theorem copies_bounds (side : Side) (hfill : 0 < fill) (missing : Nat) :
    missing ≤ (copiesBefore side fill missing + copiesAfter side fill missing) * fill ∧
      (copiesBefore side fill missing + copiesAfter side fill missing) * fill < missing + fill := by
  induction missing using missing_induction hfill with
  | done => simp [copies_zero, hfill]
  | copy missing hmissing ih =>
    obtain ⟨hlow, hhigh⟩ := ih
    obtain ⟨hbefore, hafter⟩ := copies_step side hfill hmissing
    have hcopies : copiesBefore side fill missing + copiesAfter side fill missing =
        copiesBefore side fill (missing - fill) + copiesAfter side fill (missing - fill) + 1 := by
      rw [hbefore, hafter]
      split <;> omega
    rw [hcopies, Nat.succ_mul]
    -- with less than a copy missing there is nothing left to place
    rcases Nat.le_total missing fill with hle | hle
    · rw [Nat.sub_eq_zero_of_le hle] at hlow hhigh ⊢
      simp only [copies_zero, Nat.zero_mul, Nat.add_zero]
      omega
    · omega

theorem copiesAfter_left (hfill : 0 < fill) (missing : Nat) :
    copiesAfter .left fill missing = 0 := by
  induction missing using missing_induction hfill with
  | done => exact (copies_zero _ _).2
  | copy missing hmissing ih =>
    rw [(copies_step .left hfill hmissing).2, ih]
    rfl

theorem copiesBefore_right (hfill : 0 < fill) (missing : Nat) :
    copiesBefore .right fill missing = 0 := by
  induction missing using missing_induction hfill with
  | done => exact (copies_zero _ _).1
  | copy missing hmissing ih =>
    rw [(copies_step .right hfill hmissing).1, ih]
    rfl

/-- In the middle all copies go before the text if an even number of characters is missing at every
step: one copy is enough, or the copies keep the number even. -/
theorem copiesAfter_center_eq_zero_iff (hfill : 0 < fill) (missing : Nat) :
    copiesAfter .center fill missing = 0 ↔
      missing % 2 = 0 ∧ (missing ≤ fill ∨ fill % 2 = 0) := by
  induction missing using missing_induction hfill with
  | done => simp [copies_zero]
  | copy missing hmissing ih =>
    have hgoes : goesAfter .center missing = true ↔ missing % 2 = 1 := by simp [goesAfter]
    rw [(copies_step .center hfill hmissing).2, Nat.add_eq_zero_iff, ih]
    by_cases hodd : missing % 2 = 1
    · rw [if_pos (hgoes.2 hodd)]
      omega
    · -- a copy of even length leaves an even number missing
      rw [if_neg (mt hgoes.1 hodd)]
      omega

/-! ## The padded text -/

/-- Whether copies in the middle all go before the text and beyond the width. -/
def Spills (fill missing : Nat) : Prop :=
  missing % 2 = 0 ∧ (missing ≤ fill ∨ fill % 2 = 0) ∧ ¬ fill ∣ missing

instance (fill missing : Nat) : Decidable (Spills fill missing) :=
  inferInstanceAs (Decidable (_ ∧ _))

/-- The copies before a text in the middle fit in the width unless they spill. -/
theorem copiesBefore_center_le_iff (hfill : 0 < fill) (missing : Nat) :
    copiesBefore .center fill missing * fill ≤ missing ↔ ¬ Spills fill missing := by
  obtain ⟨hlow, hhigh⟩ := copies_bounds .center hfill missing
  rw [Nat.add_mul] at hlow hhigh
  have hzero := copiesAfter_center_eq_zero_iff hfill missing
  by_cases hafter : copiesAfter .center fill missing = 0
  · obtain ⟨heven, hstays⟩ := hzero.1 hafter
    rw [hafter, Nat.zero_mul, Nat.add_zero] at hlow hhigh
    constructor
    · rintro hle ⟨-, -, hnot⟩
      refine hnot ⟨copiesBefore .center fill missing, ?_⟩
      rw [Nat.mul_comm]
      exact Nat.le_antisymm hlow hle
    · intro hspills
      obtain ⟨n, hn⟩ : fill ∣ missing := by
        by_contra hnot
        exact hspills ⟨heven, hstays, hnot⟩
      -- the copies are fewer than one more than fill the gap
      rw [hn, Nat.mul_comm fill n, ← Nat.succ_mul] at hhigh
      rw [hn, Nat.mul_comm fill n]
      exact Nat.mul_le_mul_right _ (Nat.le_of_lt_succ (Nat.lt_of_mul_lt_mul_right hhigh))
  · constructor
    · rintro - ⟨heven, hstays, -⟩
      exact hafter (hzero.2 ⟨heven, hstays⟩)
    · intro _
      have hone := Nat.le_mul_of_pos_left fill (Nat.pos_of_ne_zero hafter)
      omega

/-- A whole text with copies of a fill on a side of it or on both, the last of them trimmed. -/
inductive Padded (s fill : Text) : Side → Text → Prop
  | left {n : Nat} {copies : Text} : copies <:+ repeated n fill →
      Padded s fill .left (copies ++ s)
  | right {n : Nat} {copies : Text} : copies <+: repeated n fill →
      Padded s fill .right (s ++ copies)
  | center {k n : Nat} {copies : Text} : copies <+: repeated n fill →
      Padded s fill .center (repeated k fill ++ s ++ copies)

theorem Padded.self (s fill : Text) (side : Side) : Padded s fill side s := by
  cases side with
  | left => exact .left (n := 0) List.nil_suffix
  | right =>
    have hself := Padded.right (s := s) (n := 0) (List.nil_prefix (l := repeated 0 fill))
    rwa [List.append_nil] at hself
  | center =>
    have hself := Padded.center (s := s) (k := 0) (n := 0) (List.nil_prefix (l := repeated 0 fill))
    rwa [repeated_zero, List.nil_append, List.append_nil] at hself

/-- A text between the copies of a fill that a width takes. -/
def surrounded (s fill : Text) (side : Side) (width : Nat) : Text :=
  repeated (copiesBefore side fill.length (width - s.length)) fill ++ s ++
    repeated (copiesAfter side fill.length (width - s.length)) fill

section Widths

variable {s fill : Text} {width : Nat}

theorem pad_of_le (hmax : width ≤ maxTextLength) (hle : width ≤ s.length) :
    pad s width fill side = .ok s := by
  simp only [pad, if_neg (Nat.not_lt.2 hmax), if_pos hle]

theorem pad_of_lt (hmax : width ≤ maxTextLength) (hlt : s.length < width) :
    pad s width fill side =
      .ok (match side with
        | .left => (surrounded s (filler fill) .left width).drop
            ((surrounded s (filler fill) .left width).length - width)
        | .right => (surrounded s (filler fill) .right width).take width
        | .center => (surrounded s (filler fill) .center width).take width) := by
  simp only [pad, if_neg (Nat.not_lt.2 hmax), if_neg (Nat.not_le.2 hlt)]
  cases side <;> rfl

theorem le_length_surrounded (side : Side) (hfill : 0 < fill.length) (hlt : s.length < width) :
    width ≤ (surrounded s fill side width).length := by
  have hlow := (copies_bounds side hfill (width - s.length)).1
  rw [Nat.add_mul] at hlow
  simp only [surrounded, List.length_append, length_repeated]
  omega

theorem padded_left (hfill : 0 < fill.length) (hlt : s.length < width) :
    Padded s fill .left ((surrounded s fill .left width).drop
      ((surrounded s fill .left width).length - width)) := by
  have hnone : surrounded s fill .left width =
      repeated (copiesBefore .left fill.length (width - s.length)) fill ++ s := by
    rw [surrounded, copiesAfter_left hfill, repeated_zero, List.append_nil]
  rw [hnone, List.drop_append_of_le_length (by rw [List.length_append]; omega)]
  exact .left (List.drop_suffix _ _)

theorem padded_right (hfill : 0 < fill.length) (hlt : s.length < width) :
    Padded s fill .right ((surrounded s fill .right width).take width) := by
  rw [surrounded, copiesBefore_right hfill, repeated_zero, List.nil_append, List.take_append,
    List.take_of_length_le (Nat.le_of_lt hlt)]
  exact .right (List.take_prefix _ _)

theorem padded_center (hfill : 0 < fill.length) (hlt : s.length < width)
    (hfits : ¬ Spills fill.length (width - s.length)) :
    Padded s fill .center ((surrounded s fill .center width).take width) := by
  have hbefore := (copiesBefore_center_le_iff hfill _).2 hfits
  have hwhole : (repeated (copiesBefore .center fill.length (width - s.length)) fill ++ s).length ≤
      width := by
    rw [List.length_append, length_repeated]
    omega
  rw [surrounded, List.take_append, List.take_of_length_le hwhole]
  exact .center (List.take_prefix _ _)

/-- Copies that spill push the end of the text out. -/
theorem exists_lost_of_spills (hfill : 0 < fill.length) (hlt : s.length < width)
    (hspills : Spills fill.length (width - s.length)) :
    ∃ n lost, lost ≠ [] ∧ lost.length < fill.length ∧
      repeated n fill ++ s = (surrounded s fill .center width).take width ++ lost := by
  have hmissing : 0 < width - s.length := Nat.sub_pos_of_lt hlt
  have hafter := (copiesAfter_center_eq_zero_iff hfill _).2 ⟨hspills.1, hspills.2.1⟩
  have hbefore := mt (copiesBefore_center_le_iff hfill _).1 (not_not_intro hspills)
  have hhigh := (copies_bounds .center hfill (width - s.length)).2
  rw [hafter, Nat.add_zero] at hhigh
  have hlength : (surrounded s fill .center width).length =
      copiesBefore .center fill.length (width - s.length) * fill.length + s.length := by
    simp only [surrounded, hafter, List.length_append, length_repeated, Nat.zero_mul, Nat.add_zero]
  refine ⟨copiesBefore .center fill.length (width - s.length),
    (surrounded s fill .center width).drop width, ?_, ?_, ?_⟩
  · rw [← List.length_pos_iff, List.length_drop, hlength]
    omega
  · rw [List.length_drop, hlength]
    omega
  · rw [List.take_append_drop, surrounded, hafter, repeated_zero, List.append_nil]

end Widths

/-- A text padded to a width has as many characters as the width unless it had more before, and it
is the text with copies of the fill on its side or around it. Only in the middle copies may spill;
then all of them stand before the text and the end of the text is trimmed. -/
theorem pad_eq_padded_or_spilled (s fill : Text) {width : Int} (hwidth : width ≤ maxTextLength)
    (side : Side) :
    ∃ t, pad s width.toNat fill side = .ok t ∧ (t.length : Int) = max width s.length ∧
      if side = .center ∧ Spills (filler fill).length (width.toNat - s.length) then
        ∃ n lost, lost ≠ [] ∧ lost.length < (filler fill).length ∧
          repeated n (filler fill) ++ s = t ++ lost
      else Padded s (filler fill) side t := by
  have hmax : width.toNat ≤ maxTextLength := by omega
  have hfill := filler_length_pos fill
  rcases Nat.lt_or_ge s.length width.toNat with hlt | hle
  · have hlong := le_length_surrounded (s := s) side hfill hlt
    refine ⟨_, pad_of_lt hmax hlt, ?_, ?_⟩
    · cases side <;> simp only [List.length_drop, List.length_take] <;> omega
    · cases side with
      | left => rw [if_neg (by simp)]; exact padded_left hfill hlt
      | right => rw [if_neg (by simp)]; exact padded_right hfill hlt
      | center =>
        split
        · next hspills => exact exists_lost_of_spills hfill hlt hspills.2
        · next hfits => exact padded_center hfill hlt fun hspills => hfits ⟨rfl, hspills⟩
  · refine ⟨s, pad_of_le hmax hle, by omega, ?_⟩
    rw [Nat.sub_eq_zero_of_le hle, if_neg fun hspills => hspills.2.2.2 (Nat.dvd_zero _)]
    exact Padded.self s (filler fill) side

/-- With whole copies of a fill of three characters two missing ones spill, and five do not. -/
theorem pad_eq_padded_or_spilled_ab :
    (4 : Int) ≤ maxTextLength ∧ (7 : Int) ≤ maxTextLength ∧
      (∃ t, pad "ab".toList 4 "xyz".toList .center = .ok t ∧
        ∃ n lost, lost ≠ [] ∧ repeated n "xyz".toList ++ "ab".toList = t ++ lost) ∧
      ∃ t, pad "ab".toList 7 "xyz".toList .center = .ok t ∧
        Padded "ab".toList "xyz".toList .center t := by
  have hfour : (4 : Int) ≤ maxTextLength := by decide
  have hseven : (7 : Int) ≤ maxTextLength := by decide
  obtain ⟨t, ht, -, hspilled⟩ :=
    pad_eq_padded_or_spilled "ab".toList "xyz".toList hfour .center
  obtain ⟨u, hu, -, hpadded⟩ :=
    pad_eq_padded_or_spilled "ab".toList "xyz".toList hseven .center
  rw [if_pos (by decide)] at hspilled
  rw [if_neg (by decide)] at hpadded
  obtain ⟨n, lost, hne, -, heq⟩ := hspilled
  exact ⟨hfour, hseven, ⟨t, ht, n, lost, hne, heq⟩, u, hu, hpadded⟩

end Text

end Grimoire
