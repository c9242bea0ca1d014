import Grimoire.Program
import Mathlib.Data.List.DropRight

/-!
# Lines and their roles

What a line does depends on its trimmed text alone, and it has one role: an opener neither closes
nor separates a block, and a line that is blank or a comment does nothing to blocks.
-/

namespace Grimoire

namespace Text

/-! ## Trimming -/

/-- Trimming the end leaves no blank at the start if there was none. -/
theorem trimStart_trimEnd {s : Text} (h : trimStart s = s) : trimStart (trimEnd s) = trimEnd s := by
  obtain ⟨rest, hrest⟩ : trimEnd s <+: s := List.rdropWhile_prefix isBlank (l := s)
  cases hend : trimEnd s with
  | nil => rfl
  | cons c inner =>
    have hc : isBlank c = false := by
      rw [← hrest, hend, trimStart, List.dropWhile_eq_self_iff] at h
      simpa using h
    rw [trimStart, List.dropWhile_cons_of_neg (by simp [hc])]

@[simp]
theorem trim_trim (s : Text) : s.trim.trim = s.trim := by
  have hstart : trimStart (trimStart s) = trimStart s :=
    List.dropWhile_idempotent isBlank s
  have hend : trimEnd (trimEnd (trimStart s)) = trimEnd (trimStart s) :=
    List.rdropWhile_idempotent isBlank (trimStart s)
  rw [trim, trim, trimStart_trimEnd hstart, hend]

theorem isIdle_congr {s t : Text} (h : s.trim = t.trim) : s.isIdle = t.isIdle := by
  rw [isIdle, isIdle, h]

/-- A trimmed line is run unless it begins with a slash. -/
theorem isIdle_cons {c : Char} {s : Text} (hc : c ≠ '/') (htrim : Text.trim (c :: s) = c :: s) :
    isIdle (c :: s) = false := by
  rw [isIdle, htrim]
  simp [startsWith, List.isPrefixOf, hc.symm]

theorem role_congr {s t : Text} (h : s.trim = t.trim) : s.role = t.role := by
  have hconclude : s.isConclude = t.isConclude := by rw [isConclude, isConclude, h]
  have hopener : s.isOpener = t.isOpener := by rw [isOpener, isOpener, h]
  have hotherwise : s.isOtherwise = t.isOtherwise := by rw [isOtherwise, isOtherwise, h]
  rw [role, role, hconclude, hopener, hotherwise]

/-! ## First letters -/

/-- Lowering a text keeps what is lowered already. -/
theorem exists_lowerFrom_eq (before done s : Text) :
    ∃ rest, lowerFrom before done s = done.reverse ++ rest := by
  induction s generalizing before done with
  | nil => exact ⟨[], (List.append_nil _).symm⟩
  | cons c s ih =>
    rw [lowerFrom]
    split
    · obtain ⟨rest, hrest⟩ := ih (c :: before) (lowerSigma before s :: done)
      exact ⟨lowerSigma before s :: rest, by rw [hrest]; simp⟩
    · obtain ⟨rest, hrest⟩ := ih (c :: before) ((lowerChar c).reverse ++ done)
      exact ⟨lowerChar c ++ rest, by rw [hrest]; simp⟩

/-- A text that begins with a character of the first block begins so when it is lowered. -/
theorem exists_lowercase_cons {c : Char} (hc : c.toNat < 0x80) (s : Text) :
    ∃ rest, lowercase (c :: s) = c.toLower :: rest := by
  have hsigma : c ≠ 'Σ' := by
    rintro rfl
    exact absurd hc (by decide)
  obtain ⟨rest, hrest⟩ := exists_lowerFrom_eq [c] [c.toLower] s
  refine ⟨rest, ?_⟩
  rw [lowercase, lowerFrom, if_neg hsigma, lowerChar, if_pos hc]
  exact hrest

/-- A text in the first block is lowered character by character. -/
theorem lowerFrom_eq_map {before done s : Text} (h : ∀ c ∈ s, c.toNat < 0x80) :
    lowerFrom before done s = done.reverse ++ s.map Char.toLower := by
  induction s generalizing before done with
  | nil => simp [lowerFrom]
  | cons c s ih =>
    have hc : c.toNat < 0x80 := h c List.mem_cons_self
    have hsigma : c ≠ 'Σ' := by
      rintro rfl
      exact absurd hc (by decide)
    rw [lowerFrom, if_neg hsigma, lowerChar, if_pos hc, ih fun d hd => h d (List.mem_cons_of_mem c hd)]
    simp

/-- A character whose lower-case form is in the first block is in it. -/
theorem toNat_lt_of_toLower {c : Char} (h : c.toLower.toNat < 0x80) : c.toNat < 0x80 := by
  by_cases hupper : c.val ≥ 'A'.val ∧ c.val ≤ 'Z'.val
  · exact Nat.lt_of_le_of_lt hupper.2 (by decide)
  · have hsame : c.toLower = c := dif_neg hupper
    rwa [hsame] at h

/-- The first letters of the words that open blocks. -/
def openerInitials : Text :=
  openers.filterMap List.head?

theorem mem_openerInitials {c : Char} {s : Text} (hc : c.toNat < 0x80)
    (h : openers.any (beginsOpener (lowercase (c :: s))) = true) : c.toLower ∈ openerInitials := by
  obtain ⟨words, hwords, hbegins⟩ := List.any_eq_true.1 h
  obtain ⟨rest, hrest⟩ := exists_lowercase_cons hc s
  rw [beginsOpener, Bool.and_eq_true, startsWith, hrest, List.isPrefixOf_iff_prefix] at hbegins
  have hne : words ≠ [] := by
    rintro rfl
    exact absurd hwords (by decide)
  obtain ⟨first, more, rfl⟩ := List.exists_cons_of_ne_nil hne
  have hfirst : first = c.toLower := (List.cons_prefix_cons.1 hbegins.1).1
  exact List.mem_filterMap.2 ⟨first :: more, hwords, by rw [hfirst]; rfl⟩

theorem initial_of_isOpener {s rest : Text} {c : Char} (hc : c.toNat < 0x80)
    (hs : s.trim = c :: rest) (h : s.isOpener = true) : c.toLower ∈ openerInitials := by
  rw [isOpener, hs] at h
  exact mem_openerInitials hc h

/-! ## One role for each line -/

/-- A separator begins with an `o`. -/
theorem exists_trim_of_isOtherwise {s : Text} (h : s.isOtherwise = true) :
    ∃ c rest, s.trim = c :: rest ∧ c.toLower = 'o' := by
  obtain ⟨word, hword, hnamed⟩ := (Option.any_eq_true _ _).1 h
  have hmap : (trimEnd word).map Char.toLower = "otherwise".toList := by
    simpa [isWordNamed] using hnamed
  obtain ⟨c, inner, hinner⟩ : ∃ c inner, trimEnd word = c :: inner := by
    refine List.exists_cons_of_ne_nil fun hnil => ?_
    rw [hnil] at hmap
    exact absurd hmap (by decide)
  have hc : c.toLower = 'o' := by
    rw [hinner, List.map_cons] at hmap
    exact (List.cons.inj hmap).1
  obtain ⟨blanks, hblanks⟩ : trimEnd word <+: word := List.rdropWhile_prefix isBlank (l := word)
  -- the colon is the last character, so what stands before it begins as the line does
  have hline : s.trim.dropLast = word := by
    unfold dropLast? at hword
    split at hword
    · exact Option.some.inj hword
    · cases hword
  refine ⟨c, ?_⟩
  cases htrim : s.trim with
  | nil =>
    rw [htrim, ← hblanks, hinner] at hline
    cases hline
  | cons d rest =>
    cases rest with
    | nil =>
      rw [htrim, ← hblanks, hinner] at hline
      cases hline
    | cons d' rest =>
      rw [htrim, ← hblanks, hinner, List.dropLast_cons_cons, List.cons_append] at hline
      exact ⟨d' :: rest, by rw [(List.cons.inj hline).1], hc⟩

theorem isOpener_eq_false_of_isConclude {s : Text} (h : s.isConclude = true) :
    s.isOpener = false := by
  have hmap : s.trim.map Char.toLower = "conclude".toList := by
    simpa [isConclude, isWordNamed] using h
  -- only a character of the first block can be lowered into it, so the whole line is in it
  have hfirst : ∀ c ∈ s.trim, c.toNat < 0x80 := by
    intro c hc
    have hmem : c.toLower ∈ "conclude".toList := hmap ▸ List.mem_map_of_mem hc
    have hsmall : ∀ d ∈ "conclude".toList, d.toNat < 0x80 := by simp
    exact toNat_lt_of_toLower (hsmall _ hmem)
  have hlower : lowercase s.trim = "conclude".toList := by
    rw [lowercase, lowerFrom_eq_map hfirst, hmap]
    rfl
  rw [isOpener, hlower]
  decide

theorem isOpener_eq_false_of_isOtherwise {s : Text} (h : s.isOtherwise = true) :
    s.isOpener = false := by
  obtain ⟨c, rest, hs, hc⟩ := exists_trim_of_isOtherwise h
  have hsmall : c.toNat < 0x80 := toNat_lt_of_toLower (by rw [hc]; decide)
  rw [Bool.eq_false_iff]
  intro hopener
  have hinitial := initial_of_isOpener hsmall hs hopener
  -- no opener begins with the letter of `otherwise`
  rw [hc] at hinitial
  exact absurd hinitial (by decide)

theorem isConclude_eq_false_of_isOtherwise {s : Text} (h : s.isOtherwise = true) :
    s.isConclude = false := by
  obtain ⟨c, rest, hs, hc⟩ := exists_trim_of_isOtherwise h
  rw [Bool.eq_false_iff]
  intro hconclude
  have hmap : s.trim.map Char.toLower = "conclude".toList := by
    simpa [isConclude, isWordNamed] using hconclude
  rw [hs, List.map_cons, hc] at hmap
  exact absurd (List.cons.inj hmap).1 (by decide)

theorem role_of_isConclude {s : Text} (h : s.isConclude = true) : s.role = .conclude := by
  rw [role, if_pos h]

theorem role_of_isOpener {s : Text} (h : s.isOpener = true) : s.role = .opener := by
  have hconclude : s.isConclude ≠ true := by
    intro hconclude
    rw [isOpener_eq_false_of_isConclude hconclude] at h
    cases h
  rw [role, if_neg hconclude, if_pos h]

theorem role_eq_opener_iff {s : Text} : s.role = .opener ↔ s.isOpener = true := by
  refine ⟨fun h => ?_, role_of_isOpener⟩
  unfold role at h
  split at h
  · cases h
  · split at h
    · assumption
    · split at h <;> cases h

theorem role_eq_conclude_iff {s : Text} : s.role = .conclude ↔ s.isConclude = true := by
  refine ⟨fun h => ?_, role_of_isConclude⟩
  unfold role at h
  split at h
  · assumption
  · split at h
    · cases h
    · split at h <;> cases h

theorem role_of_isOtherwise {s : Text} (h : s.isOtherwise = true) : s.role = .otherwise := by
  rw [role, isConclude_eq_false_of_isOtherwise h, isOpener_eq_false_of_isOtherwise h, h]
  rfl

theorem role_eq_otherwise_iff {s : Text} : s.role = .otherwise ↔ s.isOtherwise = true := by
  refine ⟨fun h => ?_, role_of_isOtherwise⟩
  unfold role at h
  split at h
  · cases h
  · split at h
    · cases h
    · split at h
      · assumption
      · cases h

theorem role_of_plain {s : Text} (hopener : s.isOpener = false) (hconclude : s.isConclude = false)
    (hotherwise : s.isOtherwise = false) : s.role = .plain := by
  rw [role, hconclude, hopener, hotherwise]
  rfl

/-- Blank lines and comments do nothing to blocks. -/
theorem role_of_isIdle {s : Text} (h : s.isIdle = true) : s.role = .plain := by
  rw [isIdle, Bool.or_eq_true, List.isEmpty_iff, startsWith, List.isPrefixOf_iff_prefix] at h
  rcases h with hs | ⟨rest, hs⟩
  · have hrole : s.role = role [] := role_congr (by rw [hs]; rfl)
    rw [hrole]
    decide
  · have hs : s.trim = '/' :: '/' :: rest := hs.symm
    refine role_of_plain ?_ ?_ ?_
    · rw [Bool.eq_false_iff]
      exact fun hopener => absurd (initial_of_isOpener (by decide) hs hopener) (by decide)
    · rw [isConclude, hs]
      rfl
    · rw [Bool.eq_false_iff]
      intro hotherwise
      obtain ⟨c, rest', hs', hc⟩ := exists_trim_of_isOtherwise hotherwise
      rw [hs] at hs'
      rw [← (List.cons.inj hs').1] at hc
      exact absurd hc (by decide)

end Text

/-! ## Numbered lines -/

/-- The construct that a text opens. -/
def Text.construct? (s : Text) : Option Construct :=
  if s.isOpener then Construct.ofLine? s else none

namespace Line

variable {number : Nat} {texts : List Text}

theorem construct?_mk (number : Nat) (text : Text) :
    (Line.mk ⟨number, text.trim⟩ text.role).construct? = text.trim.construct? := by
  have hrole : text.role = text.trim.role := Text.role_congr (Text.trim_trim text).symm
  unfold construct? Text.construct?
  rw [hrole]
  simp only [Text.role_eq_opener_iff]

/-- The roles of numbered lines are those of their texts. -/
@[simp]
theorem map_role_numberFrom : (numberFrom number texts).map role = texts.map Text.role := by
  induction texts generalizing number with
  | nil => rfl
  | cons text rest ih => rw [numberFrom, List.map_cons, ih, List.map_cons]

theorem take_numberFrom (count : Nat) :
    (numberFrom number texts).take count = numberFrom number (texts.take count) := by
  induction texts generalizing number count with
  | nil => simp [numberFrom]
  | cons text rest ih =>
    cases count with
    | zero => rfl
    | succ count => rw [numberFrom, List.take_succ_cons, ih, List.take_succ_cons, numberFrom]

theorem drop_numberFrom (count : Nat) :
    (numberFrom number texts).drop count = numberFrom (number + count) (texts.drop count) := by
  induction texts generalizing number count with
  | nil => simp [numberFrom]
  | cons text rest ih =>
    cases count with
    | zero => rfl
    | succ count =>
      rw [numberFrom, List.drop_succ_cons, ih, List.drop_succ_cons, Nat.add_right_comm,
        Nat.add_assoc]

end Line

/-! ## The tree of a line and those after it -/

namespace Program

variable {line : Line} {rest : List Line} {c : Construct} {close : Nat}

theorem ofLines_nil : ofLines [] = [] := by
  rw [ofLines]

theorem ofLines_idle (hidle : line.place.text.isIdle = true) :
    ofLines (line :: rest) = ofLines rest := by
  rw [ofLines, if_pos hidle]

theorem ofLines_statement (hidle : line.place.text.isIdle = false) (hc : line.construct? = none) :
    ofLines (line :: rest) = .statement line.place :: ofLines rest := by
  rw [ofLines, hidle, hc]
  rfl

theorem ofLines_unterminated (hidle : line.place.text.isIdle = false)
    (hc : line.construct? = some c) (hclose : Block.close? (rest.map Line.role) = none) :
    ofLines (line :: rest) = [.unterminated line] := by
  rw [ofLines, hidle, hc, hclose]
  rfl

theorem ofLines_block (hidle : line.place.text.isIdle = false) (hc : line.construct? = some c)
    (hclose : Block.close? (rest.map Line.role) = some close) :
    ofLines (line :: rest) = .block line.place c (ofLines (parts c (rest.take close)).1)
      (ofLines (parts c (rest.take close)).2) :: ofLines (rest.drop (close + 1)) := by
  rw [ofLines, hidle, hc, hclose]
  rfl

end Program

end Grimoire
