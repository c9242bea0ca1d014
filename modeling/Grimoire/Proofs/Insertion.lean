import Grimoire.Proofs.Characters
import Grimoire.Proofs.Walker
import Mathlib.Data.List.InsertIdx

/-!
# Inserting a statement

The phrase of every form of statement has a blank or a mark in it, so a statement never closes a
block. Unless it begins as an opener does, it does nothing to blocks: they stay closed by the lines
that closed them. A statement that begins with the words of a reserved opener runs like any other,
but inside a block it takes over the `conclude`.
-/

namespace Grimoire

/-! ## Words that no phrase takes -/

namespace Charset

/-- Whether no letter, folded, belongs to a class. -/
def excludesLetters : Charset → Bool
  | blank => true
  | _ => false

end Charset

namespace Pattern

/-- Whether every way of a pattern takes a character that is not a letter. -/
def takesMark : Pattern → Bool
  | nothing | many _ => false
  | word letters => letters.any fun letter => !(foldCase letter).isLower
  | one set => set.excludesLetters
  | run set least _ => set.excludesLetters && 0 < least
  | andThen first second => first.takesMark || second.takesMark
  | orElse first second => first.takesMark && second.takesMark
  | capture _ body => body.takesMark

end Pattern

theorem Charset.isLower_of_excludesLetters {set : Charset} {c : Char}
    (hset : set.excludesLetters = true) (hc : set.holds c = true) :
    (foldCase c).isLower = false := by
  cases set with
  | blank =>
    rw [Bool.eq_false_iff]
    intro hletter
    rw [holds, isBlank_of_isLower_foldCase hletter] at hc
    cases hc
  | word | initial | any | except => cases hset

namespace Scan

theorem takeWord_suffix {letters : Text} {s t : Scan} (h : s.takeWord letters = some t) :
    t.rest <:+ s.rest := by
  induction letters generalizing s with
  | nil =>
    cases h
    exact List.suffix_rfl
  | cons letter letters ih =>
    obtain ⟨place, rest, spans⟩ := s
    cases rest with
    | nil => cases h
    | cons c rest =>
      rw [takeWord] at h
      split at h
      · exact (ih h).trans (List.suffix_cons c rest)
      · cases h

theorem takeOne_suffix {set : Charset} {s t : Scan} (h : s.takeOne set = some t) :
    t.rest <:+ s.rest := by
  obtain ⟨place, rest, spans⟩ := s
  cases rest with
  | nil => cases h
  | cons c rest =>
    rw [takeOne] at h
    split at h
    · cases h
      exact List.suffix_cons c rest
    · cases h

theorem alongFrom_suffix {set : Charset} {spans : List (Nat × Span)} {place : Nat} {rest : Text}
    {t : Scan} (h : t ∈ alongFrom set spans place rest) : t.rest <:+ rest := by
  induction rest generalizing place with
  | nil =>
    rw [alongFrom, List.mem_singleton] at h
    subst h
    exact List.suffix_rfl
  | cons c rest ih =>
    rw [alongFrom, List.mem_cons] at h
    rcases h with rfl | h
    · exact List.suffix_rfl
    · split at h
      · exact (ih h).trans (List.suffix_cons c rest)
      · cases h

theorem mem_of_mem_takeRun {set : Charset} {least : Nat} {preference : Preference} {s t : Scan}
    (h : t ∈ s.takeRun set least preference) :
    t ∈ (alongFrom set s.spans s.place s.rest).drop least := by
  cases preference <;> simpa [takeRun] using h

theorem takeMany_suffix {step : Scan → List Scan} (hstep : ∀ s, ∀ t ∈ step s, t.rest <:+ s.rest)
    {bound : Nat} {s t : Scan} (h : t ∈ takeMany step bound s) : t.rest <:+ s.rest := by
  induction bound generalizing s with
  | zero =>
    rw [takeMany, List.mem_singleton] at h
    subst h
    exact List.suffix_rfl
  | succ bound ih =>
    rw [takeMany, List.mem_append, List.mem_flatMap, List.mem_singleton] at h
    rcases h with ⟨u, hu, h⟩ | rfl
    · exact (ih h).trans (hstep s u hu)
    · exact List.suffix_rfl

/-- A keyword with a mark in it takes a mark. -/
theorem exists_mark_of_takeWord {letters : Text} {s t : Scan}
    (hmark : ∃ letter ∈ letters, (foldCase letter).isLower = false)
    (h : s.takeWord letters = some t) : ∃ c ∈ s.rest, (foldCase c).isLower = false := by
  induction letters generalizing s with
  | nil =>
    obtain ⟨letter, hletter, -⟩ := hmark
    cases hletter
  | cons letter letters ih =>
    obtain ⟨place, rest, spans⟩ := s
    cases rest with
    | nil => cases h
    | cons c rest =>
      rw [takeWord] at h
      split at h
      · next hc =>
        by_cases hfirst : (foldCase letter).isLower = false
        · exact ⟨c, List.mem_cons_self, hc ▸ hfirst⟩
        obtain ⟨found, hfound, hlower⟩ := hmark
        have htail : found ∈ letters := by
          rcases List.mem_cons.1 hfound with rfl | htail
          · exact absurd hlower hfirst
          · exact htail
        obtain ⟨d, hd, hdlower⟩ := ih ⟨found, htail, hlower⟩ h
        exact ⟨d, List.mem_cons_of_mem c hd, hdlower⟩
      · cases h

theorem exists_mark_of_takeOne {set : Charset} {s t : Scan} (hset : set.excludesLetters = true)
    (h : s.takeOne set = some t) : ∃ c ∈ s.rest, (foldCase c).isLower = false := by
  obtain ⟨place, rest, spans⟩ := s
  cases rest with
  | nil => cases h
  | cons c rest =>
    rw [takeOne] at h
    split at h
    · next hc => exact ⟨c, List.mem_cons_self, Charset.isLower_of_excludesLetters hset hc⟩
    · cases h

theorem exists_mark_of_takeRun {set : Charset} {least : Nat} {preference : Preference}
    {s t : Scan} (hset : set.excludesLetters = true) (hleast : 0 < least)
    (h : t ∈ s.takeRun set least preference) : ∃ c ∈ s.rest, (foldCase c).isLower = false := by
  obtain ⟨fewer, rfl⟩ := Nat.exists_eq_succ_of_ne_zero hleast.ne'
  have hmem := mem_of_mem_takeRun h
  obtain ⟨place, rest, spans⟩ := s
  cases rest with
  | nil => simp [alongFrom] at hmem
  | cons c rest =>
    by_cases hc : set.holds c = true
    · exact ⟨c, List.mem_cons_self, Charset.isLower_of_excludesLetters hset hc⟩
    · simp [alongFrom, hc] at hmem

end Scan

namespace Pattern

/-- A way of a pattern leaves an end of the text. -/
theorem ways_suffix {p : Pattern} {s t : Scan} (h : t ∈ p.ways s) : t.rest <:+ s.rest := by
  induction p generalizing s t with
  | nothing =>
    rw [ways, List.mem_singleton] at h
    subst h
    exact List.suffix_rfl
  | word letters =>
    rw [ways, Option.mem_toList] at h
    exact Scan.takeWord_suffix h
  | one set =>
    rw [ways, Option.mem_toList] at h
    exact Scan.takeOne_suffix h
  | run set least preference =>
    exact Scan.alongFrom_suffix (List.mem_of_mem_drop (Scan.mem_of_mem_takeRun h))
  | andThen first second ihf ihs =>
    rw [ways, List.mem_flatMap] at h
    obtain ⟨u, hu, h⟩ := h
    exact (ihs h).trans (ihf hu)
  | orElse first second ihf ihs =>
    rw [ways, List.mem_append] at h
    exact h.elim ihf ihs
  | many body ih => exact Scan.takeMany_suffix (fun _ _ hu => ih hu) h
  | capture slot body ih =>
    rw [ways, List.mem_map] at h
    obtain ⟨u, hu, rfl⟩ := h
    have hrest : u.rest <:+ s.rest := ih hu
    exact hrest

theorem exists_mark_of_ways {p : Pattern} {s t : Scan} (hp : p.takesMark = true)
    (h : t ∈ p.ways s) : ∃ c ∈ s.rest, (foldCase c).isLower = false := by
  induction p generalizing s t with
  | nothing | many => cases hp
  | word letters =>
    rw [ways, Option.mem_toList] at h
    refine Scan.exists_mark_of_takeWord ?_ h
    simpa [takesMark] using hp
  | one set =>
    rw [ways, Option.mem_toList] at h
    exact Scan.exists_mark_of_takeOne hp h
  | run set least preference =>
    rw [takesMark, Bool.and_eq_true, decide_eq_true_eq] at hp
    exact Scan.exists_mark_of_takeRun hp.1 hp.2 h
  | andThen first second ihf ihs =>
    rw [ways, List.mem_flatMap] at h
    obtain ⟨u, hu, h⟩ := h
    rw [takesMark, Bool.or_eq_true] at hp
    rcases hp with hp | hp
    · exact ihf hp hu
    · obtain ⟨c, hc, hlower⟩ := ihs hp h
      exact ⟨c, (ways_suffix hu).mem hc, hlower⟩
  | orElse first second ihf ihs =>
    rw [ways, List.mem_append] at h
    rw [takesMark, Bool.and_eq_true] at hp
    exact h.elim (ihf hp.1) (ihs hp.2)
  | capture slot body ih =>
    rw [ways, List.mem_map] at h
    obtain ⟨u, hu, -⟩ := h
    exact ih hp hu

end Pattern

namespace Form

theorem takesMark_pattern (form : Form) : form.pattern.takesMark = true := by
  have hall : ∀ form ∈ catalogue, form.pattern.takesMark = true := by decide
  exact hall form (mem_catalogue form)

/-- A line that some form of statement takes has a character that is not a letter. -/
theorem exists_mark_of_classify {line : Text} (h : (classify line).isSome) :
    ∃ c ∈ line.trim, (foldCase c).isLower = false := by
  rw [classify, Option.isSome_map, find?, List.isSome_findSome?, List.any_eq_true] at h
  obtain ⟨form, -, hform⟩ := h
  rw [Option.isSome_map, Pattern.match?, Option.isSome_map, List.find?_isSome] at hform
  obtain ⟨t, ht, -⟩ := hform
  exact Pattern.exists_mark_of_ways (takesMark_pattern form) ht

/-- A statement closes no block. -/
theorem isConclude_of_classify {line : Text} (h : (classify line).isSome) :
    line.isConclude = false := by
  rw [Bool.eq_false_iff]
  intro hconclude
  have hmap : line.trim.map Char.toLower = "conclude".toList := by
    simpa [Text.isConclude, Text.isWordNamed] using hconclude
  obtain ⟨c, hc, hlower⟩ := exists_mark_of_classify h
  have hmem : c.toLower ∈ "conclude".toList := hmap ▸ List.mem_map_of_mem hc
  have hall : ("conclude".toList.all fun d => d.isLower && d != 'ſ' && d != '\u212a') = true := by
    decide
  have hletter := List.all_eq_true.1 hall _ hmem
  rw [Bool.and_eq_true, Bool.and_eq_true, bne_iff_ne, bne_iff_ne] at hletter
  obtain ⟨⟨hlower', hlong⟩, hkelvin⟩ := hletter
  -- the two characters that fold to letters without being one are their own lower case
  have hfold : foldCase c = c.toLower := by
    unfold foldCase
    rw [if_neg, if_neg]
    · rintro rfl
      exact hkelvin (by decide)
    · rintro rfl
      exact hlong (by decide)
  rw [hfold, hlower'] at hlower
  cases hlower

end Form

theorem Text.role_ne_conclude {line : Text} (h : line.isConclude = false) :
    line.role ≠ .conclude := by
  intro hrole
  unfold role at hrole
  rw [h, if_neg Bool.false_ne_true] at hrole
  split at hrole
  · cases hrole
  · split at hrole <;> cases hrole

/-! ## One more role -/

namespace Block

section Roles

variable {depth place position : Nat} {role : Role} {roles : List Role}

/-- A search that does not end at a line goes on behind it, whatever follows. -/
theorem exists_closeFrom_cons {first : Role}
    (h : closeFrom depth (first :: roles) = some (place + 1)) :
    ∃ inner, closeFrom inner roles = some place ∧
      ∀ rest, closeFrom depth (first :: rest) = (closeFrom inner rest).map (· + 1) := by
  have goesOn : ∀ {inner}, (∀ rest, closeFrom depth (first :: rest)
      = (closeFrom inner rest).map (· + 1)) → ∃ inner, closeFrom inner roles = some place ∧
      ∀ rest, closeFrom depth (first :: rest) = (closeFrom inner rest).map (· + 1) := by
    intro inner hinner
    rw [hinner, Option.map_eq_some_iff] at h
    obtain ⟨found, hfound, hplace⟩ := h
    exact ⟨inner, Nat.succ.inj hplace ▸ hfound, hinner⟩
  cases first with
  | opener => exact goesOn fun _ => closeFrom_opener
  | conclude =>
    cases depth with
    | zero => cases h
    | succ depth => exact goesOn fun _ => closeFrom_conclude
  | «otherwise» | plain => exact goesOn fun _ => closeFrom_skip Role.noConfusion Role.noConfusion

/-- Inside one block more the search does not end at the same place. -/
theorem closeFrom_succ_ne (h : closeFrom depth roles = some place) :
    closeFrom (depth + 1) roles ≠ some place := by
  intro hsucc
  obtain ⟨before, after, rfl, rfl, hbefore⟩ := exists_unwinds_of_closeFrom h
  rw [Nat.add_comm, hbefore.closeFrom_append, closeFrom_conclude, Option.map_map,
    Option.map_eq_some_iff] at hsucc
  obtain ⟨found, -, hfound⟩ := hsucc
  simp at hfound

/-- Where a role stands before the end of a block, the end is found one place further exactly if
the role opens no block. -/
theorem closeFrom_insertIdx (hc : role ≠ .conclude) (h : closeFrom depth roles = some place)
    (hposition : position ≤ place) :
    closeFrom depth (roles.insertIdx position role) = some (place + 1) ↔ role ≠ .opener := by
  induction roles generalizing depth place position with
  | nil => simp [closeFrom] at h
  | cons first rest ih =>
    cases position with
    | zero =>
      rw [List.insertIdx_zero]
      by_cases ho : role = .opener
      · rw [ho, closeFrom_opener, Option.map_eq_some_iff]
        simpa using closeFrom_succ_ne h
      · rw [closeFrom_skip ho hc, h]
        simpa using ho
    | succ position =>
      obtain ⟨place, rfl⟩ := Nat.exists_eq_succ_of_ne_zero (Nat.ne_zero_of_lt hposition)
      obtain ⟨inner, hinner, hstep⟩ := exists_closeFrom_cons h
      rw [List.insertIdx_succ_cons, hstep, ← ih hinner (Nat.le_of_succ_le_succ hposition),
        Option.map_eq_some_iff]
      simp

/-- What stands behind the end of a block does not matter to it. -/
theorem closeFrom_insertIdx_of_lt (h : closeFrom depth roles = some place)
    (hposition : place < position) :
    closeFrom depth (roles.insertIdx position role) = some place := by
  induction roles generalizing depth place position with
  | nil => simp [closeFrom] at h
  | cons first rest ih =>
    obtain ⟨position, rfl⟩ := Nat.exists_eq_succ_of_ne_zero (Nat.ne_zero_of_lt hposition)
    rw [List.insertIdx_succ_cons]
    cases place with
    | zero =>
      obtain ⟨before, after, hroles, hbefore, hunwinds⟩ := exists_unwinds_of_closeFrom h
      obtain rfl := List.length_eq_zero_iff.1 hbefore
      obtain ⟨rfl, rfl⟩ := List.cons.inj hroles
      cases hunwinds
      rfl
    | succ place =>
      obtain ⟨inner, hinner, hstep⟩ := exists_closeFrom_cons h
      rw [hstep, ih hinner (Nat.lt_of_succ_lt_succ hposition)]
      rfl

end Roles

/-! ## One more line -/

/-- The index of a line after another was inserted at `position`. -/
def shifted (position index : Nat) : Nat :=
  if index < position then index else index + 1

section Lines

variable {lines : List Text} {line : Text} {opener close position : Nat}

theorem drop_insertIdx {count : Nat} (h : count ≤ position) (hposition : position ≤ lines.length) :
    (lines.insertIdx position line).drop count
      = (lines.drop count).insertIdx (position - count) line := by
  induction count generalizing lines position with
  | zero => rfl
  | succ count ih =>
    obtain ⟨position, rfl⟩ := Nat.exists_eq_succ_of_ne_zero (Nat.ne_zero_of_lt h)
    cases lines with
    | nil => cases hposition
    | cons first rest =>
      rw [List.insertIdx_succ_cons, List.drop_succ_cons, List.drop_succ_cons, Nat.succ_sub_succ]
      exact ih (Nat.le_of_succ_le_succ h) (Nat.le_of_succ_le_succ hposition)

theorem drop_succ_insertIdx {count : Nat} (h : position ≤ count) :
    (lines.insertIdx position line).drop (count + 1) = lines.drop count := by
  induction position generalizing lines count with
  | zero => rw [List.insertIdx_zero, List.drop_succ_cons]
  | succ position ih =>
    obtain ⟨count, rfl⟩ := Nat.exists_eq_succ_of_ne_zero (Nat.ne_zero_of_lt h)
    cases lines with
    | nil => simp
    | cons first rest =>
      rw [List.insertIdx_succ_cons, List.drop_succ_cons, List.drop_succ_cons]
      exact ih (Nat.le_of_succ_le_succ h)

/-- Where a line that is no `conclude` is inserted in the body of a block, the block stays closed by
the line that closed it exactly if the inserted one opens no block. -/
theorem end?_insertIdx_of_inside (hline : line.isConclude = false)
    (hclose : end? lines opener = .ok close) (hopener : opener < position)
    (hposition : position ≤ close) :
    Block.end? (lines.insertIdx position line) opener = .ok (close + 1) ↔ line.isOpener = false := by
  obtain ⟨-, hlength⟩ := bounds_of_end? hclose
  obtain ⟨place, hplace, rfl⟩ := end?_eq_ok_iff.1 hclose
  have hbefore : position - (opener + 1) ≤ place := by omega
  have hfound := closeFrom_insertIdx (Text.role_ne_conclude hline) hplace hbefore
  rw [end?_eq_ok_iff, drop_insertIdx hopener (by omega), List.map_insertIdx, ← Bool.not_eq_true,
    ← Text.role_eq_opener_iff, ← ne_eq, ← hfound]
  constructor
  · rintro ⟨found, hfound, hsame⟩
    obtain rfl : found = place + 1 := by omega
    exact hfound
  · exact fun hfound => ⟨place + 1, hfound, rfl⟩

/-- A line that neither opens nor closes a block leaves every block closed by the line that closed
it, wherever it is inserted. -/
theorem end?_insertIdx (hopens : line.isOpener = false) (hcloses : line.isConclude = false)
    (hclose : end? lines opener = .ok close) (hposition : position ≤ lines.length) :
    Block.end? (lines.insertIdx position line) (shifted position opener)
      = .ok (shifted position close) := by
  obtain ⟨hbelow, -⟩ := bounds_of_end? hclose
  unfold shifted
  by_cases hbefore : position ≤ opener
  · -- the block stands behind the line
    rw [if_neg (by omega), if_neg (by omega), end?_eq_ok_iff, drop_succ_insertIdx (by omega)]
    obtain ⟨place, hplace, rfl⟩ := end?_eq_ok_iff.1 hclose
    exact ⟨place, hplace, by omega⟩
  rw [if_pos (by omega)]
  by_cases hinside : position ≤ close
  · rw [if_neg (by omega)]
    exact (end?_insertIdx_of_inside hcloses hclose (by omega) hinside).2 hopens
  · -- the block is closed before the line
    obtain ⟨place, hplace, rfl⟩ := end?_eq_ok_iff.1 hclose
    rw [if_pos (by omega), end?_eq_ok_iff, drop_insertIdx (by omega) hposition,
      List.map_insertIdx]
    exact ⟨place, closeFrom_insertIdx_of_lt hplace (by omega), rfl⟩

/-- The lines that were there are those at the indices they moved to. -/
theorem getElem?_insertIdx_shifted {index : Nat} :
    (lines.insertIdx position line)[shifted position index]? = lines[index]? := by
  unfold shifted
  by_cases h : index < position
  · rw [if_pos h, List.getElem?_insertIdx_of_lt h]
  · rw [if_neg h, List.getElem?_insertIdx_of_gt (by omega), Nat.add_sub_cancel]

/-- A statement in the body of a block leaves the block closed by the line that closed it exactly
if it does not begin as an opener does, and then it leaves all blocks closed by the lines that
closed them. -/
theorem end?_insertIdx_statement (hclose : end? lines opener = .ok close)
    (hopener : opener < position) (hposition : position ≤ close)
    (hline : (Form.classify line).isSome) :
    (end? (lines.insertIdx position line) opener = .ok (close + 1) ↔ line.isOpener = false) ∧
      (line.isOpener = false → ∀ other stop, end? lines other = .ok stop →
        Block.end? (lines.insertIdx position line) (shifted position other)
            = .ok (shifted position stop) ∧
          (lines.insertIdx position line)[shifted position stop]? = lines[stop]?) := by
  have hcloses := Form.isConclude_of_classify hline
  obtain ⟨-, hlength⟩ := bounds_of_end? hclose
  refine ⟨end?_insertIdx_of_inside hcloses hclose hopener hposition, ?_⟩
  intro hopens other stop hstop
  exact ⟨end?_insertIdx hopens hcloses hstop (by omega), getElem?_insertIdx_shifted⟩

end Lines

/-- `whence is 3 ok` in the body of a conditional. -/
theorem end?_insertIdx_whence :
    Block.end? ["when truth:".toList, "conclude".toList] 0 = .ok 1 ∧
      (Form.classify "whence is 3 ok".toList).isSome ∧
      Block.end? ["when truth:".toList, "whence is 3 ok".toList, "conclude".toList] 0 = .ok 2 := by
  have hclose : end? ["when truth:".toList, "conclude".toList] 0 = .ok 1 := by rfl
  have hline : (Form.classify "whence is 3 ok".toList).isSome := by decide
  have hopens : Text.isOpener "whence is 3 ok".toList = false := by decide
  exact ⟨hclose, hline,
    (end?_insertIdx_statement hclose Nat.one_pos (Nat.le_refl 1) hline).1.2 hopens⟩

/-- `count` may be a variable, but a statement that binds it takes over the `conclude` of the block
around. -/
theorem end?_insertIdx_count :
    Block.end? ["when truth:".toList, "conclude".toList] 0 = .ok 1 ∧
      Form.classify "count is 5 ok".toList = some (.computation .assign) ∧
      Construct.ofLine? "count is 5 ok".toList = none ∧
      Block.end? (["when truth:".toList, "conclude".toList].insertIdx 1 "count is 5 ok".toList) 0
        ≠ .ok 2 := by
  decide

end Block

end Grimoire
