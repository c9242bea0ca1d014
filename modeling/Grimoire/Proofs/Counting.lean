import Grimoire.Proofs.Walker
import Mathlib.Order.Bounds.Basic

/-!
# Blocks by counting

The search for the end of a block counts the blocks that are open. What it finds can be said without
the search: the first `conclude` before which, behind the line that the search begins at, as many
blocks are closed as opened. So the blocks of any lines, however unbalanced, are disjoint or one
inside the other.
-/

namespace Grimoire

namespace Block

/-! ## Counts of roles -/

section Roles

variable {depth place : Nat} {roles : List Role}

/-- Roles close as many blocks more than they open as they unwind. -/
theorem Unwinds.count_conclude (h : Unwinds depth roles) :
    roles.count .conclude = roles.count .opener + depth := by
  induction h with
  | nil => rfl
  | skip ho hc _ ih => rw [List.count_cons_of_ne hc, List.count_cons_of_ne ho, ih]
  | opener _ ih =>
    rw [List.count_cons_of_ne Role.noConfusion, List.count_cons_self, ih]
    omega
  | conclude _ ih =>
    rw [List.count_cons_self, List.count_cons_of_ne Role.noConfusion, ih]
    omega

/-- Before a `conclude` among roles that unwind some blocks, fewer are closed. -/
theorem Unwinds.count_conclude_lt (h : Unwinds depth roles)
    (hplace : roles[place]? = some .conclude) :
    (roles.take place).count .conclude < (roles.take place).count .opener + depth := by
  induction h generalizing place with
  | nil => cases hplace
  | skip ho hc _ ih =>
    cases place with
    | zero => exact absurd (Option.some.inj hplace) hc
    | succ place =>
      rw [List.take_succ_cons, List.count_cons_of_ne hc, List.count_cons_of_ne ho]
      exact ih hplace
  | opener _ ih =>
    cases place with
    | zero => cases hplace
    | succ place =>
      have hless := ih hplace
      rw [List.take_succ_cons, List.count_cons_of_ne Role.noConfusion, List.count_cons_self]
      omega
  | conclude _ ih =>
    cases place with
    | zero => exact Nat.succ_pos _
    | succ place =>
      have hless := ih hplace
      rw [List.take_succ_cons, List.count_cons_self, List.count_cons_of_ne Role.noConfusion]
      omega

/-- At a `conclude` the blocks closed before it, less those opened, are as many as `depth`. -/
def ClosesFrom (depth : Nat) (roles : List Role) (place : Nat) : Prop :=
  roles[place]? = some .conclude ∧
    (roles.take place).count .conclude = (roles.take place).count .opener + depth

/-- Where the counts say that a block ends, the search ends if it has not ended before. -/
theorem ClosesFrom.isSome (h : ClosesFrom depth roles place) : (closeFrom depth roles).isSome := by
  induction roles generalizing depth place with
  | nil => cases h.1
  | cons role rest ih =>
    cases place with
    | zero =>
      obtain ⟨hrole, hcount⟩ := h
      obtain rfl := Option.some.inj hrole
      obtain rfl : depth = 0 := by simpa using hcount.symm
      rfl
    | succ place =>
      obtain ⟨hrole, hcount⟩ := h
      rw [List.take_succ_cons] at hcount
      cases role with
      | opener =>
        rw [List.count_cons_of_ne Role.noConfusion, List.count_cons_self] at hcount
        rw [closeFrom_opener, Option.isSome_map]
        exact ih ⟨hrole, by omega⟩
      | conclude =>
        rw [List.count_cons_self, List.count_cons_of_ne Role.noConfusion] at hcount
        cases depth with
        | zero => rfl
        | succ depth =>
          rw [closeFrom_conclude, Option.isSome_map]
          exact ih ⟨hrole, by omega⟩
      | «otherwise» | plain =>
        rw [List.count_cons_of_ne Role.noConfusion, List.count_cons_of_ne Role.noConfusion] at hcount
        rw [closeFrom_skip Role.noConfusion Role.noConfusion, Option.isSome_map]
        exact ih ⟨hrole, hcount⟩

/-- A search that ends does so whatever follows. -/
theorem closeFrom_append_of_some {more : List Role} (h : closeFrom depth roles = some place) :
    closeFrom depth (roles ++ more) = some place := by
  obtain ⟨before, after, rfl, rfl, hbefore⟩ := exists_unwinds_of_closeFrom h
  rw [List.append_assoc, ← Nat.zero_add depth, hbefore.closeFrom_append]
  simp [closeFrom]

/-- A block that is opened among closed lines is closed behind its opener. -/
theorem AllClosed.isSome (h : AllClosed roles) (hplace : roles[place]? = some .opener) :
    (close? (roles.drop (place + 1))).isSome := by
  induction roles generalizing place with
  | nil => cases hplace
  | cons role rest ih =>
    cases place with
    | zero => exact h.1 (Option.some.inj hplace)
    | succ place => exact ih h.2 hplace

theorem isLeast_of_closeFrom (h : closeFrom depth roles = some place) :
    IsLeast {p | ClosesFrom depth roles p} place := by
  obtain ⟨before, after, rfl, rfl, hbefore⟩ := exists_unwinds_of_closeFrom h
  constructor
  · refine ⟨by simp, ?_⟩
    rw [List.take_left]
    exact hbefore.count_conclude
  · rintro p ⟨hp, hcount⟩
    by_contra hlt
    rw [not_le] at hlt
    -- an earlier `conclude` stands among roles that unwind, where fewer blocks are closed
    rw [List.getElem?_append_left hlt] at hp
    rw [List.take_append_of_le_length (Nat.le_of_lt hlt)] at hcount
    have hless := hbefore.count_conclude_lt hp
    omega

/-- The search ends at the first `conclude` at which the counts say that the block ends. -/
theorem closeFrom_eq_some_iff :
    closeFrom depth roles = some place ↔ IsLeast {p | ClosesFrom depth roles p} place := by
  refine ⟨isLeast_of_closeFrom, fun h => ?_⟩
  obtain ⟨found, hfound⟩ := Option.isSome_iff_exists.1 (ClosesFrom.isSome h.1)
  rw [hfound, (isLeast_of_closeFrom hfound).unique h]

end Roles

/-! ## Counts of lines -/

/-- The lines strictly between two indices. -/
def inside (lines : List Text) (start stop : Nat) : List Text :=
  (lines.take stop).drop (start + 1)

/-- Strictly between two indices as many blocks are opened as closed. -/
def Level (lines : List Text) (start stop : Nat) : Prop :=
  (inside lines start stop).countP Text.isOpener = (inside lines start stop).countP Text.isConclude

/-- The line at an index is of a kind. -/
def Stands (kind : Text → Bool) (lines : List Text) (index : Nat) : Prop :=
  ∃ line, lines[index]? = some line ∧ kind line = true

/-- A `conclude` behind an index, with as many blocks opened as closed in between. -/
structure Closes (lines : List Text) (opener close : Nat) : Prop where
  lt : opener < close
  stands : Stands Text.isConclude lines close
  level : Level lines opener close

end Block

namespace Text

/-- Roles are counted by counting the lines that have them. -/
theorem count_map_role {r : Role} {p : Text → Bool} (h : ∀ s, role s = r ↔ p s = true)
    (lines : List Text) : (lines.map role).count r = lines.countP p := by
  rw [List.count, List.countP_map]
  refine List.countP_congr fun line _ => ?_
  rw [Function.comp_apply, beq_iff_eq, h]

end Text

namespace Block

section Lines

variable {lines : List Text} {opener close start stop index : Nat}

/-- The roles behind a line up to another are those of the lines between the two. -/
theorem take_roles (place : Nat) :
    ((lines.drop (opener + 1)).map Text.role).take place
      = (inside lines opener (opener + 1 + place)).map Text.role := by
  rw [← List.map_take, inside, List.drop_take, Nat.add_sub_cancel_left]

theorem getElem?_roles (place : Nat) :
    ((lines.drop (opener + 1)).map Text.role)[place]?
      = lines[opener + 1 + place]?.map Text.role := by
  rw [List.getElem?_map, List.getElem?_drop]

theorem stands_iff_of_role {kind : Text → Bool} {role : Role}
    (h : ∀ s : Text, s.role = role ↔ kind s = true) :
    Stands kind lines index ↔ lines[index]?.map Text.role = some role := by
  rw [Option.map_eq_some_iff]
  exact exists_congr fun line => and_congr_right fun _ => (h line).symm

/-- Where a block ends is the same by its lines and by their roles. -/
theorem closes_add_iff (place : Nat) : Closes lines opener (opener + 1 + place) ↔
    ClosesFrom 0 ((lines.drop (opener + 1)).map Text.role) place := by
  rw [ClosesFrom, getElem?_roles, take_roles,
    Text.count_map_role fun _ => Text.role_eq_opener_iff,
    Text.count_map_role fun _ => Text.role_eq_conclude_iff,
    ← stands_iff_of_role fun _ => Text.role_eq_conclude_iff]
  constructor
  · rintro ⟨-, hconclude, hlevel⟩
    exact ⟨hconclude, hlevel.symm⟩
  · rintro ⟨hconclude, hlevel⟩
    exact ⟨by omega, hconclude, hlevel.symm⟩

/-- A block ends at the first `conclude` at which as many blocks are opened as closed. -/
theorem end?_eq_ok_iff_isLeast :
    Block.end? lines opener = .ok close ↔ IsLeast {c | Closes lines opener c} close := by
  constructor
  · intro hclose
    obtain ⟨place, hplace, rfl⟩ := end?_eq_ok_iff.1 hclose
    obtain ⟨hcloses, hfirst⟩ := closeFrom_eq_some_iff.1 hplace
    refine ⟨(closes_add_iff place).2 hcloses, fun c hc => ?_⟩
    obtain ⟨p, rfl⟩ := Nat.exists_eq_add_of_lt hc.lt
    rw [Nat.add_right_comm] at hc ⊢
    have hle := hfirst ((closes_add_iff p).1 hc)
    omega
  · rintro ⟨hcloses, hfirst⟩
    obtain ⟨place, rfl⟩ := Nat.exists_eq_add_of_lt hcloses.lt
    rw [Nat.add_right_comm] at hcloses hfirst ⊢
    refine end?_eq_ok_iff.2
      ⟨place, closeFrom_eq_some_iff.2 ⟨(closes_add_iff place).1 hcloses, ?_⟩, rfl⟩
    intro p hp
    have hle := hfirst ((closes_add_iff p).2 hp)
    omega

/-- A block that no line closes is reported at the line that opens it. -/
theorem end?_eq_error_iff {fault : Fault} : end? lines opener = .error fault ↔
    fault = .unterminatedBlock (Text.openerName (lines.getD opener [])) (opener + 1) ∧
      ∀ c, ¬ Closes lines opener c := by
  have hnever : (∀ c, ¬ Closes lines opener c) ↔
      close? ((lines.drop (opener + 1)).map Text.role) = none := by
    constructor
    · intro hnot
      rw [Option.eq_none_iff_forall_ne_some]
      intro place hplace
      exact hnot _ ((closes_add_iff place).2 (closeFrom_eq_some_iff.1 hplace).1)
    · intro hnone c hc
      obtain ⟨place, rfl⟩ := Nat.exists_eq_add_of_lt hc.lt
      rw [Nat.add_right_comm] at hc
      have hsome := ((closes_add_iff place).1 hc).isSome
      rw [close?] at hnone
      rw [hnone] at hsome
      cases hsome
  rw [hnever, end?]
  cases close? ((lines.drop (opener + 1)).map Text.role) with
  | none => simp [eq_comm]
  | some place => simp

/-! ## Two blocks -/

/-- A block is found in the lines up to some line if it is closed there. -/
theorem end?_of_end?_take (h : end? (lines.take stop) opener = .ok close) :
    Block.end? lines opener = .ok close := by
  obtain ⟨hlt, hlength⟩ := bounds_of_end? h
  obtain ⟨place, hplace, rfl⟩ := end?_eq_ok_iff.1 h
  have hsplit : lines.drop (opener + 1) =
      (lines.take stop).drop (opener + 1) ++ lines.drop stop := by
    rw [← List.drop_append_of_le_length (by omega), List.take_append_drop]
  refine end?_eq_ok_iff.2 ⟨place, ?_, rfl⟩
  rw [hsplit, List.map_append]
  exact closeFrom_append_of_some hplace

/-- The body of a block is balanced. -/
theorem unwinds_inside (h : end? lines opener = .ok close) :
    Unwinds 0 ((inside lines opener close).map Text.role) := by
  obtain ⟨place, hplace, rfl⟩ := end?_eq_ok_iff.1 h
  obtain ⟨before, after, hroles, rfl, hbefore⟩ := exists_unwinds_of_closeFrom hplace
  rw [← take_roles, hroles, List.take_left]
  exact hbefore

/-- A block that is opened among lines that unwind some is closed among them. -/
theorem exists_end?_take {depth : Nat}
    (h : Unwinds depth ((inside lines start stop).map Text.role)) (hstart : start < opener)
    (hstop : opener < stop) (hopener : Stands Text.isOpener lines opener) :
    ∃ close, end? (lines.take stop) opener = .ok close := by
  obtain ⟨line, hline, hopens⟩ := hopener
  obtain ⟨place, rfl⟩ := Nat.exists_eq_add_of_lt hstart
  have hrole : ((inside lines start stop).map Text.role)[place]? = some .opener := by
    rw [List.getElem?_map, inside, List.getElem?_drop, Nat.add_right_comm,
      List.getElem?_take_of_lt hstop, hline, Option.map_some, Text.role_of_isOpener hopens]
  have hrest : ((lines.take stop).drop (start + place + 1 + 1)).map Text.role
      = ((inside lines start stop).map Text.role).drop (place + 1) := by
    rw [← List.map_drop, inside, List.drop_drop]
    congr 2
    omega
  obtain ⟨found, hfound⟩ := Option.isSome_iff_exists.1 (h.allClosed.isSome hrole)
  exact ⟨_, end?_eq_ok_iff.2 ⟨found, hrest ▸ hfound, rfl⟩⟩

/-- A block that is opened in the body of another is closed there, and it is found there. -/
theorem exists_end?_inside (h : end? lines start = .ok stop) (hstart : start < opener)
    (hstop : opener < stop) (hopener : Stands Text.isOpener lines opener) :
    ∃ close, close < stop ∧ end? lines opener = .ok close ∧
      Block.end? (lines.take stop) opener = .ok close := by
  obtain ⟨close, hclose⟩ := exists_end?_take (unwinds_inside h) hstart hstop hopener
  have hbounds := bounds_of_end? hclose
  rw [List.length_take] at hbounds
  exact ⟨close, by omega, end?_of_end?_take hclose, hclose⟩

/-- Where a block ends no block is opened. -/
theorem not_stands_isOpener (h : end? lines opener = .ok close) :
    ¬ Stands Text.isOpener lines close := by
  obtain ⟨-, ⟨line, hline, hconclude⟩, -⟩ := (end?_eq_ok_iff_isLeast.1 h).1
  rintro ⟨line', hline', hopens⟩
  obtain rfl := Option.some.inj (hline.symm.trans hline')
  rw [Text.isOpener_eq_false_of_isConclude hconclude] at hopens
  cases hopens

/-- Of two blocks one is closed before the other is opened, or the second is closed inside the
first. -/
theorem lt_or_lt_of_end? (hlt : start < opener) (hopener : Stands Text.isOpener lines opener)
    (hstop : end? lines start = .ok stop) (hclose : end? lines opener = .ok close) :
    stop < opener ∨ close < stop := by
  rcases Nat.lt_trichotomy stop opener with hbefore | rfl | hafter
  · exact .inl hbefore
  · exact absurd hopener (not_stands_isOpener hstop)
  · obtain ⟨found, hfound, hend, -⟩ := exists_end?_inside hstop hlt hafter hopener
    rw [hclose] at hend
    cases hend
    exact .inr hfound

/-- In any lines and behind any of them, the search for the end of a block finds the first
`conclude` before which as many blocks are closed as opened, and it fails only if there is none.
What begins before an opener is over before it or ends behind the end of its block, and never at the
same line. -/
theorem end?_by_counting (lines : List Text) :
    (∀ opener close, end? lines opener = .ok close ↔ IsLeast {c | Closes lines opener c} close) ∧
    (∀ opener fault, end? lines opener = .error fault ↔
      fault = .unterminatedBlock (Text.openerName (lines.getD opener [])) (opener + 1) ∧
        ∀ c, ¬ Closes lines opener c) ∧
    (∀ first second firstEnd secondEnd, first < second → Stands Text.isOpener lines second →
      Block.end? lines first = .ok firstEnd → Block.end? lines second = .ok secondEnd →
        (firstEnd < second ∨ secondEnd < firstEnd) ∧ firstEnd ≠ secondEnd) := by
  refine ⟨fun _ _ => end?_eq_ok_iff_isLeast, fun _ _ => end?_eq_error_iff, ?_⟩
  intro first second firstEnd secondEnd hlt hopener hfirst hsecond
  have hnested := lt_or_lt_of_end? hlt hopener hfirst hsecond
  have hbounds := bounds_of_end? hsecond
  exact ⟨hnested, by omega⟩

/-- A loop inside a conditional. -/
def loopInConditional : List Text :=
  ["when a:".toList, "until b:".toList, "conclude".toList, "conclude".toList]

theorem end?_by_counting_loopInConditional :
    Stands Text.isOpener loopInConditional 1 ∧ end? loopInConditional 0 = .ok 3 ∧
      Block.end? loopInConditional 1 = .ok 2 ∧ ((3 < 1 ∨ 2 < 3) ∧ 3 ≠ 2) ∧
      IsLeast {c | Closes loopInConditional 0 c} 3 := by
  have hsecond : Stands Text.isOpener loopInConditional 1 := ⟨_, rfl, by decide⟩
  have hends : end? loopInConditional 0 = .ok 3 ∧ end? loopInConditional 1 = .ok 2 := by decide
  obtain ⟨hcount, -, hnest⟩ := end?_by_counting loopInConditional
  exact ⟨hsecond, hends.1, hends.2, hnest 0 1 3 2 Nat.one_pos hsecond hends.1 hends.2,
    (hcount 0 3).1 hends.1⟩

end Lines

end Block

end Grimoire
