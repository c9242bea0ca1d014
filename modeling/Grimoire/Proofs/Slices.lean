import Grimoire.Proofs.Counting

/-!
# Slices of bodies

A body closes just what it opens, so the search for its `otherwise:` never has a `conclude` too
many, and the count it keeps is that of the blocks that are open. A cut at the `otherwise:`, or at
the end of the body, leaves every block on one side, and so it changes nothing about where blocks
end.
-/

namespace Grimoire

namespace Block

/-! ## The search for a separator -/

section Roles

variable {depth place : Nat} {roles before rest : List Role}

/-- A separator that is found is found whatever follows. -/
theorem otherwiseFrom_append_of_some {more : List Role}
    (h : otherwiseFrom depth roles = some place) :
    otherwiseFrom depth (roles ++ more) = some place := by
  induction roles generalizing depth place with
  | nil => cases h
  | cons role rest ih =>
    have further : ∀ {d}, (otherwiseFrom d rest).map (· + 1) = some place →
        (otherwiseFrom d (rest ++ more)).map (· + 1) = some place := by
      intro d hd
      obtain ⟨p, hp, rfl⟩ := Option.map_eq_some_iff.1 hd
      rw [ih hp, Option.map_some]
    rw [List.cons_append]
    cases role with
    | opener => exact otherwiseFrom_opener.trans (further (otherwiseFrom_opener.symm.trans h))
    | conclude => exact otherwiseFrom_conclude.trans (further (otherwiseFrom_conclude.symm.trans h))
    | plain => exact otherwiseFrom_plain.trans (further (otherwiseFrom_plain.symm.trans h))
    | «otherwise» =>
      cases depth with
      | zero => exact h
      | succ depth =>
        exact otherwiseFrom_otherwise.trans (further (otherwiseFrom_otherwise.symm.trans h))

/-- Where a search has passed some of the roles that it may pass, the depth it has come to is that
of the rest: the blocks opened are those closed and those still open. -/
theorem Unwinds.exists_depth (h : Unwinds depth (before ++ rest))
    (hnone : otherwiseFrom depth before = none) :
    ∃ reached, reached + before.count .conclude = before.count .opener + depth ∧
      Unwinds reached rest ∧ ∀ more,
        otherwiseFrom depth (before ++ more)
          = (otherwiseFrom reached more).map (· + before.length) := by
  induction before generalizing depth with
  | nil => exact ⟨depth, by simp, h, fun more => by simp⟩
  | cons role before ih =>
    -- the search goes on at some depth, from which the rest of the roles is passed
    have further : ∀ {d}, (∀ roles, otherwiseFrom depth (role :: roles)
          = (otherwiseFrom d roles).map (· + 1)) → Unwinds d (before ++ rest) →
        ∃ reached, reached + before.count .conclude = before.count .opener + d ∧
          Unwinds reached rest ∧ ∀ more, otherwiseFrom depth (role :: (before ++ more))
            = (otherwiseFrom reached more).map (· + (role :: before).length) := by
      intro d hstep hrest
      rw [hstep, Option.map_eq_none_iff] at hnone
      obtain ⟨reached, hcount, hreached, hsearch⟩ := ih hrest hnone
      refine ⟨reached, hcount, hreached, fun more => ?_⟩
      rw [hstep, hsearch, map_add_map_add]
      rfl
    cases h with
    | @skip _ _ _ ho hc hrest =>
      have hpass : ∀ roles, otherwiseFrom depth (role :: roles)
          = (otherwiseFrom depth roles).map (· + 1) := by
        intro roles
        cases role with
        | opener => exact absurd rfl ho
        | conclude => exact absurd rfl hc
        | plain => exact otherwiseFrom_plain
        | «otherwise» =>
          cases depth with
          | zero => cases hnone
          | succ depth => exact otherwiseFrom_otherwise
      obtain ⟨reached, hcount, hreached, hsearch⟩ := further hpass hrest
      refine ⟨reached, ?_, hreached, hsearch⟩
      rw [List.count_cons_of_ne hc, List.count_cons_of_ne ho, hcount]
    | opener hrest =>
      obtain ⟨reached, hcount, hreached, hsearch⟩ := further (fun _ => otherwiseFrom_opener) hrest
      refine ⟨reached, ?_, hreached, hsearch⟩
      rw [List.count_cons_of_ne Role.noConfusion, List.count_cons_self]
      omega
    | @conclude depth _ hrest =>
      obtain ⟨reached, hcount, hreached, hsearch⟩ := further (fun _ => otherwiseFrom_conclude) hrest
      refine ⟨reached, ?_, hreached, hsearch⟩
      rw [List.count_cons_self, List.count_cons_of_ne Role.noConfusion]
      omega

/-- An `otherwise:` with as many blocks closed before it, less those opened, as `depth`. -/
def SeparatesFrom (depth : Nat) (roles : List Role) (place : Nat) : Prop :=
  roles[place]? = some .otherwise ∧
    (roles.take place).count .conclude = (roles.take place).count .opener + depth

/-- Where the counts say that a body is separated, the search ends if it has not ended before. -/
theorem SeparatesFrom.exists_found (h : SeparatesFrom depth roles place)
    (hroles : Unwinds depth roles) : ∃ found ≤ place, otherwiseFrom depth roles = some found := by
  obtain ⟨hrole, hcount⟩ := h
  have hlt : place < roles.length := (List.getElem?_eq_some_iff.1 hrole).1
  rw [← List.take_append_drop place roles] at hroles ⊢
  cases hbefore : otherwiseFrom depth (roles.take place) with
  | some found =>
    have hfound := lt_length_of_otherwiseFrom hbefore
    rw [List.length_take] at hfound
    exact ⟨found, by omega, otherwiseFrom_append_of_some hbefore⟩
  | none =>
    obtain ⟨reached, hreached, -, hsearch⟩ := hroles.exists_depth hbefore
    obtain rfl : reached = 0 := by omega
    refine ⟨place, Nat.le_refl place, ?_⟩
    rw [hsearch, List.drop_eq_getElem?_toList_append, hrole, List.length_take,
      Nat.min_eq_left (Nat.le_of_lt hlt)]
    simp [otherwiseFrom]

/-- In a body the search ends at the first `otherwise:` at which the counts say that it is
separated. -/
theorem Unwinds.otherwiseFrom_eq_some_iff (h : Unwinds depth roles) :
    otherwiseFrom depth roles = some place ↔ IsLeast {p | SeparatesFrom depth roles p} place := by
  have hleast : ∀ {place}, otherwiseFrom depth roles = some place →
      IsLeast {p | SeparatesFrom depth roles p} place := by
    intro place hplace
    constructor
    · obtain ⟨before, after, rfl, rfl, hbefore, -⟩ := h.split hplace
      refine ⟨by simp, ?_⟩
      rw [List.take_left]
      exact hbefore.count_conclude
    · intro p hp
      obtain ⟨found, hle, hfound⟩ := SeparatesFrom.exists_found hp h
      rw [hplace] at hfound
      cases hfound
      exact hle
  refine ⟨hleast, fun hplace => ?_⟩
  obtain ⟨found, -, hfound⟩ := SeparatesFrom.exists_found hplace.1 h
  rw [hfound, (hleast hfound).unique hplace]

end Roles

/-! ## Separators of lines -/

/-- An `otherwise:` in the body of a block, with as many blocks opened as closed before it. -/
structure Separates (lines : List Text) (opener close separator : Nat) : Prop where
  lt : opener < separator
  inside : separator < close
  stands : Stands Text.isOtherwise lines separator
  level : Level lines opener separator

variable {lines : List Text} {opener close separator : Nat}

/-- The lines of a body up to one of them. -/
theorem take_inside {place : Nat} (h : opener + 1 + place ≤ close) :
    (inside lines opener close).take place = inside lines opener (opener + 1 + place) := by
  rw [inside, inside, List.take_drop, List.take_take, Nat.min_eq_left h]

/-- What separates a body is the same by its lines and by their roles. -/
theorem separates_add_iff (place : Nat) : Separates lines opener close (opener + 1 + place) ↔
    opener + 1 + place < close ∧
      SeparatesFrom 0 ((inside lines opener close).map Text.role) place := by
  by_cases hlt : opener + 1 + place < close
  · have hrole : ((inside lines opener close).map Text.role)[place]?
        = lines[opener + 1 + place]?.map Text.role := by
      rw [List.getElem?_map, inside, List.getElem?_drop, List.getElem?_take_of_lt hlt]
    rw [SeparatesFrom, hrole, ← List.map_take, take_inside (Nat.le_of_lt hlt),
      Text.count_map_role fun _ => Text.role_eq_opener_iff,
      Text.count_map_role fun _ => Text.role_eq_conclude_iff,
      ← stands_iff_of_role fun _ => Text.role_eq_otherwise_iff]
    constructor
    · rintro ⟨-, -, hseparator, hlevel⟩
      exact ⟨hlt, hseparator, hlevel.symm⟩
    · rintro ⟨-, hseparator, hlevel⟩
      exact ⟨by omega, hlt, hseparator, hlevel.symm⟩
  · exact ⟨fun h => absurd h.inside hlt, fun h => absurd h.1 hlt⟩

theorem otherwiseBetween?_eq_some_iff : otherwiseBetween? lines opener close = some separator ↔
    ∃ place, otherwiseFrom 0 ((inside lines opener close).map Text.role) = some place ∧
      opener + 1 + place = separator :=
  Option.map_eq_some_iff

/-- A body with a separator has one that the search finds. -/
theorem Separates.exists_found (hs : Separates lines opener close separator)
    (h : end? lines opener = .ok close) :
    ∃ found, otherwiseBetween? lines opener close = some found := by
  obtain ⟨place, rfl⟩ := Nat.exists_eq_add_of_lt hs.lt
  rw [Nat.add_right_comm] at hs
  obtain ⟨-, hplace⟩ := (separates_add_iff place).1 hs
  obtain ⟨found, -, hfound⟩ := hplace.exists_found (unwinds_inside h)
  exact ⟨_, otherwiseBetween?_eq_some_iff.2 ⟨found, hfound, rfl⟩⟩

/-- The separator of a block is the first `otherwise:` of its body at which as many blocks are
opened as closed. -/
theorem otherwiseBetween?_eq_some_iff_isLeast (h : end? lines opener = .ok close) :
    otherwiseBetween? lines opener close = some separator ↔
      IsLeast {s | Separates lines opener close s} separator := by
  have hleast : ∀ {separator}, otherwiseBetween? lines opener close = some separator →
      IsLeast {s | Separates lines opener close s} separator := by
    intro separator hseparator
    obtain ⟨-, hinside⟩ := bounds_of_otherwiseBetween? hseparator
    obtain ⟨place, hplace, rfl⟩ := otherwiseBetween?_eq_some_iff.1 hseparator
    obtain ⟨hseparates, hfirst⟩ := (unwinds_inside h).otherwiseFrom_eq_some_iff.1 hplace
    refine ⟨(separates_add_iff place).2 ⟨hinside, hseparates⟩, fun s hs => ?_⟩
    obtain ⟨p, rfl⟩ := Nat.exists_eq_add_of_lt hs.lt
    rw [Nat.add_right_comm] at hs ⊢
    have hle := hfirst ((separates_add_iff p).1 hs).2
    omega
  refine ⟨hleast, fun hseparator => ?_⟩
  obtain ⟨found, hfound⟩ := Separates.exists_found hseparator.1 h
  rw [hfound, (hleast hfound).unique hseparator]

/-- The search has a count of the open blocks that is exact, and at a `conclude` it is not zero. -/
theorem exists_depth_inside (h : end? lines opener = .ok close) {passed rest : List Text}
    (hsplit : inside lines opener close = passed ++ rest)
    (hnone : otherwise? (passed.map Text.role) = none) :
    ∃ depth, depth + passed.countP Text.isConclude = passed.countP Text.isOpener ∧
      (∀ more : List Text, otherwise? ((passed ++ more).map Text.role)
        = (otherwiseFrom depth (more.map Text.role)).map (· + passed.length)) ∧
      ∀ line ∈ rest.head?, line.isConclude = true → 0 < depth := by
  have hbody := unwinds_inside h
  rw [hsplit, List.map_append] at hbody
  obtain ⟨depth, hcount, hrest, hsearch⟩ := hbody.exists_depth hnone
  refine ⟨depth, ?_, fun more => ?_, ?_⟩
  · rw [← Text.count_map_role fun _ => Text.role_eq_conclude_iff,
      ← Text.count_map_role fun _ => Text.role_eq_opener_iff, hcount, Nat.add_zero]
  · rw [otherwise?, List.map_append, hsearch, List.length_map]
  · intro line hline hconclude
    obtain ⟨rest, rfl⟩ := List.head?_eq_some_iff.1 hline
    rw [List.map_cons, Text.role_of_isConclude hconclude] at hrest
    cases hrest with
    | skip _ hc _ => exact absurd rfl hc
    | conclude => exact Nat.succ_pos _

/-- What stands before the separator of a body is balanced. -/
theorem unwinds_before_separator (h : end? lines opener = .ok close)
    (hseparator : otherwiseBetween? lines opener close = some separator) :
    Unwinds 0 ((inside lines opener separator).map Text.role) := by
  obtain ⟨-, hinside⟩ := bounds_of_otherwiseBetween? hseparator
  obtain ⟨place, hplace, rfl⟩ := otherwiseBetween?_eq_some_iff.1 hseparator
  obtain ⟨before, after, hroles, rfl, hbefore, -⟩ := (unwinds_inside h).split hplace
  rw [← take_inside (Nat.le_of_lt hinside), List.map_take, hroles, List.take_left]
  exact hbefore

/-- In the body of a block the separator is the first `otherwise:` before which as many blocks are
opened as closed. The search for it comes to every line with the number of blocks that are open
there, which at a `conclude` is not zero. A block that is opened in the body ends at the same line
whether it is searched among all lines, up to the end of the body, or, if it is opened before the
separator, up to the separator. -/
theorem bodies_are_balanced (h : end? lines opener = .ok close) :
    (∀ separator, otherwiseBetween? lines opener close = some separator ↔
      IsLeast {s | Separates lines opener close s} separator) ∧
    (otherwiseBetween? lines opener close = none ↔ ∀ s, ¬ Separates lines opener close s) ∧
    (∀ passed rest, inside lines opener close = passed ++ rest →
      otherwise? (passed.map Text.role) = none →
      ∃ depth, depth + passed.countP Text.isConclude = passed.countP Text.isOpener ∧
        (∀ more : List Text, otherwise? ((passed ++ more).map Text.role)
          = (otherwiseFrom depth (more.map Text.role)).map (· + passed.length)) ∧
        ∀ line ∈ rest.head?, line.isConclude = true → 0 < depth) ∧
    ∀ inner, opener < inner → inner < close → Stands Text.isOpener lines inner →
      ∃ stop, stop < close ∧ end? lines inner = .ok stop ∧
        Block.end? (lines.take close) inner = .ok stop ∧
        ∀ separator, otherwiseBetween? lines opener close = some separator → inner < separator →
          stop < separator ∧ end? (lines.take separator) inner = .ok stop := by
  refine ⟨fun _ => otherwiseBetween?_eq_some_iff_isLeast h, ?_,
    fun _ _ => exists_depth_inside h, ?_⟩
  · constructor
    · intro hnone s hs
      obtain ⟨found, hfound⟩ := hs.exists_found h
      rw [hnone] at hfound
      cases hfound
    · intro hnever
      rw [Option.eq_none_iff_forall_ne_some]
      exact fun s hs => hnever s ((otherwiseBetween?_eq_some_iff_isLeast h).1 hs).1
  · intro inner hlt hinside hopens
    obtain ⟨stop, hstop, hend, htake⟩ := exists_end?_inside h hlt hinside hopens
    refine ⟨stop, hstop, hend, htake, fun separator hseparator hbefore => ?_⟩
    obtain ⟨found, hfound⟩ :=
      exists_end?_take (unwinds_before_separator h hseparator) hlt hbefore hopens
    have hbounds := bounds_of_end? hfound
    have hsame := end?_of_end?_take hfound
    rw [hend] at hsame
    cases hsame
    rw [List.length_take] at hbounds
    exact ⟨by omega, hfound⟩

/-- A conditional whose first part has a loop in it. -/
def loopBeforeOtherwise : List Text :=
  ["when a:".toList, "until b:".toList, "otherwise:".toList, "conclude".toList,
    "otherwise:".toList, "conclude".toList]

theorem bodies_are_balanced_loopBeforeOtherwise :
    Block.end? loopBeforeOtherwise 0 = .ok 5 ∧ otherwiseBetween? loopBeforeOtherwise 0 5 = some 4 ∧
      IsLeast {s | Separates loopBeforeOtherwise 0 5 s} 4 ∧
      ∃ stop, end? loopBeforeOtherwise 1 = .ok stop ∧
        Block.end? (loopBeforeOtherwise.take 4) 1 = .ok stop := by
  have hend : end? loopBeforeOtherwise 0 = .ok 5 := by decide
  have hseparator : otherwiseBetween? loopBeforeOtherwise 0 5 = some 4 := by decide
  have hopens : Stands Text.isOpener loopBeforeOtherwise 1 := ⟨_, rfl, by decide⟩
  obtain ⟨hleast, -, -, hinner⟩ := bodies_are_balanced hend
  obtain ⟨stop, -, hstop, -, hbefore⟩ := hinner 1 (by decide) (by decide) hopens
  exact ⟨hend, hseparator, (hleast 4).1 hseparator, stop, hstop,
    (hbefore 4 hseparator (by decide)).2⟩

end Block

end Grimoire
