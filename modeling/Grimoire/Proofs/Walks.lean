import Grimoire.Proofs.Evaluation.Resources

/-!
# Walks end

A walk goes through a value and everything nested in it, and counts the containers it is inside of.
In a sound store the count is never what stops it: a walk that may go deeper comes to the same
result.
-/

namespace Grimoire

namespace Store

/-! ## Walks in general -/

/-- A walk whose result depends on the depth allowed only through its results on what a value
encloses. -/
structure IsWalk {β : Type} (s : Store) (walk : Nat → Value → β) : Prop where
  leaf : ∀ depth depth' v, v.isContainer = false → walk depth v = walk depth' v
  node : ∀ depth depth' v, (∀ w, s.Encloses v w → walk depth w = walk depth' w) →
    walk (depth + 1) v = walk (depth' + 1) v

/-- A walk that may go as deep as a value is nested does not change when it may go deeper. -/
theorem IsWalk.eq_of_nestsWithin {β : Type} {s : Store} {walk : Nat → Value → β}
    (hwalk : s.IsWalk walk) {depth depth' : Nat} {v : Value} (hv : s.NestsWithin depth v)
    (hle : depth ≤ depth') : walk depth' v = walk depth v := by
  induction depth generalizing depth' v with
  | zero => exact hwalk.leaf depth' 0 v hv
  | succ depth ih =>
    obtain ⟨more, rfl⟩ : ∃ more, depth' = more + 1 := ⟨depth' - 1, by omega⟩
    exact hwalk.node more depth v fun w hw => ih (hv w hw) (by omega)

/-- In a sound store no walk needs to go deeper than there are cells. -/
theorem Sound.walk_eq {β : Type} {s : Store} (hs : s.Sound) {walk : Nat → Value → β}
    (hwalk : s.IsWalk walk) {v : Value} (hv : s.Has v) {depth : Nat} (hdepth : s.cells ≤ depth) :
    walk depth v = walk s.cells v :=
  hwalk.eq_of_nestsWithin (hs.nestsWithin hv) hdepth

/-! ## The walks of the language -/

variable (s : Store)

theorem isWalk_display : s.IsWalk s.displayWithin where
  leaf depth depth' v hv := by
    cases v <;> simp [Value.isContainer] at hv <;> cases depth <;> cases depth' <;> rfl
  node depth depth' v h := by
    cases v with
    | sequence cell =>
      have hitems : (s.items cell).map (s.displayWithin depth)
          = (s.items cell).map (s.displayWithin depth') := List.map_congr_left h
      simp only [displayWithin, hitems]
    | tome cell =>
      have hentries : ∀ entry ∈ (s.entries cell).entries,
          s.displayWithin depth entry.2 = s.displayWithin depth' entry.2 :=
        fun entry hentry => h entry.2 (List.mem_map_of_mem hentry)
      have hmap : (s.entries cell).entries.map (fun entry =>
            entry.1 ++ ':' :: ' ' :: s.displayWithin depth entry.2)
          = (s.entries cell).entries.map fun entry =>
            entry.1 ++ ':' :: ' ' :: s.displayWithin depth' entry.2 :=
        List.map_congr_left fun entry hentry => by rw [hentries entry hentry]
      simp only [displayWithin, hmap]
    | _ => rfl

theorem isWalk_number : s.IsWalk s.numberWithin where
  leaf depth depth' v hv := by
    cases v <;> simp [Value.isContainer] at hv <;> cases depth <;> cases depth' <;> rfl
  node depth depth' v h := by
    cases v with
    | sequence cell =>
      simp only [numberWithin]
      split
      · rfl
      · next w hw => exact h w (by simp [Encloses, contents, hw])
      · rfl
    | _ => rfl

theorem isWalk_holds (container : Value) : s.IsWalk (s.holdsWithin container) where
  leaf depth depth' v hv := by
    cases depth <;> cases depth' <;> simp [holdsWithin, contents_of_not_isContainer hv]
  node depth depth' v h := by
    have hany : (s.contents v).any (s.holdsWithin container depth)
        = (s.contents v).any (s.holdsWithin container depth') := by
      rw [Bool.eq_iff_iff, List.any_eq_true, List.any_eq_true]
      exact exists_congr fun w => and_congr_right fun hw => by rw [h w hw]
    rw [holdsWithin, holdsWithin, hany]

/-- Lists are compared alike by comparisons that agree on the elements of the first. -/
theorem allEqual_congr {α : Type} {same same' : α → α → Bool} {as bs : List α}
    (h : ∀ a ∈ as, ∀ b, same a b = same' a b) : allEqual same as bs = allEqual same' as bs := by
  induction as generalizing bs with
  | nil => cases bs <;> rfl
  | cons a as ih =>
    cases bs with
    | nil => rfl
    | cons b bs =>
      rw [allEqual, allEqual, h a List.mem_cons_self b,
        ih fun c hc => h c (List.mem_cons_of_mem a hc)]

theorem isWalk_equal : s.IsWalk fun depth v w => s.equalWithin depth v w where
  leaf depth depth' v hv := by
    funext w
    cases v <;> simp [Value.isContainer] at hv <;> cases w <;> cases depth <;> cases depth' <;> rfl
  node depth depth' v h := by
    funext w
    cases v with
    | sequence a =>
      cases w with
      | sequence b =>
        have hitems : allEqual (s.equalWithin depth) (s.items a) (s.items b)
            = allEqual (s.equalWithin depth') (s.items a) (s.items b) :=
          allEqual_congr fun v hv w => congrFun (h v hv) w
        simp only [equalWithin, hitems]
      | _ => rfl
    | tome a =>
      cases w with
      | tome b =>
        have hentries : ∀ e ∈ (s.entries a).entries, ∀ f : Text × Value,
            (e.1 == f.1 && s.equalWithin depth e.2 f.2)
              = (e.1 == f.1 && s.equalWithin depth' e.2 f.2) := by
          intro e he f
          rw [congrFun (h e.2 (List.mem_map_of_mem he)) f.2]
        simp only [equalWithin]
        rw [allEqual_congr hentries]
      | _ => rfl
    | _ => cases w <;> rfl

/-- A list is gone through alike by steps that agree on its elements. -/
theorem mapM_congr {ε α β : Type} {f g : α → Except ε β} {as : List α}
    (h : ∀ a ∈ as, f a = g a) : as.mapM f = as.mapM g := by
  induction as with
  | nil => rfl
  | cons a as ih =>
    rw [List.mapM_cons, List.mapM_cons, h a List.mem_cons_self,
      ih fun b hb => h b (List.mem_cons_of_mem a hb)]

theorem isWalk_document : s.IsWalk s.documentWithin where
  leaf depth depth' v hv := by
    cases v <;> simp [Value.isContainer] at hv <;> cases depth <;> cases depth' <;> rfl
  node depth depth' v h := by
    cases v with
    | sequence cell =>
      have hitems : (s.items cell).mapM (s.documentWithin depth)
          = (s.items cell).mapM (s.documentWithin depth') := mapM_congr h
      simp only [documentWithin, hitems]
    | tome cell =>
      simp only [documentWithin]
      refine congrArg (· >>= _) (mapM_congr fun entry hentry => ?_)
      rw [h entry.2 (List.mem_map_of_mem (List.mem_of_mem_filter hentry))]
    | _ => rfl

/-! ## Copies -/

variable {s}

/-- Lists are copied alike by copies that agree in the extensions of a store. -/
theorem mirrorAll_congr {mirror mirror' : Value → Store → Value × Store} {values : List Value}
    (h : ∀ v ∈ values, ∀ t : Store, s.Extends t → mirror v t = mirror' v t)
    (hgrows : ∀ v (t : Store), t.Extends (mirror v t).2) {t : Store} (ht : s.Extends t) :
    mirrorAll mirror values t = mirrorAll mirror' values t := by
  -- the store is another one after each copy, so the hypothesis is needed in all extensions
  have hfold : ∀ (values done : List Value) (t : Store),
      (∀ v ∈ values, ∀ t : Store, s.Extends t → mirror v t = mirror' v t) → s.Extends t →
      values.foldl (fun (out : List Value × Store) v =>
          ((mirror v out.2).1 :: out.1, (mirror v out.2).2)) (done, t)
        = values.foldl (fun (out : List Value × Store) v =>
          ((mirror' v out.2).1 :: out.1, (mirror' v out.2).2)) (done, t) := by
    intro values
    induction values with
    | nil => exact fun done t _ _ => rfl
    | cons v rest ih =>
      intro done t h ht
      rw [List.foldl_cons, List.foldl_cons, ← h v List.mem_cons_self t ht]
      exact ih _ _ (fun w hw => h w (List.mem_cons_of_mem v hw)) (ht.trans (hgrows v t))
  exact congrArg (fun out => (out.1.reverse, out.2)) (hfold values [] t h ht)

/-- Copying only adds cells. -/
theorem extends_mirrorWithin (depth : Nat) (v : Value) (t : Store) :
    t.Extends (mirrorWithin depth v t).2 :=
  (built_mirrorWithin (D := .trivial) True.intro True.intro).grows

/-- A copy that may go as deep as a value is nested does not change when it may go deeper. -/
theorem Sound.mirrorWithin_eq (hs : s.Sound) {depth depth' : Nat} {v : Value} (hv : s.Has v)
    (hdepth : s.NestsWithin depth v) (hle : depth ≤ depth') {t : Store} (ht : s.Extends t) :
    mirrorWithin depth' v t = mirrorWithin depth v t := by
  induction depth generalizing depth' v t with
  | zero => cases v <;> simp [NestsWithin, Value.isContainer] at hdepth <;> cases depth' <;> rfl
  | succ depth ih =>
    obtain ⟨more, rfl⟩ : ∃ more, depth' = more + 1 := ⟨depth' - 1, by omega⟩
    -- the copies before have added cells to `t`, but what `v` encloses is as it was in `s`
    have hparts : mirrorAll (mirrorWithin more) (t.contents v) t
        = mirrorAll (mirrorWithin depth) (t.contents v) t := by
      refine mirrorAll_congr (fun w hw u hu => ?_) (extends_mirrorWithin more) ht
      rw [ht.contents hv] at hw
      exact ih (hs.closed v w hw) (hdepth w hw) (by omega) hu
    cases v with
    | sequence cell | tome cell =>
      rw [contents] at hparts
      simp only [mirrorWithin, hparts]
    | _ => rfl

/-! ## Walks from a value -/

/-- The walks from a value end by themselves: none changes when it may go deeper. -/
structure WalksEnd (s : Store) (v : Value) : Prop where
  display : ∀ depth, s.cells ≤ depth → s.displayWithin depth v = s.display v
  number : ∀ depth, s.cells ≤ depth → s.numberWithin depth v = s.toNumber v
  equal : ∀ depth w, s.cells ≤ depth → s.equalWithin depth v w = s.equal v w
  holds : ∀ depth container, s.cells ≤ depth →
    s.holdsWithin container depth v = s.holds v container
  document : ∀ depth, s.cells ≤ depth → s.documentWithin depth v = s.document v
  mirror : ∀ depth, s.cells ≤ depth → mirrorWithin depth v s = s.mirror v

/-- In a sound store the walks from every value that exists end. -/
theorem Sound.walksEnd (hs : s.Sound) {v : Value} (hv : s.Has v) : s.WalksEnd v where
  display _ hdepth := hs.walk_eq s.isWalk_display hv hdepth
  number _ hdepth := hs.walk_eq s.isWalk_number hv hdepth
  equal _ w hdepth := congrFun (hs.walk_eq s.isWalk_equal hv hdepth) w
  holds _ container hdepth := hs.walk_eq (s.isWalk_holds container) hv hdepth
  document _ hdepth := hs.walk_eq s.isWalk_document hv hdepth
  mirror _ hdepth := hs.mirrorWithin_eq hv (hs.nestsWithin hv) hdepth (.refl s)

end Store

end Grimoire
