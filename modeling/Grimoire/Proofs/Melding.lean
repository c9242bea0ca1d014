import Grimoire.Proofs.OrderedTomes
import Grimoire.Proofs.ReadBack
import Grimoire.Proofs.SelfContainment

/-!
# Melded tomes

A tome is melded into another by insertion of its entries one after the other, be it into the tome
itself or into a copy. What comes of it is determined by the two: the keys of the other tome come
first and then those that it lacks, and the melded tome decides what is found under its own keys.
So it makes no difference to meld a tome again.
-/

namespace Grimoire

open Relation

namespace Table

variable {α : Type} {entries : List (Text × α)} {t u first second : Table α}

/-! ## Insertions one after the other -/

theorem keys_foldl_insert (h : (entries.map Prod.fst).Nodup) :
    (entries.foldl (fun t entry => t.insert entry.1 entry.2) t).keys =
      t.keys ++ (entries.map Prod.fst).filter (· ∉ t.keys) := by
  induction entries generalizing t with
  | nil => simp
  | cons entry rest ih =>
    rw [List.map_cons, List.nodup_cons] at h
    rw [List.foldl_cons, ih h.2, keys_insert, List.map_cons]
    split
    · next hold => rw [List.filter_cons_of_neg (by simpa using hold)]
    · next hnew =>
      rw [List.filter_cons_of_pos (by simpa using hnew), List.append_assoc, List.singleton_append]
      congr 2
      -- the key is not among those of the rest, so it makes no difference that it is there now
      refine List.filter_congr fun key hkey => ?_
      have hne : key ≠ entry.1 := fun hsame => h.1 (hsame ▸ hkey)
      simp [hne]

theorem get?_foldl_insert (h : (entries.map Prod.fst).Nodup) (key : Text) :
    (entries.foldl (fun t entry => t.insert entry.1 entry.2) t).get? key =
      (entries.lookup key).or (t.get? key) := by
  induction entries generalizing t with
  | nil => rfl
  | cons entry rest ih =>
    rw [List.map_cons, List.nodup_cons] at h
    rw [List.foldl_cons, ih h.2, get?_insert, lookup_cons_eq_ite]
    by_cases hkey : key = entry.1
    · have hnone : rest.lookup key = none := by
        rw [List.lookup_eq_none_iff]
        intro other hother
        have hne : key ≠ other.1 := fun hsame =>
          h.1 (hkey ▸ hsame ▸ List.mem_map_of_mem hother)
        simpa using hne
      rw [if_pos hkey, if_pos hkey, hnone, Option.none_or, Option.some_or]
    · rw [if_neg hkey, if_neg hkey]

/-! ## Overlays -/

/-- `t` is `first` on top of `second`: it has the keys of the second table and then those that are
only in the first, each with the value that it has in the first table, or else in the second. -/
structure Overlays (first second t : Table α) : Prop where
  keys : t.keys = second.keys ++ first.keys.filter (· ∉ second.keys)
  get? : ∀ key, t.get? key = (first.get? key).or (second.get? key)

theorem get?_of_mem {entry : Text × α} (h : entry ∈ t.entries) :
    t.get? entry.1 = some entry.2 := by
  obtain ⟨before, after, hsplit⟩ := List.append_of_mem h
  have hbefore := (not_mem_of_split (w := entry.2) hsplit).1
  rw [Table.get?, hsplit, List.lookup_eq_some_iff]
  exact ⟨before, after, rfl, fun other hother => by simpa using (hbefore other hother).symm⟩

/-- The entries are the keys, each with what is found under it. -/
theorem map_some_entries (t : Table α) :
    t.entries.map (fun entry => (entry.1, some entry.2)) =
      t.keys.map fun key => (key, t.get? key) := by
  rw [Table.keys, List.map_map]
  refine List.map_congr_left fun entry hentry => ?_
  rw [Function.comp_apply, get?_of_mem hentry]

/-- Tables with the same keys in the same order and the same values under them are the same. -/
theorem eq_of_keys_of_get? (hkeys : t.keys = u.keys) (hget : ∀ key, t.get? key = u.get? key) :
    t = u := by
  have hmaps : t.entries.map (fun entry => (entry.1, some entry.2)) =
      u.entries.map fun entry => (entry.1, some entry.2) := by
    rw [map_some_entries, map_some_entries, hkeys]
    exact List.map_congr_left fun key _ => by rw [hget key]
  have hinjective : Function.Injective fun entry : Text × α => (entry.1, some entry.2) := by
    rintro ⟨a, v⟩ ⟨b, w⟩ h
    simpa using h
  have hentries : t.entries = u.entries := List.map_injective_iff.2 hinjective hmaps
  cases t
  cases u
  congr

/-- Two tables have but one overlay. -/
theorem Overlays.unique (h : first.Overlays second t) (h' : first.Overlays second u) : t = u :=
  eq_of_keys_of_get? (h.keys.trans h'.keys.symm) fun key => (h.get? key).trans (h'.get? key).symm

theorem overlays_meld (first second : Table α) : first.Overlays second (first.meld second) where
  keys := keys_foldl_insert first.distinct
  get? := get?_foldl_insert first.distinct

/-- A table that is on top already overlays nothing when it is put there again. -/
theorem Overlays.again (h : first.Overlays second t) : first.Overlays t t where
  keys := by
    have hall : ∀ key ∈ first.keys, key ∈ t.keys := by
      intro key hkey
      rw [h.keys, List.mem_append, List.mem_filter]
      by_cases hold : key ∈ second.keys
      · exact Or.inl hold
      · exact Or.inr ⟨hkey, by simpa using hold⟩
    rw [List.filter_eq_nil_iff.2, List.append_nil]
    simpa using hall
  get? key := by
    rw [h.get?, ← Option.or_assoc, Option.or_self]

theorem meld_meld (first second : Table α) :
    first.meld (first.meld second) = first.meld second :=
  (overlays_meld first _).unique (overlays_meld first second).again

end Table

/-- What a tome is given is seen on every path to the tome. -/
theorem Scope.follow_setEntries {scope : Scope} {s : Store} {root : Text} {keys : List Text}
    {cell : Nat} (hs : s.Sound) (hcell : s.Has (.tome cell))
    (h : scope.follow s root keys = .tome cell) (entries : Table Value) :
    scope.follow (s.setEntries cell entries) root keys = .tome cell ∧ ∀ key,
      scope.follow (s.setEntries cell entries) root (keys ++ [key]) =
        (entries.get? key).getD .undefined := by
  cases hroot : scope.lookup? root with
  | none =>
    -- a name that is no variable has no tome
    unfold follow at h
    rw [hroot] at h
    dsimp only at h
    split at h <;> cases h
  | some v =>
    rw [follow_of_lookup? hroot] at h
    have hkept := hs.foldl_member_setEntries h entries
    refine ⟨(follow_of_lookup? hroot keys).trans hkept, fun key => ?_⟩
    rw [follow_of_lookup? hroot, List.foldl_append, hkept, List.foldl_cons, List.foldl_nil,
      Store.member, Store.entries_setEntries hcell]

namespace Run

variable {σ : Type} {m m₁ m₂ : Machine σ} {line : Text} {g : Groups} {x y : Nat}

/-- A value is not stored in a container that it is or holds. -/
theorem run_refuseCycle_bind {α : Type} (user : String) (v container : Value) (f : Unit → Eval α)
    (m : Machine σ) :
    (evaluate (Deed.refuseCycle user v container >>= f)).run.run m =
      if m.store.holds v container then
        (.error { fault := .wrongType (.insideItself user.toList container.essence) }, m)
      else (evaluate (f ())).run.run m := by
  have hcheck : (evaluate (Deed.refuseCycle user v container) : Run σ Unit).run.run m =
      (evaluate (if m.store.holds v container then
        Eval.failType (.insideItself user.toList container.essence) else pure ()) :
          Run σ Unit).run.run m :=
    rfl
  rw [evaluate_bind, run_bind, hcheck]
  cases m.store.holds v container with
  | true => rfl
  | false => rfl

theorem run_melded (hopen : m.scope.guards (g.text 2) = false)
    (hsource : (evaluate (g.value 1)).run.run m = (.ok (.tome x), m₁))
    (hcell : (evaluate (g.value 2)).run.run m₁ = (.ok (.tome y), m₂))
    (hapart : ¬ ReflTransGen m₂.store.Encloses (.tome x) (.tome y)) :
    (evaluate ((Form.deed .meld).effects g)).run.run m =
      (.ok [.setEntries y ((m₂.store.entries x).meld (m₂.store.entries y))], m₂) := by
  have hne : x ≠ y := by
    rintro rfl
    exact hapart .refl
  have hclear : m₂.store.holds (.tome x) (.tome y) = false := by
    rw [Bool.eq_false_iff]
    exact fun hholds => hapart (Store.reaches_of_holdsWithin hholds)
  show (evaluate (Deed.refuseSealed (g.text 2) >>= _)).run.run m = _
  rw [run_refuseSealed_bind, hopen]
  show (evaluate (g.value 1 >>= _)).run.run m = _
  rw [run_evaluate_bind_of_ok hsource]
  show (evaluate (g.value 2 >>= _)).run.run m₁ = _
  rw [run_evaluate_bind_of_ok hcell]
  show (evaluate (if x = y then _ else _)).run.run m₂ = _
  rw [if_neg hne]
  show (evaluate (Deed.refuseCycle "Meld" (.tome x) (.tome y) >>= _)).run.run m₂ = _
  rw [run_refuseCycle_bind, hclear]
  rfl

variable [Host σ]

/-- A statement melds a tome into another that it does not hold. -/
theorem run_statement_meld (hform : Form.find? line = some (.deed .meld, g))
    (hopen : m.scope.guards (g.text 2) = false)
    (hsource : (evaluate (g.value 1)).run.run m = (.ok (.tome x), m₁))
    (hcell : (evaluate (g.value 2)).run.run m₁ = (.ok (.tome y), m₂))
    (hapart : ¬ ReflTransGen m₂.store.Encloses (.tome x) (.tome y)) :
    (statement line).run.run m = (.ok (), m₂.withStore
      (m₂.store.setEntries y ((m₂.store.entries x).meld (m₂.store.entries y)))) := by
  rw [run_statement_of_effect (Form.isIdle_of_find? (by decide) (by decide) hform) hform
    (run_melded hopen hsource hcell hapart)]
  rfl

/-- A tome that has been melded is melded again without effect. -/
theorem run_statement_meld_again {s : Store}
    (hs : s = m.store.setEntries y ((m.store.entries x).meld (m.store.entries y)))
    (hx : m.store.Has (.tome x)) (hy : m.store.Has (.tome y))
    (hapart : ¬ ReflTransGen m.store.Encloses (.tome x) (.tome y))
    (hgrounded : (m.withStore s).Grounded)
    (hform : Form.find? line = some (.deed .meld, g))
    (hopen : m.scope.guards (g.text 2) = false)
    (hsource : (evaluate (g.value 1)).run.run (m.withStore s) = (.ok (.tome x), m₁))
    (hcell : (evaluate (g.value 2)).run.run m₁ = (.ok (.tome y), m₂)) :
    (statement line).run.run (m.withStore s) = (.ok (), m₂) := by
  have hne : Value.tome x ≠ .tome y := fun h => hapart (h ▸ .refl)
  obtain ⟨hgrounded₁, -, hextends₁⟩ := grounded_of_run_value hgrounded hsource
  obtain ⟨-, -, hextends₂⟩ := grounded_of_run_value hgrounded₁ hcell
  have hextends : s.Extends m₂.store := hextends₁.trans hextends₂
  have hhas : ∀ v, m.store.Has v → s.Has v := fun v hv => hs ▸ Store.has_setEntries.2 hv
  -- what the first tome reaches is as it was, since the second is not there
  have hsame : ∀ c, c ≠ .tome y → m.store.SameAt s c :=
    fun c hc => hs ▸ Store.sameAt_setEntries hc
  have hstill : ¬ ReflTransGen m₂.store.Encloses (.tome x) (.tome y) := by
    rw [hextends.reaches_iff hgrounded.sound (hhas _ hx), Store.reaches_iff_of_sameAt
      fun c hc => hsame c fun h => hapart (h ▸ hc)]
    exact hapart
  have hx₂ : m₂.store.entries x = m.store.entries x :=
    (hextends.entries (hhas _ hx)).trans (hsame _ hne)
  have hy₂ : m₂.store.entries y = (m.store.entries x).meld (m.store.entries y) := by
    rw [hextends.entries (hhas _ hy), hs, Store.entries_setEntries hy]
  rw [run_statement_meld (m := m.withStore s) hform hopen hsource hcell hstill, hx₂, hy₂,
    Table.meld_meld, ← hy₂, Store.setEntries_entries]
  rfl

/-- From two tables there is one that is the first on top of the second. The library makes a fresh
tome of it and leaves the two tomes as they are. A statement gives it to the second tome, unless the
operand is a path from a sealed name, and leaves all other containers as they are; it is seen on
every path to the tome, and a statement that melds the same tomes again changes nothing. -/
theorem melding_and_merging_agree (first second : Table Value) :
    ∃ t, first.Overlays second t ∧ (∀ u, first.Overlays second u → u = t) ∧
      (∀ (r : Resources) x y, r.store.entries x = first → r.store.entries y = second →
        ∃ s, (Library.tome.call "merge".toList [.tome x, .tome y]).run.run r =
            (.ok (.tome r.store.tomes.size), { r with store := s }) ∧
          ¬ r.store.Has (.tome r.store.tomes.size) ∧ s.Has (.tome r.store.tomes.size) ∧
          s.entries r.store.tomes.size = t ∧ r.store.Extends s) ∧
      ∀ (m : Machine σ) line g, m.Grounded → Form.find? line = some (.deed .meld, g) →
        (m.scope.guards (g.text 2) = true → (statement line).run.run m =
          (.error { fault := .sealedVariable (g.text 2).trim.pathRoot }, m)) ∧
        ∀ m₁ m₂ x y, m.scope.guards (g.text 2) = false →
          (evaluate (g.value 1)).run.run m = (.ok (.tome x), m₁) →
          (evaluate (g.value 2)).run.run m₁ = (.ok (.tome y), m₂) →
          m₂.store.entries x = first → m₂.store.entries y = second →
          ¬ ReflTransGen m₂.store.Encloses (.tome x) (.tome y) →
          ∃ s, (statement line).run.run m = (.ok (), m₂.withStore s) ∧
            s.entries y = t ∧ (∀ c, c ≠ .tome y → m₂.store.SameAt s c) ∧
            (∀ root keys, m₂.scope.follow m₂.store root keys = .tome y →
              m₂.scope.follow s root keys = .tome y ∧ ∀ key,
                m₂.scope.follow s root (keys ++ [key]) = (t.get? key).getD .undefined) ∧
            ∀ line' g' m₁' m₂', Form.find? line' = some (.deed .meld, g') →
              m.scope.guards (g'.text 2) = false →
              (evaluate (g'.value 1)).run.run (m₂.withStore s) = (.ok (.tome x), m₁') →
              (evaluate (g'.value 2)).run.run m₁' = (.ok (.tome y), m₂') →
              (statement line').run.run (m₂.withStore s) = (.ok (), m₂') := by
  have hoverlays := Table.overlays_meld first second
  refine ⟨first.meld second, hoverlays, fun u hu => hu.unique hoverlays, ?_, ?_⟩
  · rintro r x y rfl rfl
    refine ⟨_, rfl, @Store.not_has_newTome r.store .empty, Store.has_newTome, ?_,
      Store.extends_newTome r.store _⟩
    simp [Store.entries]
  · intro m line g hm hform
    constructor
    · intro hguarded
      exact run_statement_of_guarded (d := .meld) rfl (Form.isIdle_of_find? (by decide)
        (by decide) hform) hform hguarded
    · rintro m₁ m₂ x y hopen hsource hcell rfl rfl hapart
      obtain ⟨hgrounded₁, hscope₁, -⟩ := grounded_of_run_value hm hsource
      obtain ⟨hgrounded₂, hscope₂, hextends⟩ := grounded_of_run_value hgrounded₁ hcell
      have hx : m₂.store.Has (.tome x) := hextends.has (has_of_run_value hm hsource)
      have hy : m₂.store.Has (.tome y) := has_of_run_value hgrounded₁ hcell
      have hrun := run_statement_meld hform hopen hsource hcell hapart
      have hgrounded : ((statement line).run.run m).2.Grounded := (keeps_statement hm).holds
      rw [hrun] at hgrounded
      refine ⟨_, hrun, Store.entries_setEntries hy, fun c hc => Store.sameAt_setEntries hc, ?_, ?_⟩
      · intro root keys hpath
        exact Scope.follow_setEntries hgrounded₂.sound hy hpath _
      · intro line' g' m₁' m₂' hform' hopen' hsource' hcell'
        have hscope : m₂.scope = m.scope := hscope₂.trans hscope₁
        exact run_statement_meld_again rfl hx hy hapart hgrounded hform'
          (hscope ▸ hopen') hsource' hcell'

/-- A machine with two tomes that share a key, the second under two names. -/
def twoTomes : Machine Transcript :=
  .afterCalls {} default {}
    [.execute "a is Tome \x7b k: 1, n: 2 \x7d ok".toList,
      .execute "b is Tome \x7b z: 0, k: 5 \x7d ok".toList, .execute "c is b ok".toList]

/-- A line that melds one into the other. -/
def meldingOne : Text := "Meld a into b ok".toList

/-- The places of the operands in that line. -/
def meldingGroups : Groups :=
  ⟨meldingOne, [(2, ⟨12, 14⟩), (1, ⟨5, 6⟩)]⟩

/-- The machine after that line. -/
def melded : Machine Transcript :=
  ((statement meldingOne).run.run twoTomes).2

theorem melding_and_merging_agree_twoTomes :
    ∃ t : Table Value, t.entries =
        [("z".toList, .number 0), ("k".toList, .number 1), ("n".toList, .number 2)] ∧
      ((Library.tome.call "merge".toList [.tome 0, .tome 1]).run.run
        twoTomes.resources).2.store.entries 2 = t ∧
      melded.store.entries 1 = t ∧
      melded.store.entries 0 = twoTomes.store.entries 0 ∧
      melded.scope.follow melded.store "c".toList ["k".toList] = .number 1 ∧
      ((statement meldingOne).run.run melded).2 =
        ((evaluate (meldingGroups.value 2)).run.run
          ((evaluate (meldingGroups.value 1)).run.run melded).2).2 := by
  have hform : Form.find? meldingOne = some (.deed .meld, meldingGroups) := by decide +kernel
  have hgrounded : twoTomes.Grounded := Machine.grounded_afterCalls _ _ _ _
  have hsource : ((evaluate (meldingGroups.value 1)).run.run twoTomes).1 = .ok (.tome 0) := by
    decide +kernel
  have hcell : ((evaluate (meldingGroups.value 2)).run.run
      ((evaluate (meldingGroups.value 1)).run.run twoTomes).2).1 = .ok (.tome 1) := by
    decide +kernel
  obtain ⟨hgrounded₁, -, hextends₁⟩ := grounded_of_run_value hgrounded (Prod.ext hsource rfl)
  obtain ⟨hgrounded₂, -, hextends₂⟩ := grounded_of_run_value hgrounded₁ (Prod.ext hcell rfl)
  have hextends := hextends₁.trans hextends₂
  have hx : twoTomes.store.Has (.tome 0) := Nat.lt_of_sub_pos (by decide +kernel)
  have hy : twoTomes.store.Has (.tome 1) := Nat.lt_of_sub_pos (by decide +kernel)
  have hapart := hgrounded₂.sound.not_reach_of_holds_eq_false (c := .tome 1) (hextends.has hx) rfl
    (by decide +kernel)
  obtain ⟨t, -, hunique, hmerge, hmeld⟩ := melding_and_merging_agree (σ := Transcript)
    (twoTomes.store.entries 0) (twoTomes.store.entries 1)
  obtain ⟨s, hrun, ht, hothers, hpaths, hagain⟩ := (hmeld twoTomes meldingOne meldingGroups
    hgrounded hform).2 _ _ 0 1 (by decide +kernel) (Prod.ext hsource rfl) (Prod.ext hcell rfl)
    (hextends.entries hx) (hextends.entries hy) hapart
  have hleft : melded = Machine.withStore _ s := congrArg Prod.snd hrun
  refine ⟨t, ?_, ?_, ?_, ?_, ?_, ?_⟩
  · rw [← hunique _ (Table.overlays_meld _ _)]
    decide +kernel
  · obtain ⟨s', hrun', -, -, ht', -⟩ := hmerge twoTomes.resources 0 1 rfl rfl
    rw [show twoTomes.resources.store.tomes.size = 2 by decide +kernel] at ht'
    rw [hrun']
    exact ht'
  · rw [hleft]
    exact ht
  · rw [hleft]
    exact Store.SameAt.trans (hextends.sameAt hx) (hothers (.tome 0) (by decide))
  · have hread := (hpaths "c".toList [] (by decide +kernel)).2 "k".toList
    rw [hleft]
    refine hread.trans ?_
    rw [← hunique _ (Table.overlays_meld _ _)]
    decide +kernel
  · rw [← hleft] at hagain
    have hsource' : ((evaluate (meldingGroups.value 1)).run.run melded).1 = .ok (.tome 0) := by
      decide +kernel
    have hcell' : ((evaluate (meldingGroups.value 2)).run.run
        ((evaluate (meldingGroups.value 1)).run.run melded).2).1 = .ok (.tome 1) := by
      decide +kernel
    rw [hagain meldingOne meldingGroups _ _ hform (by decide +kernel) (Prod.ext hsource' rfl)
      (Prod.ext hcell' rfl)]

end Run

end Grimoire
