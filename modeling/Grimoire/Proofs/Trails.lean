import Grimoire.Proofs.Refusals
import Grimoire.Proofs.Spared

/-!
# Trails through tomes

To set the entry at the end of a path is to go from tome to tome, and where a key leads to no tome a
fresh one is put under it. This module states what that walk comes to as functions on stores. Up to
the first key that leads to no tome the store stays as it is; from there on all tomes are fresh. So
of what existed before at most one tome gets another entry, under that key, and the rest is as it
was.
-/

namespace Grimoire

open Relation

namespace Store

variable {s t : Store} {cell : Nat} {key : Text} {v : Value}

/-! ## A fresh tome under a key -/

/-- The store with a fresh tome under a key of a tome. -/
def plant (s : Store) (cell : Nat) (key : Text) : Store :=
  (s.newTome .empty).2.setEntries cell ((s.entries cell).insert key (s.newTome .empty).1)

theorem has_plant (hv : s.Has v) : (s.plant cell key).Has v :=
  has_setEntries.2 ((extends_newTome s .empty).has hv)

theorem has_fresh_plant : (s.plant cell key).Has (s.newTome .empty).1 :=
  has_setEntries.2 has_newTome

theorem Sound.plant (hs : s.Sound) (hcell : s.Has (.tome cell)) (key : Text) :
    (s.plant cell key).Sound := by
  have hfresh : (s.newTome .empty).2.Sound := hs.newTome fun v hv => by simp at hv
  exact hfresh.setEntries (Run.safe_insert_newTome hs hcell key)

theorem entries_setEntries {entries : Table Value} (h : s.Has (.tome cell)) :
    (s.setEntries cell entries).entries cell = entries := by
  have hcell : cell < s.tomes.size := h
  simp [Store.entries, setEntries, hcell]

theorem entries_plant (hcell : s.Has (.tome cell)) (key : Text) :
    (s.plant cell key).entries cell = (s.entries cell).insert key (s.newTome .empty).1 :=
  entries_setEntries ((extends_newTome s .empty).has hcell)

theorem sameAt_plant (hv : s.Has v) (hne : v ≠ .tome cell) : s.SameAt (s.plant cell key) v :=
  ((extends_newTome s .empty).sameAt hv).trans (sameAt_setEntries hne)

/-! ## Walks -/

/-- The tome to which keys lead, where a fresh tome is put under each key that leads to none, and
the store with those tomes. -/
def delve (s : Store) (cell : Nat) : List Text → Nat × Store
  | [] => (cell, s)
  | key :: rest =>
    match (s.entries cell).get? key with
    | some (.tome inner) => s.delve inner rest
    | _ => (s.plant cell key).delve s.tomes.size rest

/-- The tome to which keys lead as far as they lead to tomes, and the keys that are left. -/
def dig (s : Store) (cell : Nat) : List Text → Nat × List Text
  | [] => (cell, [])
  | key :: rest =>
    match (s.entries cell).get? key with
    | some (.tome inner) => s.dig inner rest
    | _ => (cell, key :: rest)

/-- Up to the first key that leads to no tome a walk changes nothing. -/
theorem delve_dig (s : Store) (cell : Nat) (keys : List Text) :
    s.delve (s.dig cell keys).1 (s.dig cell keys).2 = s.delve cell keys := by
  induction keys generalizing cell with
  | nil => rfl
  | cons key rest ih =>
    rw [dig]
    split
    · next inner hinner => rw [ih, delve, hinner]
    · rfl

/-- The key at which digging ends leads to no tome. -/
theorem not_tome_of_dig {keys rest : List Text} {first : Nat}
    (h : s.dig first keys = (cell, key :: rest)) (inner : Nat) :
    (s.entries cell).get? key ≠ some (.tome inner) := by
  induction keys generalizing first with
  | nil => cases h
  | cons next others ih =>
    rw [dig] at h
    split at h
    · exact ih h
    · next hno =>
      cases h
      exact hno inner

/-- From a key that leads to no tome the walk goes on with a fresh one. -/
theorem delve_eq_of_dig {keys rest : List Text} {first : Nat}
    (h : s.dig first keys = (cell, key :: rest)) :
    s.delve first keys = (s.plant cell key).delve s.tomes.size rest := by
  have hno := not_tome_of_dig h
  rw [← delve_dig, h, delve]
  split
  · next inner hinner => exact absurd hinner (hno inner)
  · rfl

theorem delve_eq_of_dig_nil {keys : List Text} {first : Nat} (h : s.dig first keys = (cell, [])) :
    s.delve first keys = (cell, s) := by
  rw [← delve_dig, h, delve]

/-- Digging ends at a tome that the first one reaches. -/
theorem reaches_dig (s : Store) (first : Nat) (keys : List Text) :
    ReflTransGen s.Encloses (.tome first) (.tome (s.dig first keys).1) := by
  induction keys generalizing first with
  | nil => exact .refl
  | cons key rest ih =>
    rw [dig]
    split
    · next inner hinner =>
      have hstep : s.Encloses (.tome first) (.tome inner) := Table.mem_values_of_get? hinner
      exact (ih inner).head hstep
    · exact .refl

/-- Digging goes through what exists, so added cells make no difference. -/
theorem Extends.dig (h : s.Extends t) (hs : s.Sound) {first : Nat} (hfirst : s.Has (.tome first))
    (keys : List Text) : t.dig first keys = s.dig first keys := by
  induction keys generalizing first with
  | nil => rfl
  | cons key rest ih =>
    rw [Store.dig, Store.dig, h.entries hfirst]
    split
    · next inner hinner =>
      exact ih (hs.closed (.tome first) _ (Table.mem_values_of_get? hinner))
    · rfl

/-! ### What a walk keeps -/

/-- A walk keeps a store sound, loses nothing and ends at a tome that exists. -/
theorem Sound.delve (hs : s.Sound) (hcell : s.Has (.tome cell)) (keys : List Text) :
    (s.delve cell keys).2.Sound ∧ (s.delve cell keys).2.Has (.tome (s.delve cell keys).1) ∧
      ∀ v, s.Has v → (s.delve cell keys).2.Has v := by
  induction keys generalizing s cell with
  | nil => exact ⟨hs, hcell, fun v hv => hv⟩
  | cons key rest ih =>
    rw [Store.delve]
    split
    · next inner hinner =>
      exact ih hs (hs.closed (.tome cell) _ (Table.mem_values_of_get? hinner))
    · have hfresh : (s.plant cell key).Has (s.newTome .empty).1 := has_fresh_plant
      obtain ⟨hsound, hend, hhas⟩ := ih (hs.plant hcell key) hfresh
      exact ⟨hsound, hend, fun v hv => hhas v (has_plant hv)⟩

/-- A walk leaves alone what the first tome does not reach, and where it ends does not reach that
either. -/
theorem delve_spares {P : Value → Prop} (hhas : ∀ c, P c → s.Has c)
    (havoids : s.Avoids P (.tome cell)) (keys : List Text) :
    (∀ c, P c → s.SameAt (s.delve cell keys).2 c) ∧
      (s.delve cell keys).2.Avoids P (.tome (s.delve cell keys).1) := by
  induction keys generalizing s cell with
  | nil => exact ⟨fun c _ => .refl s c, havoids⟩
  | cons key rest ih =>
    rw [Store.delve]
    split
    · next inner hinner =>
      exact ih hhas (havoids.enclosed (Table.mem_values_of_get? hinner))
    · -- from here on the walk is inside the fresh tome, which reaches nothing that was there
      have hfresh := avoids_newTome_of_insert hhas cell key
      obtain ⟨hsame, hend⟩ := ih (fun c hc => has_plant (hhas c hc)) hfresh
      refine ⟨fun c hc => ?_, hend⟩
      have hne : c ≠ .tome cell := fun h => havoids.self (h ▸ hc)
      exact (sameAt_plant (hhas c hc) hne).trans (hsame c hc)

/-- A walk that puts fresh tomes changes of what exists only the entry where the first of them is
put, and it ends at a fresh tome. -/
theorem delve_of_dig_cons (hs : s.Sound) {first : Nat} (hfirst : s.Has (.tome first))
    {keys rest : List Text} (h : s.dig first keys = (cell, key :: rest)) :
    (s.delve first keys).2.entries cell =
        (s.entries cell).insert key (s.newTome .empty).1 ∧
      (∀ c, s.Has c → c ≠ .tome cell → s.SameAt (s.delve first keys).2 c) ∧
      ¬ s.Has (.tome (s.delve first keys).1) := by
  have hcell : s.Has (.tome cell) := by
    have hreach := reaches_dig s first keys
    rw [h] at hreach
    exact hs.has_of_reflTransGen hfirst hreach
  obtain ⟨hsame, hend⟩ := delve_spares (s := s.plant cell key) (P := s.Has)
    (fun c hc => has_plant hc) (avoids_newTome_of_insert (fun _ hc => hc) cell key) rest
  rw [delve_eq_of_dig h]
  refine ⟨?_, fun c hc hne => (sameAt_plant hc hne).trans (hsame c hc), hend.self⟩
  have hkept : (s.plant cell key).SameAt ((s.plant cell key).delve s.tomes.size rest).2
    (.tome cell) := hsame _ hcell
  exact Eq.trans hkept (entries_plant hcell key)

end Store

/-! ## Runs -/

namespace Machine

variable {σ : Type} {m : Machine σ} {name : Text}

/-- The tome of a global name, and the machine on which the name is bound to it: a fresh one, if the
name has none. -/
def rooted (m : Machine σ) (name : Text) : Nat × Machine σ :=
  match m.scope.globals.get? name with
  | some (.tome cell) => (cell, m)
  | _ => (m.store.tomes.size, (m.withStore (m.store.newTome .empty).2).withScope
      { m.scope with globals := m.scope.globals.insert name (.tome m.store.tomes.size) })

theorem rooted_of_tome {cell : Nat} (h : m.scope.globals.get? name = some (.tome cell)) :
    m.rooted name = (cell, m) := by
  rw [rooted, h]

theorem rooted_of_not_tome (h : ∀ cell, m.scope.globals.get? name ≠ some (.tome cell)) :
    m.rooted name = (m.store.tomes.size, (m.withStore (m.store.newTome .empty).2).withScope
      { m.scope with globals := m.scope.globals.insert name (.tome m.store.tomes.size) }) := by
  unfold rooted
  split
  · next cell hcell => exact absurd hcell (h cell)
  · rfl

end Machine

namespace Run

variable {σ : Type} {m : Machine σ} {root : Text}

/-- What reads the machine reads the one that it runs on. -/
theorem run_get_bind {β : Type} (f : Machine σ → Run σ β) (m : Machine σ) :
    (get >>= f).run.run m = (f m).run.run m :=
  rfl

theorem run_rootTome (hopen : m.scope.isSealed root = false) :
    (rootTome root).run.run m = (.ok (m.rooted root).1, (m.rooted root).2) := by
  show ((match m.scope.globals.get? root with
    | some (.tome cell) => return cell
    | _ => do
      let cell ← newTomeCell
      bindName root (.tome cell)
      return cell : Run σ Nat)).run.run m = _
  unfold Machine.rooted
  split
  · rfl
  · have hstill : (m.withStore (m.store.newTome .empty).2).scope.isSealed root = false := hopen
    rw [run_bind]
    show ((do
      bindName root (.tome m.store.tomes.size)
      return m.store.tomes.size : Run σ Nat)).run.run (m.withStore _) = _
    rw [run_bind, run_bindName_of_open hstill]
    rfl

theorem run_newTomeCell :
    (newTomeCell : Run σ Nat).run.run m =
      (.ok m.store.tomes.size, m.withStore (m.store.newTome .empty).2) :=
  rfl

theorem run_setEntries (cell : Nat) (entries : Table Value) :
    (setEntries cell entries : Run σ Unit).run.run m =
      (.ok (), m.withStore (m.store.setEntries cell entries)) :=
  rfl

theorem run_innerTome (cell : Nat) (key : Text) :
    (innerTome cell key).run.run m = match (m.store.entries cell).get? key with
      | some (.tome inner) => (.ok inner, m)
      | _ => (.ok m.store.tomes.size, m.withStore (m.store.plant cell key)) := by
  -- a missing entry and one that is no tome are replaced alike
  have hplant : (do
      let inner ← newTomeCell
      setEntries cell ((m.store.entries cell).insert key (.tome inner))
      return inner : Run σ Nat).run.run m =
        (.ok m.store.tomes.size, m.withStore (m.store.plant cell key)) := by
    rw [run_bind, run_newTomeCell]
    dsimp only
    rw [run_bind, run_setEntries]
    rfl
  rw [innerTome, run_get_bind]
  dsimp only
  cases (m.store.entries cell).get? key with
  | none => exact hplant
  | some v =>
    cases v with
    | tome inner => rfl
    | _ => exact hplant

theorem run_innerTomes (cell : Nat) (keys : List Text) :
    (keys.foldlM innerTome cell).run.run m =
      (.ok (m.store.delve cell keys).1, m.withStore (m.store.delve cell keys).2) := by
  induction keys generalizing m cell with
  | nil => rfl
  | cons key rest ih =>
    rw [List.foldlM_cons, run_bind, run_innerTome, Store.delve]
    cases (m.store.entries cell).get? key with
    | none => exact ih m.store.tomes.size
    | some v =>
      cases v with
      | tome inner => exact ih inner
      | _ => exact ih m.store.tomes.size

theorem run_bindPath_of_isSealed (hsealed : m.scope.isSealed root = true) (steps : List Text)
    (v : Value) :
    (bindPath root steps v).run.run m = (.error { fault := .sealedVariable root }, m) := by
  show ((if m.scope.isSealed root then (fail (.sealedVariable root) : Run σ PUnit) >>= fun _ => _
    else _ : Run σ Unit)).run.run m = _
  rw [if_pos hsealed]
  rfl

/-- What comes of setting the entry at the end of a path from a name that is not sealed: it is
refused when the walk has been made, or the last tome gets the entry. -/
theorem run_bindPath (hopen : m.scope.isSealed root = false) (steps : List Text) (v : Value)
    {first cell : Nat} {m₁ : Machine σ} {t : Store} (hroot : m.rooted root = (first, m₁))
    (hwalk : m₁.store.delve first steps.dropLast = (cell, t)) :
    (bindPath root steps v).run.run m =
      if t.holds v (.tome cell) then
        (.error { fault := .wrongType (.insideItself "Set".toList .tome) }, m₁.withStore t)
      else (.ok (), m₁.withStore (t.setEntries cell
        ((t.entries cell).insert (steps.getLast?.getD []) v))) := by
  show ((if m.scope.isSealed root then (fail (.sealedVariable root) : Run σ PUnit) >>= fun _ => _
    else rootTome root >>= fun first => steps.dropLast.foldlM innerTome first >>= fun cell => _
      : Run σ Unit)).run.run m = _
  rw [hopen, if_neg Bool.false_ne_true, run_bind, run_rootTome hopen, hroot]
  dsimp only
  rw [run_bind, run_innerTomes, hwalk]
  show ((if t.holds v (.tome cell) then
      (fail (.wrongType (.insideItself "Set".toList .tome)) : Run σ PUnit) >>= fun _ => _
    else _ : Run σ Unit)).run.run (m₁.withStore t) = _
  split <;> rfl

end Run

end Grimoire
