import Grimoire.Proofs.InPlace
import Grimoire.Proofs.Tables

/-!
# Tomes are ordered maps

A tome holds each key once and keeps its entries in the order in which their keys came. What a key
is bound to is decided by the last edit that concerns the key. A statement that renames a key moves
its entry to the end.
-/

namespace Grimoire

namespace Table

/-! ## Edits -/

/-- An edit of a tome. -/
inductive Edit (α : Type) where
  | insert (key : Text) (v : α)
  | remove (key : Text)

/-- The key that an edit concerns. -/
def Edit.key {α : Type} : Edit α → Text
  | insert key _ | remove key => key

/-- What an edit leaves under its key. -/
def Edit.left? {α : Type} : Edit α → Option α
  | insert _ v => some v
  | remove _ => none

/-- The table after an edit. -/
def edited {α : Type} (t : Table α) : Edit α → Table α
  | .insert key v => t.insert key v
  | .remove key => t.erase key

/-- The last edit that concerns a key. -/
def lastEdit? {α : Type} (key : Text) (edits : List (Edit α)) : Option (Edit α) :=
  (edits.filter (·.key = key)).getLast?

variable {α : Type} {t : Table α} {key old new : Text} {v w : α} {before after : List (Text × α)}

/-! ## The list of entries -/

/-- Around the entry of a key there is no other of the key. -/
theorem not_mem_of_split (h : t.entries = before ++ (key, w) :: after) :
    (∀ entry ∈ before, entry.1 ≠ key) ∧ ∀ entry ∈ after, entry.1 ≠ key := by
  have hdistinct := t.distinct
  rw [h, List.map_append, List.map_cons, List.nodup_append, List.nodup_cons] at hdistinct
  obtain ⟨-, ⟨hafter, -⟩, hbefore⟩ := hdistinct
  constructor
  · intro entry hentry
    exact hbefore _ (List.mem_map_of_mem hentry) _ List.mem_cons_self
  · intro entry hentry hkey
    exact hafter (List.mem_map.2 ⟨entry, hentry, hkey⟩)

/-- A key that is present has an entry somewhere. -/
theorem exists_split_of_get? (h : t.get? key = some w) :
    ∃ before after, t.entries = before ++ (key, w) :: after := by
  unfold get? at h
  rw [List.lookup_eq_some_iff] at h
  obtain ⟨before, after, hsplit, -⟩ := h
  exact ⟨before, after, hsplit⟩

theorem get?_eq_none_of_not_mem (h : key ∉ t.keys) : t.get? key = none := by
  rw [Option.eq_none_iff_forall_ne_some]
  intro w hw
  obtain ⟨before, after, hsplit⟩ := exists_split_of_get? hw
  apply h
  rw [keys, hsplit]
  simp

theorem put_append_cons (h : ∀ entry ∈ before, entry.1 ≠ key) :
    put key v (before ++ (key, w) :: after) = before ++ (key, v) :: after := by
  induction before with
  | nil => rw [List.nil_append, put, if_pos rfl, List.nil_append]
  | cons entry before ih =>
    rw [List.forall_mem_cons] at h
    rw [List.cons_append, put, if_neg h.1, ih h.2, List.cons_append]

/-- The value of a key that is present is replaced in its place. -/
theorem entries_insert_of_split (h : t.entries = before ++ (key, w) :: after) :
    (t.insert key v).entries = before ++ (key, v) :: after := by
  show put key v t.entries = _
  rw [h, put_append_cons (not_mem_of_split h).1]

/-- A key that is absent comes to the end. -/
theorem entries_insert_of_not_mem (h : key ∉ t.keys) :
    (t.insert key v).entries = t.entries ++ [(key, v)] :=
  put_of_not_mem h

theorem entries_erase (t : Table α) (key : Text) :
    (t.erase key).entries = t.entries.filter (·.1 ≠ key) := rfl

/-- The entry of a key that is removed leaves a gap that closes. -/
theorem entries_erase_of_split (h : t.entries = before ++ (key, w) :: after) :
    (t.erase key).entries = before ++ after := by
  obtain ⟨hbefore, hafter⟩ := not_mem_of_split h
  rw [entries_erase, h, List.filter_append, List.filter_cons]
  simp only [ne_eq, not_true_eq_false, decide_false, Bool.false_eq_true, if_false]
  rw [List.filter_eq_self.2, List.filter_eq_self.2]
  · simpa using hafter
  · simpa using hbefore

theorem erase_of_not_mem (h : key ∉ t.keys) : t.erase key = t := by
  have hentries : (t.erase key).entries = t.entries := by
    rw [entries_erase, List.filter_eq_self]
    intro entry hentry
    have hne : entry.1 ≠ key := fun hkey => h (hkey ▸ List.mem_map_of_mem hentry)
    simpa using hne
  show (⟨_, _⟩ : Table α) = ⟨_, _⟩
  congr 1

/-! ## Histories -/

/-- An edit decides what is found under its key and under no other. -/
theorem get?_edited (t : Table α) (edit : Edit α) (key : Text) :
    (t.edited edit).get? key = if edit.key = key then edit.left? else t.get? key := by
  cases edit with
  | insert other v =>
    show (t.insert other v).get? key = _
    rw [get?_insert]
    simp only [Edit.key, Edit.left?, eq_comm]
  | remove other =>
    show (t.erase other).get? key = _
    rw [get?_erase]
    simp only [Edit.key, Edit.left?, eq_comm]

/-- The last edit of a key decides what is found under it. -/
theorem get?_foldl_edited (edits : List (Edit α)) (t : Table α) (key : Text) :
    (edits.foldl edited t).get? key = (lastEdit? key edits).elim (t.get? key) Edit.left? := by
  induction edits using List.reverseRecOn with
  | nil => rfl
  | append_singleton edits edit ih =>
    rw [List.foldl_append, lastEdit?, List.filter_append]
    show ((edits.foldl edited t).edited edit).get? key = _
    rw [get?_edited]
    by_cases hkey : edit.key = key
    · simp [hkey]
    · rw [if_neg hkey, ih]
      simp [hkey, lastEdit?]

/-! ## Renamed keys -/

/-- A renamed key comes to the end, and an entry under its new name gives way. -/
theorem entries_rebrand_of_get? (h : t.get? old = some v) :
    (t.rebrand old new).entries =
      (t.entries.filter fun entry => entry.1 ≠ old ∧ entry.1 ≠ new) ++ [(new, v)] := by
  have hgone : new ∉ ((t.erase old).erase new).keys := by
    intro hmem
    obtain ⟨entry, hentry, hnew⟩ := List.mem_map.1 hmem
    rw [entries_erase, List.mem_filter] at hentry
    exact absurd hnew (by simpa using hentry.2)
  rw [rebrand, h]
  show (((t.erase old).erase new).insert new v).entries = _
  rw [entries_insert_of_not_mem hgone, entries_erase, entries_erase, List.filter_filter]
  congr 2
  funext entry
  simp [Bool.and_comm]

/-- A table without the key stays as it is. -/
theorem rebrand_of_get?_eq_none (h : t.get? old = none) : t.rebrand old new = t := by
  rw [rebrand, h]

end Table

/-- Renaming a key of no tome changes nothing. -/
theorem Store.entries_setEntries_rebrand (s : Store) (cell : Nat) (old new : Text) :
    (s.setEntries cell ((s.entries cell).rebrand old new)).entries cell =
      (s.entries cell).rebrand old new := by
  by_cases hcell : cell < s.tomes.size
  · simp [setEntries, entries, hcell]
  · have hnone : s.entries cell = .empty := by simp [entries, hcell]
    rw [hnone, Table.rebrand_of_get?_eq_none rfl]
    simp [setEntries, entries, hcell]

namespace Run

variable {σ : Type} {m m₁ m₂ m₃ : Machine σ} {line a b : Text} {g : Groups} {cell : Nat}

theorem run_rebranded (hopen : m.scope.guards (g.text 3) = false)
    (hold : (evaluate (g.display 1)).run.run m = (.ok a, m₁))
    (hnew : (evaluate (g.display 2)).run.run m₁ = (.ok b, m₂))
    (htome : (evaluate (g.value 3)).run.run m₂ = (.ok (.tome cell), m₃)) :
    (evaluate ((Form.deed .rebrand).effects g)).run.run m =
      (.ok [.setEntries cell ((m₃.store.entries cell).rebrand a b)], m₃) := by
  show (evaluate (Deed.refuseSealed (g.text 3) >>= _)).run.run m = _
  rw [run_refuseSealed_bind, hopen]
  show (evaluate (g.display 1 >>= _)).run.run m = _
  rw [run_evaluate_bind_of_ok hold, run_evaluate_bind_of_ok hnew, run_evaluate_bind_of_ok htome]
  rfl

variable [Host σ]

theorem run_statement_rebrand (hform : Form.find? line = some (.deed .rebrand, g))
    (hopen : m.scope.guards (g.text 3) = false)
    (hold : (evaluate (g.display 1)).run.run m = (.ok a, m₁))
    (hnew : (evaluate (g.display 2)).run.run m₁ = (.ok b, m₂))
    (htome : (evaluate (g.value 3)).run.run m₂ = (.ok (.tome cell), m₃)) :
    (statement line).run.run m =
      (.ok (), m₃.withStore (m₃.store.setEntries cell ((m₃.store.entries cell).rebrand a b))) := by
  rw [run_statement_of_effect (Form.isIdle_of_find? (by decide) (by decide) hform) hform
    (run_rebranded hopen hold hnew htome)]
  rfl

/-- Every tome of a machine holds each key once. An insertion replaces the value of a key that is
present where it is and adds one that is absent at the end, and a removal closes the gap; so the
last edit that concerns a key decides what is found under it. A statement that renames a key of a
tome moves its value to the end under the new name, in place of what was under that name, and keeps
the other entries in their order; if the key is absent, the tome stays as it is. No other tome is
changed, and none at all if the operand is a path from a sealed name. -/
theorem tomes_are_ordered_maps :
    (∀ (m : Machine σ) cell, (m.store.entries cell).keys.Nodup) ∧
    (∀ (t : Table Value) key v,
      (∀ before old after, t.entries = before ++ (key, old) :: after →
        (t.insert key v).entries = before ++ (key, v) :: after ∧
          (t.erase key).entries = before ++ after) ∧
      (key ∉ t.keys → (t.insert key v).entries = t.entries ++ [(key, v)] ∧ t.erase key = t)) ∧
    (∀ (t : Table Value) (edits : List (Table.Edit Value)) key,
      (edits.foldl Table.edited t).get? key =
        (Table.lastEdit? key edits).elim (t.get? key) Table.Edit.left?) ∧
    ∀ (m : Machine σ) line g, Form.find? line = some (.deed .rebrand, g) →
      (m.scope.guards (g.text 3) = true → (statement line).run.run m =
        (.error { fault := .sealedVariable (g.text 3).trim.pathRoot }, m)) ∧
      ∀ m₁ m₂ m₃ a b cell, m.scope.guards (g.text 3) = false →
        (evaluate (g.display 1)).run.run m = (.ok a, m₁) →
        (evaluate (g.display 2)).run.run m₁ = (.ok b, m₂) →
        (evaluate (g.value 3)).run.run m₂ = (.ok (.tome cell), m₃) →
        ∃ s, (statement line).run.run m = (.ok (), m₃.withStore s) ∧
          (∀ v, v ≠ .tome cell → s.contents v = m₃.store.contents v) ∧
          (∀ old, (m₃.store.entries cell).get? a = some old → (s.entries cell).entries =
            ((m₃.store.entries cell).entries.filter fun entry => entry.1 ≠ a ∧ entry.1 ≠ b) ++
              [(b, old)]) ∧
          (a ∉ (m₃.store.entries cell).keys → s.entries cell = m₃.store.entries cell) := by
  refine ⟨?_, ?_, ?_, ?_⟩
  · intro m cell
    exact (m.store.entries cell).distinct
  · intro t key v
    constructor
    · intro before old after hsplit
      exact ⟨Table.entries_insert_of_split hsplit, Table.entries_erase_of_split hsplit⟩
    · intro habsent
      exact ⟨Table.entries_insert_of_not_mem habsent, Table.erase_of_not_mem habsent⟩
  · intro t edits key
    exact Table.get?_foldl_edited edits t key
  · intro m line g hform
    constructor
    · intro hguarded
      exact run_statement_of_guarded (d := .rebrand) rfl (Form.isIdle_of_find? (by decide)
        (by decide) hform) hform hguarded
    · intro m₁ m₂ m₃ a b cell hopen hold hnew htome
      refine ⟨_, run_statement_rebrand hform hopen hold hnew htome, ?_, ?_, ?_⟩
      · intro v hv
        exact Store.contents_setEntries_of_ne hv
      · intro old hpresent
        rw [Store.entries_setEntries_rebrand, Table.entries_rebrand_of_get? hpresent]
      · intro habsent
        rw [Store.entries_setEntries_rebrand,
          Table.rebrand_of_get?_eq_none (Table.get?_eq_none_of_not_mem habsent)]

/-- A machine on which a name is bound to a tome. -/
def threeEntries : Machine Transcript :=
  ((statement "bag is Tome \x7b a: 1, b: 2, c: 3 \x7d ok".toList).run.run .unused).2

/-- A line that renames a key of it to another. -/
def rebranding : Text := "Rebrand key \"a\" as \"b\" in bag ok".toList

/-- The places of the operands in that line. -/
def rebrandingGroups : Groups :=
  ⟨rebranding, [(3, ⟨26, 30⟩), (2, ⟨19, 22⟩), (1, ⟨12, 15⟩)]⟩

theorem tomes_are_ordered_maps_threeEntries :
    (((statement rebranding).run.run threeEntries).2.store.entries 0).entries =
      [("c".toList, .number 3), ("b".toList, .number 1)] := by
  have hold : ((evaluate (rebrandingGroups.display 1)).run.run threeEntries).1 =
      .ok "a".toList := by decide +kernel
  have hnew : ((evaluate (rebrandingGroups.display 2)).run.run
      ((evaluate (rebrandingGroups.display 1)).run.run threeEntries).2).1 = .ok "b".toList := by
    decide +kernel
  have htome : ((evaluate (rebrandingGroups.value 3)).run.run
      ((evaluate (rebrandingGroups.display 2)).run.run
        ((evaluate (rebrandingGroups.display 1)).run.run threeEntries).2).2).1 =
      .ok (.tome 0) := by decide +kernel
  obtain ⟨-, -, -, hrebrand⟩ := tomes_are_ordered_maps (σ := Transcript)
  obtain ⟨s, hrun, -, hentries, -⟩ :=
    (hrebrand threeEntries rebranding rebrandingGroups (by decide +kernel)).2 _ _ _ "a".toList
      "b".toList 0 (by decide +kernel) (Prod.ext hold rfl) (Prod.ext hnew rfl) (Prod.ext htome rfl)
  rw [hrun]
  show (s.entries 0).entries = _
  rw [hentries (.number 1) (by decide +kernel)]
  decide +kernel

end Run

end Grimoire
