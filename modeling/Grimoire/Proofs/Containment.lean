import Grimoire.Proofs.Tables
import Grimoire.Store.Walk
import Mathlib.Data.List.Perm.Subperm
import Mathlib.Logic.Relation

/-!
# Containment

A container encloses the values directly in it. A store is sound when what its containers enclose
exists and none is inside itself. Adding a cell keeps a store sound, and so does replacing the
contents of a cell by values that do not reach it. In a sound store no path of containers is longer
than the number of cells, so a bounded search for a container finds it.
-/

namespace Grimoire

open Relation

/-! ## Relations changed at one place -/

section ChangedAt

variable {α : Type} {r r' : α → α → Prop} {c : α}

/-- A path of the changed relation is an old path, or it begins with an old path to the place of
the change. -/
theorem reflTransGen_or_of_agree_off (off : ∀ v w, v ≠ c → r' v w → r v w) {v w : α}
    (h : ReflTransGen r' v w) : ReflTransGen r v w ∨ ReflTransGen r v c := by
  -- from the head: the first time that the path stands at `c` decides
  induction h using ReflTransGen.head_induction_on with
  | refl => exact Or.inl .refl
  | @head a b hab _ ih =>
    by_cases ha : a = c
    · subst ha
      exact Or.inr .refl
    · have hold : r a b := off a b ha hab
      exact ih.imp (.head hold) (.head hold)

/-- A path of the changed relation that is no old path passes through the place of the change. -/
theorem transGen_or_through_of_agree_off (off : ∀ v w, v ≠ c → r' v w → r v w) {v w : α}
    (h : TransGen r' v w) :
    TransGen r v w ∨ (ReflTransGen r' v c ∧ ReflTransGen r' c w) := by
  induction h with
  | @single b hvb =>
    by_cases hv : v = c
    · subst hv
      exact Or.inr ⟨.refl, .single hvb⟩
    · exact Or.inl (.single (off v b hv hvb))
  | @tail b d hvb hbd ih =>
    by_cases hb : b = c
    · subst hb
      exact Or.inr ⟨hvb.to_reflTransGen, .single hbd⟩
    · rcases ih with hold | ⟨hvc, hcb⟩
      · exact Or.inl (hold.tail (off b d hb hbd))
      · exact Or.inr ⟨hvc, hcb.tail hbd⟩

/-- A relation without cycles stays so if every new step leads to a place from which no old path
leads back. -/
theorem not_transGen_self_of_agree_off (acyclic : ∀ v, ¬ TransGen r v v)
    (off : ∀ v w, v ≠ c → r' v w → r v w)
    (new : ∀ w, r' c w → r c w ∨ ¬ ReflTransGen r w c) : ∀ v, ¬ TransGen r' v v := by
  -- a new cycle would go through `c`, and there only its first step is new
  have hc : ¬ TransGen r' c c := by
    intro h
    obtain ⟨w, hcw, hwc⟩ := TransGen.head'_iff.1 h
    have hback : ReflTransGen r w c := (reflTransGen_or_of_agree_off off hwc).elim id id
    rcases new w hcw with hold | hno
    · exact acyclic c (TransGen.head' hold hback)
    · exact hno hback
  intro v h
  rcases transGen_or_through_of_agree_off off h with hold | ⟨hvc, hcv⟩
  · exact acyclic v hold
  · exact hc ((h.trans_right hcv).trans_left hvc)

end ChangedAt

/-! ## Soundness -/

namespace Value

/-- Whether a value is a sequence or a tome. -/
def isContainer : Value → Bool
  | sequence _ | tome _ => true
  | _ => false

theorem sameCell_self {v : Value} (h : v.isContainer = true) : v.sameCell v = true := by
  cases v <;> simp [isContainer, sameCell] at h ⊢

end Value

namespace Store

/-- A container exists in a store if its cell does; other values always exist. -/
def Has (s : Store) : Value → Prop
  | .sequence cell => cell < s.sequences.size
  | .tome cell => cell < s.tomes.size
  | _ => True

/-- `w` is an element or an entry of `v`. -/
def Encloses (s : Store) (v w : Value) : Prop :=
  w ∈ s.contents v

/-- What the containers of a store enclose exists, and no container is inside itself. -/
structure Sound (s : Store) : Prop where
  closed : ∀ v w, s.Encloses v w → s.Has w
  acyclic : ∀ v, ¬ TransGen s.Encloses v v

theorem has_of_not_isContainer {s : Store} {v : Value} (h : v.isContainer = false) : s.Has v := by
  cases v <;> simp [Value.isContainer, Has] at h ⊢

theorem contents_of_not_isContainer {s : Store} {v : Value} (h : v.isContainer = false) :
    s.contents v = [] := by
  cases v <;> simp [Value.isContainer, contents] at h ⊢

/-- The store of a fresh machine is sound. -/
theorem Sound.empty : Sound {} := by
  have hno : ∀ v w, ¬ Encloses {} v w := by
    intro v w h
    cases v <;> simp [Encloses, contents, items, entries, Table.values, Table.empty] at h
  refine ⟨fun v w h => absurd h (hno v w), fun v h => ?_⟩
  obtain ⟨w, hvw, -⟩ := TransGen.head'_iff.1 h
  exact hno v w hvw

/-- A value that encloses something is a container that exists. -/
theorem Encloses.has {s : Store} {v w : Value} (h : s.Encloses v w) :
    v.isContainer = true ∧ s.Has v := by
  cases v with
  | sequence cell =>
    refine ⟨rfl, ?_⟩
    by_contra hout
    have hsize : s.sequences.size ≤ cell := Nat.le_of_not_lt hout
    simp [Encloses, contents, items, hsize] at h
  | tome cell =>
    refine ⟨rfl, ?_⟩
    by_contra hout
    have hsize : s.tomes.size ≤ cell := Nat.le_of_not_lt hout
    simp [Encloses, contents, entries, hsize, Table.values, Table.empty] at h
  | _ => simp [Encloses, contents] at h

/-- In a sound store everything on a path from a value that exists does. -/
theorem Sound.has_of_reflTransGen {s : Store} (hs : s.Sound) {v w : Value} (hv : s.Has v)
    (h : ReflTransGen s.Encloses v w) : s.Has w := by
  cases h with
  | refl => exact hv
  | tail _ hstep => exact hs.closed _ _ hstep

/-! ## Changes of one cell -/

/-- A store stays sound when one container gets other contents, each of which was there before or
does not reach the container. -/
theorem Sound.of_change {s t : Store} {c : Value} (hs : s.Sound)
    (keeps : ∀ v, s.Has v → t.Has v)
    (off : ∀ v, v ≠ c → t.contents v = s.contents v)
    (new : ∀ w ∈ t.contents c, t.Has w ∧ (w ∈ s.contents c ∨ ¬ ReflTransGen s.Encloses w c)) :
    t.Sound where
  closed v w h := by
    by_cases hv : v = c
    · subst hv
      exact (new w h).1
    · refine keeps w (hs.closed v w ?_)
      rw [Encloses, ← off v hv]
      exact h
  acyclic := by
    refine not_transGen_self_of_agree_off hs.acyclic (c := c) (fun v w hv h => ?_)
      (fun w h => (new w h).2)
    rw [Encloses, ← off v hv]
    exact h

/-- What exists does not reach a cell that does not. -/
theorem Sound.not_reach_of_not_has {s : Store} (hs : s.Sound) {v c : Value} (hv : s.Has v)
    (hc : ¬ s.Has c) : ¬ ReflTransGen s.Encloses v c :=
  fun h => hc (hs.has_of_reflTransGen hv h)

/-- Replacing the elements of a sequence moves no other container. -/
theorem contents_setItems_of_ne {s : Store} {cell : Nat} {items : List Value} {v : Value}
    (hv : v ≠ .sequence cell) : (s.setItems cell items).contents v = s.contents v := by
  cases v with
  | sequence other =>
    have hne : cell ≠ other := fun h => hv (by rw [h])
    simp [contents, Store.items, setItems, Array.getElem?_setIfInBounds_ne hne]
  | _ => rfl

theorem mem_contents_setItems {s : Store} {cell : Nat} {items : List Value} {w : Value}
    (h : w ∈ (s.setItems cell items).contents (.sequence cell)) : w ∈ items := by
  by_cases hcell : cell < s.sequences.size
  · simpa [contents, Store.items, setItems, Array.getElem?_setIfInBounds, hcell] using h
  · simp [contents, Store.items, setItems, hcell] at h

/-- Replacing the entries of a tome moves no other container. -/
theorem contents_setEntries_of_ne {s : Store} {cell : Nat} {entries : Table Value} {v : Value}
    (hv : v ≠ .tome cell) : (s.setEntries cell entries).contents v = s.contents v := by
  cases v with
  | tome other =>
    have hne : cell ≠ other := fun h => hv (by rw [h])
    simp [contents, Store.entries, setEntries, Array.getElem?_setIfInBounds_ne hne]
  | _ => rfl

theorem mem_contents_setEntries {s : Store} {cell : Nat} {entries : Table Value} {w : Value}
    (h : w ∈ (s.setEntries cell entries).contents (.tome cell)) : w ∈ entries.values := by
  by_cases hcell : cell < s.tomes.size
  · simpa [contents, Store.entries, setEntries, Array.getElem?_setIfInBounds, hcell] using h
  · simp [contents, Store.entries, setEntries, hcell] at h

@[simp]
theorem has_setItems {s : Store} {cell : Nat} {items : List Value} {v : Value} :
    (s.setItems cell items).Has v ↔ s.Has v := by
  cases v <;> simp [Has, setItems]

@[simp]
theorem has_setEntries {s : Store} {cell : Nat} {entries : Table Value} {v : Value} :
    (s.setEntries cell entries).Has v ↔ s.Has v := by
  cases v <;> simp [Has, setEntries]

theorem setIfInBounds_getD {α : Type} (xs : Array α) (place : Nat) (a : α) :
    xs.setIfInBounds place (xs.getD place a) = xs := by
  by_cases h : place < xs.size <;> simp [Array.setIfInBounds, h]

/-- An array that gets the elements that it has stays as it is. -/
theorem setItems_items (s : Store) (cell : Nat) : s.setItems cell (s.items cell) = s := by
  rw [setItems, items, setIfInBounds_getD]

/-- A tome that gets the entries that it has stays as it is. -/
theorem setEntries_entries (s : Store) (cell : Nat) : s.setEntries cell (s.entries cell) = s := by
  rw [setEntries, entries, setIfInBounds_getD]

/-- The elements of a sequence may be replaced by any that exist and were there before or do not
reach the sequence. -/
theorem Sound.setItems {s : Store} (hs : s.Sound) {cell : Nat} {items : List Value}
    (new : ∀ w ∈ items,
      s.Has w ∧ (w ∈ s.items cell ∨ ¬ ReflTransGen s.Encloses w (.sequence cell))) :
    (s.setItems cell items).Sound := by
  refine hs.of_change (c := .sequence cell) (fun v hv => has_setItems.2 hv)
    (fun v hv => contents_setItems_of_ne hv) (fun w hw => ?_)
  have hnew := new w (mem_contents_setItems hw)
  exact ⟨has_setItems.2 hnew.1, hnew.2⟩

/-- The entries of a tome may be replaced by any that exist and were there before or do not reach
the tome. -/
theorem Sound.setEntries {s : Store} (hs : s.Sound) {cell : Nat} {entries : Table Value}
    (new : ∀ w ∈ entries.values,
      s.Has w ∧ (w ∈ (s.entries cell).values ∨ ¬ ReflTransGen s.Encloses w (.tome cell))) :
    (s.setEntries cell entries).Sound := by
  refine hs.of_change (c := .tome cell) (fun v hv => has_setEntries.2 hv)
    (fun v hv => contents_setEntries_of_ne hv) (fun w hw => ?_)
  have hnew := new w (mem_contents_setEntries hw)
  exact ⟨has_setEntries.2 hnew.1, hnew.2⟩

/-! ## Fresh cells -/

/-- What exists in a store exists in every extension. -/
theorem Extends.has {s t : Store} (h : s.Extends t) {v : Value} (hv : s.Has v) : t.Has v := by
  cases v with
  | sequence cell =>
    have hle := h.1.length_le
    simp only [Array.length_toList] at hle
    exact Nat.lt_of_lt_of_le hv hle
  | tome cell =>
    have hle := h.2.length_le
    simp only [Array.length_toList] at hle
    exact Nat.lt_of_lt_of_le hv hle
  | _ => trivial

theorem has_newSequence {s : Store} {items : List Value} :
    (s.newSequence items).2.Has (s.newSequence items).1 := by
  simp [newSequence, Has]

theorem has_newTome {s : Store} {entries : Table Value} :
    (s.newTome entries).2.Has (s.newTome entries).1 := by
  simp [newTome, Has]

/-- A container that exists has the same contents in every extension. -/
theorem Extends.contents {s t : Store} (h : s.Extends t) {v : Value} (hv : s.Has v) :
    t.contents v = s.contents v := by
  cases v with
  | sequence cell =>
    obtain ⟨rest, hrest⟩ := h.1
    have hcell : cell < s.sequences.toList.length := hv
    have : t.sequences.toList[cell]? = s.sequences.toList[cell]? := by
      rw [← hrest, List.getElem?_append_left hcell]
    simpa [Store.contents, Store.items] using congrArg (·.getD []) this
  | tome cell =>
    obtain ⟨rest, hrest⟩ := h.2
    have hcell : cell < s.tomes.toList.length := hv
    have : t.tomes.toList[cell]? = s.tomes.toList[cell]? := by
      rw [← hrest, List.getElem?_append_left hcell]
    simpa [Store.contents, Store.entries] using congrArg (fun e => (e.getD .empty).values) this
  | _ => rfl

theorem contents_newSequence_of_ne {s : Store} {items : List Value} {v : Value}
    (hv : v ≠ (s.newSequence items).1) :
    (s.newSequence items).2.contents v = s.contents v := by
  cases v with
  | sequence cell =>
    have hne : cell ≠ s.sequences.size := fun h => hv (by rw [h]; rfl)
    simp [contents, Store.items, newSequence, Array.getElem?_push, hne]
  | _ => rfl

theorem contents_newTome_of_ne {s : Store} {entries : Table Value} {v : Value}
    (hv : v ≠ (s.newTome entries).1) :
    (s.newTome entries).2.contents v = s.contents v := by
  cases v with
  | tome cell =>
    have hne : cell ≠ s.tomes.size := fun h => hv (by rw [h]; rfl)
    simp [contents, Store.entries, newTome, Array.getElem?_push, hne]
  | _ => rfl

@[simp]
theorem contents_newSequence (s : Store) (items : List Value) :
    (s.newSequence items).2.contents (s.newSequence items).1 = items := by
  simp [contents, Store.items, newSequence]

@[simp]
theorem contents_newTome (s : Store) (entries : Table Value) :
    (s.newTome entries).2.contents (s.newTome entries).1 = entries.values := by
  simp [contents, Store.entries, newTome]

theorem not_has_newSequence {s : Store} {items : List Value} : ¬ s.Has (s.newSequence items).1 := by
  simp [newSequence, Has]

theorem not_has_newTome {s : Store} {entries : Table Value} : ¬ s.Has (s.newTome entries).1 := by
  simp [newTome, Has]

/-- A fresh sequence of values that exist keeps a store sound. -/
theorem Sound.newSequence {s : Store} (hs : s.Sound) {items : List Value}
    (hitems : ∀ v ∈ items, s.Has v) : (s.newSequence items).2.Sound := by
  refine hs.of_change (c := (s.newSequence items).1)
    (fun v hv => (extends_newSequence s items).has hv)
    (fun v hv => contents_newSequence_of_ne hv) (fun w hw => ?_)
  rw [contents_newSequence] at hw
  exact ⟨(extends_newSequence s items).has (hitems w hw),
    Or.inr (hs.not_reach_of_not_has (hitems w hw) not_has_newSequence)⟩

/-- A fresh tome of values that exist keeps a store sound. -/
theorem Sound.newTome {s : Store} (hs : s.Sound) {entries : Table Value}
    (hentries : ∀ v ∈ entries.values, s.Has v) : (s.newTome entries).2.Sound := by
  refine hs.of_change (c := (s.newTome entries).1)
    (fun v hv => (extends_newTome s entries).has hv)
    (fun v hv => contents_newTome_of_ne hv) (fun w hw => ?_)
  rw [contents_newTome] at hw
  exact ⟨(extends_newTome s entries).has (hentries w hw),
    Or.inr (hs.not_reach_of_not_has (hentries w hw) not_has_newTome)⟩

/-! ## The depth of nesting -/

/-- A value that is nested in at most `depth` levels of containers, itself included. -/
def NestsWithin (s : Store) : Nat → Value → Prop
  | 0, v => v.isContainer = false
  | depth + 1, v => ∀ w, s.Encloses v w → s.NestsWithin depth w

theorem NestsWithin.mono {s : Store} {depth depth' : Nat} {v : Value} (h : s.NestsWithin depth v)
    (hle : depth ≤ depth') : s.NestsWithin depth' v := by
  induction depth generalizing depth' v with
  | zero =>
    cases depth' with
    | zero => exact h
    | succ depth' =>
      intro w hw
      have hv : v.isContainer = false := h
      rw [hw.has.1] at hv
      cases hv
  | succ depth ih =>
    obtain ⟨more, rfl⟩ : ∃ more, depth' = more + 1 := ⟨depth' - 1, by omega⟩
    exact fun w hw => ih (h w hw) (by omega)

/-- A value nested deeper than `depth` begins a path of more than `depth` containers. -/
theorem exists_path_of_not_nestsWithin {s : Store} {depth : Nat} {v : Value}
    (h : ¬ s.NestsWithin depth v) :
    ∃ path, (v :: path).length = depth + 1 ∧ (v :: path).IsChain s.Encloses ∧
      ∀ w ∈ v :: path, w.isContainer = true := by
  induction depth generalizing v with
  | zero =>
    have hv : v.isContainer = true := by simpa [NestsWithin] using h
    exact ⟨[], rfl, .singleton v, by simpa using hv⟩
  | succ depth ih =>
    obtain ⟨w, hvw, hw⟩ : ∃ w, s.Encloses v w ∧ ¬ s.NestsWithin depth w := by
      simpa [NestsWithin] using h
    obtain ⟨path, hlength, hchain, hcontainers⟩ := ih hw
    refine ⟨w :: path, by rw [List.length_cons, hlength], hchain.cons_cons hvw, ?_⟩
    intro u hu
    rcases List.mem_cons.1 hu with rfl | hu
    · exact hvw.has.1
    · exact hcontainers u hu

/-- The names of all containers of a store. -/
def containers (s : Store) : List Value :=
  (List.range s.sequences.size).map .sequence ++ (List.range s.tomes.size).map .tome

theorem length_containers (s : Store) : s.containers.length = s.cells := by
  simp [containers, cells]

theorem mem_containers {s : Store} {v : Value} (hv : s.Has v) (hc : v.isContainer = true) :
    v ∈ s.containers := by
  cases v <;> simp [Value.isContainer] at hc <;> simpa [containers, Has] using hv

/-- A path of containers in a sound store never comes to the same container twice. -/
theorem Sound.nodup_of_isChain {s : Store} (hs : s.Sound) {path : List Value}
    (h : path.IsChain s.Encloses) : path.Nodup := by
  have hpairs : path.Pairwise (TransGen s.Encloses) :=
    List.isChain_iff_pairwise.1 (h.imp fun _ _ hstep => TransGen.single hstep)
  refine hpairs.imp fun {a b} hab heq => ?_
  subst heq
  exact hs.acyclic a hab

theorem Sound.has_of_isChain {s : Store} (hs : s.Sound) {v : Value} {path : List Value}
    (hv : s.Has v) (h : (v :: path).IsChain s.Encloses) : ∀ w ∈ v :: path, s.Has w := by
  induction path generalizing v with
  | nil => simpa using hv
  | cons u rest ih =>
    rw [List.isChain_cons_cons] at h
    intro w hw
    rcases List.mem_cons.1 hw with rfl | hw
    · exact hv
    · exact ih (hs.closed v u h.1) h.2 w hw

/-- In a sound store values are nested no deeper than there are cells. -/
theorem Sound.nestsWithin {s : Store} (hs : s.Sound) {v : Value} (hv : s.Has v) :
    s.NestsWithin s.cells v := by
  -- a path without repetitions has no more containers than the store
  by_contra hdeep
  obtain ⟨path, hlength, hchain, hcontainers⟩ := exists_path_of_not_nestsWithin hdeep
  have hsub : v :: path ⊆ s.containers := by
    intro w hw
    exact mem_containers (hs.has_of_isChain hv hchain w hw) (hcontainers w hw)
  have hle := ((hs.nodup_of_isChain hchain).subperm hsub).length_le
  rw [length_containers, hlength] at hle
  omega

/-! ## The search for a container -/

/-- A search goes deep enough if the value is nested no deeper. -/
theorem holdsWithin_of_reaches {s : Store} {v c : Value} {depth : Nat}
    (hc : c.isContainer = true) (hdepth : s.NestsWithin depth v)
    (h : ReflTransGen s.Encloses v c) : s.holdsWithin c depth v = true := by
  induction depth generalizing v with
  | zero =>
    -- what is nested in no level is no container, so it neither is `c` nor encloses anything
    rcases h.cases_head with rfl | ⟨w, hvw, -⟩
    · exact absurd hc (by simpa [NestsWithin] using hdepth)
    · exact absurd hvw.has.1 (by simpa [NestsWithin] using hdepth)
  | succ depth ih =>
    rw [holdsWithin, Bool.or_eq_true, List.any_eq_true]
    rcases h.cases_head with rfl | ⟨w, hvw, hwc⟩
    · exact Or.inl (Value.sameCell_self hc)
    · exact Or.inr ⟨w, hvw, ih (hdepth w hvw) hwc⟩

/-- In a sound store a container that a search does not find is not reached. -/
theorem Sound.not_reach_of_holds_eq_false {s : Store} (hs : s.Sound) {v c : Value} (hv : s.Has v)
    (hc : c.isContainer = true) (h : s.holds v c = false) : ¬ ReflTransGen s.Encloses v c := by
  intro hreach
  have hfound : s.holds v c = true := holdsWithin_of_reaches hc (hs.nestsWithin hv) hreach
  rw [h] at hfound
  exact Bool.noConfusion hfound

end Store

end Grimoire
