import Grimoire.Proofs.Data
import Grimoire.Proofs.Targets

/-!
# Containers that a statement leaves alone

An effect that names a container replaces the contents of this container and of no other. A path is
bound by a walk from a global name through tomes that are put there where they are missing, so it
replaces the entries of a tome that the name reaches, or of a fresh one. Containers that neither is
named nor reached from the root keep what they hold, and with it all that they reach.
-/

namespace Grimoire

open Relation

/-! ## The same contents -/

namespace Store

variable {s t u : Store} {P : Value → Prop} {v w c : Value}

/-- A container has the same elements in both stores, or the same entries in the same order. -/
def SameAt (s t : Store) : Value → Prop
  | .sequence cell => t.items cell = s.items cell
  | .tome cell => t.entries cell = s.entries cell
  | _ => True

theorem SameAt.refl (s : Store) (c : Value) : s.SameAt s c := by
  cases c <;> trivial

theorem SameAt.trans (h : s.SameAt t c) (h' : t.SameAt u c) : s.SameAt u c := by
  cases c with
  | sequence cell | tome cell => exact Eq.trans h' h
  | _ => trivial

theorem SameAt.contents (h : s.SameAt t c) : t.contents c = s.contents c := by
  cases c with
  | sequence cell => exact h
  | tome cell => exact congrArg Table.values h
  | _ => rfl

theorem sameAt_of_not_isContainer (hc : c.isContainer = false) : s.SameAt t c := by
  cases c <;> trivial

theorem Extends.sameAt (h : s.Extends t) (hc : s.Has c) : s.SameAt t c := by
  cases c with
  | sequence cell => exact h.items hc
  | tome cell => exact h.entries hc
  | _ => trivial

theorem sameAt_setItems {cell : Nat} {items : List Value} (hc : c ≠ .sequence cell) :
    s.SameAt (s.setItems cell items) c := by
  cases c with
  | sequence other => exact contents_setItems_of_ne hc
  | tome other => rfl
  | _ => trivial

theorem sameAt_setEntries {cell : Nat} {entries : Table Value} (hc : c ≠ .tome cell) :
    s.SameAt (s.setEntries cell entries) c := by
  cases c with
  | sequence other => rfl
  | tome other =>
    have hne : cell ≠ other := fun h => hc (by rw [h])
    simp [SameAt, Store.entries, setEntries, Array.getElem?_setIfInBounds_ne hne]
  | _ => trivial

/-- Where all that a value reaches is the same, it reaches the same. -/
theorem reaches_iff_of_sameAt (h : ∀ c, ReflTransGen s.Encloses v c → s.SameAt t c) :
    ReflTransGen t.Encloses v c ↔ ReflTransGen s.Encloses v c := by
  constructor
  · intro hreach
    induction hreach with
    | refl => exact .refl
    | tail _ hstep ih =>
      rw [Encloses, (h _ ih).contents] at hstep
      exact ih.tail hstep
  · intro hreach
    induction hreach with
    | refl => exact .refl
    | tail hold hstep ih =>
      rw [Encloses, ← (h _ hold).contents] at hstep
      exact ih.tail hstep

/-- What exists reaches in an extension what it reached before. -/
theorem Extends.reaches_iff (h : s.Extends t) (hs : s.Sound) (hv : s.Has v) :
    ReflTransGen t.Encloses v c ↔ ReflTransGen s.Encloses v c :=
  reaches_iff_of_sameAt fun _ hc => h.sameAt (hs.has_of_reflTransGen hv hc)

/-! ## Values that avoid containers -/

/-- A value reaches no container of a kind. -/
def Avoids (s : Store) (P : Value → Prop) (v : Value) : Prop :=
  ∀ c, ReflTransGen s.Encloses v c → ¬ P c

theorem Avoids.self (h : s.Avoids P v) : ¬ P v :=
  h v .refl

theorem Avoids.enclosed (h : s.Avoids P v) (hw : s.Encloses v w) : s.Avoids P w :=
  fun c hc => h c (.head hw hc)

theorem avoids_of_only_itself (hv : ¬ P v) (honly : ∀ w, s.Encloses v w → w = v) :
    s.Avoids P v := by
  intro c hc
  have hsame : c = v := by
    induction hc with
    | refl => rfl
    | tail _ hstep ih => exact honly _ (ih ▸ hstep)
  exact hsame ▸ hv

/-- A fresh tome avoids what was there before. -/
theorem avoids_newTome (hhas : ∀ c, P c → s.Has c) :
    (s.newTome .empty).2.Avoids P (s.newTome .empty).1 := by
  apply avoids_of_only_itself
  · exact fun hfresh => not_has_newTome (hhas _ hfresh)
  · intro w hw
    rw [Encloses, contents_newTome] at hw
    cases hw

/-- A fresh tome avoids what was there before, also when it is put under a key of a tome. -/
theorem avoids_newTome_of_insert (hhas : ∀ c, P c → s.Has c) (cell : Nat) (key : Text) :
    ((s.newTome .empty).2.setEntries cell
      ((s.entries cell).insert key (s.newTome .empty).1)).Avoids P (s.newTome .empty).1 := by
  apply avoids_of_only_itself
  · exact fun hfresh => not_has_newTome (hhas _ hfresh)
  · intro w hw
    by_cases hcell : (s.newTome .empty).1 = .tome cell
    · -- a tome that is not there has no entries, so nothing but itself is put into the fresh one
      rw [Encloses, hcell] at hw
      rcases Table.mem_values_insert (mem_contents_setEntries hw) with hsame | hold
      · exact hsame.trans hcell.symm
      · have hencloses : s.Encloses (.tome cell) w := hold
        exact absurd hencloses.has.2 (hcell ▸ not_has_newTome)
    · rw [Encloses, contents_setEntries_of_ne hcell, contents_newTome] at hw
      cases hw

end Store

/-! ## Effects -/

/-- The container that an effect gives new contents. -/
def Effect.container? : Effect → Option Value
  | setItems cell _ => some (.sequence cell)
  | setEntries cell _ => some (.tome cell)
  | _ => none

variable {σ : Type}

/-- Machines on which the containers of a kind exist and hold what they hold in a store. -/
def Contract.sparing (s : Store) (P : Value → Prop) : Contract σ where
  holds m := ∀ c, P c → m.store.Has c ∧ s.SameAt m.store c
  later _ _ := True
  admissible _ _ := True
  refl _ := trivial
  trans _ _ := trivial
  admissible_of_later _ _ := trivial

namespace Run

variable {m : Machine σ} {s : Store} {P : Value → Prop}

theorem sparing_setItems {cell : Nat} {items : List Value} (hcell : ¬ P (.sequence cell)) :
    Keeps (.sparing s P) m (setItems cell items) (fun _ _ => True) fun _ => True := by
  refine Keeps.forget (keeps_modify fun hm => ⟨fun c hc => ?_, trivial⟩)
  obtain ⟨hhas, hsame⟩ := hm c hc
  have hne : c ≠ .sequence cell := fun h => hcell (h ▸ hc)
  exact ⟨Store.has_setItems.2 hhas, hsame.trans (Store.sameAt_setItems hne)⟩

theorem sparing_setEntries {cell : Nat} {entries : Table Value} (hcell : ¬ P (.tome cell)) :
    Keeps (.sparing s P) m (setEntries cell entries)
      (fun m' _ => m' = m.withStore (m.store.setEntries cell entries)) fun _ => True := by
  refine keeps_modify fun hm => ⟨fun c hc => ?_, trivial⟩
  obtain ⟨hhas, hsame⟩ := hm c hc
  have hne : c ≠ .tome cell := fun h => hcell (h ▸ hc)
  exact ⟨Store.has_setEntries.2 hhas, hsame.trans (Store.sameAt_setEntries hne)⟩

theorem sparing_newTomeCell :
    Keeps (.sparing s P) m newTomeCell (fun m' cell => (∀ c, P c → m.store.Has c) ∧
      m' = m.withStore (m.store.newTome .empty).2 ∧ .tome cell = (m.store.newTome .empty).1)
      fun _ => True := by
  have hextends := Store.extends_newTome m.store .empty
  apply keeps_get_bind
  intro hm
  have hset : Keeps (.sparing s P) m (set (m.withStore (m.store.newTome .empty).2) : Run σ Unit)
      (fun m' _ => m' = m.withStore (m.store.newTome .empty).2) fun _ => True := by
    refine keeps_set fun _ => ⟨fun c hc => ?_, trivial⟩
    obtain ⟨hhas, hsame⟩ := hm c hc
    exact ⟨hextends.has hhas, hsame.trans (hextends.sameAt hhas)⟩
  exact (hset.bind fun _ m' _ _ hm' => keeps_pure fun _ => ⟨fun c hc => (hm c hc).1, hm', rfl⟩) hm

/-- What changes no container spares them all. -/
theorem sparing_set {m' : Machine σ} (h : m'.store = m.store) :
    Keeps (.sparing s P) m (set m' : Run σ Unit) (fun m'' _ => m''.store = m.store)
      fun _ => True := by
  have hset : Keeps (.sparing s P) m (set m' : Run σ Unit) (fun m'' _ => m'' = m')
      fun _ => True := keeps_set fun hm => ⟨fun c hc => h ▸ hm c hc, trivial⟩
  exact hset.weaken (fun m'' _ hm'' => hm'' ▸ h) fun _ _ => trivial

theorem sparing_bindName {name : Text} {v : Value} :
    Keeps (.sparing s P) m (bindName name v) (fun m' _ => m'.store = m.store) fun _ => True := by
  apply keeps_get_bind
  split
  · exact keeps_fail trivial
  · exact sparing_set rfl

theorem sparing_bindSealed {name : Text} {v : Value} :
    Keeps (.sparing s P) m (bindSealed name v) (fun _ _ => True) fun _ => True := by
  apply keeps_get_bind
  split
  · exact keeps_fail trivial
  · exact Keeps.forget (sparing_set rfl)

theorem sparing_summon {path : Text} {nickname : Option Text} :
    Keeps (.sparing s P) m (summon path nickname) (fun _ _ => True) fun _ => True := by
  apply keeps_get_bind
  split
  · exact keeps_fail trivial
  · exact Keeps.forget (sparing_set rfl)

theorem sparing_ask [Host σ] {request : Request} :
    Keeps (.sparing s P) m (ask request) (fun _ _ => True) fun _ => True := by
  apply keeps_get_bind
  rcases Host.answer request m.host with ⟨answer, host⟩
  have hset : Keeps (.sparing s P) m (set { m with host } : Run σ Unit)
      (fun m' _ => m'.store = m.store) fun _ => True := sparing_set rfl
  apply hset.bind
  intro _ m₁ _ _ _
  cases answer with
  | ok _ => exact keeps_pure fun _ => trivial
  | error fault => exact keeps_fail trivial

/-! ### The walk of a path -/

/-- The tome that a path begins with avoids what the root avoids. -/
theorem sparing_rootTome {name : Text}
    (hroot : ∀ v, m.scope.globals.get? name = some v → m.store.Avoids P v) :
    Keeps (.sparing s P) m (rootTome name) (fun m' cell => m'.store.Avoids P (.tome cell))
      fun _ => True := by
  apply keeps_get_bind
  split
  · next cell hcell => exact keeps_pure fun _ => hroot _ hcell
  · apply sparing_newTomeCell.bind
    intro cell m₁ _ _ hnew
    apply sparing_bindName.bind
    intro _ m₂ _ _ hm₂
    apply keeps_pure
    intro _
    obtain ⟨hhas, hm₁, hcell⟩ := hnew
    rw [hm₂, hm₁, hcell]
    exact Store.avoids_newTome hhas

/-- A step goes on to a tome that is there, which avoids what the tome before it avoids, or to a
fresh one. -/
theorem sparing_innerTome {cell : Nat} {key : Text} (hcell : m.store.Avoids P (.tome cell)) :
    Keeps (.sparing s P) m (innerTome cell key)
      (fun m' inner => m'.store.Avoids P (.tome inner)) fun _ => True := by
  apply keeps_get_bind
  dsimp only
  split
  · next inner hinner =>
    exact keeps_pure fun _ => hcell.enclosed (Table.mem_values_of_get? hinner)
  · apply sparing_newTomeCell.bind
    intro inner m₁ _ _ hnew
    apply (sparing_setEntries hcell.self).bind
    intro _ m₂ _ _ hm₂
    apply keeps_pure
    intro _
    obtain ⟨hhas, hm₁, hinner⟩ := hnew
    rw [hm₂, hm₁, hinner]
    exact Store.avoids_newTome_of_insert hhas cell key

theorem sparing_innerTomes {steps : List Text} {cell : Nat}
    (hcell : m.store.Avoids P (.tome cell)) :
    Keeps (.sparing s P) m (steps.foldlM innerTome cell)
      (fun m' inner => m'.store.Avoids P (.tome inner)) fun _ => True := by
  induction steps generalizing m cell with
  | nil => exact keeps_pure fun _ => hcell
  | cons key rest ih =>
    rw [List.foldlM_cons]
    exact (sparing_innerTome hcell).bind fun inner m₁ _ _ hinner => ih hinner

/-- A path from a sealed name is refused, and one from an open name stays with what the name
reaches. -/
theorem sparing_bindPath {root : Text} {steps : List Text} {v : Value}
    (hroot : m.scope.isSealed root = false →
      ∀ w, m.scope.globals.get? root = some w → m.store.Avoids P w) :
    Keeps (.sparing s P) m (bindPath root steps v) (fun _ _ => True) fun _ => True := by
  apply keeps_get_bind
  split
  · exact keeps_fail_bind trivial
  · next hopen =>
    apply (sparing_rootTome (hroot (Bool.eq_false_iff.2 hopen))).bind
    intro first m₁ _ _ hfirst
    apply (sparing_innerTomes hfirst).bind
    intro cell m₂ _ _ hcell
    apply keeps_get_bind
    dsimp only
    split
    · exact keeps_fail_bind trivial
    · exact Keeps.forget (sparing_setEntries hcell.self)

/-! ### Statements -/

variable [Host σ]

/-- An effect spares the containers that it does not name, if those that an open name reaches are
not among them. -/
theorem sparing_perform {effect : Effect}
    (hcontainer : ∀ c, effect.container? = some c → ¬ P c)
    (hopen : ∀ name, m.scope.isSealed name = false →
      ∀ w, m.scope.globals.get? name = some w → m.store.Avoids P w) :
    Keeps (.sparing s P) m (perform effect) (fun _ _ => True) fun _ => True := by
  cases effect with
  | bind name v => exact Keeps.forget sparing_bindName
  | bindSealed name v => exact sparing_bindSealed
  | bindPath root steps v => exact sparing_bindPath (hopen root)
  | summon path nickname => exact sparing_summon
  | setItems cell items => exact sparing_setItems (hcontainer _ rfl)
  | setEntries cell entries => exact Keeps.forget (sparing_setEntries (hcontainer _ rfl))
  | ask request => exact sparing_ask

/-- The effects of a statement spare the containers that they do not name. -/
theorem sparing_performAll {form : Form} {g : Groups} {effects : List Effect}
    (hfits : form.Fits g effects)
    (hcontainer : ∀ effect ∈ effects, ∀ c, effect.container? = some c → ¬ P c)
    (hopen : ∀ name, m.scope.isSealed name = false →
      ∀ w, m.scope.globals.get? name = some w → m.store.Avoids P w) :
    Keeps (.sparing s P) m (performAll effects) (fun _ _ => True) fun _ => True := by
  cases hfits with
  | nothing _ => exact keeps_pure fun _ => trivial
  | one _ _ =>
    rw [performAll_singleton]
    exact sparing_perform (hcontainer _ List.mem_cons_self) hopen
  | plucked _ cell head rest =>
    apply (sparing_setItems (hcontainer _ List.mem_cons_self _ rfl)).bind
    intro _ m₁ _ _ _
    rw [performAll_singleton]
    exact Keeps.forget sparing_bindName

end Run

end Grimoire
