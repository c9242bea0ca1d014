import Grimoire.Library.Standard
import Grimoire.Proofs.Evaluation.Deeds
import Grimoire.Proofs.Runs
import Grimoire.Proofs.Walks

/-!
# Grounded machines

A machine is grounded when its store is sound, what its names are bound to exists and its libraries
keep stores sound. Effects that are safe keep a machine grounded, and with them statements, loops
and whole programs do, also when they fail. So after any calls on a fresh machine no container is
inside itself.
-/

namespace Grimoire

open Relation

variable {σ : Type}

/-! ## Registries -/

/-- The libraries of a registry keep a discipline. -/
structure Registry.Keeps (D : Discipline) (r : Registry) : Prop where
  known : ∀ summoned ∈ r.known.values, summoned.library.Keeps D
  loaded : ∀ summoned ∈ r.loaded.values, summoned.library.Keeps D

namespace Registry

variable {D : Discipline} {r : Registry}

theorem keeps_empty : empty.Keeps D where
  known summoned h := by simp [empty] at h
  loaded summoned h := by simp [empty] at h

/-- A library that keeps a discipline may be made known. -/
theorem Keeps.register (h : r.Keeps D) {library : Library} (hlibrary : library.Keeps D) :
    (r.register library).Keeps D where
  known summoned hmem := by
    rcases Table.mem_values_insert hmem with rfl | hold
    · exact hlibrary
    · exact h.known summoned hold
  loaded summoned hmem := h.loaded summoned (Table.mem_values_erase hmem)

theorem keeps_standard : standard.Keeps D := by
  have hall : ∀ (libraries : List Library) (r : Registry), libraries ⊆ Library.standard →
      r.Keeps D → (libraries.foldl Registry.register r).Keeps D := by
    intro libraries
    induction libraries with
    | nil => exact fun r _ h => h
    | cons library rest ih =>
      intro r hsub h
      have hlibrary := Library.keeps_of_mem_standard (D := D) (hsub List.mem_cons_self)
      exact ih _ (List.Subset.trans (List.subset_cons_self library rest) hsub) (h.register hlibrary)
  exact hall Library.standard empty (List.Subset.refl _) keeps_empty

/-- Setting up the table of a library that is known brings in nothing new. -/
theorem Keeps.load (h : r.Keeps D) {path : Text} {summoned : Summoned} {r' : Registry}
    (hload : r.load path = .ok (summoned, r')) : summoned.library.Keeps D ∧ r'.Keeps D := by
  unfold Registry.load at hload
  split at hload
  · next found hfound =>
    cases hload
    exact ⟨h.loaded summoned (Table.mem_values_of_get? hfound), h⟩
  · split at hload
    · next found hfound =>
      cases hload
      have hsummoned := h.known summoned (Table.mem_values_of_get? hfound)
      refine ⟨hsummoned, h.known, fun other hother => ?_⟩
      rcases Table.mem_values_insert hother with rfl | hold
      · exact hsummoned
      · exact h.loaded other hold
    · cases hload

theorem isOfLines_of_load {path : Text} {fault : Fault} (hload : r.load path = .error fault) :
    fault.isOfLines = false := by
  unfold Registry.load at hload
  split at hload
  · cases hload
  · split at hload
    · cases hload
    · cases hload
      rfl

end Registry

/-! ## Scopes -/

namespace Discipline

variable {D : Discipline} {scope : Scope} {s : Store}

/-- Where there are neither names nor containers, nothing is asked of them. -/
theorem admits_empty (hs : D.sound {}) : D.Admits {} {} where
  sound := hs
  globals := validTable_empty
  frames frame h := by cases h
  aliases summoned h := by simp at h

/-- A name may be bound to a valid value, and sealed. -/
theorem Admits.withGlobal (h : D.Admits scope s) {name : Text} {v : Value} (hv : D.valid s v)
    (sealedNames : List Text) :
    D.Admits { scope with globals := scope.globals.insert name v, sealedNames } s where
  sound := h.sound
  globals w hw := by
    rcases Table.mem_values_insert hw with rfl | hold
    · exact hv
    · exact h.globals w hold
  frames := h.frames
  aliases := h.aliases

/-- A library that keeps the discipline may be made known. -/
theorem Admits.withAlias (h : D.Admits scope s) {name : Text} {summoned : Summoned}
    (hlibrary : summoned.library.Keeps D) :
    D.Admits { scope with aliases := scope.aliases.insert name summoned } s where
  sound := h.sound
  globals := h.globals
  frames := h.frames
  aliases other hother := by
    rcases Table.mem_values_insert hother with rfl | hold
    · exact hlibrary
    · exact h.aliases other hold

end Discipline

/-! ## Machines -/

namespace Machine

/-- The store is sound, what the names are bound to exists, and the libraries keep stores sound. -/
structure Grounded (m : Machine σ) : Prop where
  admits : Discipline.acyclic.Admits m.scope m.store
  registry : m.registry.Keeps .acyclic

variable {m : Machine σ}

theorem Grounded.sound (h : m.Grounded) : m.store.Sound :=
  h.admits.sound

/-- A machine without names and containers is grounded. -/
theorem grounded_fresh (config : Config) (clock : Clock) (host : σ) :
    (fresh config .standard clock host).Grounded :=
  ⟨Discipline.admits_empty Store.Sound.empty, Registry.keeps_standard⟩

theorem Grounded.reset (h : m.Grounded) : m.reset.Grounded :=
  ⟨Discipline.admits_empty Store.Sound.empty, h.registry⟩

/-- A grounded machine may get another sound store in which nothing is missing. -/
theorem Grounded.withStore (h : m.Grounded) {t : Store} (ht : t.Sound)
    (hkeeps : ∀ v, m.store.Has v → t.Has v) : (m.withStore t).Grounded where
  admits :=
    { sound := ht
      globals := fun v hv => hkeeps v (h.admits.globals v hv)
      frames := fun frame hframe v hv => hkeeps v (h.admits.frames frame hframe v hv)
      aliases := h.admits.aliases }
  registry := h.registry

/-- A grounded machine may bind a name to what exists. -/
theorem Grounded.withGlobal (h : m.Grounded) {name : Text} {v : Value} (hv : m.store.Has v)
    {sealedNames : List Text} :
    (m.withScope { m.scope with
      globals := m.scope.globals.insert name v, sealedNames := sealedNames }).Grounded where
  admits := h.admits.withGlobal hv sealedNames
  registry := h.registry

end Machine

/-- Grounded machines that never lose a container. -/
def Contract.grounded : Contract σ where
  holds := Machine.Grounded
  later m m' := ∀ v, m.store.Has v → m'.store.Has v
  admissible m v := m.store.Has v
  refl _ _ hv := hv
  trans h h' v hv := h' v (h v hv)
  admissible_of_later h hv := h _ hv

namespace Run

variable {α : Type} {m : Machine σ}

/-- Evaluation under a discipline keeps a contract that asks no more of the resources. -/
theorem keeps_of_yields {C : Contract σ} {D : Discipline} {e : Eval α} {post : Store → α → Prop}
    (h : Eval.Yields D m.scope m.resources e post)
    (hadmits : C.holds m → D.Admits m.scope m.store)
    (hlater : ∀ r, C.holds m → m.resources.Grows r → D.sound r.store →
      C.holds { m with resources := r } ∧ C.later m { m with resources := r }) :
    Keeps C m (evaluate e) (fun m' a => post m'.store a) Failure.Inner := by
  intro hm
  have hout := h (hadmits hm)
  obtain ⟨hholds, hkept⟩ := hlater _ hm hout.grows hout.sound
  refine ⟨hholds, hkept, fun a ha => ?_, fun f hf => ?_⟩
  · rw [run_evaluate] at ha ⊢
    refine hout.result a ?_
    generalize ((e.run m.scope).run.run m.resources).1 = result at ha
    cases result with
    | error fault => cases ha
    | ok b =>
      cases ha
      rfl
  · rw [run_evaluate] at hf
    have hfault := hout.fault
    generalize ((e.run m.scope).run.run m.resources).1 = result at hf hfault
    cases result with
    | error fault =>
      cases hf
      exact hfault fault rfl
    | ok b => cases hf

/-- Evaluation under the discipline keeps a machine grounded. -/
theorem keeps_evaluate {e : Eval α} {post : Store → α → Prop}
    (h : Eval.Yields .acyclic m.scope m.resources e post) :
    Keeps .grounded m (evaluate e) (fun m' a => post m'.store a) Failure.Inner := by
  refine keeps_of_yields h (fun hm => hm.admits) fun r hm hgrows hsound => ?_
  have hgrounded := hm.withStore hsound fun v hv => hgrows.store.has hv
  exact ⟨⟨hgrounded.admits, hm.registry⟩, fun v hv => hgrows.store.has hv⟩

/-! ## Names -/

theorem keeps_bindName {name : Text} {v : Value} (hv : m.store.Has v) :
    Keeps .grounded m (bindName name v) (fun _ _ => True) Failure.Inner := by
  refine keeps_get_bind ?_
  split
  · exact keeps_fail rfl
  · exact Keeps.forget (keeps_set fun hm => ⟨hm.withGlobal hv, fun _ hw => hw⟩)

theorem keeps_bindSealed {name : Text} {v : Value} (hv : m.store.Has v) :
    Keeps .grounded m (bindSealed name v) (fun _ _ => True) Failure.Inner := by
  refine keeps_get_bind ?_
  split
  · exact keeps_fail rfl
  · exact Keeps.forget (keeps_set fun hm => ⟨hm.withGlobal hv, fun _ hw => hw⟩)

theorem keeps_summon {path : Text} {nickname : Option Text} :
    Keeps .grounded m (summon path nickname) (fun _ _ => True) Failure.Inner := by
  refine keeps_get_bind ?_
  split
  · next fault hload => exact keeps_fail (Registry.isOfLines_of_load hload)
  · next summoned registry hload =>
    refine Keeps.forget (keeps_set fun hm => ?_)
    obtain ⟨hlibrary, hregistry⟩ := hm.registry.load hload
    exact ⟨⟨hm.admits.withAlias hlibrary, hregistry⟩, fun _ hw => hw⟩

/-! ## Containers -/

theorem keeps_setItems {cell : Nat} {items : List Value}
    (h : Effect.Safe m.store (.setItems cell items)) :
    Keeps .grounded m (setItems cell items) (fun _ _ => True) Failure.Inner := by
  refine Keeps.forget (keeps_modify fun hm => ?_)
  have hhas : ∀ v, m.store.Has v → (m.store.setItems cell items).Has v :=
    fun v hv => Store.has_setItems.2 hv
  exact ⟨hm.withStore (hm.sound.setItems h) hhas, hhas⟩

/-- Entries may be replaced where that is safe. What exists afterwards is what existed before. -/
theorem keeps_setEntries {cell : Nat} {entries : Table Value}
    (h : m.Grounded → Effect.Safe m.store (.setEntries cell entries)) :
    Keeps .grounded m (setEntries cell entries)
      (fun m' _ => m' = m.withStore (m.store.setEntries cell entries)) Failure.Inner := by
  refine keeps_modify fun hm => ?_
  have hhas : ∀ v, m.store.Has v → (m.store.setEntries cell entries).Has v :=
    fun v hv => Store.has_setEntries.2 hv
  exact ⟨hm.withStore (hm.sound.setEntries (h hm)) hhas, hhas⟩

theorem keeps_newTomeCell :
    Keeps .grounded m newTomeCell (fun m' cell =>
      m' = m.withStore (m.store.newTome .empty).2 ∧ .tome cell = (m.store.newTome .empty).1)
      Failure.Inner := by
  have hextends := Store.extends_newTome m.store .empty
  refine keeps_get_bind ((keeps_set fun hm => ?_).bind fun _ m' _ _ hm' => ?_)
  · have hsound : (m.store.newTome .empty).2.Sound := hm.sound.newTome fun v hv => by simp at hv
    exact ⟨hm.withStore hsound fun v hv => hextends.has hv, fun v hv => hextends.has hv⟩
  · exact keeps_pure fun _ => ⟨hm', rfl⟩

/-- The tome of a name exists. -/
theorem keeps_rootTome {name : Text} :
    Keeps .grounded m (rootTome name) (fun m' cell => m'.store.Has (.tome cell)) Failure.Inner := by
  refine keeps_get_bind ?_
  split
  · next cell hcell =>
    exact keeps_pure fun hm => hm.admits.globals.get? hcell
  · refine keeps_newTomeCell.bind fun cell m₁ _ _ hnew => ?_
    have hcell : m₁.store.Has (.tome cell) := by
      rw [hnew.1, hnew.2]
      exact Store.has_newTome
    refine (keeps_bindName hcell).bind fun _ m₂ hlater _ _ => keeps_pure fun _ => ?_
    exact hlater _ hcell

/-- A fresh tome may be put under a key of a tome that exists: nothing is in it yet. -/
theorem safe_insert_newTome {s : Store} (hs : s.Sound) {cell : Nat} (hcell : s.Has (.tome cell))
    (key : Text) :
    Effect.Safe (s.newTome .empty).2
      (.setEntries cell ((s.entries cell).insert key (s.newTome .empty).1)) := by
  have hextends := Store.extends_newTome s .empty
  intro w hw
  rcases Table.mem_values_insert hw with rfl | hold
  · -- the fresh tome is empty, so it reaches nothing but itself
    refine ⟨Store.has_newTome, Or.inr fun hreach => ?_⟩
    rcases hreach.cases_head with heq | ⟨u, hu, -⟩
    · exact Store.not_has_newTome (heq ▸ hcell)
    · rw [Store.Encloses, Store.contents_newTome] at hu
      exact absurd hu List.not_mem_nil
  · have hentries : w ∈ s.contents (.tome cell) := hold
    refine ⟨hextends.has (hs.closed _ w hentries), Or.inl ?_⟩
    rw [← hextends.contents hcell] at hentries
    exact hentries

/-- The tome under a key of a tome exists. -/
theorem keeps_innerTome {cell : Nat} {key : Text} (hcell : m.store.Has (.tome cell)) :
    Keeps .grounded m (innerTome cell key) (fun m' inner => m'.store.Has (.tome inner))
      Failure.Inner := by
  refine keeps_get_bind ?_
  dsimp only
  split
  · next inner hinner =>
    exact keeps_pure fun hm => hm.sound.closed (.tome cell) _ (Table.mem_values_of_get? hinner)
  · intro hm
    refine (keeps_newTomeCell.bind fun inner m₁ _ _ hnew => ?_) hm
    have hsafe : Effect.Safe m₁.store
        (.setEntries cell ((m.store.entries cell).insert key (.tome inner))) := by
      rw [hnew.1, hnew.2]
      exact safe_insert_newTome hm.sound hcell key
    refine (keeps_setEntries fun _ => hsafe).bind fun _ m₂ hlater _ _ => keeps_pure fun _ => ?_
    refine hlater _ ?_
    rw [hnew.1, hnew.2]
    exact Store.has_newTome

/-- The tome at the end of a path of keys exists. -/
theorem keeps_innerTomes {steps : List Text} {cell : Nat} (hcell : m.store.Has (.tome cell)) :
    Keeps .grounded m (steps.foldlM innerTome cell) (fun m' inner => m'.store.Has (.tome inner))
      Failure.Inner := by
  induction steps generalizing m cell with
  | nil => exact keeps_pure fun _ => hcell
  | cons key rest ih =>
    rw [List.foldlM_cons]
    exact (keeps_innerTome hcell).bind fun inner m₁ _ _ hinner => ih hinner

/-- A path is bound only to a value that does not reach the tome it ends in. -/
theorem keeps_bindPath {root : Text} {steps : List Text} {v : Value} (hv : m.store.Has v) :
    Keeps .grounded m (bindPath root steps v) (fun _ _ => True) Failure.Inner := by
  have hrest : Keeps .grounded m (do
      let cell ← steps.dropLast.foldlM innerTome (← rootTome root)
      let s := (← get).store
      if s.holds v (.tome cell) then fail (.wrongType (.insideItself "Set".toList .tome))
      setEntries cell ((s.entries cell).insert (steps.getLast?.getD []) v))
      (fun _ _ => True) Failure.Inner := by
    refine keeps_rootTome.bind fun first m₁ hlater₁ _ hfirst => ?_
    refine (keeps_innerTomes hfirst).bind fun cell m₂ hlater₂ _ hcell => keeps_get_bind ?_
    have hv₂ : m₂.store.Has v := hlater₂ v (hlater₁ v hv)
    show Keeps .grounded m₂ (do
      if m₂.store.holds v (.tome cell) then fail (.wrongType (.insideItself "Set".toList .tome))
      setEntries cell ((m₂.store.entries cell).insert (steps.getLast?.getD []) v)) _ _
    split
    · exact keeps_fail_bind rfl
    · next hholds =>
      -- the check is made after the tomes on the way, so it speaks of the store that is changed
      refine Keeps.forget (keeps_setEntries fun hm w hw => ?_)
      rcases Table.mem_values_insert hw with rfl | hold
      · have hclear : m₂.store.holds w (.tome cell) = false := by simpa using hholds
        exact ⟨hv₂, Or.inr (hm.sound.not_reach_of_holds_eq_false hv₂ rfl hclear)⟩
      · exact ⟨hm.sound.closed (.tome cell) w hold, Or.inl hold⟩
  refine keeps_get_bind ?_
  split
  · exact keeps_fail_bind rfl
  · exact hrest

/-! ## Statements -/

theorem keeps_ask [Host σ] {request : Request} :
    Keeps .grounded m (ask request) (fun _ _ => True) Failure.Inner := by
  refine keeps_get_bind ?_
  rcases Host.answer request m.host with ⟨answer, host⟩
  have hset : Keeps .grounded m (set { m with host }) (fun _ _ => True) Failure.Inner :=
    Keeps.forget (keeps_set fun hm => ⟨⟨hm.admits, hm.registry⟩, fun _ hv => hv⟩)
  refine hset.bind fun _ m₁ _ _ _ => ?_
  cases answer with
  | ok _ => exact keeps_pure fun _ => trivial
  | error fault => exact keeps_fail rfl

/-- A safe effect keeps a machine grounded. -/
theorem keeps_perform [Host σ] {effect : Effect} (h : effect.Safe m.store) :
    Keeps .grounded m (perform effect) (fun _ _ => True) Failure.Inner := by
  cases effect with
  | bind name v => exact keeps_bindName h
  | bindSealed name v => exact keeps_bindSealed h
  | bindPath root steps v => exact keeps_bindPath h
  | summon path nickname => exact keeps_summon
  | setItems cell items => exact keeps_setItems h
  | setEntries cell entries =>
    exact Keeps.forget (keeps_setEntries fun _ => h)
  | ask request => exact keeps_ask

/-- Effects that are safe one after the other keep a machine grounded. -/
theorem keeps_performAll [Host σ] {effects : List Effect} (h : Effect.AllSafe m.store effects) :
    Keeps .grounded m (performAll effects) (fun _ _ => True) Failure.Inner := by
  induction effects generalizing m with
  | nil => exact keeps_pure fun _ => trivial
  | cons effect rest ih =>
    exact (keeps_perform h.1).bind fun _ m₁ hlater _ _ => ih (h.2 m₁.store hlater)

/-- A statement keeps a machine grounded. If it has no form it is unknown. -/
theorem keeps_statement [Host σ] {line : Text} :
    Keeps .grounded m (statement line) (fun _ _ => True) fun f =>
      f.Inner ∨ (Form.find? line = none ∧ f = { fault := .unknownStatement line.trim }) := by
  unfold statement
  split
  · exact keeps_pure fun _ => trivial
  · split
    · next form g _ =>
      have hrun : Keeps .grounded m (evaluate (form.effects g) >>= performAll) (fun _ _ => True)
          Failure.Inner :=
        (keeps_evaluate form.yields_effects).bind fun effects m₁ _ _ hsafe => keeps_performAll hsafe
      exact hrun.weaken (fun _ _ h => h) fun _ hf => Or.inl hf
    · next hfind => exact keeps_fail (Or.inr ⟨hfind, rfl⟩)

end Run

/-! ## Programs -/

namespace Program

/-- The elements of a loop are valid. -/
theorem yields_iterationOf {D : Discipline} {scope : Scope} {r : Resources} {loop : String}
    {container : Text} : Eval.Yields D scope r (iterationOf loop container) D.ValidAll := by
  refine Eval.yields_value.bind fun v r₁ _ _ hv => ?_
  cases v with
  | string text => exact Eval.yields_pure fun _ => Discipline.validAll_map fun _ => rfl
  | sequence cell =>
    exact Eval.yields_store_bind (Eval.yields_pure fun hs =>
      Discipline.validAll_items hs.sound hv)
  | _ => exact Eval.yields_failType

/-- All that programs do keeps machines grounded. -/
theorem respects_grounded [Host σ] : Respects (.grounded : Contract σ) where
  statement _ _ := Run.keeps_statement
  condition _ _ := (Run.keeps_evaluate Eval.yields_holds).forget
  container _ _ _ := Run.keeps_evaluate yields_iterationOf
  binding _ _ _ hv := Run.keeps_bindName hv
  index _ _ := trivial

end Program

/-! ## Calls -/

/-- What the owner of a machine does with it. -/
inductive Call where
  /-- Runs a source. -/
  | interpret (source : Text)
  /-- Runs a line. -/
  | execute (line : Text)
  /-- Evaluates a text as an expression. -/
  | evaluate (text : Text)
  /-- Evaluates a text as a condition. -/
  | condition (text : Text)
  | reset
  /-- Lets the clock go on. -/
  | wait (clock : Clock)

namespace Machine

/-- The machine after a call, whether the call has failed or not. -/
def call [Host σ] (m : Machine σ) : Call → Machine σ
  | .interpret source => ((Program.interpret source).run.run m).2
  | .execute line => ((Run.statement line).run.run m).2
  | .evaluate text => ((Run.evaluate (Eval.value text)).run.run m).2
  | .condition text => ((Run.evaluate (Eval.holds text)).run.run m).2
  | .reset => m.reset
  | .wait clock => { m with resources := { m.resources with clock } }

variable [Host σ] {m : Machine σ}

theorem Grounded.call (h : m.Grounded) (c : Call) : (m.call c).Grounded := by
  cases c with
  | interpret source =>
    exact Program.holds_after_runNodes Program.respects_grounded (Program.ofSource source) 0 h.reset
  | execute line => exact (Run.keeps_statement h).holds
  | evaluate text => exact (Run.keeps_evaluate Eval.yields_value h).holds
  | condition text => exact (Run.keeps_evaluate Eval.yields_holds h).holds
  | reset => exact h.reset
  | wait clock => exact ⟨h.admits, h.registry⟩

theorem Grounded.foldl_call (h : m.Grounded) (calls : List Call) :
    (calls.foldl Machine.call m).Grounded := by
  induction calls generalizing m with
  | nil => exact h
  | cons c rest ih => exact ih (h.call c)

/-- The machine after some calls on a fresh one with the standard modules. -/
def afterCalls (config : Config) (clock : Clock) (host : σ) (calls : List Call) : Machine σ :=
  calls.foldl call (fresh config .standard clock host)

variable (config : Config) (clock : Clock) (host : σ) (calls : List Call)

theorem grounded_afterCalls : (afterCalls config clock host calls).Grounded :=
  (grounded_fresh config clock host).foldl_call calls

/-- Whatever calls are made on a fresh machine, and however they end, no container is reached from
what it encloses, what the names are bound to exists, and from every value that exists no path goes
through more containers than there are, so that all walks from it end. -/
theorem store_acyclic_after_calls :
    (∀ v, ¬ TransGen (afterCalls config clock host calls).store.Encloses v v) ∧
      (∀ v ∈ (afterCalls config clock host calls).scope.globals.values,
        (afterCalls config clock host calls).store.Has v) ∧
      ∀ v, (afterCalls config clock host calls).store.Has v →
        (afterCalls config clock host calls).store.NestsWithin
            (afterCalls config clock host calls).store.cells v ∧
          (afterCalls config clock host calls).store.WalksEnd v := by
  have hm := grounded_afterCalls config clock host calls
  refine ⟨hm.sound.acyclic, hm.admits.globals, fun v hv => ?_⟩
  exact ⟨hm.sound.nestsWithin hv, hm.sound.walksEnd hv⟩

end Machine

end Grimoire
