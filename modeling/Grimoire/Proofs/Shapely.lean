import Grimoire.Proofs.Evaluation.Stored
import Grimoire.Proofs.Grounded

/-!
# Every shape is well formed

The only shapes of a run are those that its texts write down, and these are well formed. They are
bound to names, put into containers and taken out again, but never changed. So whatever is run, no
name is ever bound to a shape that is not well formed, and no container holds one.
-/

namespace Grimoire

variable {σ : Type}

/-! ## Values and stores -/

/-- The value is no shape but a well-formed one. -/
def Value.WellShaped (v : Value) : Prop :=
  ∀ f, v = .shape f → f.WellFormed

/-- No container holds a shape but well-formed ones. -/
def Store.WellShaped (s : Store) : Prop :=
  ∀ v w, s.Encloses v w → w.WellShaped

theorem Value.wellShaped_tome (cell : Nat) : (Value.tome cell).WellShaped :=
  nofun

namespace Store

variable {s t : Store}

theorem WellShaped.empty : WellShaped {} := by
  intro v w h
  cases v <;> simp [Encloses, contents, items, entries, Table.empty, Table.values] at h

/-- One container may get other contents, if these are well shaped. -/
theorem WellShaped.of_change {c : Value} (hs : s.WellShaped)
    (off : ∀ v, v ≠ c → t.contents v = s.contents v) (new : ∀ w ∈ t.contents c, w.WellShaped) :
    t.WellShaped := by
  intro v w h
  rcases eq_or_ne v c with rfl | hv
  · exact new w h
  · rw [Encloses, off v hv] at h
    exact hs v w h

theorem WellShaped.newSequence {items : List Value} (hs : s.WellShaped)
    (h : ∀ v ∈ items, v.WellShaped) : (s.newSequence items).2.WellShaped := by
  refine hs.of_change (fun v hv => contents_newSequence_of_ne hv) fun w hw => ?_
  rw [contents_newSequence] at hw
  exact h w hw

theorem WellShaped.newTome {entries : Table Value} (hs : s.WellShaped)
    (h : ∀ v ∈ entries.values, v.WellShaped) : (s.newTome entries).2.WellShaped := by
  refine hs.of_change (fun v hv => contents_newTome_of_ne hv) fun w hw => ?_
  rw [contents_newTome] at hw
  exact h w hw

theorem WellShaped.setItems {cell : Nat} {items : List Value} (hs : s.WellShaped)
    (h : ∀ v ∈ items, v.WellShaped) : (s.setItems cell items).WellShaped :=
  hs.of_change (fun _ hv => contents_setItems_of_ne hv) fun w hw => h w (mem_contents_setItems hw)

theorem WellShaped.setEntries {cell : Nat} {entries : Table Value} (hs : s.WellShaped)
    (h : ∀ v ∈ entries.values, v.WellShaped) : (s.setEntries cell entries).WellShaped :=
  hs.of_change (fun _ hv => contents_setEntries_of_ne hv) fun w hw =>
    h w (mem_contents_setEntries hw)

end Store

/-- All shapes are well formed. -/
def Discipline.shapely : Discipline where
  sound := Store.WellShaped
  valid _ v := v.WellShaped
  valid_of_extends _ hv := hv
  valid_of_isScalar := by
    rintro s v h f rfl
    cases h
  valid_of_shape := by
    rintro s f h g hg
    cases hg
    exact h
  valid_of_encloses hs _ h := hs _ _ h
  newSequence hs h := ⟨hs.newSequence h, nofun⟩
  newTome hs h := ⟨hs.newTome h, Value.wellShaped_tome _⟩

/-! ## Machines -/

namespace Machine

variable {m : Machine σ}

/-- All shapes that names are bound to and containers hold are well formed, and the libraries make
no others. -/
structure Shapely (m : Machine σ) : Prop where
  admits : Discipline.shapely.Admits m.scope m.store
  registry : m.registry.Keeps .shapely

theorem shapely_fresh (config : Config) (clock : Clock) (host : σ) :
    (fresh config .standard clock host).Shapely :=
  ⟨Discipline.admits_empty Store.WellShaped.empty, Registry.keeps_standard⟩

theorem Shapely.reset (h : m.Shapely) : m.reset.Shapely :=
  ⟨Discipline.admits_empty Store.WellShaped.empty, h.registry⟩

theorem Shapely.withStore (h : m.Shapely) {t : Store} (ht : t.WellShaped) :
    (m.withStore t).Shapely where
  admits :=
    { sound := ht
      globals := h.admits.globals
      frames := h.admits.frames
      aliases := h.admits.aliases }
  registry := h.registry

theorem Shapely.withGlobal (h : m.Shapely) {name : Text} {v : Value} (hv : v.WellShaped)
    (sealedNames : List Text) :
    (m.withScope { m.scope with
      globals := m.scope.globals.insert name v, sealedNames := sealedNames }).Shapely :=
  ⟨h.admits.withGlobal hv sealedNames, h.registry⟩

end Machine

namespace Machine

variable {m : Machine σ} {f : Shape}

/-- A shape that a name is bound to, or that a container holds. -/
def Bears (m : Machine σ) (f : Shape) : Prop :=
  .shape f ∈ m.scope.globals.values ∨ (∃ frame ∈ m.scope.frames, .shape f ∈ frame.values) ∨
    ∃ v, m.store.Encloses v (.shape f)

theorem Shapely.wellFormed_of_bears (h : m.Shapely) (hf : m.Bears f) : f.WellFormed := by
  rcases hf with hglobal | ⟨frame, hframe, hlocal⟩ | ⟨v, hheld⟩
  · exact h.admits.globals _ hglobal f rfl
  · exact h.admits.frames frame hframe _ hlocal f rfl
  · exact h.admits.sound v _ hheld f rfl

end Machine

/-- Machines on which all shapes are well formed. -/
def Contract.shapely : Contract σ where
  holds := Machine.Shapely
  later _ _ := True
  admissible _ v := v.WellShaped
  refl _ := trivial
  trans _ _ := trivial
  admissible_of_later _ hv := hv

namespace Run

variable {α : Type} {m : Machine σ}

theorem shapely_evaluate {e : Eval α} {post : Store → α → Prop}
    (h : Eval.Yields .shapely m.scope m.resources e post) :
    Keeps .shapely m (evaluate e) (fun m' a => post m'.store a) Failure.Inner := by
  refine keeps_of_yields h (fun hm => hm.admits) fun r hm _ hsound => ⟨?_, trivial⟩
  exact ⟨(hm.withStore hsound).admits, hm.registry⟩

/-- Where all shapes are well formed, no text denotes another. -/
theorem wellFormed_of_value {m' : Machine σ} {s : Text} {f : Shape} (hm : m.Shapely)
    (h : (evaluate (Eval.value s)).run.run m = (.ok (.shape f), m')) : f.WellFormed := by
  have hkept := (shapely_evaluate Eval.yields_value hm).result (.shape f) (congrArg Prod.fst h)
  exact hkept f rfl

/-! ## Effects -/

theorem shapely_bindName {name : Text} {v : Value} (hv : v.WellShaped) :
    Keeps .shapely m (bindName name v) (fun _ _ => True) Failure.Inner := by
  refine keeps_get_bind ?_
  split
  · exact keeps_fail rfl
  · exact Keeps.forget (keeps_set fun hm => ⟨hm.withGlobal hv _, trivial⟩)

theorem shapely_bindSealed {name : Text} {v : Value} (hv : v.WellShaped) :
    Keeps .shapely m (bindSealed name v) (fun _ _ => True) Failure.Inner := by
  refine keeps_get_bind ?_
  split
  · exact keeps_fail rfl
  · exact Keeps.forget (keeps_set fun hm => ⟨hm.withGlobal hv _, trivial⟩)

theorem shapely_summon {path : Text} {nickname : Option Text} :
    Keeps .shapely m (summon path nickname) (fun _ _ => True) Failure.Inner := by
  refine keeps_get_bind ?_
  split
  · next fault hload => exact keeps_fail (Registry.isOfLines_of_load hload)
  · next summoned registry hload =>
    refine Keeps.forget (keeps_set fun hm => ?_)
    obtain ⟨hlibrary, hregistry⟩ := hm.registry.load hload
    exact ⟨⟨hm.admits.withAlias hlibrary, hregistry⟩, trivial⟩

theorem shapely_setItems {cell : Nat} {items : List Value} (h : ∀ v ∈ items, v.WellShaped) :
    Keeps .shapely m (setItems cell items) (fun _ _ => True) Failure.Inner :=
  Keeps.forget (keeps_modify fun hm => ⟨hm.withStore (hm.admits.sound.setItems h), trivial⟩)

theorem shapely_setEntries {cell : Nat} {entries : Table Value}
    (h : m.Shapely → ∀ v ∈ entries.values, v.WellShaped) :
    Keeps .shapely m (setEntries cell entries) (fun _ _ => True) Failure.Inner :=
  Keeps.forget (keeps_modify fun hm =>
    ⟨hm.withStore (hm.admits.sound.setEntries (h hm)), trivial⟩)

theorem shapely_newTomeCell :
    Keeps .shapely m newTomeCell (fun _ _ => True) Failure.Inner := by
  refine keeps_get_bind ((keeps_set fun hm => ⟨?_, trivial⟩).bind fun _ _ _ _ _ => ?_)
  · exact hm.withStore (hm.admits.sound.newTome fun v hv => by simp at hv)
  · exact keeps_pure fun _ => trivial

theorem shapely_rootTome {name : Text} :
    Keeps .shapely m (rootTome name) (fun _ _ => True) Failure.Inner := by
  refine keeps_get_bind ?_
  split
  · exact keeps_pure fun _ => trivial
  · refine shapely_newTomeCell.bind fun cell m₁ _ _ _ => ?_
    exact (shapely_bindName (Value.wellShaped_tome cell)).bind fun _ _ _ _ _ =>
      keeps_pure fun _ => trivial

/-- What stands beside a fresh entry was there before. -/
theorem wellShaped_insert {s : Store} (hs : s.WellShaped) {cell : Nat} {key : Text} {v : Value}
    (hv : v.WellShaped) : ∀ w ∈ ((s.entries cell).insert key v).values, w.WellShaped := by
  intro w hw
  rcases Table.mem_values_insert hw with rfl | hold
  · exact hv
  · exact hs (.tome cell) w hold

theorem shapely_innerTome {cell : Nat} {key : Text} :
    Keeps .shapely m (innerTome cell key) (fun _ _ => True) Failure.Inner := by
  refine keeps_get_bind ?_
  dsimp only
  split
  · exact keeps_pure fun _ => trivial
  · intro hm
    refine (shapely_newTomeCell.bind fun inner m₁ _ _ _ => ?_) hm
    refine (shapely_setEntries fun _ => ?_).bind fun _ _ _ _ _ => keeps_pure fun _ => trivial
    exact wellShaped_insert hm.admits.sound (Value.wellShaped_tome inner)

theorem shapely_innerTomes {steps : List Text} {cell : Nat} :
    Keeps .shapely m (steps.foldlM innerTome cell) (fun _ _ => True) Failure.Inner := by
  induction steps generalizing m cell with
  | nil => exact keeps_pure fun _ => trivial
  | cons key rest ih =>
    rw [List.foldlM_cons]
    exact shapely_innerTome.bind fun _ _ _ _ _ => ih

theorem shapely_bindPath {root : Text} {steps : List Text} {v : Value} (hv : v.WellShaped) :
    Keeps .shapely m (bindPath root steps v) (fun _ _ => True) Failure.Inner := by
  have hrest : Keeps .shapely m (do
      let cell ← steps.dropLast.foldlM innerTome (← rootTome root)
      let s := (← get).store
      if s.holds v (.tome cell) then fail (.wrongType (.insideItself "Set".toList .tome))
      setEntries cell ((s.entries cell).insert (steps.getLast?.getD []) v))
      (fun _ _ => True) Failure.Inner := by
    refine shapely_rootTome.bind fun first m₁ _ _ _ => ?_
    refine shapely_innerTomes.bind fun cell m₂ _ _ _ => keeps_get_bind ?_
    show Keeps .shapely m₂ (do
      if m₂.store.holds v (.tome cell) then fail (.wrongType (.insideItself "Set".toList .tome))
      setEntries cell ((m₂.store.entries cell).insert (steps.getLast?.getD []) v)) _ _
    split
    · exact keeps_fail_bind rfl
    · exact shapely_setEntries fun hm => wellShaped_insert hm.admits.sound hv
  refine keeps_get_bind ?_
  split
  · exact keeps_fail_bind rfl
  · exact hrest

theorem shapely_ask [Host σ] {request : Request} :
    Keeps .shapely m (ask request) (fun _ _ => True) Failure.Inner := by
  refine keeps_get_bind ?_
  rcases Host.answer request m.host with ⟨answer, host⟩
  have hset : Keeps .shapely m (set { m with host }) (fun _ _ => True) Failure.Inner :=
    Keeps.forget (keeps_set fun hm => ⟨⟨hm.admits, hm.registry⟩, trivial⟩)
  refine hset.bind fun _ m₁ _ _ _ => ?_
  cases answer with
  | ok _ => exact keeps_pure fun _ => trivial
  | error fault => exact keeps_fail rfl

/-- An effect that stores only well-shaped values. -/
theorem shapely_perform [Host σ] {effect : Effect} (h : ∀ v ∈ effect.values, v.WellShaped) :
    Keeps .shapely m (perform effect) (fun _ _ => True) Failure.Inner := by
  cases effect with
  | bind name v => exact shapely_bindName (h v List.mem_cons_self)
  | bindSealed name v => exact shapely_bindSealed (h v List.mem_cons_self)
  | bindPath root steps v => exact shapely_bindPath (h v List.mem_cons_self)
  | summon path nickname => exact shapely_summon
  | setItems cell items => exact shapely_setItems h
  | setEntries cell entries => exact shapely_setEntries fun _ => h
  | ask request => exact shapely_ask

theorem shapely_performAll [Host σ] {effects : List Effect} {s : Store}
    (h : Discipline.shapely.Stores s effects) :
    Keeps .shapely m (performAll effects) (fun _ _ => True) Failure.Inner := by
  induction effects generalizing m with
  | nil => exact keeps_pure fun _ => trivial
  | cons effect rest ih =>
    obtain ⟨heffect, hrest⟩ := List.forall_mem_cons.1 h
    exact (shapely_perform heffect).bind fun _ _ _ _ _ => ih hrest

/-! ## Statements -/

theorem shapely_statement [Host σ] {line : Text} :
    Keeps .shapely m (statement line) (fun _ _ => True) fun f =>
      f.Inner ∨ (Form.find? line = none ∧ f = { fault := .unknownStatement line.trim }) := by
  unfold statement
  split
  · exact keeps_pure fun _ => trivial
  · split
    · next form g _ =>
      have hrun : Keeps .shapely m (evaluate (form.effects g) >>= performAll) (fun _ _ => True)
          Failure.Inner :=
        (shapely_evaluate form.yields_stores).bind fun effects m₁ _ _ hstores =>
          shapely_performAll hstores
      exact hrun.weaken (fun _ _ h => h) fun _ hf => Or.inl hf
    · next hfind => exact keeps_fail (Or.inr ⟨hfind, rfl⟩)

end Run

namespace Program

theorem respects_shapely [Host σ] : Respects (.shapely : Contract σ) where
  statement _ _ := Run.shapely_statement
  condition _ _ := (Run.shapely_evaluate Eval.yields_holds).forget
  container _ _ _ := Run.shapely_evaluate yields_iterationOf
  binding _ _ _ hv := Run.shapely_bindName hv
  index _ _ := nofun

end Program

/-! ## Calls -/

namespace Machine

variable [Host σ] {m : Machine σ}

theorem Shapely.call (h : m.Shapely) (c : Call) : (m.call c).Shapely := by
  cases c with
  | interpret source =>
    exact Program.holds_after_runNodes Program.respects_shapely (Program.ofSource source) 0 h.reset
  | execute line => exact (Run.shapely_statement h).holds
  | evaluate text => exact (Run.shapely_evaluate Eval.yields_value h).holds
  | condition text => exact (Run.shapely_evaluate Eval.yields_holds h).holds
  | reset => exact h.reset
  | wait clock => exact ⟨h.admits, h.registry⟩

/-- Whatever calls are made on a fresh machine, all shapes on it are well formed. -/
theorem shapely_afterCalls (config : Config) (clock : Clock) (host : σ) (calls : List Call) :
    (afterCalls config clock host calls).Shapely := by
  have hfold : ∀ (calls : List Call) (m : Machine σ), m.Shapely →
      (calls.foldl Machine.call m).Shapely := by
    intro calls
    induction calls with
    | nil => exact fun m h => h
    | cons c rest ih => exact fun m h => ih _ (h.call c)
  exact hfold calls _ (shapely_fresh config clock host)

end Machine

end Grimoire
