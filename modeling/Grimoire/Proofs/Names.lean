import Grimoire.Proofs.Steps
import Grimoire.Proofs.Tables

/-!
# What effects do to names

An effect binds at most one global name. The scope after it is the scope before it, or has that name
bound and perhaps sealed, or has one more alias. An effect that would bind a sealed name is refused
before anything else happens, and no effect fails for a seal unless it is refused.
-/

namespace Grimoire

/-! ## Targets -/

namespace Effect

/-- The global name that an effect binds. -/
def target? : Effect → Option Text
  | bind name _ | bindSealed name _ | bindPath name _ _ => some name
  | summon _ _ | setItems _ _ | setEntries _ _ | ask _ => none

/-- Whether an effect seals the name that it binds. -/
def seals : Effect → Bool
  | bindSealed _ _ => true
  | _ => false

/-- The fault of an effect whose target is sealed, or is taken where a fresh name is wanted. -/
def refusal? (scope : Scope) : Effect → Option Fault
  | bind name _ | bindPath name _ _ =>
    if scope.isSealed name then some (.sealedVariable name) else none
  | bindSealed name _ =>
    if scope.isSealed name || (scope.globals.get? name).any (· ≠ .undefined) then
      some (.alreadyDefined name)
    else none
  | summon _ _ | setItems _ _ | setEntries _ _ | ask _ => none

end Effect

/-! ## Scopes -/

/-- What comes of a scope by a change that binds `target?` if it binds a name, and that may seal the
name if `seals` holds. -/
inductive Scope.Change (target? : Option Text) (seals : Bool) (scope : Scope) : Scope → Prop
  | kept : Change target? seals scope scope
  | bound {name : Text} (v : Value) (htarget : target? = some name)
      (hopen : scope.isSealed name = false) :
      Change target? seals scope { scope with globals := scope.globals.insert name v }
  | closed {name : Text} (v : Value) (htarget : target? = some name) (hseals : seals = true)
      (hopen : scope.isSealed name = false) :
      Change target? seals scope
        { scope with
          globals := scope.globals.insert name v
          sealedNames := name :: scope.sealedNames }
  | aliased (aliases : Table Summoned) : Change target? seals scope { scope with aliases }

namespace Scope

variable {scope scope' : Scope} {target? : Option Text} {seals : Bool} {name : Text}

theorem isSealed_cons {other : Text} {globals : Table Value} :
    isSealed { scope with globals, sealedNames := other :: scope.sealedNames } name = true ↔
      name = other ∨ scope.isSealed name = true := by
  simp [isSealed]

/-- Other names than the target stay bound to what they were bound to. -/
theorem Change.get?_of_ne (h : scope.Change target? seals scope') (hname : target? ≠ some name) :
    scope'.globals.get? name = scope.globals.get? name := by
  cases h with
  | kept => rfl
  | bound v htarget _ | closed v htarget _ _ =>
    show (scope.globals.insert _ v).get? name = scope.globals.get? name
    rw [Table.get?_insert, if_neg]
    rintro rfl
    exact hname htarget
  | aliased aliases => rfl

/-- What is sealed stays bound to what it is bound to. -/
theorem Change.get?_of_isSealed (h : scope.Change target? seals scope')
    (hname : scope.isSealed name = true) :
    scope'.globals.get? name = scope.globals.get? name := by
  cases h with
  | kept => rfl
  | bound v _ hopen | closed v _ _ hopen =>
    show (scope.globals.insert _ v).get? name = scope.globals.get? name
    rw [Table.get?_insert, if_neg]
    rintro rfl
    rw [hname] at hopen
    cases hopen
  | aliased aliases => rfl

/-- What is sealed stays sealed. -/
theorem Change.isSealed (h : scope.Change target? seals scope') (hname : scope.isSealed name = true) :
    scope'.isSealed name = true := by
  cases h with
  | closed v _ _ _ => exact isSealed_cons.2 (Or.inr hname)
  | _ => exact hname

/-- What becomes sealed is the target of a change that seals. -/
theorem Change.isSealed_or (h : scope.Change target? seals scope')
    (hname : scope'.isSealed name = true) :
    scope.isSealed name = true ∨ (seals = true ∧ target? = some name) := by
  cases h with
  | closed v htarget hseals _ =>
    rcases isSealed_cons.1 hname with rfl | hold
    · exact Or.inr ⟨hseals, htarget⟩
    · exact Or.inl hold
  | _ => exact Or.inl hname

/-- No change opens or ends a shape call. -/
theorem Change.frames (h : scope.Change target? seals scope') : scope'.frames = scope.frames := by
  cases h <;> rfl

/-- Every sealed name is bound. -/
def SealsBound (scope : Scope) : Prop :=
  ∀ name, scope.isSealed name = true → ∃ v, scope.globals.get? name = some v

theorem Change.sealsBound (h : scope.Change target? seals scope') (hbound : scope.SealsBound) :
    scope'.SealsBound := by
  intro name hname
  by_cases hold : scope.isSealed name = true
  · rw [h.get?_of_isSealed hold]
    exact hbound name hold
  · -- a name that has just been sealed has been bound by the same change
    cases h with
    | closed v _ _ _ =>
      rcases isSealed_cons.1 hname with rfl | hsealed
      · exact ⟨v, (Table.get?_insert _ _ _ _).trans (if_pos rfl)⟩
      · exact absurd hsealed hold
    | _ => exact absurd hname hold

end Scope

/-! ## Effects -/

/-- Whether a fault is about a name that is sealed or taken. -/
def Fault.isOfSeals : Fault → Bool
  | .sealedVariable _ | .alreadyDefined _ => true
  | _ => false

variable {σ α : Type}

/-- Machines whose scope comes of a scope by a change. -/
def Contract.changing (scope : Scope) (target? : Option Text) (seals : Bool) : Contract σ where
  holds m := scope.Change target? seals m.scope
  later _ _ := True
  admissible _ _ := True
  refl _ := trivial
  trans _ _ := trivial
  admissible_of_later _ _ := trivial

/-- Whether a failure is about anything but seals. -/
def Failure.Unsealed (f : Failure) : Prop :=
  f.fault.isOfSeals = false

namespace Run

variable {m : Machine σ} {scope : Scope} {target? : Option Text} {seals : Bool}

/-! ### Tomes on the way -/

theorem changing_setEntries {cell : Nat} {entries : Table Value} :
    Keeps (.changing scope target? seals) m (setEntries cell entries) (fun _ _ => True)
      Failure.Unsealed :=
  Keeps.forget (keeps_modify fun hm => ⟨hm, trivial⟩)

/-- A fresh tome comes with no change of the scope. -/
theorem changing_newTomeCell :
    Keeps (.changing scope target? seals) m newTomeCell (fun m' _ => m'.scope = m.scope)
      Failure.Unsealed := by
  apply keeps_get_bind
  have hset : Keeps (.changing scope target? seals) m
      (set (m.withStore (m.store.newTome .empty).2) : Run σ Unit)
      (fun m' _ => m' = m.withStore (m.store.newTome .empty).2) Failure.Unsealed :=
    keeps_set fun hm => ⟨hm, trivial⟩
  apply hset.bind
  intro _ m₁ _ _ hm₁
  apply keeps_pure
  intro _
  rw [hm₁]
  rfl

theorem changing_innerTome {cell : Nat} {key : Text} :
    Keeps (.changing scope target? seals) m (innerTome cell key) (fun _ _ => True)
      Failure.Unsealed := by
  apply keeps_get_bind
  dsimp only
  split
  · exact keeps_pure fun _ => trivial
  · apply changing_newTomeCell.bind
    intro inner m₁ _ _ _
    exact changing_setEntries.bind fun _ _ _ _ _ => keeps_pure fun _ => trivial

theorem changing_innerTomes {steps : List Text} {cell : Nat} :
    Keeps (.changing scope target? seals) m (steps.foldlM innerTome cell) (fun _ _ => True)
      Failure.Unsealed := by
  induction steps generalizing m cell with
  | nil => exact keeps_pure fun _ => trivial
  | cons key rest ih =>
    rw [List.foldlM_cons]
    exact changing_innerTome.bind fun inner m₁ _ _ _ => ih

/-! ### One effect -/

/-- A name that is not sealed may be bound. -/
theorem changing_bindName {name : Text} {v : Value} (hscope : m.scope = scope)
    (htarget : target? = some name) (hopen : scope.isSealed name = false) :
    Keeps (.changing scope target? seals) m (bindName name v) (fun _ _ => True)
      Failure.Unsealed := by
  subst hscope
  apply keeps_get_bind
  rw [hopen]
  exact Keeps.forget (keeps_set fun _ => ⟨.bound v htarget hopen, trivial⟩)

/-- The root of a path is bound at most once, to a fresh tome. -/
theorem changing_rootTome {name : Text} (hscope : m.scope = scope)
    (htarget : target? = some name) (hopen : scope.isSealed name = false) :
    Keeps (.changing scope target? seals) m (rootTome name) (fun _ _ => True)
      Failure.Unsealed := by
  apply keeps_get_bind
  split
  · exact keeps_pure fun _ => trivial
  · apply changing_newTomeCell.bind
    intro cell m₁ _ _ hm₁
    apply (changing_bindName (hm₁.trans hscope) htarget hopen).bind
    intro _ m₂ _ _ _
    exact keeps_pure fun _ => trivial

theorem changing_bindPath {root : Text} {steps : List Text} {v : Value}
    (hopen : m.scope.isSealed root = false) :
    Keeps (.changing m.scope (some root) seals) m (bindPath root steps v) (fun _ _ => True)
      Failure.Unsealed := by
  apply keeps_get_bind
  rw [hopen]
  apply (changing_rootTome rfl rfl hopen).bind
  intro first m₁ _ _ _
  apply changing_innerTomes.bind
  intro cell m₂ _ _ _
  apply keeps_get_bind
  dsimp only
  split
  · exact keeps_fail_bind rfl
  · exact changing_setEntries

theorem changing_summon {path : Text} {nickname : Option Text} (hscope : m.scope = scope) :
    Keeps (.changing scope target? seals) m (summon path nickname) (fun _ _ => True)
      Failure.Unsealed := by
  subst hscope
  apply keeps_get_bind
  unfold Registry.load
  split
  · next fault hload =>
    apply keeps_fail
    split at hload
    · cases hload
    · split at hload
      · cases hload
      · cases hload
        rfl
  · exact Keeps.forget (keeps_set fun _ => ⟨.aliased _, trivial⟩)

theorem changing_ask [Host σ] {request : Request} :
    Keeps (.changing scope target? seals) m (ask request) (fun _ _ => True) Failure.Unsealed := by
  apply keeps_get_bind
  rcases Host.answer request m.host with ⟨answer, host⟩
  have hset : Keeps (.changing scope target? seals) m (set { m with host } : Run σ Unit)
      (fun _ _ => True) Failure.Unsealed := Keeps.forget (keeps_set fun hm => ⟨hm, trivial⟩)
  apply hset.bind
  intro _ m₁ _ _ _
  cases answer with
  | ok _ => exact keeps_pure fun _ => trivial
  | error fault => exact keeps_fail rfl

variable [Host σ] {effect : Effect}

/-- An effect that is refused leaves the machine as it is. -/
theorem run_perform_of_refusal {fault : Fault} (h : effect.refusal? m.scope = some fault) :
    (perform effect).run.run m = (.error { fault }, m) := by
  have hsealed : ∀ name, (if m.scope.isSealed name then some (Fault.sealedVariable name) else none)
      = some fault → m.scope.isSealed name = true ∧ fault = .sealedVariable name := by
    intro name hname
    split at hname
    · next hsealed => exact ⟨hsealed, (Option.some.inj hname).symm⟩
    · cases hname
  cases effect with
  | bind name v =>
    obtain ⟨hname, rfl⟩ := hsealed name h
    show (if m.scope.isSealed name then fail (.sealedVariable name)
      else set _ : Run σ Unit).run.run m = _
    rw [if_pos hname]
    rfl
  | bindPath name steps v =>
    obtain ⟨hname, rfl⟩ := hsealed name h
    show (if m.scope.isSealed name then (fail (.sealedVariable name) : Run σ PUnit) >>= fun _ => _
      else _ : Run σ Unit).run.run m = _
    rw [if_pos hname]
    rfl
  | bindSealed name v =>
    rw [Effect.refusal?] at h
    split at h
    · next hname =>
      obtain rfl := Option.some.inj h
      show (if m.scope.isSealed name || (m.scope.globals.get? name).any (· ≠ .undefined)
        then fail (.alreadyDefined name) else set _ : Run σ Unit).run.run m = _
      rw [if_pos hname]
      rfl
    · cases h
  | _ => cases h

/-- An effect that is not refused changes the scope as it should, and it fails with no fault of
seals. -/
theorem changing_perform (h : effect.refusal? m.scope = none) :
    Keeps (.changing m.scope effect.target? effect.seals) m (perform effect) (fun _ _ => True)
      Failure.Unsealed := by
  have hopen : ∀ name, (if m.scope.isSealed name then some (Fault.sealedVariable name) else none)
      = none → m.scope.isSealed name = false := by
    intro name hname
    split at hname
    · cases hname
    · next hsealed => exact Bool.eq_false_iff.2 hsealed
  cases effect with
  | bind name v => exact changing_bindName rfl rfl (hopen name h)
  | bindSealed name v =>
    rw [Effect.refusal?] at h
    split at h
    · cases h
    · next hname =>
      have hopen : m.scope.isSealed name = false :=
        Bool.eq_false_iff.2 fun hsealed => hname (Bool.or_eq_true_iff.2 (Or.inl hsealed))
      apply keeps_get_bind
      rw [if_neg hname]
      exact Keeps.forget (keeps_set fun _ => ⟨.closed v rfl rfl hopen, trivial⟩)
  | bindPath name steps v => exact changing_bindPath (hopen name h)
  | summon path nickname => exact changing_summon rfl
  | setItems cell items => exact Keeps.forget (keeps_modify fun hm => ⟨hm, trivial⟩)
  | setEntries cell entries => exact changing_setEntries
  | ask request => exact changing_ask

/-- An effect changes the scope as it should, whether it fails or not. -/
theorem scope_perform (effect : Effect) (m : Machine σ) :
    m.scope.Change effect.target? effect.seals ((perform effect).run.run m).2.scope := by
  cases h : effect.refusal? m.scope with
  | some fault =>
    rw [run_perform_of_refusal h]
    exact .kept
  | none => exact (changing_perform h .kept).holds

end Run

end Grimoire
