import Grimoire.Proofs.Targets

/-!
# Seals

A sealed name stays sealed and bound to the same value until the next reset. Every sealed name is
bound, since it is bound by the statement that seals it, and no step binds it again: whatever tries
to fails, be it a statement, whose value may come from a library, or a loop.
-/

namespace Grimoire

variable {σ : Type} [Host σ]

/-! ## Attempts -/

namespace Effect

/-- An effect whose target is sealed is refused. -/
theorem refusal?_of_isSealed {effect : Effect} {scope : Scope} {name : Text}
    (htarget : effect.target? = some name) (hname : scope.isSealed name = true) :
    effect.refusal? scope =
      some (if effect.seals then .alreadyDefined name else .sealedVariable name) := by
  cases effect with
  | bind other v | bindPath other steps v =>
    obtain rfl := Option.some.inj htarget
    rw [refusal?, if_pos hname]
    rfl
  | bindSealed other v =>
    obtain rfl := Option.some.inj htarget
    rw [refusal?, if_pos (by rw [hname, Bool.true_or])]
    rfl
  | _ => cases htarget

end Effect

namespace Run

variable {m : Machine σ} {name : Text}

omit [Host σ] in
theorem run_bindName_of_isSealed (hname : m.scope.isSealed name = true) (v : Value) :
    (bindName name v).run.run m = (.error { fault := .sealedVariable name }, m) := by
  show (if m.scope.isSealed name then fail (.sealedVariable name)
    else set _ : Run σ Unit).run.run m = _
  rw [if_pos hname]
  rfl

omit [Host σ] in
theorem run_bindName_of_open (hname : m.scope.isSealed name = false) (v : Value) :
    (bindName name v).run.run m =
      (.ok (), m.withScope { m.scope with globals := m.scope.globals.insert name v }) := by
  show (if m.scope.isSealed name then fail (.sealedVariable name)
    else set _ : Run σ Unit).run.run m = _
  rw [hname]
  rfl

/-- Effects that would bind a sealed name fail, even where an element has been plucked for it. -/
theorem run_performAll_of_isSealed {form : Form} {g : Groups} {effects : List Effect}
    (hfits : form.Fits g effects) (htarget : form.target? g = some name)
    (hname : m.scope.isSealed name = true) :
    ((performAll effects).run.run m).1 = .error { fault := form.refusal name } := by
  cases hfits with
  | nothing hnone =>
    rw [hnone] at htarget
    cases htarget
  | one heffect hseals =>
    have hrefusal := Effect.refusal?_of_isSealed (heffect.trans htarget) hname
    rw [performAll_singleton, run_perform_of_refusal hrefusal, hseals]
    rfl
  | plucked hform cell head rest =>
    subst hform
    obtain rfl := Option.some.inj htarget
    rw [run_performAll_plucked, run_bindName_of_isSealed]
    · rfl
    · exact hname

end Run

/-- Every attempt to bind a name fails: that of a statement, once its operands are evaluated, that
of a loop over elements, and those of a loop over places and elements. -/
structure Machine.Refuses (m : Machine σ) (name : Text) : Prop where
  statement : ∀ line form g, line.isIdle = false → Form.find? line = some (form, g) →
    form.target? g = some name → ∃ failure, ((Run.statement line).run.run m).1 = .error failure ∧
      (failure = { fault := form.refusal name } ∨
        ((Run.evaluate (form.effects g)).run.run m).1 = .error failure)
  each : ∀ body v rest, (Program.repeatEach name body (v :: rest)).run.run m =
    (.error { fault := .sealedVariable name }, m)
  place : ∀ other body place v rest,
    (Program.stride name other body place (v :: rest)).run.run m =
      (.error { fault := .sealedVariable name }, m)
  element : ∀ index body place v rest,
    ((Program.stride index name body place (v :: rest)).run.run m).1 =
      .error { fault := .sealedVariable (if m.scope.isSealed index then index else name) }

namespace Machine

variable {m m' : Machine σ} {name : Text}

/-- A sealed name is refused to whoever would bind it. -/
theorem refuses_of_isSealed (hname : m.scope.isSealed name = true) : m.Refuses name where
  statement line form g hidle hform htarget := by
    rw [Run.run_statement hidle hform]
    rcases heval : (Run.evaluate (form.effects g)).run.run m with ⟨failure | effects, m₁⟩
    · exact ⟨failure, rfl, Or.inr rfl⟩
    · obtain ⟨hfits, hscope⟩ := Run.fits_of_evaluate heval
      refine ⟨_, Run.run_performAll_of_isSealed hfits htarget ?_, Or.inl rfl⟩
      rw [hscope]
      exact hname
  each body v rest := by
    rw [Program.repeatEach, run_bind, Run.run_bindName_of_isSealed hname]
  place other body place v rest := by
    rw [Program.stride, run_bind, Run.run_bindName_of_isSealed hname]
  element index body place v rest := by
    rw [Program.stride, run_bind]
    cases hindex : m.scope.isSealed index with
    | true => rw [Run.run_bindName_of_isSealed hindex, if_pos rfl]
    | false =>
      -- the place is bound before the element is refused
      rw [Run.run_bindName_of_open hindex]
      dsimp only
      rw [run_bind, Run.run_bindName_of_isSealed]
      · rfl
      · exact hname

/-! ## Seals over time -/

/-- A step changes the scope as some statement might. -/
theorem Step.change (h : m.Step m') : ∃ target? seals, m.scope.Change target? seals m'.scope := by
  cases h with
  | statement line => exact ⟨_, _, Run.scope_statement line m⟩
  | evaluation e => exact ⟨none, false, .kept⟩
  | binding name v => exact ⟨_, _, Run.scope_perform (.bind name v) m⟩
  | waiting clock => exact ⟨none, false, .kept⟩

/-- Since a reset every sealed name is bound. -/
theorem SinceReset.sealsBound (h : m.SinceReset) : m.scope.SealsBound := by
  apply h.induction (P := fun m => m.scope.SealsBound)
  · intro origin name hname
    cases hname
  · intro m m' hstep hm
    obtain ⟨target?, seals, hchange⟩ := hstep.change
    exact hchange.sealsBound hm

/-- Whatever a machine leads to, what was sealed is sealed and bound as it was. -/
theorem LeadsTo.sealed (h : m.LeadsTo m') (hname : m.scope.isSealed name = true) :
    m'.scope.isSealed name = true ∧
      m'.scope.globals.get? name = m.scope.globals.get? name := by
  apply h.preserves (P := fun m' => m'.scope.isSealed name = true ∧
    m'.scope.globals.get? name = m.scope.globals.get? name)
  · rintro m₁ m₂ hstep ⟨hsealed, hsame⟩
    obtain ⟨target?, seals, hchange⟩ := hstep.change
    exact ⟨hchange.isSealed hsealed, (hchange.get?_of_isSealed hsealed).trans hsame⟩
  · exact ⟨hname, rfl⟩

/-- On a machine that has been reset at some time, a sealed name is bound to a value, and wherever
the machine leads without another reset the name is sealed, is bound to that value, and is refused
to whoever would bind it. A statement changes the binding of no other name than its target, and
seals no other name, nor this one unless it is of the form that seals. Programs only lead on. -/
theorem sealed_for_good :
    (∀ m : Machine σ, m.SinceReset → ∀ name, m.scope.isSealed name = true →
      ∃ v, ∀ m', m.LeadsTo m' → m'.scope.isSealed name = true ∧
        m'.scope.globals.get? name = some v ∧ m'.Refuses name) ∧
    (∀ (m : Machine σ) (line name : Text),
      (line.target? ≠ some name → ((Run.statement line).run.run m).2.scope.globals.get? name =
        m.scope.globals.get? name) ∧
      (((Run.statement line).run.run m).2.scope.isSealed name = true →
        m.scope.isSealed name = true ∨ (line.seals = true ∧ line.target? = some name))) ∧
    ∀ (m : Machine σ) (depth : Nat) (nodes : List Node),
      m.LeadsTo ((Program.runNodes depth nodes).run.run m).2 := by
  refine ⟨?_, ?_, ?_⟩
  · intro m hm name hname
    obtain ⟨v, hv⟩ := hm.sealsBound name hname
    refine ⟨v, ?_⟩
    intro m' hm'
    obtain ⟨hsealed, hsame⟩ := hm'.sealed hname
    exact ⟨hsealed, hsame.trans hv, refuses_of_isSealed hsealed⟩
  · intro m line name
    have hchange := Run.scope_statement line m
    exact ⟨hchange.get?_of_ne, hchange.isSealed_or⟩
  · intro m depth nodes
    exact Program.leadsTo_runNodes nodes depth m

/-- A machine on which one name has been sealed. -/
def sealedHp : Machine Transcript :=
  ((Run.statement "Seal hp is \"full\" ok".toList).run.run (fresh {} .standard default {})).2

theorem sealed_for_good_sealedHp :
    sealedHp.SinceReset ∧ sealedHp.scope.isSealed "hp".toList = true ∧
      sealedHp.Refuses "hp".toList := by
  have hreset : sealedHp.SinceReset :=
    (sinceReset_fresh {} .standard default {}).leadsTo (Step.statement _).leadsTo
  have hsealed : sealedHp.scope.isSealed "hp".toList = true := by decide +kernel
  obtain ⟨v, hv⟩ := (sealed_for_good (σ := Transcript)).1 sealedHp hreset "hp".toList hsealed
  exact ⟨hreset, hsealed, (hv sealedHp (.refl sealedHp)).2.2⟩

end Machine

end Grimoire
