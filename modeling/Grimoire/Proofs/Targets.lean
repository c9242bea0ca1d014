import Grimoire.Proofs.Names

/-!
# What statements do to names

The form of a line and its operands say which global name the line binds, if it binds any. Every
statement comes to no effect, or to one that binds this name, or it plucks an element from an array
before it binds the name. So a statement changes the binding of no other name, and only the form
that seals names adds to the sealed ones.
-/

namespace Grimoire

/-! ## Targets -/

namespace Form

/-- The global name that a statement binds. -/
def target? : Form → Groups → Option Text
  | computation c, g => some (g.text c.target)
  | deed .setPath, g => some (g.text 1).pathRoot
  | deed .sealName, g => some (g.text 1)
  | deed .pluckFirst, g => some (g.text 2)
  | deed _, _ => none

/-- Whether a statement seals the name that it binds. -/
def seals : Form → Bool
  | deed .sealName => true
  | _ => false

/-- The fault of a statement whose target is sealed. -/
def refusal (form : Form) (name : Text) : Fault :=
  if form.seals then .alreadyDefined name else .sealedVariable name

end Form

namespace Text

/-- The global name that a line binds. -/
def target? (line : Text) : Option Text :=
  if line.isIdle then none else (Form.find? line).bind fun found => found.1.target? found.2

/-- Whether a line seals the name that it binds. -/
def seals (line : Text) : Bool :=
  (Form.classify line).any Form.seals

end Text

/-! ## Effects -/

namespace Eval

variable {α β : Type} {post : α → Prop}

/-- What a computation in a scope returns satisfies a condition. -/
def Returns (e : Eval α) (post : α → Prop) : Prop :=
  ∀ scope r a, ((e.run scope).run.run r).1 = .ok a → post a

theorem returns_pure {a : α} (h : post a) : Returns (pure a) post := by
  intro scope r b hb
  cases hb
  exact h

/-- The last part of a computation decides what it returns. -/
theorem returns_bind {e : Eval β} {f : β → Eval α} (h : ∀ b, Returns (f b) post) :
    Returns (e >>= f) post := by
  intro scope r a ha
  have hrun : ((e >>= f).run scope).run.run r = _ := run_bind (e.run scope) (fun b => (f b).run scope) r
  rw [hrun] at ha
  rcases hfirst : (e.run scope).run.run r with ⟨fault | b, r'⟩
  · rw [hfirst] at ha
    cases ha
  · rw [hfirst] at ha
    exact h b scope r' a ha

end Eval

/-- The effects that a statement may come to. -/
inductive Form.Fits (form : Form) (g : Groups) : List Effect → Prop
  | nothing (hnone : form.target? g = none) : Fits form g []
  | one {effect : Effect} (htarget : effect.target? = form.target? g)
      (hseals : effect.seals = form.seals) : Fits form g [effect]
  | plucked (hform : form = .deed .pluckFirst) (cell : Nat) (head : Value) (rest : List Value) :
      Fits form g [.setItems cell rest, .bind (g.text 2) head]

namespace Deed

open Eval

variable {g : Groups}

/-- An effect without a target fits a deed without one. -/
theorem returns_pure_targetless {d : Deed} {effect : Effect} (htarget : effect.target? = none)
    (hnone : (Form.deed d).target? g = none) (hseals : effect.seals = (Form.deed d).seals) :
    Returns (pure [effect]) ((Form.deed d).Fits g) :=
  returns_pure (.one (htarget.trans hnone.symm) hseals)

/-- A path of one piece is bound like a name, and a longer one from its first piece. -/
theorem returns_pathSet : Returns (pathSet g) ((Form.deed .setPath).Fits g) := by
  apply returns_bind
  intro v
  obtain ⟨rest, hsplit, hwhole⟩ := Text.exists_splitOn_eq '.' (g.text 1)
  rw [hsplit]
  cases rest with
  | nil =>
    apply returns_pure
    apply Form.Fits.one
    · exact congrArg some (hwhole rfl).symm
    · rfl
  | cons step steps =>
    apply returns_pure
    apply Form.Fits.one
    · rfl
    · rfl

theorem returns_editItems {d : Deed} {user : String} {edit : List Value → Eval (List Value)}
    (hnone : (Form.deed d).target? g = none) (hseals : (Form.deed d).seals = false) :
    Returns (editItems user g edit) ((Form.deed d).Fits g) := by
  apply returns_bind
  intro _
  apply returns_bind
  intro v
  apply returns_bind
  intro cell
  apply returns_bind
  intro s
  apply returns_bind
  intro items
  exact returns_pure_targetless rfl hnone hseals.symm

theorem returns_boundInFront : Returns (boundInFront g) ((Form.deed .bindFront).Fits g) := by
  apply returns_bind
  intro v
  apply returns_bind
  intro cell
  apply returns_bind
  intro _
  apply returns_bind
  intro s
  exact returns_pure_targetless rfl rfl rfl

theorem returns_firstPlucked : Returns (firstPlucked g) ((Form.deed .pluckFirst).Fits g) := by
  apply returns_bind
  intro cell
  apply returns_bind
  intro s
  split
  · exact returns_pure (.one rfl rfl)
  · exact returns_pure (.plucked rfl cell _ _)

theorem returns_flooded : Returns (flooded g) ((Form.deed .flood).Fits g) := by
  apply returns_bind
  intro v
  apply returns_bind
  intro cell
  apply returns_bind
  intro _
  apply returns_bind
  intro s
  exact returns_pure_targetless rfl rfl rfl

theorem returns_keyPlucked : Returns (keyPlucked g) ((Form.deed .pluckKey).Fits g) := by
  apply returns_bind
  intro _
  apply returns_bind
  intro key
  apply returns_bind
  intro v
  apply returns_bind
  intro cell
  apply returns_bind
  intro s
  exact returns_pure_targetless rfl rfl rfl

theorem returns_rebranded : Returns (rebranded g) ((Form.deed .rebrand).Fits g) := by
  apply returns_bind
  intro _
  apply returns_bind
  intro old
  apply returns_bind
  intro new
  apply returns_bind
  intro v
  apply returns_bind
  intro cell
  apply returns_bind
  intro s
  exact returns_pure_targetless rfl rfl rfl

/-- A tome melded into itself comes to nothing. -/
theorem returns_melded : Returns (melded g) ((Form.deed .meld).Fits g) := by
  apply returns_bind
  intro _
  apply returns_bind
  intro v
  apply returns_bind
  intro source
  apply returns_bind
  intro w
  apply returns_bind
  intro cell
  split
  · exact returns_pure (.nothing rfl)
  · apply returns_bind
    intro _
    apply returns_bind
    intro s
    exact returns_pure_targetless rfl rfl rfl

theorem returns_effects (d : Deed) : Returns (d.effects g) ((Form.deed d).Fits g) := by
  cases d with
  | setPath => exact returns_pathSet
  | sealName => exact returns_bind fun v => returns_pure (.one rfl rfl)
  | reveal | scribe | imprint => exact returns_bind fun _ => returns_pure_targetless rfl rfl rfl
  | summon => exact returns_pure_targetless rfl rfl rfl
  | stir =>
    rw [effects]
    exact returns_editItems rfl rfl
  | sort =>
    rw [effects, sorted]
    exact returns_editItems rfl rfl
  | reverse =>
    rw [effects]
    exact returns_editItems rfl rfl
  | bindFront => exact returns_boundInFront
  | pluckFirst => exact returns_firstPlucked
  | flood => exact returns_flooded
  | pluckKey => exact returns_keyPlucked
  | rebrand => exact returns_rebranded
  | meld => exact returns_melded

end Deed

/-- Every statement comes to effects that fit its form. -/
theorem Form.returns_effects (form : Form) (g : Groups) :
    Eval.Returns (form.effects g) (form.Fits g) := by
  cases form with
  | computation c => exact Eval.returns_bind fun v => Eval.returns_pure (.one rfl rfl)
  | deed d => exact d.returns_effects

/-! ## Statements -/

namespace Run

variable {σ : Type} [Host σ] {m : Machine σ} {line : Text} {form : Form} {g : Groups}

theorem performAll_singleton (effect : Effect) :
    (performAll [effect] : Run σ Unit) = perform effect :=
  bind_pure_unit

/-- What is plucked is gone before its name is bound. -/
theorem run_performAll_plucked (m : Machine σ) (name : Text) (cell : Nat) (head : Value)
    (rest : List Value) :
    (performAll [.setItems cell rest, .bind name head]).run.run m =
      (bindName name head).run.run (m.withStore (m.store.setItems cell rest)) := by
  show ((setItems cell rest : Run σ Unit) >>= fun _ => performAll [.bind name head]).run.run m = _
  rw [performAll_singleton, run_bind]
  rfl

/-- A statement evaluates its operands and then performs the effects that it comes to. -/
theorem run_statement (hidle : line.isIdle = false) (hform : Form.find? line = some (form, g))
    (m : Machine σ) :
    (statement line).run.run m = match (evaluate (form.effects g)).run.run m with
      | (.ok effects, m') => (performAll effects).run.run m'
      | (.error failure, m') => (.error failure, m') := by
  have hrun : statement (σ := σ) line = evaluate (form.effects g) >>= performAll := by
    rw [statement, hidle, hform]
    rfl
  rw [hrun, run_bind]
  rcases (evaluate (form.effects g)).run.run m with ⟨failure | effects, m'⟩ <;> rfl

/-- A line that is idle or has no form changes nothing. -/
theorem run_statement_of_formless (h : line.isIdle = true ∨ Form.find? line = none)
    (m : Machine σ) : ((statement line).run.run m).2 = m := by
  rw [statement]
  cases hidle : line.isIdle with
  | true => rfl
  | false =>
    have hform : Form.find? line = none := by
      rcases h with hidle' | hform
      · rw [hidle] at hidle'
        cases hidle'
      · exact hform
    rw [hform]
    rfl

/-- A line is idle, or has no form, or has one. -/
theorem form_cases (line : Text) :
    (line.isIdle = true ∨ Form.find? line = none) ∨
      ∃ form g, line.isIdle = false ∧ Form.find? line = some (form, g) := by
  cases hidle : line.isIdle with
  | true => exact Or.inl (Or.inl rfl)
  | false =>
    cases hform : Form.find? line with
    | none => exact Or.inl (Or.inr rfl)
    | some found => exact Or.inr ⟨found.1, found.2, rfl, rfl⟩

omit [Host σ] in
/-- The effects of a statement fit its form, and evaluating them has changed no name. -/
theorem fits_of_evaluate {effects : List Effect} {m' : Machine σ}
    (heval : (evaluate (form.effects g)).run.run m = (.ok effects, m')) :
    form.Fits g effects ∧ m'.scope = m.scope := by
  obtain ⟨r, hrun, rfl⟩ := exists_of_run_evaluate heval
  constructor
  · apply form.returns_effects g m.scope m.resources
    rw [hrun]
  · rfl

/-- Effects that fit a form change the scope as the form should. -/
theorem scope_performAll {effects : List Effect} (h : form.Fits g effects) (m : Machine σ) :
    m.scope.Change (form.target? g) form.seals ((performAll effects).run.run m).2.scope := by
  cases h with
  | nothing _ => exact .kept
  | one htarget hseals =>
    rw [performAll_singleton, ← htarget, ← hseals]
    exact scope_perform _ m
  | plucked hform cell head rest =>
    subst hform
    rw [run_performAll_plucked]
    exact scope_perform (.bind (g.text 2) head) (m.withStore (m.store.setItems cell rest))

/-- A statement binds at most the target of its line, and seals it only if it is of the form that
seals names. -/
theorem scope_statement (line : Text) (m : Machine σ) :
    m.scope.Change line.target? line.seals ((statement line).run.run m).2.scope := by
  rcases form_cases line with hformless | ⟨form, g, hidle, hform⟩
  · rw [run_statement_of_formless hformless]
    exact .kept
  · have htarget : line.target? = form.target? g := by
      rw [Text.target?, hidle, hform]
      rfl
    have hseals : line.seals = form.seals := by
      rw [Text.seals, Form.classify, hform]
      rfl
    rw [htarget, hseals, run_statement hidle hform]
    rcases heval : (evaluate (form.effects g)).run.run m with ⟨failure | effects, m'⟩
    · have hsame : m'.scope = m.scope :=
        congrArg (fun out : Except Failure (List Effect) × Machine σ => out.2.scope) heval.symm
      show m.scope.Change _ _ m'.scope
      rw [hsame]
      exact .kept
    · obtain ⟨hfits, hsame⟩ := fits_of_evaluate heval
      rw [← hsame]
      exact scope_performAll hfits m'

end Run

end Grimoire
