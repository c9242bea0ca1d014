import Grimoire.Proofs.Purity
import Grimoire.Proofs.Seals

/-!
# What a refused line leaves behind

A line that fails for a seal has evaluated its operands, which leaves no trace, and is refused at its
first effect, so it leaves the machine as it was. There is one exception: a line that moves the first
element of an array to a sealed name has taken the element away before the name is refused.
-/

namespace Grimoire

variable {σ : Type}

/-! ## The exception -/

/-- The cell of the array that a name holds, if the name is not sealed. -/
def Scope.openArray? (scope : Scope) (name : Text) : Option Nat :=
  if scope.isSealed name then none
  else match scope.lookup? name with
    | some (.sequence cell) => some cell
    | _ => none

/-- The array that a statement would take the first element from, and the elements that it would
leave there. -/
def Form.plucked? (scope : Scope) (s : Store) : Form → Groups → Option (Nat × List Value)
  | deed .pluckFirst, g =>
    (scope.openArray? (g.text 1)).bind fun cell => match s.items cell with
      | [] => none
      | _ :: rest => some (cell, rest)
  | _, _ => none

/-- The array that a line would take the first element from, and the elements that it would leave
there. -/
def Machine.plucked? (m : Machine σ) (line : Text) : Option (Nat × List Value) :=
  if line.isIdle then none
  else (Form.find? line).bind fun found => found.1.plucked? m.scope m.store found.2

namespace Store

/-- A sequence with elements exists. -/
theorem has_of_items_eq_cons {s : Store} {cell : Nat} {head : Value} {rest : List Value}
    (h : s.items cell = head :: rest) : s.Has (.sequence cell) := by
  by_contra hmissing
  have hnone : s.items cell = [] := by
    have hcell : ¬ cell < s.sequences.size := hmissing
    simp [items, Array.getElem?_eq_none (Nat.le_of_not_lt hcell)]
  rw [hnone] at h
  cases h

theorem items_setItems {s : Store} {cell : Nat} {items : List Value} (h : s.Has (.sequence cell)) :
    (s.setItems cell items).items cell = items := by
  have hcell : cell < s.sequences.size := h
  simp [Store.items, setItems, hcell]

/-- A sequence that has lost its first element is not what it was. -/
theorem not_extends_setItems {s : Store} {cell : Nat} {head : Value} {rest : List Value}
    (h : s.items cell = head :: rest) : ¬ s.Extends (s.setItems cell rest) := by
  intro hextends
  have hhas := has_of_items_eq_cons h
  have hsame : (s.setItems cell rest).items cell = s.items cell := hextends.contents hhas
  rw [items_setItems hhas, h] at hsame
  have hlength := congrArg List.length hsame
  simp at hlength

end Store

namespace Deed

theorem run_namedCell_of_some {user : String} {name : Text} {scope : Scope} {cell : Nat}
    (h : scope.openArray? name = some cell) (r : Resources) :
    ((namedCell user name).run scope).run.run r = (.ok cell, r) := by
  unfold Scope.openArray? at h
  split at h
  · cases h
  · next hopen =>
    split at h
    · next hlookup =>
      obtain rfl := Option.some.inj h
      show ((if scope.isSealed name then Eval.fail (.sealedVariable name)
        else match scope.lookup? name with
          | some (.sequence cell) => return cell
          | _ => Eval.failType (.notAnArray user.toList name) : Eval Nat).run scope).run.run r = _
      rw [if_neg hopen, hlookup]
      rfl
    · cases h

theorem run_namedCell_of_none (user : String) {name : Text} {scope : Scope}
    (h : scope.openArray? name = none) (r : Resources) :
    ∃ fault, ((namedCell user name).run scope).run.run r = (.error fault, r) := by
  show ∃ fault, ((if scope.isSealed name then Eval.fail (.sealedVariable name)
    else match scope.lookup? name with
      | some (.sequence cell) => return cell
      | _ => Eval.failType (.notAnArray user.toList name) : Eval Nat).run scope).run.run r = _
  unfold Scope.openArray? at h
  split
  · exact ⟨_, rfl⟩
  · next hopen =>
    rw [if_neg hopen] at h
    split at h
    · cases h
    · exact ⟨_, rfl⟩

theorem run_firstPlucked_of_some {g : Groups} {scope : Scope} {cell : Nat}
    (h : scope.openArray? (g.text 1) = some cell) (r : Resources) :
    ((firstPlucked g).run scope).run.run r =
      (.ok (match r.store.items cell with
        | [] => [.bind (g.text 2) .undefined]
        | head :: rest => [.setItems cell rest, .bind (g.text 2) head]), r) := by
  have hrun : ((firstPlucked g).run scope).run.run r = _ :=
    run_bind ((namedCell "PluckFirst" (g.text 1)).run scope) _ r
  rw [hrun, run_namedCell_of_some h]
  show ((match r.store.items cell with
    | [] => return [.bind (g.text 2) .undefined]
    | head :: rest => return [.setItems cell rest, .bind (g.text 2) head] :
      Eval (List Effect)).run scope).run.run r = _
  cases r.store.items cell with
  | nil => rfl
  | cons head rest => rfl

theorem run_firstPlucked_of_none {g : Groups} {scope : Scope}
    (h : scope.openArray? (g.text 1) = none) (r : Resources) :
    ∃ fault, ((firstPlucked g).run scope).run.run r = (.error fault, r) := by
  have hrun : ((firstPlucked g).run scope).run.run r = _ :=
    run_bind ((namedCell "PluckFirst" (g.text 1)).run scope) _ r
  obtain ⟨fault, hfault⟩ := run_namedCell_of_none "PluckFirst" h r
  rw [hrun, hfault]
  exact ⟨fault, rfl⟩

/-- What is plucked is what the deed would pluck, and then the resources are as they were. -/
theorem plucked?_of_run {g : Groups} {scope : Scope} {r r' : Resources} {cell : Nat} {head : Value}
    {rest : List Value} (h : ((firstPlucked g).run scope).run.run r =
      (.ok [.setItems cell rest, .bind (g.text 2) head], r')) :
    (Form.deed .pluckFirst).plucked? scope r.store g = some (cell, rest) := by
  cases hopen : scope.openArray? (g.text 1) with
  | none =>
    obtain ⟨fault, hfault⟩ := run_firstPlucked_of_none hopen r
    rw [hfault] at h
    cases h
  | some other =>
    rw [run_firstPlucked_of_some hopen] at h
    rw [Form.plucked?, hopen, Option.bind_some]
    cases hitems : r.store.items other with
    | nil =>
      rw [hitems] at h
      cases h
    | cons first others =>
      rw [hitems] at h
      cases h
      rfl

/-- What the deed would pluck it plucks. -/
theorem run_of_plucked? {g : Groups} {scope : Scope} {r : Resources} {cell : Nat}
    {rest : List Value}
    (h : (Form.deed .pluckFirst).plucked? scope r.store g = some (cell, rest)) :
    ∃ head, r.store.items cell = head :: rest ∧ ((firstPlucked g).run scope).run.run r =
      (.ok [.setItems cell rest, .bind (g.text 2) head], r) := by
  rw [Form.plucked?, Option.bind_eq_some_iff] at h
  obtain ⟨other, hopen, hitems⟩ := h
  rw [run_firstPlucked_of_some hopen]
  split at hitems
  · cases hitems
  · next head others hcons =>
    cases hitems
    exact ⟨head, hcons, rfl⟩

end Deed

/-! ## Refused lines -/

namespace Run

variable [Host σ] {m : Machine σ}

/-- Effects that are no plucking and fail for a seal are refused before anything is changed. -/
theorem run_performAll_of_isOfSeals {form : Form} {g : Groups} {effects : List Effect}
    (hfits : form.Fits g effects) {failure : Failure}
    (hfailure : ((performAll effects).run.run m).1 = .error failure)
    (hseals : failure.fault.isOfSeals = true) :
    ((performAll effects).run.run m).2 = m ∨
      ∃ cell head rest, form = .deed .pluckFirst ∧
        effects = [.setItems cell rest, .bind (g.text 2) head] ∧
        ((performAll effects).run.run m).2 = m.withStore (m.store.setItems cell rest) := by
  have hrefused : ∀ (effect : Effect) (m : Machine σ),
      ((perform effect).run.run m).1 = .error failure → ((perform effect).run.run m).2 = m := by
    intro effect m hperform
    cases hrefusal : effect.refusal? m.scope with
    | some fault => rw [run_perform_of_refusal hrefusal]
    | none =>
      have hunsealed := (changing_perform hrefusal .kept).failure failure hperform
      rw [Failure.Unsealed, hseals] at hunsealed
      cases hunsealed
  cases hfits with
  | nothing _ => cases hfailure
  | one _ _ =>
    rw [performAll_singleton] at hfailure ⊢
    exact Or.inl (hrefused _ m hfailure)
  | plucked hform cell head rest =>
    rw [run_performAll_plucked] at hfailure ⊢
    exact Or.inr ⟨cell, head, rest, hform, rfl, hrefused (.bind (g.text 2) head) _ hfailure⟩

end Run

namespace Machine

variable [Host σ] {m : Machine σ} {line : Text}

/-- The exception: what has been plucked is gone. -/
theorem run_statement_of_plucked {failure : Failure} {cell : Nat} {rest : List Value}
    (hplucked : m.plucked? line = some (cell, rest))
    (hfailure : ((Run.statement line).run.run m).1 = .error failure) :
    ((Run.statement line).run.run m).2 = m.withStore (m.store.setItems cell rest) ∧
      ¬ m.Retains ((Run.statement line).run.run m).2 := by
  obtain ⟨g, hidle, hform, hfound⟩ : ∃ g, line.isIdle = false ∧
      Form.find? line = some (.deed .pluckFirst, g) ∧
      (Form.deed .pluckFirst).plucked? m.scope m.store g = some (cell, rest) := by
    unfold plucked? at hplucked
    split at hplucked
    · cases hplucked
    · next hidle =>
      obtain ⟨⟨form, g⟩, hform, hfound⟩ := Option.bind_eq_some_iff.1 hplucked
      have hdeed : form = .deed .pluckFirst := by
        unfold Form.plucked? at hfound
        split at hfound
        · next hdeed => exact hdeed
        · cases hfound
      subst hdeed
      exact ⟨g, Bool.eq_false_iff.2 hidle, hform, hfound⟩
  obtain ⟨head, hitems, hrun⟩ := Deed.run_of_plucked? hfound
  have heval : (Run.evaluate ((Form.deed .pluckFirst).effects g)).run.run m =
      (.ok [.setItems cell rest, .bind (g.text 2) head], m) := Run.run_evaluate_of_ok hrun
  have hleft : ((Run.statement line).run.run m).2 = m.withStore (m.store.setItems cell rest) := by
    rw [Run.run_statement hidle hform, heval] at hfailure ⊢
    dsimp only at hfailure ⊢
    rw [Run.run_performAll_plucked] at hfailure ⊢
    -- the name is sealed, for otherwise it would have been bound
    cases hname : (m.withStore (m.store.setItems cell rest)).scope.isSealed (g.text 2) with
    | true => rw [Run.run_bindName_of_isSealed hname]
    | false =>
      rw [Run.run_bindName_of_open hname] at hfailure
      cases hfailure
  refine ⟨hleft, ?_⟩
  intro hretains
  rw [hleft] at hretains
  exact Store.not_extends_setItems hitems hretains.grows.store

/-- A line that fails for a seal and plucks nothing leaves the machine as it was. -/
theorem retains_of_isOfSeals (hm : m.Grounded) {failure : Failure}
    (hplucked : m.plucked? line = none)
    (hfailure : ((Run.statement line).run.run m).1 = .error failure)
    (hseals : failure.fault.isOfSeals = true) :
    m.Retains ((Run.statement line).run.run m).2 := by
  rcases Run.form_cases line with hformless | ⟨form, g, hidle, hform⟩
  · rw [Run.run_statement_of_formless hformless]
    exact .refl m
  · have hnone : form.plucked? m.scope m.store g = none := by
      rw [plucked?, hidle, hform] at hplucked
      exact hplucked
    have hgrown : m.Retains ((Run.evaluate (form.effects g)).run.run m).2 :=
      Run.retains_evaluate hm.admits form.yields_effects
    rw [Run.run_statement hidle hform] at hfailure ⊢
    rcases heval : (Run.evaluate (form.effects g)).run.run m with ⟨failure' | effects, m₁⟩
    · rw [heval] at hgrown
      exact hgrown
    · rw [heval] at hgrown hfailure
      obtain ⟨hfits, -⟩ := Run.fits_of_evaluate heval
      rcases Run.run_performAll_of_isOfSeals hfits hfailure hseals with
        hsame | ⟨cell, head, rest, rfl, rfl, -⟩
      · show m.Retains ((Run.performAll effects).run.run m₁).2
        rw [hsame]
        exact hgrown
      · obtain ⟨r, hrun, -⟩ := Run.exists_of_run_evaluate heval
        have hfound := Deed.plucked?_of_run hrun
        rw [show m.resources.store = m.store from rfl, hnone] at hfound
        cases hfound

/-- Whatever calls have been made on a fresh machine, a line that fails for a seal leaves the machine
as it was, unless it plucks the first element of an array for a sealed name. Then the array has lost
the element, and nothing else is changed. -/
theorem refused_or_plucked {config : Config} {clock : Clock} {host : σ} {calls : List Call}
    (hm : m = afterCalls config clock host calls) {failure : Failure}
    (hfailure : ((Run.statement line).run.run m).1 = .error failure)
    (hseals : failure.fault.isOfSeals = true) :
    match m.plucked? line with
    | none => m.Retains ((Run.statement line).run.run m).2
    | some (cell, rest) =>
      ((Run.statement line).run.run m).2 = m.withStore (m.store.setItems cell rest) ∧
        ¬ m.Retains ((Run.statement line).run.run m).2 := by
  have hgrounded : m.Grounded := by
    rw [hm]
    exact grounded_afterCalls config clock host calls
  cases hplucked : m.plucked? line with
  | none => exact retains_of_isOfSeals hgrounded hplucked hfailure hseals
  | some found => exact run_statement_of_plucked hplucked hfailure

/-- A machine with an array of two letters and a sealed name. -/
def sealedBesideLetters : Machine Transcript :=
  afterCalls {} default {}
    [.execute "xs is [\"a\", \"b\"] ok".toList, .execute "Seal hp is \"full\" ok".toList]

theorem refused_or_plucked_sealedBesideLetters :
    ((Run.statement "PluckFirst from xs into hp ok".toList).run.run sealedBesideLetters).1 =
        .error { fault := .sealedVariable "hp".toList } ∧
      ((Run.statement "PluckFirst from xs into hp ok".toList).run.run sealedBesideLetters).2 =
        sealedBesideLetters.withStore
          (sealedBesideLetters.store.setItems 0 [.string "b".toList]) ∧
      ¬ sealedBesideLetters.Retains
        ((Run.statement "PluckFirst from xs into hp ok".toList).run.run sealedBesideLetters).2 := by
  have hfailure : ((Run.statement "PluckFirst from xs into hp ok".toList).run.run
      sealedBesideLetters).1 = .error { fault := .sealedVariable "hp".toList } := by
    decide +kernel
  have hplucked : sealedBesideLetters.plucked? "PluckFirst from xs into hp ok".toList =
      some (0, [.string "b".toList]) := by decide +kernel
  have hleft := refused_or_plucked (m := sealedBesideLetters) rfl hfailure rfl
  rw [hplucked] at hleft
  exact ⟨hfailure, hleft⟩

end Machine

end Grimoire
