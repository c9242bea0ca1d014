import Grimoire.Proofs.Dispatch
import Grimoire.Proofs.Guards

/-!
# Containers edited in place

A deed that edits what an operand denotes looks first whether the operand is a path from a sealed
name. If so, it fails before anything is evaluated and the machine stays as it is. Otherwise the
operands are evaluated, and the new contents go into the container that the last of them denotes.
-/

namespace Grimoire

/-- Whether an operand is a path from a sealed name. -/
def Scope.guards (scope : Scope) (operand : Text) : Bool :=
  operand.trim.isPath && scope.isSealed operand.trim.pathRoot

namespace Run

variable {σ α : Type} {m m₁ m₂ : Machine σ} {line operand : Text} {g : Groups} {cell : Nat}

/-- Nothing is evaluated on behalf of a path from a sealed name. -/
theorem run_refuseSealed_bind (operand : Text) (f : Unit → Eval α) (m : Machine σ) :
    (evaluate (Deed.refuseSealed operand >>= f)).run.run m =
      if m.scope.guards operand then
        (.error { fault := .sealedVariable operand.trim.pathRoot }, m)
      else (evaluate (f ())).run.run m := by
  have hcheck : (evaluate (Deed.refuseSealed operand) : Run σ Unit).run.run m =
      (evaluate (if m.scope.guards operand then
        Eval.fail (.sealedVariable operand.trim.pathRoot) else pure ()) : Run σ Unit).run.run m :=
    rfl
  rw [evaluate_bind, run_bind, hcheck]
  cases m.scope.guards operand with
  | true => rfl
  | false => rfl

/-- The operand that a deed edits in place is looked at before anything else. -/
theorem run_effects_of_guarded {d : Deed} {e : Eval Value}
    (hedited : d.edited? g = some (operand, e)) (hguarded : m.scope.guards operand = true) :
    (evaluate (d.effects g)).run.run m =
      (.error { fault := .sealedVariable operand.trim.pathRoot }, m) := by
  cases d <;> cases hedited
  case stir | sort | reverse =>
    show (evaluate (Deed.refuseSealed (g.text 1) >>= _)).run.run m = _
    rw [run_refuseSealed_bind, if_pos hguarded]
  case pluckKey | meld =>
    show (evaluate (Deed.refuseSealed (g.text 2) >>= _)).run.run m = _
    rw [run_refuseSealed_bind, if_pos hguarded]
  case rebrand =>
    show (evaluate (Deed.refuseSealed (g.text 3) >>= _)).run.run m = _
    rw [run_refuseSealed_bind, if_pos hguarded]

/-- The elements that an array has when it is evaluated are edited. -/
theorem run_editItems {user : String} {edit : List Value → Eval (List Value)} {items : List Value}
    (hopen : m.scope.guards (g.text 1) = false)
    (hvalue : (evaluate (g.value 1)).run.run m = (.ok (.sequence cell), m₁))
    (hedit : (evaluate (edit (m₁.store.items cell))).run.run m₁ = (.ok items, m₂)) :
    (evaluate (Deed.editItems user g edit)).run.run m = (.ok [.setItems cell items], m₂) := by
  rw [Deed.editItems, run_refuseSealed_bind, hopen]
  show (evaluate (g.value 1 >>= _)).run.run m = _
  rw [run_evaluate_bind_of_ok hvalue]
  show (evaluate (edit (m₁.store.items cell) >>= fun items =>
    pure [Effect.setItems cell items])).run.run m₁ = _
  rw [run_evaluate_bind_of_ok hedit]
  rfl

variable [Host σ]

/-- A statement that edits what a path from a sealed name denotes leaves the machine as it is. -/
theorem run_statement_of_guarded {d : Deed} {e : Eval Value}
    (hedited : d.edited? g = some (operand, e)) (hidle : line.isIdle = false)
    (hform : Form.find? line = some (.deed d, g)) (hguarded : m.scope.guards operand = true) :
    (statement line).run.run m =
      (.error { fault := .sealedVariable operand.trim.pathRoot }, m) := by
  rw [run_statement hidle hform, Form.effects, run_effects_of_guarded hedited hguarded]

/-- A statement that comes to one effect performs it. -/
theorem run_statement_of_effect {form : Form} {effect : Effect} (hidle : line.isIdle = false)
    (hform : Form.find? line = some (form, g))
    (heffect : (evaluate (form.effects g)).run.run m = (.ok [effect], m₁)) :
    (statement line).run.run m = (perform effect).run.run m₁ := by
  rw [run_statement hidle hform, heffect]
  show (performAll [effect]).run.run m₁ = _
  rw [performAll_singleton]

/-- A statement of a computation binds the value that it comes to. -/
theorem run_statement_of_value {c : Computation} {v : Value} (hidle : line.isIdle = false)
    (hform : Form.find? line = some (.computation c, g))
    (hvalue : (evaluate (c.value g)).run.run m = (.ok v, m₁)) :
    (statement line).run.run m = (bindName (g.text c.target) v).run.run m₁ := by
  show _ = (perform (.bind (g.text c.target) v)).run.run m₁
  apply run_statement_of_effect hidle hform
  rw [Form.effects, run_evaluate_bind_of_ok hvalue]
  rfl

end Run

end Grimoire
