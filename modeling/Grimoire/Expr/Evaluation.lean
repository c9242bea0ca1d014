import Grimoire.Expr.Reader
import Grimoire.Scope

/-!
# Evaluation of expressions

The value of an expression in a scope. Parts are evaluated from left to right and each once; the
first that fails ends the evaluation.
-/

namespace Grimoire

/-! ## Operators -/

/-- Whether a plus sign beside the value joins texts. -/
def Value.isTextual : Value → Bool
  | .string _ | .sequence _ | .tome _ | .timestamp _ | .shape _ | .module _ => true
  | .number _ | .boolean _ | .undefined => false

/-- The result of an operator on numbers. -/
def Operator.apply (op : Operator) (x y : Number) : Number :=
  match op with
  | .add => x + y
  | .subtract => x - y
  | .multiply => x * y
  | .divide => x / y
  | .remainder => x.remainder y

/-- The result of an operator: the joined display texts for a plus sign beside a textual value, and
a number otherwise. -/
def Store.applyOperator (s : Store) (left : Value) (op : Operator) (right : Value) : Value :=
  if op = .add ∧ (left.isTextual ∨ right.isTextual) then
    .string (s.display left ++ s.display right)
  else .number (op.apply (s.toNumber left) (s.toNumber right))

/-! ## Evaluation -/

namespace Expr

mutual

/-- The value of an expression. -/
def eval : Expr → Eval Value
  | text body => return .string body
  | boolean b => return .boolean b
  | number x => return .number x
  | sequence items => do Work.newSequence (← evalAll items)
  | tome entries => do Work.newTome (.ofList (← evalEntries entries))
  | invoke name function args => do Eval.callLibrary name function (← evalAll args)
  | path root steps => do return (← read).follow (← Work.store) root steps
  | shape s => return .shape s
  | malformed fault => Eval.fail (.unreadable fault)
  | binary left op right => do
    let a ← eval left
    let b ← eval right
    return (← Work.store).applyOperator a op b

/-- The values of several expressions. -/
def evalAll : List Expr → Eval (List Value)
  | [] => return []
  | e :: rest => do
    let v ← eval e
    return v :: (← evalAll rest)

/-- The values of the entries of a tome. -/
def evalEntries : List (Text × Expr) → Eval (List (Text × Value))
  | [] => return []
  | (key, e) :: rest => do
    let v ← eval e
    return (key, v) :: (← evalEntries rest)

end

end Expr

namespace Eval

/-- The value that a text denotes. -/
def value (s : Text) : Eval Value :=
  (Expr.ofText s).eval

/-- The values that the pieces between top-level commas denote. -/
def values (s : Text) : Eval (List Value) :=
  Expr.evalAll (Expr.listOfText s)

/-- The number that a text denotes. -/
def number (s : Text) : Eval Number := do
  Work.toNumber (← value s)

/-- The display text of the value that a text denotes. -/
def display (s : Text) : Eval Text := do
  Work.display (← value s)

end Eval

end Grimoire
