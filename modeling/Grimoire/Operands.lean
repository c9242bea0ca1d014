import Grimoire.Condition

/-!
# Operands

The operands of a statement are texts captured by its pattern. Here they are read as values,
numbers, display texts, arrays, tomes and dates.
-/

namespace Grimoire

namespace Eval

/-- The elements of a value that has to be an array, for `user`. -/
def itemsOf (user : String) (v : Value) : Eval (List Value) :=
  Work.elements user.toList v

/-- The entries of a value that has to be a tome, for `user`. -/
def entriesOf (user : String) : Value → Eval (Table Value)
  | .tome cell => do return (← Work.store).entries cell
  | v => failType (.expectedTome user.toList v.essence)

/-- A value that has to be a shape, for `user`. -/
def shapeOf (user : String) : Value → Eval Shape
  | .shape s => return s
  | v => failType (.expectedShape user.toList v.essence)

end Eval

namespace Groups

/-- The value of an operand. -/
def value (g : Groups) (slot : Nat) : Eval Value :=
  Eval.value (g.text slot)

/-- The number of an operand. -/
def number (g : Groups) (slot : Nat) : Eval Number :=
  Eval.number (g.text slot)

/-- The display text of an operand. -/
def display (g : Groups) (slot : Nat) : Eval Text :=
  Eval.display (g.text slot)

/-- The integer of an operand. -/
def integer (g : Groups) (slot : Nat) : Eval Int := do
  Work.toInt (← g.value slot)

/-- The elements of an operand that has to be an array. -/
def items (g : Groups) (slot : Nat) (user : String) : Eval (List Value) := do
  Eval.itemsOf user (← g.value slot)

/-- The entries of an operand that has to be a tome. -/
def entries (g : Groups) (slot : Nat) (user : String) : Eval (Table Value) := do
  Eval.entriesOf user (← g.value slot)

/-- The date of an operand. -/
def date (g : Groups) (slot : Nat) : Eval Timestamp := do
  Work.toTimestamp (← g.value slot)

/-- An operand that may be left out. -/
def ifPresent {α : Type} (g : Groups) (slot : Nat) (take : Groups → Nat → Eval α) :
    Eval (Option α) :=
  match g.get? slot with
  | none => return none
  | some _ => do return some (← take g slot)

end Groups

end Grimoire
