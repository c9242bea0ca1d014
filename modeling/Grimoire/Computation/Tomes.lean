import Grimoire.Operands

/-!
# Computations on tomes

Tomes that these computations give are fresh; the tomes they take stay as they are.
-/

namespace Grimoire

namespace Computation

/-- Whether the second operand holds the first as a key. -/
def keyHeld (g : Groups) : Eval Value := do
  let key ← g.value 1
  let container ← g.value 2
  return .boolean (Collection.holdsKey (← Work.store) container key)

/-- The keys of a tome. -/
def keysOf (g : Groups) : Eval Value := do
  Work.newSequence ((← g.entries 1 "Glyphs").keys.map .string)

/-- The values of a tome. -/
def valuesOf (g : Groups) : Eval Value := do
  Work.newSequence (← g.entries 1 "Essences").values

/-- The entries of a tome as arrays of two. -/
def pairsOf (g : Groups) : Eval Value := do
  let entries ← g.entries 1 "Pairs"
  Work.newSequence (← Work.build (Collection.pairs · entries))

/-- A copy that shares nothing with the operand. -/
def mirrored (g : Groups) : Eval Value := do
  let v ← g.value 1
  Work.build (·.mirror v)

/-- The keys that an operand lists. -/
def listedKeys (user : String) (g : Groups) : Eval (List Text) := do
  let items ← g.items 1 user
  return items.map (← Work.store).display

/-- The entries of an operand; anything but a tome has none. -/
def entriesOrNone (g : Groups) (slot : Nat) : Eval (Table Value) := do
  match ← g.value slot with
  | .tome cell => return (← Work.store).entries cell
  | _ => return .empty

/-- The entries under the listed keys, in the order of the list. -/
def picked (g : Groups) : Eval Value := do
  let keys ← listedKeys "Pick keys" g
  let entries ← entriesOrNone g 2
  Work.newTome (.ofList (keys.filterMap fun key => (entries.get? key).map (key, ·)))

/-- The entries under other keys than those listed. -/
def omitted (g : Groups) : Eval Value := do
  let keys ← listedKeys "Omit keys" g
  let entries ← entriesOrNone g 2
  Work.newTome (entries.filterKeys fun key => !keys.contains key)

/-- How often each element of an array occurs. -/
def tallied (g : Groups) : Eval Value := do
  let items ← g.items 1 "Tally"
  Work.newTome (Collection.tally (← Work.store) items)

end Computation

end Grimoire
