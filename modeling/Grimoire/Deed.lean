import Grimoire.Deed.Basic
import Grimoire.Deed.Ink
import Grimoire.Effect
import Grimoire.Operands

/-!
# The effects of deeds

What each deed does once its operands are evaluated. A deed that edits a container in place first
makes sure that the operand does not name a sealed variable, and one that stores a value in a
container that the value does not hold the container.
-/

namespace Grimoire

namespace Deed

/-! ## Containers to edit -/

/-- Refuses an operand that is a path from a sealed name. -/
def refuseSealed (operand : Text) : Eval Unit := do
  let operand := operand.trim
  if operand.isPath && (← read).isSealed operand.pathRoot then
    Eval.fail (.sealedVariable operand.pathRoot)

/-- The cell of a value that has to be an array. -/
def arrayCell (user : String) : Value → Eval Nat
  | .sequence cell => return cell
  | v => Eval.failType (.expectedArray user.toList v.essence)

/-- The cell of a value that has to be a tome. -/
def tomeCell (user : String) : Value → Eval Nat
  | .tome cell => return cell
  | v => Eval.failType (.expectedTome user.toList v.essence)

/-- The cell of the array that a variable holds. The name may not be sealed. -/
def namedCell (user : String) (name : Text) : Eval Nat := do
  let scope ← read
  if scope.isSealed name then Eval.fail (.sealedVariable name)
  else match scope.lookup? name with
    | some (.sequence cell) => return cell
    | _ => Eval.failType (.notAnArray user.toList name)

/-- Refuses to store a value in a container that it is or holds. -/
def refuseCycle (user : String) (v container : Value) : Eval Unit := do
  if (← Work.store).holds v container then
    Eval.failType (.insideItself user.toList container.essence)

/-- Replaces the elements of the array that an operand denotes. -/
def editItems (user : String) (g : Groups) (edit : List Value → Eval (List Value)) :
    Eval (List Effect) := do
  refuseSealed (g.text 1)
  let cell ← arrayCell user (← g.value 1)
  return [.setItems cell (← edit ((← Work.store).items cell))]

/-! ## Deeds one by one -/

/-- Binds a path. -/
def pathSet (g : Groups) : Eval (List Effect) := do
  let v ← g.value 2
  match Text.splitOn '.' (g.text 1) with
  | root :: step :: steps => return [.bindPath root (step :: steps) v]
  | _ => return [.bind (g.text 1) v]

/-- Puts a value in front of the array of a name. -/
def boundInFront (g : Groups) : Eval (List Effect) := do
  let v ← g.value 1
  let cell ← namedCell "BindFront" (g.text 2)
  refuseCycle "BindFront" v (.sequence cell)
  return [.setItems cell (v :: (← Work.store).items cell)]

/-- Moves the first element of the array of a name to another name. -/
def firstPlucked (g : Groups) : Eval (List Effect) := do
  let cell ← namedCell "PluckFirst" (g.text 1)
  match (← Work.store).items cell with
  | [] => return [.bind (g.text 2) .undefined]
  | head :: rest => return [.setItems cell rest, .bind (g.text 2) head]

/-- Puts a value in every place of the array of a name. -/
def flooded (g : Groups) : Eval (List Effect) := do
  let v ← g.value 2
  let cell ← namedCell "Flood" (g.text 1)
  refuseCycle "Flood" v (.sequence cell)
  return [.setItems cell (((← Work.store).items cell).map fun _ => v)]

/-- Sorts an array. -/
def sorted (g : Groups) : Eval (List Effect) :=
  editItems "Sort" g fun items => do
    let descending := (g.text 2).map Char.toLower = "descending".toList
    return Collection.sort (← Work.store) descending items

/-- Removes a key from a tome. -/
def keyPlucked (g : Groups) : Eval (List Effect) := do
  refuseSealed (g.text 2)
  let key ← g.display 1
  let cell ← tomeCell "Pluck key" (← g.value 2)
  return [.setEntries cell (((← Work.store).entries cell).erase key)]

/-- Renames a key of a tome. -/
def rebranded (g : Groups) : Eval (List Effect) := do
  refuseSealed (g.text 3)
  let old ← g.display 1
  let new ← g.display 2
  let cell ← tomeCell "Rebrand" (← g.value 3)
  return [.setEntries cell (((← Work.store).entries cell).rebrand old new)]

/-- Copies the entries of a tome into another; a tome is not copied into itself. -/
def melded (g : Groups) : Eval (List Effect) := do
  refuseSealed (g.text 2)
  let source ← tomeCell "Meld" (← g.value 1)
  let cell ← tomeCell "Meld" (← g.value 2)
  if source = cell then return []
  else
    refuseCycle "Meld" (.tome source) (.tome cell)
    let s ← Work.store
    return [.setEntries cell ((s.entries source).meld (s.entries cell))]

/-- The effects of a deed with given operands. -/
def effects : Deed → Groups → Eval (List Effect)
  | setPath, g => pathSet g
  | sealName, g => do return [.bindSealed (g.text 1) (← g.value 2)]
  | reveal, g => do return [.ask (.reveal (← Ink.shownAll (Ink.pieces (g.text 1))))]
  | summon, g => return [.summon (g.text 1) (g.get? 2)]
  | stir, g => editItems "Stir" g fun items => Work.draw (Xorshift.shuffle items)
  | bindFront, g => boundInFront g
  | pluckFirst, g => firstPlucked g
  | flood, g => flooded g
  | sort, g => sorted g
  | reverse, g => editItems "Reverse" g fun items => return items.reverse
  | pluckKey, g => keyPlucked g
  | rebrand, g => rebranded g
  | meld, g => melded g
  | scribe, g => do return [.ask (.save (← g.display 1) (g.text 2))]
  | imprint, g => do return [.ask (.copy (← g.display 1))]

end Deed

end Grimoire
