import Grimoire.Library.Standard
import Grimoire.Operands

/-!
# Computations on arrays

Arrays that these computations give are fresh; the arrays they take stay as they are.
-/

namespace Grimoire

namespace Computation

/-- A function of the elements of an array that gives a fresh array. -/
def onItems (user : String) (f : Store → List Value → List Value) (g : Groups) : Eval Value := do
  let items ← g.items 1 user
  Work.newSequence (f (← Work.store) items)

/-- The first elements of a shuffled copy. -/
def drawn (g : Groups) : Eval Value := do
  let items ← g.items 1 "DrawFrom"
  let count := (← g.integer 2).toNat
  Work.newSequence ((← Work.draw (Xorshift.shuffle items)).take count)

/-- The elements of two arrays. -/
def fused (g : Groups) : Eval Value := do
  let first ← g.items 1 "Fuse"
  Work.newSequence (first ++ (← g.items 2 "Fuse"))

/-- The elements of an array in arrays of a size. -/
def bundled (g : Groups) : Eval Value := do
  let items ← g.items 1 "Bundle"
  let chunks := Collection.chunks (← g.integer 2) items
  Work.newSequence (← Work.build (Collection.newSequences · chunks))

/-- The numbers from one to another. -/
def spanned (g : Groups) : Eval Value := do
  let first ← g.number 1
  let last ← g.number 2
  let step ← g.ifPresent 3 Groups.number
  Work.newSequence ((← Work.ofRange (Collection.span first last step)).map .number)

/-- The sum of an array. -/
def summed (g : Groups) : Eval Value := do
  let items ← g.items 1 "Sum"
  return .number (Collection.total (← Work.store) items)

/-- The mean of an array; zero for anything else. -/
def averaged (g : Groups) : Eval Value := do
  let v ← g.value 1
  let s ← Work.store
  match v with
  | .sequence cell => return .number (Collection.average s (s.items cell))
  | _ => return .number 0

/-- The smallest or the largest number of an array. -/
def extremeOf (largest : Bool) (user : String) (g : Groups) : Eval Value := do
  let items ← g.items 1 user
  let s ← Work.store
  return .number (← Work.ofRange (Collection.extreme s largest user.toList items))

/-- The place of the first operand in the second, and `-1` if it has none. -/
def sought (g : Groups) : Eval Value := do
  let needle ← g.value 1
  let haystack ← g.value 2
  let s ← Work.store
  let place : Option Nat ← match haystack with
    | .string text => pure (Text.find? (s.display needle) text)
    | .sequence cell => pure (Collection.position? s needle (s.items cell))
    | v => Eval.failType (.notSearchable v.essence)
  return .number (place.elim (-1) Number.ofNat)

/-- Some elements from one end of an array. -/
def taken (user : String) (f : Nat → List Value → List Value) (g : Groups) : Eval Value := do
  let count := (← g.integer 1).toNat
  Work.newSequence (f count (← g.items 2 user))

/-! ## Shapes -/

/-- The elements of an array and the shape to use on them. -/
def itemsAndShape (user : String) (g : Groups) : Eval (List Value × Shape) := do
  let items ← g.items 1 user
  return (items, ← Eval.shapeOf user (← g.value 2))

/-- The arguments for a shape that takes an element and, if it has room, its place. -/
def argumentsFor (s : Shape) (room : Nat) (args : List Value) (place : Nat) : List Value :=
  if room ≤ s.parameters.length then args ++ [.number (Number.ofNat place)] else args

/-- The value of a shape for each element. -/
def mapFrom (s : Shape) (place : Nat) : List Value → Eval (List Value)
  | [] => return []
  | v :: rest => do
    let image ← Eval.callShape s (argumentsFor s 2 [v] place)
    return image :: (← mapFrom s (place + 1) rest)

/-- The elements for which the value of a shape counts as true. -/
def filterFrom (s : Shape) (place : Nat) : List Value → Eval (List Value)
  | [] => return []
  | v :: rest => do
    let verdict ← Eval.callShape s (argumentsFor s 2 [v] place)
    let keep := (← Work.store).truthy verdict
    let more ← filterFrom s (place + 1) rest
    return if keep then v :: more else more

/-- The value of a shape for the result so far and each element in turn. -/
def foldFrom (s : Shape) (place : Nat) (result : Value) : List Value → Eval Value
  | [] => return result
  | v :: rest => do
    let result ← Eval.callShape s (argumentsFor s 3 [result, v] place)
    foldFrom s (place + 1) result rest

/-- An array with a shape applied to every element. -/
def morphed (g : Groups) : Eval Value := do
  let (items, s) ← itemsAndShape "Morph" g
  Work.newSequence (← mapFrom s 0 items)

/-- The elements of an array that a shape accepts. -/
def sifted (g : Groups) : Eval Value := do
  let (items, s) ← itemsAndShape "Sift" g
  Work.newSequence (← filterFrom s 0 items)

/-- An array folded with a shape, from a given start. -/
def distilled (g : Groups) : Eval Value := do
  let (items, s) ← itemsAndShape "Distill" g
  foldFrom s 0 (← g.value 3) items

/-! ## Chance -/

/-- One of the options listed. -/
def chosen (g : Groups) : Eval Value := do
  Library.pick .noOptions (← Eval.values (g.text 1))

/-- True with a given probability. -/
def flipped (g : Groups) : Eval Value := do
  let p ← g.number 1
  if 0 ≤ p ∧ p ≤ 1 then return .boolean ((← Work.draw Xorshift.nextUnit) < p)
  else Work.failRange (.flipProbability p)

/-- An element drawn by weight. -/
def weighed (g : Groups) : Eval Value := do
  let first ← g.value 1
  let second ← g.value 2
  let items ← Eval.itemsOf "WeightedDraw" first
  let weights ← Eval.itemsOf "WeightedDraw" second
  if items.length ≠ weights.length then
    Work.failRange (.weightCount items.length weights.length)
  else
    let s ← Work.store
    let weights := weights.map s.toNumber
    let total ← Work.ofRange (Collection.totalWeight weights)
    let roll ← Work.draw Xorshift.nextUnit
    return items.getD (Collection.weightedIndex weights total roll) .undefined

end Computation

end Grimoire
