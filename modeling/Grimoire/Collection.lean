import Grimoire.Fault
import Grimoire.Store.Walk

/-!
# Collections

Operations on lists of values that the sequence statements and the array module share. Those that
compare, display or add values need the store in which the values live.
-/

namespace Grimoire

namespace Collection

/-! ## Reshaping -/

/-- Splices sequences in; other values pass through. Only one level is spliced. -/
def flattenOnce (s : Store) (items : List Value) : List Value :=
  items.flatMap fun
    | .sequence cell => s.items cell
    | v => [v]

/-- Cuts a list into pieces of a size; `done` holds the pieces cut, reversed. -/
def chunksFrom {α : Type} (size : Nat) (done : List (List α)) (items : List α) : List (List α) :=
  if items.isEmpty then done.reverse
  else chunksFrom size (items.take (size + 1) :: done) (items.drop (size + 1))
termination_by items.length
decreasing_by
  cases items with
  | nil => contradiction
  | cons v rest =>
    simp only [List.length_drop, List.length_cons]
    omega

/-- The pieces of a list that have `size` elements, at least one, and a last one with the rest. -/
def chunks {α : Type} (size : Int) (items : List α) : List (List α) :=
  chunksFrom ((max size 1).toNat - 1) [] items

/-- Puts each list into a fresh sequence. -/
def newSequences (s : Store) (lists : List (List Value)) : List Value × Store :=
  let (done, s) := lists.foldl (fun (done, s) items =>
    let (v, s) := s.newSequence items
    (v :: done, s)) ([], s)
  (done.reverse, s)

/-- The values without those that equal an earlier one. -/
def dedupe (s : Store) (items : List Value) : List Value :=
  (items.foldl (fun kept v => if kept.any fun w => s.equal w v then kept else v :: kept)
    []).reverse

/-! ## Spans -/

/-- The numbers from `first` to `last` by a step, both ends included. Without a step it is one
toward `last`. The length is settled first, so a step too small to move a number still ends. -/
def span (first last : Number) (step : Option Number) : Except RangeFault (List Number) :=
  let step := step.getD (if first ≤ last then 1 else -1)
  if !first.isFinite || !last.isFinite || !step.isFinite || step == 0 then
    .error (.cannotSpan first last step)
  else
    let steps := ((last - first) / step).floor
    if steps < 0 then .ok []
    else if steps ≥ Number.ofNat maxSpanLength then .error (.spanTooLong first last step)
    else .ok ((List.range (steps.truncate.toNat + 1)).map fun i => first + Number.ofNat i * step)

/-! ## Sums and extremes -/

/-- The sum of the values that are true. The sum of no values is negative zero. -/
def total (s : Store) (items : List Value) : Number :=
  items.foldl (fun sum v => sum + s.toAddend v) Number.negativeZero

/-- The mean; zero for no values. -/
def average (s : Store) (items : List Value) : Number :=
  if items.isEmpty then 0 else total s items / Number.ofNat items.length

/-- The largest or smallest number among values; NaN if any of them is NaN. -/
def extreme (s : Store) (largest : Bool) (user : Text) : List Value → Except RangeFault Number
  | [] => .error (.emptyArray user)
  | first :: rest => .ok (rest.foldl (fun best v =>
      let x := s.toNumber v
      if best.isNaN || x.isNaN then Number.nan
      else if (largest && best < x) || (!largest && x < best) then x
      else best) (s.toNumber first))

/-! ## Order -/

/-- The order of sorting: numbers first and by value, everything else by its display text. -/
def ascending (s : Store) : Value → Value → Ordering
  | .number x, .number y => compare x.orderKey y.orderKey
  | .number _, _ => .lt
  | _, .number _ => .gt
  | a, b => Text.compare (s.display a) (s.display b)

/-- Sorts in ascending or descending order; equal values keep their order either way. -/
def sort (s : Store) (descending : Bool) (items : List Value) : List Value :=
  items.mergeSort fun a b => (if descending then ascending s b a else ascending s a b) != .gt

/-! ## Searching -/

/-- The position of the first value equal to `needle`. -/
def position? (s : Store) (needle : Value) (items : List Value) : Option Nat :=
  items.findIdx? fun v => s.equal v needle

/-- Whether a string includes the display text of `needle`, or a sequence a value equal to it;
nothing else contains anything. -/
def contains (s : Store) (haystack needle : Value) : Bool :=
  match haystack with
  | .string text => Text.includes (s.display needle) text
  | .sequence cell => (s.items cell).any fun v => s.equal v needle
  | _ => false

/-- Whether a tome has the display text of `key` as a key; nothing else holds keys. -/
def holdsKey (s : Store) (container key : Value) : Bool :=
  match container with
  | .tome cell => (s.entries cell).hasKey (s.display key)
  | _ => false

/-! ## Tomes -/

/-- A sequence of two for each entry, in order. -/
def pairs (s : Store) (entries : Table Value) : List Value × Store :=
  newSequences s (entries.entries.map fun entry => [.string entry.1, entry.2])

/-- How often each display text occurs among values, in the order of the first occurrences. -/
def tally (s : Store) (items : List Value) : Table Value :=
  items.foldl (fun counts v =>
    let key := s.display v
    let seen := (counts.get? key).elim 0 s.toNumber
    counts.insert key (.number (seen + 1))) .empty

/-! ## Weights -/

/-- Adds weights up; a weight that is not at least zero is refused. -/
def sumWeights (sum : Number) : List Number → Except RangeFault Number
  | [] => .ok sum
  | weight :: rest =>
    if weight ≥ 0 then sumWeights (sum + weight) rest else .error (.negativeWeight weight)

/-- The sum of the weights of a draw, which may not be zero. -/
def totalWeight (weights : List Number) : Except RangeFault Number := do
  let total ← sumWeights 0 weights
  if total == 0 then .error .zeroWeights else .ok total

/-- The position of the first weight at which the running sum exceeds `target`. -/
def weightFrom (target sum : Number) (place : Nat) : List Number → Option Nat
  | [] => none
  | weight :: rest =>
    if target < sum + weight then some place
    else weightFrom target (sum + weight) (place + 1) rest

/-- The position that a roll between zero and one picks; the last when no running sum exceeds the
roll. -/
def weightedIndex (weights : List Number) (total roll : Number) : Nat :=
  (weightFrom (roll * total) 0 0 weights).getD (weights.length - 1)

end Collection

end Grimoire
