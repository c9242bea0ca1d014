import Grimoire.Library.Basic

/-!
# The standard libraries

Five libraries: clock and calendar, JSON, chance, arrays and tomes. None of them changes a sequence
or a tome that exists; results are fresh.
-/

namespace Grimoire

namespace Library

/-- The argument at a place; absent arguments are undefined. -/
def argument (args : List Value) (place : Nat) : Value :=
  args.getD place .undefined

/-! ## Clock and calendar -/

/-- A function of a timestamp that gives a timestamp. -/
def onTimestamp (f : Timestamp → Timestamp) (args : List Value) : Work Value := do
  return .timestamp (f (← Work.toTimestamp (argument args 0)))

/-- A function of two timestamps that gives a number. -/
def onTimestamps (f : Timestamp → Timestamp → Number) (args : List Value) : Work Value := do
  let a ← Work.toTimestamp (argument args 0)
  let b ← Work.toTimestamp (argument args 1)
  return .number (f a b)

/-- A function that shifts a timestamp. -/
def shifting (f : Timestamp → Number → Work Timestamp) (args : List Value) : Work Value := do
  let t ← Work.toTimestamp (argument args 0)
  return .timestamp (← f t (← Work.toNumber (argument args 1)))

/-- Writes a timestamp under a pattern. -/
def timeFormat (args : List Value) : Work Value := do
  let t ← Work.toTimestamp (argument args 0)
  return .string (t.format (← Work.display (argument args 1)))

/-- Reads a timestamp under a pattern. -/
def timeParse (args : List Value) : Work Value := do
  let text ← Work.display (argument args 0)
  return .timestamp (← Work.parseTime text (← Work.display (argument args 1)))

/-- The library of the clock and the calendar. -/
def time : Library where
  path := "std/time".toList
  functions :=
    [⟨"now".toList, .exactly 0, fun _ => do return .timestamp (← get).clock.localTime⟩,
      ⟨"format".toList, .exactly 2, timeFormat⟩,
      ⟨"parse".toList, .exactly 2, timeParse⟩,
      ⟨"addDays".toList, .exactly 2, shifting Work.addDays⟩,
      ⟨"addHours".toList, .exactly 2, shifting Work.addHours⟩,
      ⟨"diffDays".toList, .exactly 2, onTimestamps Timestamp.diffDays⟩,
      ⟨"diffSeconds".toList, .exactly 2, onTimestamps Timestamp.diffSeconds⟩,
      ⟨"startOfDay".toList, .exactly 1, onTimestamp Timestamp.startOfDay⟩,
      ⟨"endOfDay".toList, .exactly 1, onTimestamp Timestamp.endOfDay⟩]

/-! ## JSON -/

/-- The library of JSON texts. -/
def json : Library where
  path := "std/json".toList
  functions :=
    [⟨"encode".toList, .exactly 1, fun args => do
        return .string (← Work.encode (argument args 0))⟩,
      ⟨"decode".toList, .exactly 1, fun args => do
        Work.decode (← Work.display (argument args 0))⟩]

/-! ## Chance -/

/-- The two bounds among the arguments, the smaller first. -/
def bounds (args : List Value) : Work (Number × Number) := do
  let a ← Work.toNumber (argument args 0)
  let b ← Work.toNumber (argument args 1)
  return (a.smaller b, a.larger b)

/-- Starts the random stream anew and gives the seed. -/
def randomSeed (args : List Value) : Work Value := do
  let seed := Xorshift.seedOfNumber (← Work.toNumber (argument args 0))
  Work.reseed seed
  return .number (Number.ofNat seed.toNat)

/-- A number between two bounds. -/
def randomFloat (args : List Value) : Work Value := do
  let (lo, hi) ← bounds args
  return .number ((← Work.draw Xorshift.nextUnit) * (hi - lo) + lo)

/-- A whole step between two bounds, both included. -/
def randomInt (args : List Value) : Work Value := do
  let (lo, hi) ← bounds args
  return .number (((← Work.draw Xorshift.nextUnit) * (hi - lo + 1)).floor + lo)

/-- True with a given probability. -/
def randomBernoulli (args : List Value) : Work Value := do
  let p ← Work.toNumber (argument args 0)
  if 0 ≤ p ∧ p ≤ 1 then return .boolean ((← Work.draw Xorshift.nextUnit) < p)
  else Work.failRange (.bernoulliProbability p)

/-- One of a pool of values; `refusal` is the fault of an empty pool. -/
def pick (refusal : RangeFault) (pool : List Value) : Work Value :=
  if pool.isEmpty then Work.failRange refusal
  else do return pool.getD (← Work.draw (Xorshift.nextIndex pool.length)) .undefined

/-- One of the elements of a lone array, or else one of the arguments. -/
def randomChoice : List Value → Work Value
  | [.sequence cell] => do pick .emptyPool ((← Work.store).items cell)
  | args => pick .emptyPool args

/-- A shuffled copy. -/
def randomShuffle (args : List Value) : Work Value := do
  let items ← Work.elements "random.shuffle".toList (argument args 0)
  Work.newSequence (← Work.draw (Xorshift.shuffle items))

/-- The first elements of a shuffled copy. -/
def randomSample (args : List Value) : Work Value := do
  let items ← Work.elements "random.sample".toList (argument args 0)
  let shuffled ← Work.draw (Xorshift.shuffle items)
  let count := (← Work.toInt (argument args 1)).toNat
  Work.newSequence (shuffled.take count)

/-- The library of chance. -/
def random : Library where
  path := "std/random".toList
  functions :=
    [⟨"seed".toList, .exactly 1, randomSeed⟩,
      ⟨"float".toList, .exactly 2, randomFloat⟩,
      ⟨"int".toList, .exactly 2, randomInt⟩,
      ⟨"bernoulli".toList, .exactly 1, randomBernoulli⟩,
      ⟨"choice".toList, .between 0 none, randomChoice⟩,
      ⟨"shuffle".toList, .exactly 1, randomShuffle⟩,
      ⟨"sample".toList, .exactly 2, randomSample⟩]

/-! ## Arrays -/

/-- A function of an array that gives a fresh array. -/
def onArray (user : Text) (f : Store → List Value → List Value) (args : List Value) :
    Work Value := do
  let items ← Work.elements user (argument args 0)
  Work.newSequence (f (← Work.store) items)

/-- A function of an array that gives a number. -/
def measuring (user : Text) (f : Store → List Value → Except RangeFault Number)
    (args : List Value) : Work Value := do
  let items ← Work.elements user (argument args 0)
  return .number (← Work.ofRange (f (← Work.store) items))

/-- The pieces of an array. -/
def arrayChunk (args : List Value) : Work Value := do
  let items ← Work.elements "array.chunk".toList (argument args 0)
  let size ← Work.toInt (argument args 1)
  let pieces ← Work.build (Collection.newSequences · (Collection.chunks size items))
  Work.newSequence pieces

/-- Two arrays one after the other. -/
def arrayConcat (args : List Value) : Work Value := do
  let first ← Work.elements "array.concat".toList (argument args 0)
  let second ← Work.elements "array.concat".toList (argument args 1)
  Work.newSequence (first ++ second)

/-- The library of arrays. -/
def array : Library where
  path := "std/array".toList
  functions :=
    [⟨"chunk".toList, .exactly 2, arrayChunk⟩,
      ⟨"flatten".toList, .exactly 1, onArray "array.flatten".toList Collection.flattenOnce⟩,
      ⟨"sum".toList, .exactly 1,
        measuring "array.sum".toList fun s items => .ok (Collection.total s items)⟩,
      ⟨"average".toList, .exactly 1,
        measuring "array.average".toList fun s items => .ok (Collection.average s items)⟩,
      ⟨"min".toList, .exactly 1,
        measuring "array.min".toList fun s => Collection.extreme s false "array.min".toList⟩,
      ⟨"max".toList, .exactly 1,
        measuring "array.max".toList fun s => Collection.extreme s true "array.max".toList⟩,
      ⟨"unique".toList, .exactly 1, onArray "array.unique".toList Collection.dedupe⟩,
      ⟨"concat".toList, .exactly 2, arrayConcat⟩]

/-! ## Tomes -/

/-- The entries of a tome; any other value reads as an empty one. -/
def entriesOf (v : Value) : Work (Table Value) := do
  match v with
  | .tome cell => return (← Work.store).entries cell
  | _ => return .empty

/-- The keys of a tome. -/
def tomeKeys (args : List Value) : Work Value := do
  Work.newSequence ((← entriesOf (argument args 0)).keys.map .string)

/-- The values of a tome. -/
def tomeValues (args : List Value) : Work Value := do
  Work.newSequence (← entriesOf (argument args 0)).values

/-- The entries of a tome as sequences of two. -/
def tomePairs (args : List Value) : Work Value := do
  let entries ← entriesOf (argument args 0)
  Work.newSequence (← Work.build (Collection.pairs · entries))

/-- The entries of the second tome with those of the first on top. -/
def tomeMerge (args : List Value) : Work Value := do
  let first ← entriesOf (argument args 0)
  let second ← entriesOf (argument args 1)
  Work.newTome (first.meld second)

/-- The counts of the elements of an array; nothing counts as an empty array. -/
def tomeTally (args : List Value) : Work Value := do
  match argument args 0 with
  | .undefined => Work.newTome .empty
  | v =>
    let items ← Work.elements "tome.tally".toList v
    Work.newTome (Collection.tally (← Work.store) items)

/-- The library of tomes. -/
def tome : Library where
  path := "std/tome".toList
  functions :=
    [⟨"keys".toList, .exactly 1, tomeKeys⟩,
      ⟨"values".toList, .exactly 1, tomeValues⟩,
      ⟨"pairs".toList, .exactly 1, tomePairs⟩,
      ⟨"merge".toList, .exactly 2, tomeMerge⟩,
      ⟨"tally".toList, .exactly 1, tomeTally⟩]

/-- The standard libraries. -/
def standard : List Library :=
  [time, json, random, array, tome]

end Library

/-- The registry that knows the standard libraries. -/
def Registry.standard : Registry :=
  Library.standard.foldl register empty

end Grimoire
