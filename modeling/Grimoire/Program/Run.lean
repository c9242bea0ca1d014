import Grimoire.Machine
import Grimoire.Program

/-!
# Running programs

A program runs by recursion on its tree. A conditional evaluates its condition once and runs one of
its parts; a loop evaluates its container once and runs its body for each element it had then. The
first failure ends the run, and a failure bears the line of the innermost statement or opener at
fault.
-/

namespace Grimoire

namespace Program

variable {σ : Type}

/-- The elements that a loop goes through: the characters of a string or the elements of an
array. -/
def iteration (loop : String) : Value → Eval (List Value)
  | .string text => return text.map fun c => .string [c]
  | .sequence cell => do return (← Work.store).items cell
  | v => Eval.failType (.notIterable loop.toList v.essence)

/-- Evaluates the container of a loop and lists its elements. -/
def iterationOf (loop : String) (container : Text) : Eval (List Value) := do
  iteration loop (← Eval.value container)

/-- Runs a body for each element, bound to a name. -/
def repeatEach (name : Text) (body : Run σ Unit) : List Value → Run σ Unit
  | [] => return ()
  | v :: rest => do
    Run.bindName name v
    body
    repeatEach name body rest

/-- Runs a body for each element, its place and itself bound to two names. -/
def stride (index name : Text) (body : Run σ Unit) (place : Nat) : List Value → Run σ Unit
  | [] => return ()
  | v :: rest => do
    Run.bindName index (.number (Number.ofNat place))
    Run.bindName name v
    body
    stride index name body (place + 1) rest

/-- Runs a body and then tests a condition, until it holds or `rounds` rounds have passed. -/
def untilHolds (condition : Text) (body : Run σ Unit) (limit : Nat) : Nat → Run σ Unit
  | 0 => Run.fail (.loopBoundExceeded limit)
  | rounds + 1 => do
    body
    if ← Run.evaluate (Eval.holds condition) then return ()
    else untilHolds condition body limit rounds

/-- Runs a construct, given how its two parts run. -/
def construct (body otherwise : Run σ Unit) : Construct → Run σ Unit
  | .when condition | .ward condition => do
    if ← Run.evaluate (Eval.holds condition) then body else otherwise
  | .repeatEach name container => do
    repeatEach name body (← Run.evaluate (iterationOf "repeat each" container))
  | .stride index name container => do
    stride index name body 0 (← Run.evaluate (iterationOf "stride" container))
  | .until condition => do
    let limit := (← get).config.untilLimit
    untilHolds condition body limit (max limit 1)

/-- Refuses a block at a depth beyond the limit. -/
def refuseDepth (depth : Nat) : Run σ Unit := do
  let limit := (← get).config.maxNesting
  if limit < depth then Run.fail (.nestingTooDeep limit)

mutual

/-- Runs a part of a program inside `depth` blocks. -/
def runNode [Host σ] (depth : Nat) : Node → Run σ Unit
  | .statement place => Run.located place (Run.statement place.text)
  | .block place c body otherwise => Run.located place do
    refuseDepth (depth + 1)
    construct (runNodes (depth + 1) body) (runNodes (depth + 1) otherwise) c
  | .unterminated line => Run.fail line.unterminated

/-- Runs parts of a program one after the other. -/
def runNodes [Host σ] (depth : Nat) : List Node → Run σ Unit
  | [] => return ()
  | node :: rest => do
    runNode depth node
    runNodes depth rest

end

/-- Resets the machine and runs a source on it. -/
def interpret [Host σ] (source : Text) : Run σ Unit := do
  modify Machine.reset
  runNodes 0 (ofSource source)

end Program

end Grimoire
