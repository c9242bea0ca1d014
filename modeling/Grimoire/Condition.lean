import Grimoire.Expr.Evaluation

/-!
# Conditions

A condition is one of ten phrases around two operands, or else a value that counts as true or not.
The phrases are looked for in a fixed order, in a copy of the text in which strings and brackets are
hidden, so that no word inside an operand is taken for a keyword.
-/

namespace Grimoire

/-! ## Phrases -/

/-- The forms of conditions with two operands. -/
inductive Phrase where
  | greater
  | less
  | atLeast
  | atMost
  | differs
  | same
  | begins
  | ends
  | contains
  | holdsKey
  deriving DecidableEq, Repr

namespace Phrase

/-- The phrases in the order in which they are tried. Phrases that contain the words of others come
first. -/
def inOrder : List Phrase :=
  [greater, less, atLeast, atMost, differs, same, begins, ends, contains, holdsKey]

/-- The pattern of a phrase; slot 1 is the left operand and slot 2 the right one. -/
def pattern : Phrase → Pattern
  | greater => .spaced [.long 1, .keyword "is", .keyword "greater", .keyword "than", .long 2]
  | less => .spaced [.long 1, .keyword "is", .keyword "less", .keyword "than", .long 2]
  | atLeast => .spaced [.long 1, .keyword "is", .keyword "at", .keyword "least", .long 2]
  | atMost => .spaced [.long 1, .keyword "is", .keyword "at", .keyword "most", .long 2]
  | differs => .spaced [.short 1, .keyword "is", .keyword "not", .long 2]
  | same => .spaced [.long 1, .keyword "is", .long 2]
  | begins =>
    .andThen (.spaced [.keyword "Begins", .long 1, .keyword "with", .quoted 2 0]) .space
  | ends => .andThen (.spaced [.keyword "Ends", .long 1, .keyword "with", .quoted 2 0]) .space
  | contains => .andThen (.spaced [.keyword "Contains", .long 1, .keyword "in", .long 2]) .space
  | holdsKey =>
    .andThen (.spaced [.keyword "Holds", .keyword "key", .long 1, .keyword "in", .long 2]) .space

/-- The part of `s` at the same bytes as a stretch of its masked copy. -/
def operand (s masked : Text) (span : Span) : Text :=
  let bytesBefore (place : Nat) := Text.byteLength (masked.take place)
  (Text.sliceBytes? (bytesBefore span.start) (bytesBefore span.stop) s).getD []

/-- The operands of a phrase in a trimmed text. -/
def operands? (p : Phrase) (s : Text) : Option (Text × Text) := do
  let masked := s.mask
  let g ← p.pattern.match? masked
  let left ← g.span? 1
  let right ← g.span? 2
  return (operand s masked left, operand s masked right)

/-- The first phrase that takes a trimmed text, with its operands. -/
def find? (s : Text) : Option (Phrase × Text × Text) :=
  inOrder.findSome? fun p => (p.operands? s).map (p, ·)

end Phrase

/-! ## Conditions -/

/-- A condition. -/
inductive Condition where
  | phrase (p : Phrase) (left right : Text)
  | word (b : Bool)
  | value (s : Text)
  deriving DecidableEq, Repr

namespace Condition

/-- Reads a condition; every text is one. -/
def ofText (s : Text) : Condition :=
  let s := s.trim
  match Phrase.find? s with
  | some (p, left, right) => phrase p left right
  | none => if s.isTrueWord then word true else if s.isFalseWord then word false else value s

/-- Whether a text is a phrase with two operands, not just a value. -/
def isComparison (s : Text) : Bool :=
  (Phrase.find? s.trim).isSome

/-- Whether a phrase holds of two operands. Texts decide for `is`, which takes the number 5 and the
string "5" for the same; the right operands of `begins` and `ends` are literal texts. -/
def test (p : Phrase) (left right : Text) : Eval Bool := do
  match p with
  | .greater => return (← Eval.number left) > (← Eval.number right)
  | .less => return (← Eval.number left) < (← Eval.number right)
  | .atLeast => return (← Eval.number left) ≥ (← Eval.number right)
  | .atMost => return (← Eval.number left) ≤ (← Eval.number right)
  | .differs => return (← Eval.display left) != (← Eval.display right)
  | .same => return (← Eval.display left) == (← Eval.display right)
  | .begins => return Text.startsWith right (← Eval.display left)
  | .ends => return Text.endsWith right (← Eval.display left)
  | .contains =>
    let needle ← Eval.value left
    let haystack ← Eval.value right
    return Collection.contains (← Work.store) haystack needle
  | .holdsKey =>
    let key ← Eval.value left
    let container ← Eval.value right
    return Collection.holdsKey (← Work.store) container key

/-- Whether a condition holds. -/
def eval : Condition → Eval Bool
  | phrase p left right => test p left right
  | word b => return b
  | value s => do
    let v ← Eval.value s
    return (← Work.store).truthy v

end Condition

/-! ## Shape calls -/

namespace Eval

/-- Whether the condition in a text holds. -/
def holds (s : Text) : Eval Bool :=
  (Condition.ofText s).eval

/-- The value of a shape's body: a boolean for a comparison. -/
def shapeBody (body : Text) : Eval Value := do
  if Condition.isComparison body then return .boolean (← holds body) else value body

/-- The parameters of a call; those without an argument are undefined. -/
def frameOf (parameters : List Text) (args : List Value) : Table Value :=
  .ofList (parameters.zip (args ++ List.replicate (parameters.length - args.length) .undefined))

/-- Calls a shape. Its body sees the parameters before the global variables, and nothing of the
parameters is left after the call. -/
def callShape (s : Shape) (args : List Value) : Eval Value :=
  withReader (·.enter (frameOf s.parameters args)) (shapeBody s.body)

end Eval

end Grimoire
