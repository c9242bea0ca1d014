import Grimoire.Text.Basic

/-!
# Nesting

Lists, pairs and operators are found by scanning a text character by character while keeping track
of quotes and brackets. A character stands at the top level when it is outside every string and
every bracket. The scan knows nothing of balance: closing brackets may outnumber opening ones.
-/

namespace Grimoire

/-- Where a scan stands: how many brackets are open, which quote is open, and whether the last
character inside a string was a backslash that still escapes the next one. -/
structure Nesting where
  depth : Int := 0
  quote : Option Char := none
  escaped : Bool := false
  deriving DecidableEq, Repr

namespace Nesting

/-- Nothing is open. -/
def outside (n : Nesting) : Bool :=
  n.quote.isNone && n.depth == 0

/-- The state after one more character. -/
def feed (n : Nesting) (c : Char) : Nesting :=
  match n.quote with
  | some q =>
    if n.escaped then { n with escaped := false }
    else if c = '\\' then { n with escaped := true }
    else if c = q then { n with quote := none }
    else n
  | none =>
    if c = '"' ∨ c = '\'' then { n with quote := some c }
    else if c = '[' ∨ c = '\x7b' ∨ c = '(' then { n with depth := n.depth + 1 }
    else if c = ']' ∨ c = '\x7d' ∨ c = ')' then { n with depth := n.depth - 1 }
    else n

/-- Whether a character is a quote or a bracket. -/
def delimits (c : Char) : Bool :=
  c ∈ ['"', '\'', '[', '\x7b', '(', ']', '\x7d', ')']

/-- Whether the next character, `c`, stands at the top level. -/
def atTop (n : Nesting) (c : Char) : Bool :=
  n.outside && !delimits c

/-- The state after a whole text. -/
def feedAll (n : Nesting) (s : Text) : Nesting :=
  s.foldl feed n

end Nesting

namespace Text

/-! ## Pieces -/

/-- The pieces between top-level commas, as they stand; there is always at least one. -/
def rawPieces (n : Nesting) : Text → List Text
  | [] => [[]]
  | c :: rest =>
    let more := rawPieces (n.feed c) rest
    if n.atTop c && c == ',' then [] :: more
    else match more with
      | [] => [[c]]
      | piece :: pieces => (c :: piece) :: pieces

/-- The trimmed pieces between top-level commas. A blank last piece is dropped. -/
def topLevelPieces (s : Text) : List Text :=
  let pieces := (rawPieces {} s).map trim
  if pieces.getLast? = some [] then pieces.dropLast else pieces

/-- Splits a text at the first top-level occurrence of a character. -/
def splitFrom (needle : Char) (n : Nesting) (before : Text) : Text → Option (Text × Text)
  | [] => none
  | c :: rest =>
    if n.atTop c && c == needle then some (before.reverse, rest)
    else splitFrom needle (n.feed c) (c :: before) rest

/-- Splits a text at the first top-level occurrence of a character. -/
def splitTopLevel? (needle : Char) (s : Text) : Option (Text × Text) :=
  splitFrom needle {} [] s

/-- The byte offset of the first top-level occurrence of a character. -/
def findTopLevel? (needle : Char) (s : Text) : Option Nat :=
  (splitTopLevel? needle s).map fun (before, _) => byteLength before

/-- Splits a pair at its first top-level colon; without one the second part is empty. -/
def splitPair (s : Text) : Text × Text :=
  match splitTopLevel? ':' s with
  | some (key, value) => (trim key, trim value)
  | none => (trim s, [])

/-! ## Masking -/

/-- Hides what is inside strings and brackets. Each hidden character becomes as many underscores
as it has bytes, so byte offsets stay; the delimiters of the outermost level stay too. -/
def maskFrom (n : Nesting) : Text → Text
  | [] => []
  | c :: rest =>
    let after := n.feed c
    let shown := if n.outside || after.outside then [c] else List.replicate c.utf8Size '_'
    shown ++ maskFrom after rest

/-- A copy of a text with everything inside strings and brackets hidden. -/
def mask (s : Text) : Text :=
  maskFrom {} s

theorem byteLength_maskFrom (n : Nesting) (s : Text) :
    byteLength (maskFrom n s) = byteLength s := by
  induction s generalizing n with
  | nil => rfl
  | cons c rest ih =>
    have hone : Char.utf8Size '_' = 1 := rfl
    have hnil : byteLength [] = 0 := rfl
    rw [maskFrom, byteLength_append, ih, byteLength_cons]
    split
    · rw [byteLength_cons, hnil, Nat.add_zero]
    · rw [byteLength_replicate, hone, Nat.mul_one]

/-! ## Brackets around a whole text -/

/-- Whether a scan from `n` never closes more than it opened and ends outside everything. -/
def balancedFrom (n : Nesting) : Text → Bool
  | [] => n.outside
  | c :: rest =>
    let after := n.feed c
    0 ≤ after.depth && balancedFrom after rest

/-- The inside of a text that one pair of brackets wraps. -/
def unwrap? (opening closing : Char) (s : Text) : Option Text := do
  let inner ← dropLast? closing (← dropFirst? opening s)
  if balancedFrom {} inner then some inner else none

theorem length_unwrap?_lt {opening closing : Char} {s inner : Text}
    (h : unwrap? opening closing s = some inner) : inner.length < s.length := by
  cases s with
  | nil => simp [unwrap?, dropFirst?] at h
  | cons c rest =>
    simp only [unwrap?, dropFirst?, Option.bind_eq_bind] at h
    split at h
    · simp only [Option.bind_some, dropLast?] at h
      split at h
      · simp only [Option.bind_some] at h
        split at h
        · injection h with h
          subst h
          simp only [List.length_dropLast, List.length_cons]
          omega
        · simp at h
      · simp at h
    · simp at h

end Text

/-! ## Operators -/

/-- The binary operators of arithmetic. -/
inductive Operator where
  | add
  | subtract
  | multiply
  | divide
  | remainder
  deriving DecidableEq, Repr

namespace Operator

/-- The operator that a character stands for. -/
def ofChar? : Char → Option Operator
  | '+' => some add
  | '-' => some subtract
  | '*' => some multiply
  | '/' => some divide
  | '%' => some remainder
  | _ => none

/-- The character of an operator. -/
def toChar : Operator → Char
  | add => '+'
  | subtract => '-'
  | multiply => '*'
  | divide => '/'
  | remainder => '%'

theorem ofChar?_toChar (op : Operator) : ofChar? op.toChar = some op := by
  cases op <;> rfl

/-- Whether the operator binds less tightly than the others. -/
def isAdditive : Operator → Bool
  | add | subtract => true
  | _ => false

end Operator

namespace Text

/-- The top-level operators of a text with their positions. An operator counts only between
blanks, so that dates, paths and signed numbers stay whole; `afterBlank` tells whether the last
character was one. -/
def operatorsFrom (n : Nesting) (afterBlank : Bool) (place : Nat) : Text → List (Nat × Operator)
  | [] => []
  | c :: rest =>
    let more := operatorsFrom (n.feed c) (isBlank c) (place + 1) rest
    match Operator.ofChar? c with
    | some op =>
      if n.atTop c && afterBlank && (rest.head?.any isBlank) then (place, op) :: more else more
    | none => more

/-- The operator that an expression splits on: the last additive one, else the last of the
others. -/
def mainOperator? (s : Text) : Option (Nat × Operator) :=
  let found := operatorsFrom {} false 0 s
  match (found.filter (·.2.isAdditive)).getLast? with
  | some additive => some additive
  | none => found.getLast?

/-- The operands of the main operator, trimmed; both have to be there. -/
def splitBinary? (s : Text) : Option (Text × Operator × Text) := do
  let (place, op) ← mainOperator? s
  let left := trim (s.take place)
  let right := trim (s.drop (place + 1))
  if left.isEmpty || right.isEmpty then none else some (left, op, right)

end Text

end Grimoire
