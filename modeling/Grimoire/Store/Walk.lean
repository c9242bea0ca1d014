import Grimoire.Number.Decimal
import Grimoire.Store

/-!
# Walks through values

Display, equality, coercion to a number, copying and the search for a cell go through a value and
everything nested in it. Each walk counts the containers it is inside of; no value of a run contains
itself, so the number of cells bounds that count.
-/

namespace Grimoire

/-- What stands between the parts of a displayed container. -/
def listSeparator : Text := ", ".toList

namespace Store

/-! ## Display -/

/-- The display text of a value nested in at most `depth` more containers. -/
def displayWithin (s : Store) : Nat → Value → Text
  | _, .string text => text
  | _, .number x => x.display
  | _, .boolean b => if b then "true".toList else "false".toList
  | _, .timestamp t => t.display
  | _, .shape f =>
    "<shape (".toList ++ Text.join listSeparator f.parameters ++ ")>".toList
  | _, .module m => "<module ".toList ++ m.path ++ ">".toList
  | _, .undefined => "undefined".toList
  | 0, .sequence _ => "[]".toList
  | 0, .tome _ => "\x7b\x7d".toList
  | depth + 1, .sequence cell =>
    '[' :: Text.join listSeparator ((s.items cell).map (s.displayWithin depth)) ++ [']']
  | depth + 1, .tome cell =>
    '\x7b' :: Text.join listSeparator ((s.entries cell).entries.map fun entry =>
      entry.1 ++ ':' :: ' ' :: s.displayWithin depth entry.2) ++ ['\x7d']

/-- The display text of a value. -/
def display (s : Store) (v : Value) : Text :=
  s.displayWithin s.cells v

theorem display_string (s : Store) (text : Text) : s.display (.string text) = text := by
  rw [display, displayWithin]

theorem display_timestamp (s : Store) (t : Timestamp) : s.display (.timestamp t) = t.display := by
  rw [display, displayWithin]

/-- The display texts of values with a separator between them; an absent value has none. -/
def joinDisplay (s : Store) (separator : Text) (values : List Value) : Text :=
  Text.join separator (values.map fun v => if v = .undefined then [] else s.display v)

/-! ## Equality -/

/-- Whether two lists agree in length and elementwise. -/
def allEqual {α : Type} (same : α → α → Bool) : List α → List α → Bool
  | [], [] => true
  | a :: as, b :: bs => same a b && allEqual same as bs
  | _, _ => false

/-- Equality of values nested in at most `depth` more containers. -/
def equalWithin (s : Store) : Nat → Value → Value → Bool
  | _, .string a, .string b => a == b
  | _, .number x, .number y => x == y
  | _, .boolean a, .boolean b => a == b
  | _, .timestamp t, .timestamp u => t == u
  | _, .shape f, .shape g => f == g
  | _, .module m, .module n => m == n
  | _, .undefined, .undefined => true
  | 0, .sequence a, .sequence b => a == b
  | 0, .tome a, .tome b => a == b
  | depth + 1, .sequence a, .sequence b =>
    a == b || allEqual (s.equalWithin depth) (s.items a) (s.items b)
  | depth + 1, .tome a, .tome b =>
    a == b || allEqual (fun e f => e.1 == f.1 && s.equalWithin depth e.2 f.2)
      (s.entries a).entries (s.entries b).entries
  | _, _, _ => false

/-- Strict equality: values of the same kind with the same contents. A container is equal to
itself whatever it holds, though NaN is not. -/
def equal (s : Store) (a b : Value) : Bool :=
  s.equalWithin s.cells a b

/-! ## Numbers and truth -/

/-- The number that a value nested in at most `depth` more containers stands for. -/
def numberWithin (s : Store) : Nat → Value → Number
  | _, .number x => x
  | _, .boolean b => if b then 1 else 0
  | _, .string text => Number.ofText text
  | _, .timestamp t => Number.ofInt t.epochSeconds
  | 0, .sequence _ => Number.nan
  | depth + 1, .sequence cell =>
    match s.items cell with
    | [] => 0
    | [v] => s.numberWithin depth v
    | _ => Number.nan
  | _, .tome _ | _, .shape _ | _, .module _ | _, .undefined => Number.nan

/-- The number that a value stands for. -/
def toNumber (s : Store) (v : Value) : Number :=
  s.numberWithin s.cells v

/-- The greatest count or width. -/
def maxInt : Int := 9223372036854775807

/-- The count or width that a value stands for: rounded toward zero and kept within 64 bits. -/
def toInt (s : Store) (v : Value) : Int :=
  max (-maxInt - 1) (min maxInt (s.toNumber v).truncate)

/-- The count that a value stands for; negative counts are zero. -/
def toCount (s : Store) (v : Value) : Nat :=
  (s.toInt v).toNat

/-- Whether a value counts as true. -/
def truthy (s : Store) : Value → Bool
  | .boolean b => b
  | .number x => x != 0 && !x.isNaN
  | .string text => !text.isEmpty
  | .sequence cell => !(s.items cell).isEmpty
  | .tome cell => !(s.entries cell).isEmpty
  | .timestamp _ | .shape _ | .module _ => true
  | .undefined => false

/-- Whether a value is absent or has nothing in it. -/
def isVoid (s : Store) : Value → Bool
  | .undefined => true
  | .string text => text.isEmpty
  | .sequence cell => (s.items cell).isEmpty
  | .tome cell => (s.entries cell).isEmpty
  | _ => false

/-- The number that a value adds to a sum: zero unless it is true. -/
def toAddend (s : Store) (v : Value) : Number :=
  if s.truthy v then s.toNumber v else 0

/-! ## Containment -/

/-- Whether a value nested in at most `depth` more containers is `container` or holds it. -/
def holdsWithin (s : Store) (container : Value) : Nat → Value → Bool
  | 0, v => v.sameCell container
  | depth + 1, v =>
    v.sameCell container || (s.contents v).any (s.holdsWithin container depth)

/-- Whether a value is `container` or holds it at some depth. -/
def holds (s : Store) (v container : Value) : Bool :=
  s.holdsWithin container s.cells v

/-! ## Copies -/

/-- Copies a list of values one after the other. -/
def mirrorAll (mirror : Value → Store → Value × Store) (values : List Value) (s : Store) :
    List Value × Store :=
  let (copies, s) := values.foldl (fun (done, s) v =>
    let (copy, s) := mirror v s
    (copy :: done, s)) ([], s)
  (copies.reverse, s)

/-- Copies a value nested in at most `depth` more containers. -/
def mirrorWithin : Nat → Value → Store → Value × Store
  | depth + 1, .sequence cell, s =>
    let (copies, s) := mirrorAll (mirrorWithin depth) (s.items cell) s
    s.newSequence copies
  | depth + 1, .tome cell, s =>
    let entries := s.entries cell
    let (copies, s) := mirrorAll (mirrorWithin depth) entries.values s
    s.newTome (.ofList (entries.keys.zip copies))
  | _, v, s => (v, s)

/-- A copy of a value that shares no container with it. -/
def mirror (s : Store) (v : Value) : Value × Store :=
  mirrorWithin s.cells v s

end Store

end Grimoire
