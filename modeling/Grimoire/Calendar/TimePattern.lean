import Grimoire.Calendar.Timestamp
import Grimoire.Fault
import Grimoire.Text.Digit

/-!
# Time patterns

A time pattern is a text in which `YYYY`, `MM`, `DD`, `HH`, `mm` and `ss` stand for the fields of a
timestamp. For reading, the first occurrence of each token is a field of fixed width and everything
else stands for itself. For writing, every occurrence is replaced.
-/

namespace Grimoire

/-- The fields of a timestamp. -/
inductive TimeField where
  | year
  | month
  | day
  | hour
  | minute
  | second
  deriving DecidableEq, Repr

namespace TimeField

/-- The fields in the order in which their tokens are tried and replaced. -/
def all : List TimeField :=
  [year, month, day, hour, minute, second]

/-- What stands for a field in a pattern. -/
def token : TimeField → Text
  | year => "YYYY".toList
  | month => "MM".toList
  | day => "DD".toList
  | hour => "HH".toList
  | minute => "mm".toList
  | second => "ss".toList

/-- The value of a field that a pattern does not mention. -/
def absent : TimeField → Nat
  | year => 1970
  | month => 1
  | day => 1
  | hour | minute | second => 0

/-- The text of a field of a timestamp. -/
def write (t : Timestamp) : TimeField → Text
  | year => Text.ofInt t.date.year
  | month => Timestamp.twoDigits t.date.month
  | day => Timestamp.twoDigits t.date.day
  | hour => Timestamp.twoDigits t.time.hour
  | minute => Timestamp.twoDigits t.time.minute
  | second => Timestamp.twoDigits t.time.second

end TimeField

/-- A piece of a time pattern. -/
inductive TimePiece where
  /-- As many digits as the token of the field has characters. -/
  | field (f : TimeField)
  /-- One character that stands for itself. -/
  | literal (c : Char)
  deriving DecidableEq, Repr

/-- A time pattern ready for reading. -/
structure TimePattern where
  pieces : List TimePiece
  deriving DecidableEq, Repr

namespace TimePattern

/-! ## Reading -/

/-- Finds the pieces of a pattern. `seen` holds the fields that have had their token, and `skip`
counts the characters of the last token still to pass over. -/
def piecesFrom (seen : List TimeField) (skip : Nat) : Text → List TimePiece
  | [] => []
  | c :: rest =>
    match skip with
    | left + 1 => piecesFrom seen left rest
    | 0 =>
      match TimeField.all.find? fun f => f.token.isPrefixOf (c :: rest) && !seen.contains f with
      | some f => .field f :: piecesFrom (f :: seen) (f.token.length - 1) rest
      | none => .literal c :: piecesFrom seen 0 rest

/-- Prepares a pattern for reading. -/
def compile (pattern : Text) : TimePattern :=
  ⟨piecesFrom [] 0 pattern⟩

/-- Reads a text piece by piece and collects the digits of the fields; the whole text has to be
taken. -/
def capture : List TimePiece → Text → Option (List (TimeField × Text))
  | [], [] => some []
  | [], _ :: _ => none
  | .literal _ :: _, [] => none
  | .literal c :: pieces, d :: rest => if c = d then capture pieces rest else none
  | .field f :: pieces, s =>
    let digits := s.take f.token.length
    if digits.length = f.token.length ∧ digits.all isDigit then
      (capture pieces (s.drop f.token.length)).map ((f, digits) :: ·)
    else none

/-- The timestamp that a text stands for under a pattern. -/
def parse (p : TimePattern) (text : Text) : Except ReadingFault Timestamp :=
  match capture p.pieces text with
  | none => .error (.patternMismatch text)
  | some fields =>
    match fields.find? fun field => !field.2.all Char.isDigit with
    | some (_, digits) => .error (.badNumber digits)
    | none =>
      let value (f : TimeField) : Nat :=
        ((fields.lookup f).map Number.digitsValue).getD f.absent
      match Date.ofParts? (value .year) (value .month) (value .day),
          TimeOfDay.ofParts? (value .hour) (value .minute) (value .second) with
      | some date, some time => .ok ⟨date, time⟩
      | _, _ => .error (.notARealDate text)

end TimePattern

/-! ## Writing -/

/-- Replaces every token of a pattern with the field of a timestamp. -/
def Timestamp.format (t : Timestamp) (pattern : Text) : Text :=
  TimeField.all.foldl (fun text f => Text.replace f.token (f.write t) text) pattern

end Grimoire
