import Grimoire.Calendar.Timestamp
import Grimoire.Number.Decimal

/-!
# Dates in plain texts

A text stands for a timestamp when it is a date, a date and a time of day with any amount of space
between them, or the same with a `T` between them. Blanks may precede each number. A year has up to
four digits, or any number of digits after a sign; the other numbers have one or two digits. Second
60 is read as a leap second. Nothing may follow.
-/

namespace Grimoire

namespace DateText

/-- Takes between one and `most` digits after blanks. -/
def takeNumber? (most : Nat) (s : Text) : Option (Nat × Text) :=
  let digits := (s.take most).takeWhile Char.isDigit
  if digits.isEmpty then none else some (Number.digitsValue digits, s.drop digits.length)

/-- Takes a year. -/
def takeYear? (s : Text) : Option (Int × Text) :=
  match s.trimStart with
  | '-' :: rest => (takeNumber? rest.length rest).map fun (n, left) => (-(n : Int), left)
  | '+' :: rest => (takeNumber? rest.length rest).map fun (n, left) => ((n : Int), left)
  | rest => (takeNumber? 4 rest).map fun (n, left) => ((n : Int), left)

/-- Takes a number of one or two digits. -/
def takeTwo? (s : Text) : Option (Nat × Text) :=
  takeNumber? 2 s.trimStart

/-- Takes a date: year, month and day with hyphens between them. -/
def takeDate? (s : Text) : Option (Date × Text) := do
  let (year, s) ← takeYear? s
  let s ← s.dropFirst? '-'
  let (month, s) ← takeTwo? s
  let s ← s.dropFirst? '-'
  let (day, s) ← takeTwo? s
  let date ← Date.ofParts? year month day
  return (date, s)

/-- Takes a time of day: hour, minute and second with colons between them. -/
def takeTime? (s : Text) : Option (TimeOfDay × Text) := do
  let (hour, s) ← takeTwo? s
  let s ← s.dropFirst? ':'
  let (minute, s) ← takeTwo? s
  let s ← s.dropFirst? ':'
  let (second, s) ← takeTwo? s
  if second = 60 then
    let time ← TimeOfDay.ofParts? hour minute 59
    return ({ time with leap := true }, s)
  else
    let time ← TimeOfDay.ofParts? hour minute second
    return (time, s)

/-- Reads a date and a time of day; `separator?` takes what stands between them. -/
def readBoth? (separator? : Text → Option Text) (s : Text) : Option Timestamp := do
  let (date, s) ← takeDate? s
  let s ← separator? s
  let (time, s) ← takeTime? s
  if s.isEmpty then some ⟨date, time⟩ else none

/-- Reads a date alone, which stands for its beginning. -/
def readDate? (s : Text) : Option Timestamp := do
  let (date, s) ← takeDate? s
  if s.isEmpty then some ⟨date, .midnight⟩ else none

/-- The timestamp that a trimmed text stands for. -/
def read? (s : Text) : Option Timestamp :=
  readBoth? (fun rest => some rest.trimStart) s
    <|> readBoth? (Text.dropFirst? 'T') s
    <|> readDate? s

end DateText

end Grimoire
