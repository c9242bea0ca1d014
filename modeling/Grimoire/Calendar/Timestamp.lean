import Grimoire.Calendar.Date
import Grimoire.Number.Basic
import Grimoire.Text.Basic

/-!
# Timestamps

A timestamp is a date and a time of day without a time zone, at a resolution of one second. The
59th second of a minute may be marked as a leap second; it is then written as second 60, and it
counts as one second more than the 59th in differences.
-/

namespace Grimoire

/-- A time of day. -/
structure TimeOfDay where
  hour : Nat
  minute : Nat
  second : Nat
  leap : Bool
  valid : hour < 24 ∧ minute < 60 ∧ second < 60
  deriving DecidableEq, Repr

namespace TimeOfDay

/-- The time of day with the given parts, if there is one. -/
def ofParts? (hour minute second : Nat) : Option TimeOfDay :=
  if h : hour < 24 ∧ minute < 60 ∧ second < 60 then some ⟨hour, minute, second, false, h⟩ else none

/-- The beginning of a day. -/
def midnight : TimeOfDay :=
  ⟨0, 0, 0, false, by decide⟩

/-- The last second of a day. -/
def lastSecond : TimeOfDay :=
  ⟨23, 59, 59, false, by decide⟩

/-- The seconds since midnight; a leap second counts as the second before it. -/
def seconds (t : TimeOfDay) : Nat :=
  t.hour * 3600 + t.minute * 60 + t.second

/-- The time of day a number of seconds after midnight, whole days left out. -/
def ofSeconds (n : Nat) : TimeOfDay :=
  ⟨n / 3600 % 24, n / 60 % 60, n % 60, false, by omega⟩

end TimeOfDay

/-- A date and a time of day. -/
structure Timestamp where
  date : Date
  time : TimeOfDay
  deriving DecidableEq, Repr

namespace Timestamp

/-! ## Texts -/

/-- A number with at least two digits. -/
def twoDigits (n : Nat) : Text :=
  Text.padZeros 2 (Text.ofNat n)

/-- The year with at least four digits. It has a sign when it has more than four or is negative. -/
def yearText (year : Int) : Text :=
  let digits := Text.padZeros 4 (Text.ofNat year.natAbs)
  if year < 0 then '-' :: digits else if 9999 < year then '+' :: digits else digits

/-- The date and the time of day with a text between them. -/
def write (between : Text) (t : Timestamp) : Text :=
  let second := if t.time.leap then t.time.second + 1 else t.time.second
  yearText t.date.year ++ '-' :: twoDigits t.date.month ++ '-' :: twoDigits t.date.day ++ between
    ++ twoDigits t.time.hour ++ ':' :: twoDigits t.time.minute ++ ':' :: twoDigits second

/-- The display text. -/
def display (t : Timestamp) : Text :=
  write [' '] t

/-- The text in JSON documents. -/
def isoText (t : Timestamp) : Text :=
  write ['T'] t

/-! ## Seconds -/

/-- The seconds since the first of January 1970. -/
def epochSeconds (t : Timestamp) : Int :=
  t.date.number * 86400 + t.time.seconds

/-- The timestamp a number of seconds after the beginning of day `day`, if the calendar has it. -/
def ofSeconds? (day seconds : Int) : Option Timestamp :=
  (Date.ofNumber? (day + seconds / 86400)).map fun date =>
    ⟨date, .ofSeconds (seconds % 86400).toNat⟩

/-- The timestamp of a number of seconds since the first of January 1970. -/
def ofEpochSeconds? (seconds : Int) : Option Timestamp :=
  ofSeconds? 0 seconds

/-- The timestamp a number of seconds later. A leap second is left by the end at which the shift
leaves it, and kept by a shift of zero. -/
def shift? (t : Timestamp) (seconds : Int) : Option Timestamp :=
  if seconds = 0 then some t
  else
    let start := if t.time.leap && seconds < 0 then t.time.seconds + 1 else t.time.seconds
    ofSeconds? t.date.number (start + seconds)

/-- One for a leap second. -/
def leapSeconds (t : TimeOfDay) : Int :=
  if t.leap then 1 else 0

/-- The seconds from time of day `a` to time of day `b`. -/
def secondsBetween (a b : TimeOfDay) : Int :=
  let passed : Int :=
    if a.seconds < b.seconds then leapSeconds a
    else if b.seconds < a.seconds then -leapSeconds b
    else 0
  (b.seconds : Int) - a.seconds + passed + (leapSeconds b - leapSeconds a)

/-- The seconds from `a` to `b`. -/
def diffSeconds (a b : Timestamp) : Number :=
  Number.ofInt ((b.date.number - a.date.number) * 86400 + secondsBetween a.time b.time)

/-- The days from `a` to `b`, rounded, a half upward. -/
def diffDays (a b : Timestamp) : Number :=
  (diffSeconds a b / 86400.0).roundHalfUp

/-! ## Days -/

/-- The beginning of the day. -/
def startOfDay (t : Timestamp) : Timestamp :=
  ⟨t.date, .midnight⟩

/-- The last second of the day. -/
def endOfDay (t : Timestamp) : Timestamp :=
  ⟨t.date, .lastSecond⟩

end Timestamp

end Grimoire
