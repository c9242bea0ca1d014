import Grimoire.Calendar.DateText
import Grimoire.Calendar.TimePattern
import Grimoire.Collection
import Grimoire.Store.Document
import Grimoire.Xorshift

/-!
# Resources

What the evaluation of an expression may change: the store, to which it adds cells, the random
stream, which it draws from, and the time patterns prepared so far, which it adds to. The reading
of the clock is the same throughout a run. `Work` is a computation on the resources that may fail;
what it did before failing remains.
-/

namespace Grimoire

/-- The reading of the clock, at Greenwich and here. -/
structure Clock where
  utc : Timestamp
  localTime : Timestamp

/-- The beginning of the year 1970. -/
def epoch : Timestamp :=
  ⟨⟨1970, 1, 1, by decide⟩, .midnight⟩

instance : Inhabited Clock := ⟨⟨epoch, epoch⟩⟩

/-- What evaluation may change. -/
structure Resources where
  store : Store
  random : Xorshift
  timePatterns : Table TimePattern
  clock : Clock

/-- A computation on the resources that may fail. -/
abbrev Work := ExceptT Fault (StateM Resources)

namespace Work

/-- Fails. -/
def fail {α : Type} (fault : Fault) : Work α :=
  throw fault

/-- Fails with a type fault. -/
def failType {α : Type} (fault : TypeFault) : Work α :=
  throw (.wrongType fault)

/-- Fails with a range fault. -/
def failRange {α : Type} (fault : RangeFault) : Work α :=
  throw (.outOfRange fault)

/-- A result that may be a range fault. -/
def ofRange {α : Type} : Except RangeFault α → Work α
  | .ok a => pure a
  | .error fault => failRange fault

/-- The store as it is. -/
def store : Work Store := do
  return (← get).store

/-- Computes a value together with a changed store. -/
def build {α : Type} (make : Store → α × Store) : Work α := do
  let r ← get
  let (a, store) := make r.store
  set { r with store }
  return a

/-- A fresh sequence. -/
def newSequence (items : List Value) : Work Value :=
  build (·.newSequence items)

/-- A fresh tome. -/
def newTome (entries : Table Value) : Work Value :=
  build (·.newTome entries)

/-- Computes something from the random stream. -/
def draw {α : Type} (take : Xorshift → α × Xorshift) : Work α := do
  let r ← get
  let (a, random) := take r.random
  set { r with random }
  return a

/-- Starts the random stream anew. -/
def reseed (seed : UInt32) : Work Unit :=
  modify fun r => { r with random := ⟨seed⟩ }

/-- The display text of a value. -/
def display (v : Value) : Work Text := do
  return (← store).display v

/-- The number that a value stands for. -/
def toNumber (v : Value) : Work Number := do
  return (← store).toNumber v

/-- The integer that a value stands for. -/
def toInt (v : Value) : Work Int := do
  return (← store).toInt v

/-- The elements of a value that has to be a sequence, for `user`. -/
def elements (user : Text) : Value → Work (List Value)
  | .sequence cell => do return (← store).items cell
  | v => failType (.expectedArray user v.essence)

/-! ## Dates -/

/-- The timestamp that a value stands for: a number counts seconds since 1970, and a string is
read as a date. -/
def toTimestamp : Value → Work Timestamp
  | .timestamp t => pure t
  | .number x =>
    if !x.isFinite then failRange (.notAnInstant x)
    else match Timestamp.ofEpochSeconds? x.floorInt with
      | some t => pure t
      | none => failRange (.instantOutOfRange x)
  | .string text =>
    match DateText.read? text.trim with
    | some t => pure t
    | none => throw (.unreadable (.notARecognisedDate text.trim))
  | v => failType (.expectedDate v.essence)

/-- A timestamp shifted by a number of units of so many seconds; fractions of units are left
out. -/
def shift (t : Timestamp) (amount : Number) (unit : Int) : Work Timestamp :=
  if !amount.isFinite then failRange (.cannotShift amount)
  else match t.shift? (amount.truncate * unit) with
    | some t => pure t
    | none => failRange (.leavesCalendar amount)

/-- A timestamp shifted by whole days. -/
def addDays (t : Timestamp) (days : Number) : Work Timestamp :=
  shift t days 86400

/-- A timestamp shifted by whole hours. -/
def addHours (t : Timestamp) (hours : Number) : Work Timestamp :=
  shift t hours 3600

/-- A time pattern, prepared the first time it is wanted. -/
def timePattern (pattern : Text) : Work TimePattern := do
  let r ← get
  match r.timePatterns.get? pattern with
  | some compiled => return compiled
  | none =>
    let compiled := TimePattern.compile pattern
    set { r with timePatterns := r.timePatterns.insert pattern compiled }
    return compiled

/-- The timestamp that a text stands for under a time pattern. -/
def parseTime (text pattern : Text) : Work Timestamp := do
  match (← timePattern pattern).parse text with
  | .ok t => return t
  | .error fault => throw (.unreadable fault)

/-! ## JSON -/

/-- The JSON text of a value. -/
def encode (v : Value) : Work Text := do
  match (← store).encode v with
  | .ok text => return text
  | .error fault => failType fault

/-- The value of a JSON text. -/
def decode (text : Text) : Work Value := do
  let r ← get
  match r.store.decode text with
  | .ok (v, store) =>
    set { r with store }
    return v
  | .error fault => throw (.unreadable fault)

end Work

end Grimoire
