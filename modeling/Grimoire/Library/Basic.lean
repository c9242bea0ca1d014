import Grimoire.Resources

/-!
# Libraries

A library is a table of native functions under a path such as `std/array`. A call checks the number
of arguments before anything else. The registry knows the libraries a script may summon; the table
of a library is set up when it is first summoned and shared afterwards.
-/

namespace Grimoire

/-! ## Arity -/

/-- How many arguments a function takes. -/
inductive Arity where
  /-- Exactly so many. -/
  | exactly (count : Nat)
  /-- At least so many, and at most so many if there is a limit. -/
  | between (least : Nat) (most : Option Nat)
  deriving DecidableEq, Repr

namespace Arity

/-- Whether a number of arguments is right. -/
def accepts : Arity → Nat → Bool
  | exactly n, count => n == count
  | between least most, count => least ≤ count && most.all (count ≤ ·)

/-- An arity in words. -/
def describe : Arity → Text
  | exactly 1 => "1 argument".toList
  | exactly n => Text.ofNat n ++ " arguments".toList
  | between least (some most) =>
    Text.ofNat least ++ "..=".toList ++ Text.ofNat most ++ " arguments".toList
  | between least none => Text.ofNat least ++ " or more arguments".toList

end Arity

/-! ## Functions and libraries -/

/-- A native function. -/
structure NativeFunction where
  name : Text
  arity : Arity
  run : List Value → Work Value

/-- A table of native functions with the path under which scripts find it. -/
structure Library where
  path : Text
  functions : List NativeFunction

namespace Library

/-- The names of the functions, in alphabetic order. -/
def functionNames (l : Library) : List Text :=
  (l.functions.map (·.name)).mergeSort fun a b => Text.compare a b != .gt

/-- The function with a name. -/
def function? (l : Library) (name : Text) : Option NativeFunction :=
  l.functions.find? (·.name == name)

/-- Calls a function by name. -/
def call (l : Library) (name : Text) (args : List Value) : Work Value :=
  match l.function? name with
  | none => Work.fail (.unknownFunction l.path name)
  | some f =>
    if f.arity.accepts args.length then f.run args
    else Work.fail (.wrongArity (l.path ++ '.' :: name) f.arity.describe args.length)

end Library

/-! ## The registry -/

/-- A library together with the name that tells its table from others. -/
structure Summoned where
  name : ModuleName
  library : Library

/-- The libraries that scripts may summon and those summoned so far. `editions` counts the
registrations. -/
structure Registry where
  known : Table Summoned
  loaded : Table Summoned
  editions : Nat

namespace Registry

/-- The registry without libraries. -/
def empty : Registry :=
  ⟨.empty, .empty, 0⟩

/-- Makes a library known. A table set up for the path before is given up. -/
def register (r : Registry) (library : Library) : Registry where
  known := r.known.insert library.path ⟨⟨library.path, r.editions⟩, library⟩
  loaded := r.loaded.erase library.path
  editions := r.editions + 1

/-- The paths of the known libraries, in alphabetic order. -/
def paths (r : Registry) : List Text :=
  r.known.keys.mergeSort fun a b => Text.compare a b != .gt

/-- The table of a library, set up if it is not there yet. -/
def load (r : Registry) (path : Text) : Except Fault (Summoned × Registry) :=
  match r.loaded.get? path with
  | some summoned => .ok (summoned, r)
  | none =>
    match r.known.get? path with
    | some summoned => .ok (summoned, { r with loaded := r.loaded.insert path summoned })
    | none => .error (.unknownModule path)

end Registry

/-- The alias of a library that is summoned without one: the last part of its path. -/
def defaultAlias (path : Text) : Text :=
  ((Text.splitOn '/' path).getLast?).getD path

end Grimoire
