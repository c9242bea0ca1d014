import Grimoire.Library.Basic

/-!
# Scopes

A scope is what an expression can name: the global variables, the aliases of summoned libraries and
the parameters of the shape that is being called. Evaluation reads a scope and never changes it.
-/

namespace Grimoire

/-- The names in force. -/
structure Scope where
  globals : Table Value := .empty
  /-- The global names that may not be bound again. -/
  sealedNames : List Text := []
  aliases : Table Summoned := .empty
  /-- The parameters of the shape calls in progress, the innermost first. -/
  frames : List (Table Value) := []

namespace Scope

instance : Inhabited Scope := ⟨{}⟩

/-- Whether a global name is sealed. -/
def isSealed (scope : Scope) (name : Text) : Bool :=
  scope.sealedNames.contains name

/-- The value of a variable: a parameter of the innermost call, or else a global variable. -/
def lookup? (scope : Scope) (name : Text) : Option Value :=
  (scope.frames.head?.bind (·.get? name)) <|> scope.globals.get? name

/-- The scope inside a call. -/
def enter (scope : Scope) (frame : Table Value) : Scope :=
  { scope with frames := frame :: scope.frames }

end Scope

/-! ## Paths -/

namespace Store

/-- What a value has under a key: the value of an entry, or a length. -/
def member (s : Store) (v : Value) (key : Text) : Value :=
  match v with
  | .tome cell => ((s.entries cell).get? key).getD .undefined
  | .sequence cell =>
    if key = "length".toList then .number (Number.ofNat (s.items cell).length) else .undefined
  | .string text =>
    if key = "length".toList then .number (Number.ofNat text.length) else .undefined
  | _ => .undefined

end Store

/-- The value at the end of a path: a variable and what it has under each key in turn. A name that
is no variable may be an alias, which has no members. -/
def Scope.follow (scope : Scope) (s : Store) (root : Text) (steps : List Text) : Value :=
  match scope.lookup? root with
  | some v => steps.foldl s.member v
  | none =>
    match scope.aliases.get? root, steps with
    | some summoned, [] => .module summoned.name
    | _, _ => .undefined

/-! ## Evaluation in a scope -/

/-- A computation that reads a scope, changes the resources and may fail. -/
abbrev Eval := ReaderT Scope Work

namespace Eval

/-- Fails. -/
def fail {α : Type} (fault : Fault) : Eval α :=
  throw fault

/-- Fails with a type fault. -/
def failType {α : Type} (fault : TypeFault) : Eval α :=
  throw (.wrongType fault)

/-- Calls a function of the library behind an alias. -/
def callLibrary (name function : Text) (args : List Value) : Eval Value := do
  match (← read).aliases.get? name with
  | some summoned => summoned.library.call function args
  | none => fail (.unknownModule name)

end Eval

end Grimoire
