import Grimoire.Fault
import Grimoire.Nesting
import Grimoire.Value

/-!
# Expressions

What a value expression means, apart from the state in which it is evaluated.
-/

namespace Grimoire

/-- A value expression. -/
inductive Expr where
  /-- A literal text. -/
  | text (text : Text)
  | boolean (b : Bool)
  | number (x : Number)
  | sequence (items : List Expr)
  /-- A tome; a later entry under the same key replaces an earlier one. -/
  | tome (entries : List (Text × Expr))
  /-- A call of a library function through an alias. -/
  | invoke (name function : Text) (args : List Expr)
  /-- A variable or module alias, followed by the keys to go along. -/
  | path (root : Text) (steps : List Text)
  | shape (s : Shape)
  /-- Text that has the form of a shape and is none. -/
  | malformed (fault : ReadingFault)
  | binary (left : Expr) (op : Operator) (right : Expr)

end Grimoire
