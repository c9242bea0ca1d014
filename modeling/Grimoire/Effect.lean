import Grimoire.Host
import Grimoire.Table
import Grimoire.Value

/-!
# Effects

A statement evaluates its operands first and then changes the machine by effects, one after the
other. Evaluation itself has no effect on names, existing containers or the host.
-/

namespace Grimoire

/-- A change of the machine. -/
inductive Effect where
  /-- Binds a global name. -/
  | bind (name : Text) (v : Value)
  /-- Binds a fresh global name for good. -/
  | bindSealed (name : Text) (v : Value)
  /-- Sets the entry at the end of a path of keys from a global name. -/
  | bindPath (root : Text) (steps : List Text) (v : Value)
  /-- Makes a library known under an alias, or else under its own name. -/
  | summon (path : Text) (nickname : Option Text)
  | setItems (cell : Nat) (items : List Value)
  | setEntries (cell : Nat) (entries : Table Value)
  | ask (request : Request)

end Grimoire
