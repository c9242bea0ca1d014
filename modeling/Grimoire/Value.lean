import Grimoire.Calendar.Timestamp
import Grimoire.Essence

/-!
# Values

The values that scripts compute with. Sequences and tomes are shared: a value holds only the name
of the cell in the store where the elements are, so every variable bound to the same container sees
what is done to it.
-/

namespace Grimoire

/-- A function of one to three parameters. The body stays text until the shape is called. -/
structure Shape where
  parameters : List Text
  body : Text
  deriving DecidableEq, Repr

/-- A module that a script can summon: the path it was found under and the edition of its table.
Two tables of one path are told apart by their editions. -/
structure ModuleName where
  path : Text
  edition : Nat
  deriving DecidableEq, Repr

/-- The values of the language. -/
inductive Value where
  | string (text : Text)
  | number (x : Number)
  | boolean (b : Bool)
  /-- The sequence in a cell. -/
  | sequence (cell : Nat)
  /-- The tome in a cell. -/
  | tome (cell : Nat)
  | timestamp (t : Timestamp)
  | shape (s : Shape)
  | module (m : ModuleName)
  | undefined
  deriving DecidableEq, Repr

namespace Value

instance : Inhabited Value := ⟨undefined⟩

/-- The kind of a value. -/
def essence : Value → Essence
  | string _ => .string
  | number _ => .number
  | boolean _ => .boolean
  | sequence _ => .array
  | tome _ => .tome
  | timestamp _ => .date
  | shape _ => .shape
  | module _ => .module
  | undefined => .null

/-- Whether two values are the same container. -/
def sameCell : Value → Value → Bool
  | sequence a, sequence b => a == b
  | tome a, tome b => a == b
  | _, _ => false

end Value

end Grimoire
