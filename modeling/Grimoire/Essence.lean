import Grimoire.Text.Basic

/-!
# Essences

The nine kinds of value, under the names that scripts see.
-/

namespace Grimoire

/-- The kinds of value. -/
inductive Essence where
  | string
  | number
  | boolean
  | array
  | tome
  | date
  | shape
  | module
  | null
  deriving DecidableEq, Repr

/-- The name of a kind. -/
def Essence.name : Essence → Text
  | .string => "string".toList
  | .number => "number".toList
  | .boolean => "boolean".toList
  | .array => "array".toList
  | .tome => "tome".toList
  | .date => "date".toList
  | .shape => "shape".toList
  | .module => "module".toList
  | .null => "null".toList

end Grimoire
