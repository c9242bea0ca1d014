import Grimoire.Number.Basic
import Grimoire.Text.Basic

/-!
# JSON documents
-/

namespace Grimoire

/-- A JSON document. The members of an object keep their order. -/
inductive Json where
  | null
  | boolean (b : Bool)
  | number (x : Number)
  | string (text : Text)
  | array (elements : List Json)
  | object (members : List (Text × Json))

end Grimoire
