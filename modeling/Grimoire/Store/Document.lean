import Grimoire.Fault
import Grimoire.Json.Reader
import Grimoire.Json.Writer
import Grimoire.Store

/-!
# Values as JSON documents

Every value but a shape or a module has a document. An absent value is null and drops out of
objects, a timestamp becomes a string, and numbers that are not finite become null.
-/

namespace Grimoire

namespace Store

/-! ## From values to documents -/

/-- The document of a value nested in at most `depth` more containers. -/
def documentWithin (s : Store) : Nat → Value → Except TypeFault Json
  | _, .undefined => .ok .null
  | _, .boolean b => .ok (.boolean b)
  | _, .string text => .ok (.string text)
  | _, .number x => .ok (if x.isFinite then .number x else .null)
  | _, .timestamp t => .ok (.string t.isoText)
  | _, .shape _ => .error (.notEncodable .shape)
  | _, .module _ => .error (.notEncodable .module)
  | 0, .sequence _ => .ok (.array [])
  | 0, .tome _ => .ok (.object [])
  | depth + 1, .sequence cell => do
    return .array (← (s.items cell).mapM (s.documentWithin depth))
  | depth + 1, .tome cell => do
    let present := (s.entries cell).entries.filter fun entry => entry.2 ≠ .undefined
    return .object (← present.mapM fun entry =>
      return (entry.1, ← s.documentWithin depth entry.2))

/-- The document of a value. -/
def document (s : Store) (v : Value) : Except TypeFault Json :=
  s.documentWithin s.cells v

/-- The JSON text of a value. -/
def encode (s : Store) (v : Value) : Except TypeFault Text :=
  (s.document v).map Json.write

/-! ## From documents to values -/

mutual

/-- Builds the value of a document in fresh cells. A name that occurs twice in an object keeps its
first place and its last value. -/
def build : Json → Store → Value × Store
  | .null, s => (.undefined, s)
  | .boolean b, s => (.boolean b, s)
  | .number x, s => (.number x, s)
  | .string text, s => (.string text, s)
  | .array elements, s =>
    let (items, s) := buildElements elements s
    s.newSequence items
  | .object members, s =>
    let (entries, s) := buildMembers members s
    s.newTome (.ofList entries)

/-- Builds the values of the elements of an array. -/
def buildElements : List Json → Store → List Value × Store
  | [], s => ([], s)
  | element :: rest, s =>
    let (item, s) := build element s
    let (items, s) := buildElements rest s
    (item :: items, s)

/-- Builds the values of the members of an object. -/
def buildMembers : List (Text × Json) → Store → List (Text × Value) × Store
  | [], s => ([], s)
  | (name, value) :: rest, s =>
    let (v, s) := build value s
    let (entries, s) := buildMembers rest s
    ((name, v) :: entries, s)

end

/-- The value of a JSON text. -/
def decode (s : Store) (text : Text) : Except ReadingFault (Value × Store) :=
  match Json.read? text with
  | some json => .ok (build json s)
  | none => .error .invalidJson

end Store

end Grimoire
