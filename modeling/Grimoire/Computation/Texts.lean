import Grimoire.Operands
import Grimoire.Text.Shaping

/-!
# Computations on texts

Operands of these computations are taken by their display texts.
-/

namespace Grimoire

namespace Computation

/-- A function of a text. -/
def onText (f : Text → Text) (g : Groups) : Eval Value := do
  return .string (f (← g.display 1))

/-- Every occurrence of the first text in the second replaced by the third. -/
def replaced (g : Groups) : Eval Value := do
  let old ← g.display 1
  let source ← g.display 2
  return .string (Text.replace old (← g.display 3) source)

/-- Whether a test relates the literal text to the operand. -/
def literalTest (test : Text → Text → Bool) (g : Groups) : Eval Value := do
  return .boolean (test (g.text 2) (← g.display 1))

/-- A text repeated. -/
def chanted (g : Groups) : Eval Value := do
  let text ← g.display 1
  let times := (← g.integer 2).toNat
  return .string (← Work.ofRange (text.chant times))

/-- A part of a text, given by its start and its length. -/
def carved (g : Groups) : Eval Value := do
  let text ← g.display 1
  let start ← g.number 2
  return .string (text.carve start.truncate (← g.integer 3))

/-- How often the first text occurs in the second. -/
def counted (g : Groups) : Eval Value := do
  let needle ← g.display 1
  return .number (Number.ofNat (Text.occurrences needle (← g.display 2)))

/-- The lines of a text, each without the carriage return at its end. -/
def linesOf (g : Groups) : Eval Value := do
  let text ← g.display 1
  Work.newSequence ((Text.splitOn '\n' text).map fun line => .string line.dropReturn)

/-- The elements of an array as the lines of a text. -/
def joinedLines (g : Groups) : Eval Value := do
  let items ← g.items 1 "BindLines"
  return .string ((← Work.store).joinDisplay ['\n'] items)

/-- The elements of an array with a separator between them. -/
def woven (g : Groups) : Eval Value := do
  let v ← g.value 1
  let separator ← g.display 2
  let items ← Eval.itemsOf "Weave" v
  return .string ((← Work.store).joinDisplay separator items)

/-- Whether the second operand contains the first. -/
def containment (g : Groups) : Eval Value := do
  let needle ← g.value 1
  let haystack ← g.value 2
  return .boolean (Collection.contains (← Work.store) haystack needle)

/-- A text padded to a width; the fill is a space unless it is given. -/
def padded (side : Side) (g : Groups) : Eval Value := do
  let text ← g.display 1
  let width := (← g.integer 2).toNat
  let fill := (← g.ifPresent 3 Groups.display).getD [' ']
  return .string (← Work.ofRange (text.pad width fill side))

/-- The JSON text of a value. -/
def encoded (g : Groups) : Eval Value := do
  return .string (← Work.encode (← g.value 1))

/-- The value of a JSON text. -/
def decoded (g : Groups) : Eval Value := do
  Work.decode (← g.display 1)

end Computation

end Grimoire
