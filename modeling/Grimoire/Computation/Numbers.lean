import Grimoire.Library.Standard
import Grimoire.Operands

/-!
# Computations on numbers and dates
-/

namespace Grimoire

namespace Computation

/-! ## Numbers -/

/-- A function of a number. -/
def onNumber (f : Number → Number) (g : Groups) : Eval Value := do
  return .number (f (← g.number 1))

/-- A function of two numbers. -/
def onNumbers (f : Number → Number → Number) (g : Groups) : Eval Value := do
  let x ← g.number 1
  return .number (f x (← g.number 2))

/-- A number brought between two bounds. -/
def clamped (g : Groups) : Eval Value := do
  let x ← g.number 1
  let lo ← g.number 2
  return .number (x.clamp lo (← g.number 3))

/-- A number carried from one interval to another. -/
def remapped (g : Groups) : Eval Value := do
  let x ← g.number 1
  let fromLo ← g.number 2
  let fromHi ← g.number 3
  let toLo ← g.number 4
  return .number (x.remap fromLo fromHi toLo (← g.number 5))

/-- A number drawn between two bounds. -/
def floatDrawn (g : Groups) : Eval Value := do
  let a ← g.number 1
  let b ← g.number 2
  let lo := a.smaller b
  return .number ((← Work.draw Xorshift.nextUnit) * (a.larger b - lo) + lo)

/-! ## Dates -/

/-- The time at Greenwich. -/
def now : Eval Value := do
  return .timestamp (← (get : Work Resources)).clock.utc

/-- The date that a literal text stands for under a literal pattern. -/
def timeDecoded (g : Groups) : Eval Value := do
  return .timestamp (← Work.parseTime (g.text 1) (g.text 2))

/-- A function of a date that gives a date. -/
def onDate (f : Timestamp → Timestamp) (g : Groups) : Eval Value := do
  return .timestamp (f (← g.date 1))

/-- A function of two dates that gives a number. -/
def onDates (f : Timestamp → Timestamp → Number) (g : Groups) : Eval Value := do
  let a ← g.date 1
  return .number (f a (← g.date 2))

/-- A date written under a literal pattern. -/
def formatted (g : Groups) : Eval Value := do
  return .string ((← g.date 1).format (g.text 2))

end Computation

end Grimoire
