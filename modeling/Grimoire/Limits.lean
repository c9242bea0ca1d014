/-!
# Limits of the language
-/

namespace Grimoire

/-- The longest text, in characters, that repetition and padding build. -/
def maxTextLength : Nat := 16777216

/-- The longest sequence that a span produces. -/
def maxSpanLength : Nat := 1000000

/-- The largest number of parameters of a shape. -/
def maxShapeParameters : Nat := 3

end Grimoire
