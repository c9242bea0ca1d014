import Grimoire.Number.Dyadic

/-!
# Numbers

The numbers of the language are doubles. This module has the operations beyond `+ - * /`: rounding,
remainders, powers, bounds, conversion from and to whole numbers, and the total order used for
sorting.
-/

namespace Grimoire

/-- The numbers of the language. -/
abbrev Number := Float

namespace Number

/-- Not a number. -/
def nan : Number := Float.ofBits 0x7FF8000000000000

/-- Positive infinity. -/
def infinity : Number := Float.ofBits 0x7FF0000000000000

/-- Negative zero: the sum of no numbers. -/
def negativeZero : Number := Float.ofBits 0x8000000000000000

/-- Whether a number is neither infinite nor NaN. -/
def isFinite (x : Number) : Bool :=
  (Dyadic.ofFloat? x).isSome

/-- Whether a number is NaN. -/
def isNaN (x : Number) : Bool :=
  x != x

/-- Whether the sign bit is set. -/
def isSigned (x : Number) : Bool :=
  Dyadic.signBit x

/-- The number nearest to a count. Counts below `2 ^ 53` are numbers themselves. -/
def ofNat (n : Nat) : Number :=
  if n < 2 * Dyadic.leadingBit then (UInt64.ofNat n).toFloat else Dyadic.nearest false n 1

/-- The number nearest to an integer. -/
def ofInt (i : Int) : Number :=
  Dyadic.nearest (i < 0) i.natAbs 1

/-- The number with its sign set as given. -/
def withSign (negative : Bool) (x : Number) : Number :=
  Dyadic.floatOfBits negative (Dyadic.bits x % Dyadic.signUnit)

/-- The magnitude of a number. -/
def abs (x : Number) : Number :=
  withSign false x

/-- The number with the opposite sign. -/
def negate (x : Number) : Number :=
  withSign (!isSigned x) x

/-- Rounds toward zero to an integer; NaN and the infinities give zero. -/
def truncate (x : Number) : Int :=
  ((Dyadic.ofFloat? x).map Dyadic.truncate).getD 0

/-- Rounds down to an integer; NaN and the infinities give zero. -/
def floorInt (x : Number) : Int :=
  ((Dyadic.ofFloat? x).map Dyadic.floor).getD 0

/-- Whether a number is finite and whole. -/
def isWhole (x : Number) : Bool :=
  (Dyadic.ofFloat? x).any Dyadic.isWhole

/-- Rounds down. Whole numbers, infinities and NaN stay, so a zero keeps its sign. -/
def floor (x : Number) : Number :=
  match Dyadic.ofFloat? x with
  | none => x
  | some d => if d.isWhole then x else ofInt d.floor

/-- Rounds up. -/
def ceil (x : Number) : Number :=
  negate (floor (negate x))

/-- Rounds to the nearest whole number, a half upward. -/
def roundHalfUp (x : Number) : Number :=
  floor (x + 0.5)

/-- The remainder of a division rounded toward zero. It is exact and has the sign of the
dividend. -/
def remainder (x y : Number) : Number :=
  match Dyadic.ofFloat? x, Dyadic.ofFloat? y with
  | some a, some b =>
    if b.mantissa = 0 then nan
    else
      let exponent := min a.exponent b.exponent
      let dividend := a.mantissa <<< (a.exponent - exponent).toNat
      let divisor := b.mantissa <<< (b.exponent - exponent).toNat
      Dyadic.toFloat ⟨a.negative, dividend % divisor, exponent⟩
  | some _, none => if isNaN y then nan else x
  | none, _ => nan

/-- The power. -/
def power (x y : Number) : Number :=
  Float.pow x y

/-- The smaller of two numbers, the second of two equal ones; the other one when one is NaN. -/
def smaller (x y : Number) : Number :=
  if x < y || isNaN y then x else y

/-- The larger of two numbers, the second of two equal ones; the other one when one is NaN. -/
def larger (x y : Number) : Number :=
  if y < x || isNaN y then x else y

/-- `x` brought between `lo` and `hi`; the upper bound wins when the bounds cross, and any NaN gives
NaN. -/
def clamp (x lo hi : Number) : Number :=
  if isNaN x || isNaN lo || isNaN hi then nan else smaller hi (larger lo x)

/-- `x` carried from one interval to another by the line through the ends. -/
def remap (x fromLo fromHi toLo toHi : Number) : Number :=
  toLo + ((x - fromLo) / (fromHi - fromLo)) * (toHi - toLo)

/-- The place of a number in the total order of all doubles: negative numbers before positive
ones, negative zero before zero, positive NaN last. -/
def orderKey (x : Number) : Int :=
  let magnitude : Int := (Dyadic.bits x % Dyadic.signUnit : Nat)
  if isSigned x then -magnitude - 1 else magnitude

end Number

end Grimoire
