/-!
# Doubles as dyadic numbers

A finite double is a sign, a whole mantissa and a power of two. Everything that has to be exact
(rounding to whole numbers, remainders, digits, reading) goes through this form, and goes back by
rounding an exact quotient to the nearest double, a tie to the even mantissa.
-/

namespace Grimoire

/-- The number `± mantissa · 2 ^ exponent`. -/
structure Dyadic where
  negative : Bool
  mantissa : Nat
  exponent : Int
  deriving DecidableEq, Repr

namespace Dyadic

/-- The exponent of the smallest doubles. -/
def leastExponent : Int := -1074

/-- The value of the mantissa's leading bit, `2 ^ 52`. All but the smallest doubles have it. -/
def leadingBit : Nat := 4503599627370496

/-- The value of the sign bit, `2 ^ 63`. The bits below it are the magnitude. -/
def signUnit : Nat := 9223372036854775808

/-- The bits of a double as a natural number. -/
def bits (x : Float) : Nat :=
  x.toBits.toNat

/-- Whether the sign bit of a double is set. -/
def signBit (x : Float) : Bool :=
  signUnit ≤ bits x

/-- The exact value of a finite double; infinities and NaN have none. -/
def ofFloat? (x : Float) : Option Dyadic :=
  let biased := bits x / leadingBit % 2048
  let fraction := bits x % leadingBit
  if biased = 2047 then none
  else if biased = 0 then some ⟨signBit x, fraction, leastExponent⟩
  else some ⟨signBit x, fraction + leadingBit, leastExponent + (biased - 1 : Nat)⟩

/-- The double with the given sign and the bits of a magnitude. -/
def floatOfBits (negative : Bool) (magnitude : Nat) : Float :=
  Float.ofBits (UInt64.ofNat (if negative then magnitude + signUnit else magnitude))

/-- The bits of positive infinity. -/
def infinityBits : Nat := 2047 * leadingBit

/-- Whether `num / den` is at least `2 ^ t`. -/
def reachesPower (num den : Nat) (t : Int) : Bool :=
  if 0 ≤ t then den <<< t.toNat ≤ num else den ≤ num <<< (-t).toNat

/-- The greatest `t` with `2 ^ t ≤ num / den`, for a positive quotient. -/
def floorLog2 (num den : Nat) : Int :=
  let t : Int := (Nat.log2 num : Int) - (Nat.log2 den : Int)
  if reachesPower num den t then t else t - 1

/-- The quotient `num / den` rounded to the nearest whole number, a tie to the even one. -/
def roundQuotient (num den : Nat) : Nat :=
  let q := num / den
  let twice := 2 * (num % den)
  if twice < den then q else if den < twice then q + 1 else q + q % 2

/-- The bits of the double nearest to `num / den`. -/
def nearestBits (num den : Nat) : Nat :=
  if num = 0 then 0
  else
    let exponent := max leastExponent (floorLog2 num den - 52)
    let mantissa :=
      if 0 ≤ exponent then roundQuotient num (den <<< exponent.toNat)
      else roundQuotient (num <<< (-exponent).toNat) den
    min infinityBits ((exponent - leastExponent).toNat * leadingBit + mantissa)

/-- The double nearest to `± num / den`. -/
def nearest (negative : Bool) (num den : Nat) : Float :=
  floatOfBits negative (nearestBits num den)

/-- The double nearest to a dyadic number. -/
def toFloat (d : Dyadic) : Float :=
  if 0 ≤ d.exponent then nearest d.negative (d.mantissa <<< d.exponent.toNat) 1
  else nearest d.negative d.mantissa (1 <<< (-d.exponent).toNat)

/-- The magnitude rounded down to a whole number. -/
def wholePart (d : Dyadic) : Nat :=
  if 0 ≤ d.exponent then d.mantissa <<< d.exponent.toNat
  else d.mantissa >>> (-d.exponent).toNat

/-- Whether the number is whole. -/
def isWhole (d : Dyadic) : Bool :=
  0 ≤ d.exponent || d.mantissa % (1 <<< (-d.exponent).toNat) == 0

/-- The number rounded toward zero. -/
def truncate (d : Dyadic) : Int :=
  if d.negative then -(d.wholePart : Int) else d.wholePart

/-- The number rounded down. -/
def floor (d : Dyadic) : Int :=
  if d.negative && !d.isWhole then d.truncate - 1 else d.truncate

end Dyadic

end Grimoire
