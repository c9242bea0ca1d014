import Grimoire.Number.Basic
import Grimoire.Text.Basic

/-!
# Decimal texts of numbers

A finite number is written with the fewest digits that read back as the same number, and of those
with the digits nearest to it. `Decimal.shortest` finds them; `Layout` says how they are laid out.
Reading is the other direction: the double nearest to a decimal.
-/

namespace Grimoire

/-- The number `digits · 10 ^ exponent`. -/
structure Decimal where
  digits : Nat
  exponent : Int
  deriving DecidableEq, Repr

/-- Which of two equally near neighbours is taken. -/
inductive Tie where
  | up
  | even
  deriving DecidableEq, Repr

namespace Decimal

/-- A one with `n` zeros. -/
def powerOfTen (n : Nat) : Nat :=
  Nat.pow 10 n

/-! ## Shortest digits -/

/-- The greatest `t` with `10 ^ t ≤ num / den`, for a positive quotient. -/
def floorLog10 (num den : Nat) : Int :=
  if den ≤ num then ((Nat.toDigits 10 (num / den)).length - 1 : Nat)
  else
    let needed := (den + num - 1) / num
    Int.negOfNat (Nat.toDigits 10 (needed - 1)).length

/-- The interval of the quotients that round to one double, with the double itself: the three
quotients have the denominator `den`. The ends belong to it when `closed`. -/
structure Interval where
  low : Nat
  value : Nat
  high : Nat
  den : Nat
  closed : Bool

/-- The interval around a positive double. The next smaller double is only half as far away as the
next larger one when the mantissa is the least of its size. -/
def Interval.around (d : Dyadic) : Interval :=
  let atEdge := d.mantissa == Dyadic.leadingBit && Dyadic.leastExponent < d.exponent
  let low := 4 * d.mantissa - (if atEdge then 1 else 2)
  let high := 4 * d.mantissa + 2
  let closed := d.mantissa % 2 == 0
  if 2 ≤ d.exponent then
    let places := (d.exponent - 2).toNat
    ⟨low <<< places, (4 * d.mantissa) <<< places, high <<< places, 1, closed⟩
  else
    ⟨low, 4 * d.mantissa, high, 1 <<< (2 - d.exponent).toNat, closed⟩

/-- The interval with every number divided by `10 ^ p`. -/
def Interval.shift (i : Interval) (p : Int) : Interval :=
  if 0 ≤ p then { i with den := i.den * powerOfTen p.toNat }
  else
    let scale := powerOfTen (-p).toNat
    { i with low := i.low * scale, value := i.value * scale, high := i.high * scale }

/-- Whether a whole number lies in the interval. -/
def Interval.holds (i : Interval) (n : Nat) : Bool :=
  if i.closed then i.low ≤ n * i.den && n * i.den ≤ i.high
  else i.low < n * i.den && n * i.den < i.high

/-- The whole number in the interval that is nearest to its value, if one of the value's two
neighbours is in it. -/
def Interval.nearest? (i : Interval) (tie : Tie) : Option Nat :=
  let below := i.value / i.den
  let above := below + 1
  let twice := 2 * (i.value % i.den)
  let preferAbove :=
    if twice < i.den then false
    else if i.den < twice then true
    else match tie with
      | .up => true
      | .even => below % 2 == 1
  match i.holds below, i.holds above with
  | true, true => some (if preferAbove then above else below)
  | true, false => some below
  | false, true => some above
  | false, false => none

/-- Drops the zeros at the end of the digits. -/
def normalizeFrom : Nat → Decimal → Decimal
  | 0, d => d
  | bound + 1, d =>
    if d.digits != 0 && d.digits % 10 == 0 then
      normalizeFrom bound ⟨d.digits / 10, d.exponent + 1⟩
    else d

/-- Drops the zeros at the end of the digits. -/
def normalize (d : Decimal) : Decimal :=
  normalizeFrom (d.digits.log2 + 1) d

/-- Looks for a decimal in the interval with `count` digits, then with one more, `bound` times. -/
def search (i : Interval) (tie : Tie) (top : Int) : Nat → Nat → Decimal
  | 0, count => ⟨(i.shift (top + 1 - count)).value / (i.shift (top + 1 - count)).den,
      top + 1 - count⟩
  | bound + 1, count =>
    let p : Int := top + 1 - count
    match (i.shift p).nearest? tie with
    | some n => ⟨n, p⟩
    | none => search i tie top bound (count + 1)

/-- The decimal with the fewest digits that rounds to a positive double, and of those the nearest.
Seventeen digits always suffice. -/
def shortest (tie : Tie) (d : Dyadic) : Decimal :=
  let i := Interval.around d
  normalize (search i tie (floorLog10 i.value i.den) 17 1)

/-! ## Layouts -/

/-- The digits with a point put at its place, without exponent. -/
def positional (d : Decimal) : Text :=
  let digits := Text.ofNat d.digits
  if 0 ≤ d.exponent then digits ++ List.replicate d.exponent.toNat '0'
  else
    let places := (-d.exponent).toNat
    let padded := Text.padZeros (places + 1) digits
    let whole := padded.length - places
    padded.take whole ++ '.' :: padded.drop whole

/-- The exponent of the leading digit. -/
def leading (d : Decimal) : Int :=
  d.exponent + ((Text.ofNat d.digits).length - 1 : Nat)

/-- One digit before the point, and the exponent with its sign. -/
def scientific (d : Decimal) : Text :=
  let e := d.leading
  let mantissa := match Text.ofNat d.digits with
    | first :: second :: more => first :: '.' :: second :: more
    | digits => digits
  mantissa ++ 'e' :: (if e < 0 then '-' else '+') :: Text.ofNat e.natAbs

end Decimal

namespace Number

/-- How numbers are laid out in one kind of text. -/
structure Layout where
  nan : Text
  infinity : Text
  negativeInfinity : Text
  zero : Text
  negativeZero : Text
  tie : Tie
  /-- The text of a positive decimal. -/
  finite : Decimal → Text

/-- The text of a number in a layout. -/
def Layout.write (l : Layout) (x : Number) : Text :=
  match Dyadic.ofFloat? x with
  | none => if isNaN x then l.nan else if isSigned x then l.negativeInfinity else l.infinity
  | some d =>
    if d.mantissa = 0 then if d.negative then l.negativeZero else l.zero
    else
      let digits := l.finite (Decimal.shortest l.tie d)
      if d.negative then '-' :: digits else digits

/-- The display of numbers in the language: never an exponent, and zero without sign. -/
def displayLayout : Layout where
  nan := "NaN".toList
  infinity := "Infinity".toList
  negativeInfinity := "-Infinity".toList
  zero := "0".toList
  negativeZero := "0".toList
  tie := .up
  finite := Decimal.positional

/-- The text of numbers inside messages: zero keeps its sign and infinity is short. -/
def messageLayout : Layout :=
  { displayLayout with
    infinity := "inf".toList
    negativeInfinity := "-inf".toList
    negativeZero := "-0".toList }

/-- The display text of a number. -/
def display (x : Number) : Text :=
  displayLayout.write x

/-- The text of a number inside a message. -/
def inMessage (x : Number) : Text :=
  messageLayout.write x

/-! ## Reading -/

/-- The value of a list of decimal digits. -/
def digitsValue (digits : Text) : Nat :=
  digits.foldl (fun n c => n * 10 + (c.toNat - '0'.toNat)) 0

/-- The number nearest to `± digits · 10 ^ exponent`. Decimals far outside the range of doubles
are zero or infinite without being worked out. -/
def ofDecimal (negative : Bool) (digits : Text) (exponent : Int) : Number :=
  let value := digitsValue digits
  if value = 0 then withSign negative 0
  else if exponent + digits.length < -400 then withSign negative 0
  else if 400 < exponent then withSign negative infinity
  else if 0 ≤ exponent then Dyadic.nearest negative (value * Decimal.powerOfTen exponent.toNat) 1
  else Dyadic.nearest negative value (Decimal.powerOfTen (-exponent).toNat)

/-- Splits a sign off a text. -/
def splitSign : Text → Bool × Text
  | '-' :: rest => (true, rest)
  | '+' :: rest => (false, rest)
  | s => (false, s)

/-- The value of an exponent: an `e` in either case, an optional sign and at least one digit; no
text at all is zero. -/
def readExponent? : Text → Option Int
  | [] => some 0
  | c :: rest =>
    let (negative, digits) := splitSign rest
    if (c = 'e' ∨ c = 'E') ∧ digits ≠ [] ∧ digits.all Char.isDigit then
      let value : Int := digitsValue digits
      some (if negative then -value else value)
    else none

/-- Reads a number: an optional sign, digits with an optional point among, before or after them,
and an optional exponent. -/
def read? (s : Text) : Option Number := do
  let (negative, body) := splitSign s
  let whole := body.takeWhile Char.isDigit
  let afterWhole := body.dropWhile Char.isDigit
  let (fraction, afterFraction) := match afterWhole with
    | '.' :: rest => (rest.takeWhile Char.isDigit, rest.dropWhile Char.isDigit)
    | rest => ([], rest)
  if whole.isEmpty && fraction.isEmpty then none
  let exponent ← readExponent? afterFraction
  return ofDecimal negative (whole ++ fraction) (exponent - fraction.length)

/-- The number that a text stands for where a number is wanted: blank text is zero, infinities are
spelled out, and any other text that is not a number is NaN. -/
def ofText (s : Text) : Number :=
  let trimmed := s.trim
  if trimmed.isEmpty then 0
  else if trimmed = "Infinity".toList ∨ trimmed = "+Infinity".toList then infinity
  else if trimmed = "-Infinity".toList then negate infinity
  else (read? trimmed).getD nan

end Number

end Grimoire
