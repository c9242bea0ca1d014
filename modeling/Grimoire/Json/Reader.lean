import Grimoire.Json.Basic
import Grimoire.Number.Decimal

/-!
# Reading JSON

The reader accepts the documents of RFC 8259 with blanks around every part. Arrays and objects may
be nested 127 deep. A number is read in two steps: the digits that fit in 64 bits are rounded to a
double, which is then multiplied or divided by a power of ten; digits beyond those only count as
places. A number too large for a double is refused and one too small is zero.
-/

namespace Grimoire

namespace Json

/-- How deep arrays and objects may be nested. -/
def maxDepth : Nat := 127

/-- The blanks of the format. -/
def isSpace (c : Char) : Bool :=
  c == ' ' || c == '\t' || c == '\n' || c == '\r'

/-- Drops the blanks at the start. -/
def skipSpace (s : Text) : Text :=
  s.dropWhile isSpace

/-! ## Numbers -/

/-- The greatest significand. -/
def maxSignificand : Nat := 18446744073709551615

/-- Adds digits to a significand until the next one does not fit; gives the digits left over. -/
def gather (significand : Nat) : Text → Nat × Text
  | [] => (significand, [])
  | c :: rest =>
    let next := significand * 10 + Number.digitsValue [c]
    if next ≤ maxSignificand then gather next rest else (significand, c :: rest)

/-- The double nearest to a power of ten. -/
def powerOfTen (n : Nat) : Number :=
  Number.ofNat (Decimal.powerOfTen n)

/-- A significand scaled by a power of ten; `none` when the result is infinite. -/
def scale? (significand : Nat) (exponent : Int) : Option Number :=
  let x := Number.ofNat significand
  if 308 < exponent then if significand = 0 then some 0 else none
  else if 0 ≤ exponent then
    let scaled := x * powerOfTen exponent.toNat
    if scaled.isFinite then some scaled else none
  else if -308 ≤ exponent then some (x / powerOfTen (-exponent).toNat)
  else if -616 ≤ exponent then some (x / powerOfTen 308 / powerOfTen (-exponent - 308).toNat)
  else some 0

/-- The greatest exponent that is worked out. -/
def maxExponent : Int := 2147483647

/-- Takes an exponent, if one is there; its value, or `none` if it has no digits. -/
def takeExponent? (s : Text) : Option (Option Int × Text) :=
  match s with
  | c :: rest =>
    if c = 'e' ∨ c = 'E' then
      let (negative, body) := Number.splitSign rest
      let digits := body.takeWhile Char.isDigit
      let value : Int := Number.digitsValue digits
      if digits.isEmpty then none
      else some (some (if negative then -value else value), body.dropWhile Char.isDigit)
    else some (none, s)
  | [] => some (none, [])

/-- Takes the digits after a point, if there is one; there have to be some. -/
def takeFraction? (s : Text) : Option (Option Text × Text) :=
  match s with
  | '.' :: rest =>
    let digits := rest.takeWhile Char.isDigit
    if digits.isEmpty then none else some (some digits, rest.dropWhile Char.isDigit)
  | _ => some (none, s)

/-- The magnitude of a number from its digits before and after the point and its exponent. -/
def magnitude? (whole : Text) (fraction : Option Text) (exponent : Option Int) : Option Number :=
  let (significand, dropped) := gather 0 whole
  match fraction, exponent with
  | none, none =>
    if dropped.isEmpty then some (Number.ofNat significand) else scale? significand dropped.length
  | _, _ =>
    let digits := fraction.getD []
    let (significand, left) := gather significand digits
    let places : Int := (dropped.length : Int) - (digits.length - left.length : Nat)
    match exponent with
    | none => scale? significand places
    | some e =>
      if maxExponent < e then if significand = 0 then some 0 else none
      else if e < -maxExponent then some 0
      else scale? significand (places + e)

/-- Takes a number. -/
def takeNumber? (s : Text) : Option (Number × Text) := do
  let (negative, body) := match s with
    | '-' :: rest => (true, rest)
    | _ => (false, s)
  let whole := body.takeWhile Char.isDigit
  if whole.isEmpty || (1 < whole.length && whole.head? == some '0') then none
  let (fraction, afterFraction) ← takeFraction? (body.dropWhile Char.isDigit)
  let (exponent, rest) ← takeExponent? afterFraction
  let x ← magnitude? whole fraction exponent
  return (if negative then x.negate else x, rest)

/-! ## Strings -/

/-- The value of a digit of base sixteen, in either case. -/
def hexValue? (c : Char) : Option Nat :=
  if c.isDigit then some (c.toNat - '0'.toNat)
  else if 'a' ≤ c ∧ c ≤ 'f' then some (c.toNat - 'a'.toNat + 10)
  else if 'A' ≤ c ∧ c ≤ 'F' then some (c.toNat - 'A'.toNat + 10)
  else none

/-- The value of four digits of base sixteen. -/
def hexQuad? (a b c d : Char) : Option Nat := do
  return (((← hexValue? a) * 16 + (← hexValue? b)) * 16 + (← hexValue? c)) * 16 + (← hexValue? d)

/-- The character of an escape with one letter. -/
def shortEscape? : Char → Option Char
  | '"' => some '"'
  | '\\' => some '\\'
  | '/' => some '/'
  | 'b' => some '\x08'
  | 'f' => some '\x0c'
  | 'n' => some '\n'
  | 'r' => some '\r'
  | 't' => some '\t'
  | _ => none

/-- Takes the rest of a string after its opening quote; `done` holds the characters read,
reversed. A pair of surrogate escapes is one character, and half of a pair is refused. -/
def takeString? (done : Text) : Text → Option (Text × Text)
  | [] => none
  | '"' :: rest => some (done.reverse, rest)
  | '\\' :: 'u' :: a :: b :: c :: d :: rest =>
    match hexQuad? a b c d with
    | none => none
    | some unit =>
      if 0xDC00 ≤ unit ∧ unit ≤ 0xDFFF then none
      else if 0xD800 ≤ unit ∧ unit ≤ 0xDBFF then
        match rest with
        | '\\' :: 'u' :: e :: f :: g :: h :: rest =>
          match hexQuad? e f g h with
          | none => none
          | some low =>
            if 0xDC00 ≤ low ∧ low ≤ 0xDFFF then
              let c := Char.ofNat (0x10000 + (unit - 0xD800) * 0x400 + (low - 0xDC00))
              takeString? (c :: done) rest
            else none
        | _ => none
      else takeString? (Char.ofNat unit :: done) rest
  | '\\' :: c :: rest =>
    match shortEscape? c with
    | none => none
    | some c => takeString? (c :: done) rest
  | c :: rest => if c.toNat < 0x20 ∨ c = '\\' then none else takeString? (c :: done) rest

/-! ## Documents -/

/-- Takes a literal name. -/
def takeLiteral? (name : Text) (s : Text) : Option Text :=
  if name.isPrefixOf s then some (s.drop name.length) else none

mutual

/-- Takes a document after blanks. `fuel` bounds the number of steps and `depth` the nesting. -/
def takeValue? : Nat → Nat → Text → Option (Json × Text)
  | 0, _, _ => none
  | fuel + 1, depth, s =>
    match skipSpace s with
    | 'n' :: rest => (takeLiteral? "ull".toList rest).map fun left => (null, left)
    | 't' :: rest => (takeLiteral? "rue".toList rest).map fun left => (boolean true, left)
    | 'f' :: rest => (takeLiteral? "alse".toList rest).map fun left => (boolean false, left)
    | '"' :: rest => (takeString? [] rest).map fun (text, left) => (string text, left)
    | '[' :: rest =>
      match depth with
      | 0 => none
      | depth + 1 =>
        match skipSpace rest with
        | ']' :: left => some (array [], left)
        | _ => (takeElements? fuel depth [] rest).map fun (es, left) => (array es, left)
    | '\x7b' :: rest =>
      match depth with
      | 0 => none
      | depth + 1 =>
        match skipSpace rest with
        | '\x7d' :: left => some (object [], left)
        | _ => (takeMembers? fuel depth [] rest).map fun (ms, left) => (object ms, left)
    | s => (takeNumber? s).map fun (x, left) => (number x, left)

/-- Takes the elements of an array and its closing bracket; `done` holds those read, reversed. -/
def takeElements? : Nat → Nat → List Json → Text → Option (List Json × Text)
  | 0, _, _, _ => none
  | fuel + 1, depth, done, s =>
    match takeValue? fuel depth s with
    | none => none
    | some (element, rest) =>
      match skipSpace rest with
      | ',' :: rest => takeElements? fuel depth (element :: done) rest
      | ']' :: rest => some ((element :: done).reverse, rest)
      | _ => none

/-- Takes the members of an object and its closing brace; `done` holds those read, reversed. -/
def takeMembers? : Nat → Nat → List (Text × Json) → Text → Option (List (Text × Json) × Text)
  | 0, _, _, _ => none
  | fuel + 1, depth, done, s =>
    match skipSpace s with
    | '"' :: rest =>
      match takeString? [] rest with
      | none => none
      | some (name, rest) =>
        match skipSpace rest with
        | ':' :: rest =>
          match takeValue? fuel depth rest with
          | none => none
          | some (value, rest) =>
            match skipSpace rest with
            | ',' :: rest => takeMembers? fuel depth ((name, value) :: done) rest
            | '\x7d' :: rest => some (((name, value) :: done).reverse, rest)
            | _ => none
        | _ => none
    | _ => none

end

/-- Reads a document. Every step takes at least one character or is followed by one that does, so
twice the length of the text bounds the steps. -/
def read? (s : Text) : Option Json :=
  match takeValue? (2 * s.length + 2) maxDepth s with
  | some (document, rest) => if (skipSpace rest).isEmpty then some document else none
  | none => none

end Json

end Grimoire
