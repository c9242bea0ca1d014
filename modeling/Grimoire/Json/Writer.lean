import Grimoire.Json.Basic
import Grimoire.Number.Decimal

/-!
# Writing JSON

Documents are written without any space. Inside strings the quote, the backslash and the control
characters are escaped and nothing else is. Whole numbers that doubles hold exactly are written as
integers; other numbers have the fewest digits that read back, with a point or an exponent.
-/

namespace Grimoire

namespace Json

/-! ## Numbers -/

/-- The layout of numbers that are not written as integers: a point and at least one digit after
it while the leading digit stands for `10 ^ -5` to `10 ^ 15`, and a signed exponent beyond. -/
def numberLayout : Number.Layout where
  nan := "null".toList
  infinity := "null".toList
  negativeInfinity := "null".toList
  zero := "0".toList
  negativeZero := "0".toList
  tie := .even
  finite d :=
    if -5 ≤ d.leading ∧ d.leading ≤ 15 then
      if 0 ≤ d.exponent then d.positional ++ ".0".toList else d.positional
    else d.scientific

/-- The greatest of the consecutive whole numbers that doubles hold. -/
def maxSafeInteger : Int := 9007199254740991

/-- The text of a number. -/
def writeNumber (x : Number) : Text :=
  let whole := x.truncate
  if x.isWhole ∧ -maxSafeInteger ≤ whole ∧ whole ≤ maxSafeInteger then Text.ofInt whole
  else numberLayout.write x

/-! ## Strings -/

/-- A digit of base sixteen. -/
def hexDigit (n : Nat) : Char :=
  Nat.digitChar n

/-- The text of a character inside a string. -/
def escapeChar (c : Char) : Text :=
  if c = '"' then ['\\', '"']
  else if c = '\\' then ['\\', '\\']
  else if c = '\n' then ['\\', 'n']
  else if c = '\r' then ['\\', 'r']
  else if c = '\t' then ['\\', 't']
  else if c = '\x08' then ['\\', 'b']
  else if c = '\x0c' then ['\\', 'f']
  else if c.toNat < 0x20 then
    ['\\', 'u', '0', '0', hexDigit (c.toNat / 16), hexDigit (c.toNat % 16)]
  else [c]

/-- The text of a string. -/
def writeString (text : Text) : Text :=
  '"' :: text.flatMap escapeChar ++ ['"']

/-! ## Documents -/

mutual

/-- The text of a document. -/
def write : Json → Text
  | null => "null".toList
  | boolean b => if b then "true".toList else "false".toList
  | number x => writeNumber x
  | string text => writeString text
  | array elements => '[' :: Text.join [','] (writeElements elements) ++ [']']
  | object members => '\x7b' :: Text.join [','] (writeMembers members) ++ ['\x7d']

/-- The texts of the elements of an array. -/
def writeElements : List Json → List Text
  | [] => []
  | element :: rest => write element :: writeElements rest

/-- The texts of the members of an object. -/
def writeMembers : List (Text × Json) → List Text
  | [] => []
  | (name, value) :: rest => (writeString name ++ ':' :: write value) :: writeMembers rest

end

end Json

end Grimoire
