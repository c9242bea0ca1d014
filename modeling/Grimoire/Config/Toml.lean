import Grimoire.Table

/-!
# Configuration texts

Configuration files are written in the flat part of TOML: one `key = value` to a line, with integers,
floats, booleans and strings as values, and comments after a number sign. A key may be set once.
-/

namespace Grimoire

/-- A value in a configuration file. Floats and booleans are told from the others and otherwise left
alone. -/
inductive Setting where
  | integer (i : Int)
  | string (text : Text)
  | other
  deriving DecidableEq, Repr

namespace Setting

/-! ## Characters -/

/-- The blanks between the parts of a line. -/
def isBlank (c : Char) : Bool :=
  c == ' ' || c == '\t'

/-- The characters of keys without quotes. -/
def isKeyChar (c : Char) : Bool :=
  c.isAlphanum || c == '_' || c == '-'

/-- Whether a character may stand in a string or a comment as it is. -/
def isPrintable (c : Char) : Bool :=
  c == '\t' || (0x20 ≤ c.toNat && c.toNat != 0x7F)

/-- The value of a digit. -/
def digitValue (c : Char) : Nat :=
  if c.isDigit then c.toNat - '0'.toNat else c.toLower.toNat - 'a'.toNat + 10

/-- Whether a character is a digit of base 2, 8, 10 or 16. -/
def isDigitOf (base : Nat) (c : Char) : Bool :=
  (c.isDigit || ('a' ≤ c.toLower && c.toLower ≤ 'f')) && digitValue c < base

/-! ## Numerals -/

/-- The digits of a text in which underscores stand between digits only. -/
def digits? (base : Nat) (s : Text) : Option Text :=
  let pieces := Text.splitOn '_' s
  if pieces.all fun piece => !piece.isEmpty && piece.all (isDigitOf base) then some pieces.flatten
  else none

/-- The number that digits stand for. -/
def natOf (base : Nat) (digits : Text) : Nat :=
  digits.foldl (fun n c => n * base + digitValue c) 0

/-- The number of a decimal numeral without a sign. It has no zero in front of other digits. -/
def decimal? (s : Text) : Option Nat := do
  let digits ← digits? 10 s
  if digits.head? = some '0' ∧ 1 < digits.length then none else some (natOf 10 digits)

/-- A text without the sign in front of it, and whether that is a minus. -/
def unsigned (s : Text) : Bool × Text :=
  match s with
  | '-' :: rest => (true, rest)
  | '+' :: rest => (false, rest)
  | _ => (false, s)

/-- The integer of a numeral. Only decimal numerals have a sign. -/
def integer? (s : Text) : Option Int :=
  match s with
  | '0' :: 'x' :: rest => (digits? 16 rest).map fun digits => natOf 16 digits
  | '0' :: 'o' :: rest => (digits? 8 rest).map fun digits => natOf 8 digits
  | '0' :: 'b' :: rest => (digits? 2 rest).map fun digits => natOf 2 digits
  | _ =>
    let (negative, body) := unsigned s
    (decimal? body).map fun n => if negative then -n else n

/-- Whether a text is the part of a float after its whole digits: a fraction, an exponent or
both. -/
def isFloatTail (s : Text) : Bool :=
  let isExponent (s : Text) : Bool :=
    match s with
    | [] => true
    | c :: rest => c.toLower == 'e' && (digits? 10 (unsigned rest).2).isSome
  match s with
  | '.' :: rest =>
    let fraction := rest.takeWhile fun c => c.toLower ≠ 'e'
    (digits? 10 fraction).isSome && isExponent (rest.drop fraction.length)
  | _ => !s.isEmpty && isExponent s

/-- Whether a text is a float. -/
def isFloat (s : Text) : Bool :=
  let body := (unsigned s).2
  let whole := body.takeWhile fun c => c ≠ '.' ∧ c.toLower ≠ 'e'
  body == "inf".toList || body == "nan".toList ||
    ((decimal? whole).isSome && isFloatTail (body.drop whole.length))

/-- The bound of the integers, `2 ^ 63`. -/
def integerBound : Nat := 9223372036854775808

/-- The value of a word: an integer of 64 bits, a float or a boolean. -/
def ofWord? (s : Text) : Option Setting :=
  match integer? s with
  | some i => if -integerBound ≤ i ∧ i < integerBound then some (integer i) else none
  | none =>
    if isFloat s || s == "true".toList || s == "false".toList then some other else none

/-! ## Strings -/

/-- The character of an escape with one letter. -/
def escape? : Char → Option Char
  | 'b' => some '\x08'
  | 't' => some '\t'
  | 'n' => some '\n'
  | 'f' => some '\x0c'
  | 'r' => some '\r'
  | '"' => some '"'
  | '\\' => some '\\'
  | _ => none

/-- The character with a code written in digits of base 16; surrogates have none. -/
def codePoint? (digits : Text) : Option Char :=
  let n := natOf 16 digits
  if digits.all (isDigitOf 16) ∧ n.isValidChar then some (Char.ofNat n) else none

/-- Reads a string up to its closing quote; `done` holds what is read, reversed. A string of several
lines closes with three quotes. -/
def stringFrom (multiline : Bool) (done : Text) : Text → Option (Text × Text)
  | '"' :: '"' :: '"' :: rest =>
    if multiline then some (done.reverse, rest) else some (done.reverse, '"' :: '"' :: rest)
  | '"' :: rest => if multiline then stringFrom multiline ('"' :: done) rest
    else some (done.reverse, rest)
  | '\\' :: 'u' :: a :: b :: c :: d :: rest =>
    (codePoint? [a, b, c, d]).bind fun x => stringFrom multiline (x :: done) rest
  | '\\' :: 'U' :: a :: b :: c :: d :: e :: f :: g :: h :: rest =>
    (codePoint? [a, b, c, d, e, f, g, h]).bind fun x => stringFrom multiline (x :: done) rest
  | '\\' :: c :: rest => (escape? c).bind fun x => stringFrom multiline (x :: done) rest
  | c :: rest =>
    if isPrintable c || (multiline && c == '\n') then stringFrom multiline (c :: done) rest
    else none
  | [] => none

/-- Reads a string without escapes up to its closing quote. -/
def literalFrom (multiline : Bool) (done : Text) : Text → Option (Text × Text)
  | '\'' :: '\'' :: '\'' :: rest =>
    if multiline then some (done.reverse, rest) else some (done.reverse, '\'' :: '\'' :: rest)
  | '\'' :: rest => if multiline then literalFrom multiline ('\'' :: done) rest
    else some (done.reverse, rest)
  | c :: rest =>
    if isPrintable c || (multiline && c == '\n') then literalFrom multiline (c :: done) rest
    else none
  | [] => none

/-- Reads a string in quotes of any kind. A line feed right after three quotes does not count. -/
def quoted? (s : Text) : Option (Text × Text) :=
  match s with
  | '"' :: '"' :: '"' :: rest => stringFrom true [] ((Text.dropFirst? '\n' rest).getD rest)
  | '\'' :: '\'' :: '\'' :: rest => literalFrom true [] ((Text.dropFirst? '\n' rest).getD rest)
  | '"' :: rest => stringFrom false [] rest
  | '\'' :: rest => literalFrom false [] rest
  | _ => none

/-! ## Lines -/

/-- Reads a value. -/
def read? (s : Text) : Option (Setting × Text) :=
  if s.head? = some '"' ∨ s.head? = some '\'' then
    (quoted? s).map fun (text, rest) => (string text, rest)
  else
    let word := s.takeWhile fun c => !isBlank c && c != '#' && c != '\n' && c != '\r'
    (ofWord? word).map fun v => (v, s.drop word.length)

/-- Reads a key. -/
def key? (s : Text) : Option (Text × Text) :=
  match s with
  | '"' :: rest => stringFrom false [] rest
  | '\'' :: rest => literalFrom false [] rest
  | _ =>
    let key := s.takeWhile isKeyChar
    if key.isEmpty then none else some (key, s.drop key.length)

/-- Reads the end of a line: blanks, perhaps a comment, and a line feed unless the text ends. -/
def endOfLine? (s : Text) : Option Text :=
  let rest := s.dropWhile isBlank
  let rest := if rest.head? = some '#' then rest.dropWhile isPrintable else rest
  match rest with
  | [] => some []
  | '\n' :: rest => some rest
  | '\r' :: '\n' :: rest => some rest
  | _ => none

/-- Reads a line: an entry or nothing, and its end. -/
def line? (s : Text) : Option (Option (Text × Setting) × Text) :=
  match endOfLine? s with
  | some rest => some (none, rest)
  | none => do
    let (key, rest) ← key? (s.dropWhile isBlank)
    let rest ← Text.dropFirst? '=' (rest.dropWhile isBlank)
    let (value, rest) ← read? (rest.dropWhile isBlank)
    return (some (key, value), ← endOfLine? rest)

/-- Reads lines into a table. -/
def linesFrom (settings : Table Setting) (s : Text) : Option (Table Setting) :=
  match line? s with
  | none => none
  | some (entry, rest) =>
    let taken : Option (Table Setting) :=
      match entry with
      | none => some settings
      | some (key, value) =>
        if settings.hasKey key then none else some (settings.insert key value)
    if rest.length < s.length then taken.bind fun settings => linesFrom settings rest else taken
termination_by s.length

/-- The settings of a text. -/
def table? (s : Text) : Option (Table Setting) :=
  linesFrom .empty s

/-! ## Writing -/

/-- The text of a character inside a string. -/
def escaped (multiline : Bool) (c : Char) : Text :=
  match c with
  | '\x08' => "\\b".toList
  | '\t' => "\\t".toList
  | '\n' => if multiline then ['\n'] else "\\n".toList
  | '\x0c' => "\\f".toList
  | '\r' => "\\r".toList
  | '"' => "\\\"".toList
  | '\\' => "\\\\".toList
  | _ =>
    if isPrintable c then [c]
    else "\\u".toList ++ Text.padZeros 4 ((Nat.toDigits 16 c.toNat).map Char.toUpper)

/-- Whether a text is written without escapes: it has quotes or backslashes, no control characters
and no quotes that would close it. -/
def goesLiteral (s : Text) : Bool :=
  s.any (fun c => c == '"' || c == '\\') && s.all (fun c => isPrintable c || c == '\n') &&
    !Text.includes "'''".toList s && s.getLast? != some '\''

/-- The text of a string: in three quotes if it has several lines, and without escapes if that saves
some. -/
def writeString (s : Text) : Text :=
  let multiline := s.contains '\n'
  if goesLiteral s then
    let fence := if multiline || s.contains '\'' then "'''".toList else "'".toList
    fence ++ (if multiline then ['\n'] else []) ++ s ++ fence
  else if multiline then
    "\"\"\"\n".toList ++ s.flatMap (escaped true) ++ "\"\"\"".toList
  else '"' :: s.flatMap (escaped false) ++ ['"']

end Setting

end Grimoire
