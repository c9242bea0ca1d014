import Grimoire.Expr.Basic
import Grimoire.Nesting.Lemmas
import Grimoire.Number.Decimal
import Grimoire.Pattern.Lemmas
import Grimoire.Text.Digit

/-!
# Layers of expressions

A text is read one layer at a time. The forms are tried in a fixed order and the first that takes
the text decides: literals, containers, calls, paths, shapes, parentheses, operators; any other text
stands for itself. `Layer.of` finds the form and leaves the texts of the parts unread. Every part is
shorter than the text, so reading ends.
-/

namespace Grimoire

namespace Text

/-! ## Names and paths -/

/-- Whether a text is an identifier: a letter of the first block or an underscore, and then word
characters. -/
def isIdentifier : Text → Bool
  | [] => false
  | c :: rest => (c.isAlpha || c == '_') && rest.all isWord

/-- Whether a text consists of identifiers joined by points. -/
def isPath (s : Text) : Bool :=
  (splitOn '.' s).all isIdentifier

/-- The first part of a path. -/
def pathRoot (s : Text) : Text :=
  s.takeWhile (· ≠ '.')

/-! ## String literals -/

/-- The body of a text between three quotes and three quotes of the same kind. -/
def tripleQuoted? (s : Text) : Option Text :=
  if 6 ≤ s.length ∧ ["\"\"\"".toList, "'''".toList].any fun fence =>
      startsWith fence s && endsWith fence s then
    some ((s.drop 3).take (s.length - 6))
  else none

/-- Whether every quote in a text is escaped and no escape is cut off. -/
def escapesClosed : Text → Bool
  | [] => true
  | '\\' :: _ :: rest => escapesClosed rest
  | c :: rest => c != '\\' && c != '"' && escapesClosed rest

/-- The body of a text between double quotes without a bare quote inside. -/
def quoted? (s : Text) : Option Text := do
  let inner ← dropLast? '"' (← dropFirst? '"' s)
  if escapesClosed inner then some inner else none

/-- The value of a digit of base sixteen, in either case. -/
def hexValue? (c : Char) : Option Nat :=
  if c.isDigit then some (c.toNat - '0'.toNat)
  else if 'a' ≤ c ∧ c ≤ 'f' then some (c.toNat - 'a'.toNat + 10)
  else if 'A' ≤ c ∧ c ≤ 'F' then some (c.toNat - 'A'.toNat + 10)
  else none

/-- The value of digits of base sixteen; there has to be at least one. -/
def hexDigits? (digits : Text) : Option Nat :=
  if digits.isEmpty then none
  else digits.foldl (fun n c => do return (← n) * 16 + (← hexValue? c)) (some 0)

/-- The character that four characters after `\u` stand for. A plus sign may take the place of the
first digit, and half of a surrogate pair stands for the replacement character. -/
def unicodeEscape? (a b c d : Char) : Option Char :=
  let code := if a = '+' then hexDigits? [b, c, d] else hexDigits? [a, b, c, d]
  code.map fun n => if 0xD800 ≤ n ∧ n ≤ 0xDFFF then '\ufffd' else Char.ofNat n

/-- The character of an escape with one letter. -/
def shortEscape? : Char → Option Char
  | 'n' => some '\n'
  | 't' => some '\t'
  | 'r' => some '\r'
  | 'b' => some '\x08'
  | 'f' => some '\x0c'
  | '"' => some '"'
  | '\\' => some '\\'
  | '/' => some '/'
  | _ => none

/-- Resolves the escapes of a string body. Anything that is no escape stays as it is written. -/
def unescape : Text → Text
  | [] => []
  | '\\' :: 'u' :: a :: b :: c :: d :: rest =>
    match unicodeEscape? a b c d with
    | some e => e :: unescape rest
    | none => '\\' :: 'u' :: unescape (a :: b :: c :: d :: rest)
  | '\\' :: c :: rest =>
    match shortEscape? c with
    | some e => e :: unescape rest
    | none => '\\' :: c :: unescape rest
  | c :: rest => c :: unescape rest

/-! ## Words and numerals -/

/-- The words for true. -/
def truePattern : Pattern :=
  .orElse (.keyword "truth") (.keyword "true")

/-- The words for false. -/
def falsePattern : Pattern :=
  .orElse (.keyword "lie") (.keyword "false")

/-- Whether a text is a word for true. -/
def isTrueWord (s : Text) : Bool :=
  truePattern.accepts s

/-- Whether a text is a word for false. -/
def isFalseWord (s : Text) : Bool :=
  falsePattern.accepts s

/-- Whether a text is a numeral: digits of any script with an optional minus before them and an
optional point between them. -/
def isNumeral (s : Text) : Bool :=
  let body := (dropFirst? '-' s).getD s
  let whole := body.takeWhile isDigit
  !whole.isEmpty &&
    match body.dropWhile isDigit with
    | [] => true
    | c :: fraction => c == '.' && !fraction.isEmpty && fraction.all isDigit

/-- The number of a numeral; NaN when it has digits of other scripts. -/
def numeralValue (s : Text) : Number :=
  (Number.read? s).getD Number.nan

/-! ## Containers, calls and shapes -/

/-- The beginning of a tome. -/
def tomePattern : Pattern :=
  .all [.keyword "tome", .space, .keyword "\x7b"]

/-- The inside of the braces of a tome. -/
def tomeBody? (s : Text) : Option Text := do
  let (_, rest) ← tomePattern.matchStart? s
  unwrap? '\x7b' '\x7d' ('\x7b' :: rest)

/-- A key without quotes around it. -/
def bareKey (key : Text) : Text :=
  let strip (q : Char) : Option Text := do
    let inner ← dropLast? q (← dropFirst? q key)
    if inner.isEmpty then none else some inner
  (strip '"' <|> strip '\'').getD key

/-- The keys and value texts between the braces of a tome. -/
def tomePairs (body : Text) : List (Text × Text) :=
  ((topLevelPieces body).filter (!·.isEmpty)).map fun piece =>
    (bareKey (splitPair piece).1, (splitPair piece).2)

/-- A call: an alias, a function and perhaps arguments. -/
def invokePattern : Pattern :=
  .andThen (.keyword "invoke")
    (.all [.gap, .name 1, .keyword ".", .name 2,
      .optional (.all [.gap, .keyword "with", .gap, .longLines 3])])

/-- A shape with its parameters in parentheses. -/
def shapeListPattern : Pattern :=
  .all [.keyword "Shape", .space, .keyword "(", .space,
    .capture 1 (.run (.except ')') 1 .shortest), .space, .keyword ")", .space, .keyword "=>", .space,
    .longLines 2]

/-- A shape with one parameter. -/
def shapeSinglePattern : Pattern :=
  .all [.keyword "Shape", .gap, .capture 1 .identifier, .space, .keyword "=>", .space, .longLines 2]

/-- The parameters and the body of a text that has the form of a shape. -/
def shapeParts? (s : Text) : Option (List Text × Text) :=
  match shapeListPattern.match? s with
  | some g =>
    some (((splitOn ',' (g.text 1)).map trim).filter (!·.isEmpty), trim (g.text 2))
  | none =>
    (shapeSinglePattern.match? s).map fun g => ([g.text 1], trim (g.text 2))

/-- The shape with the given parameters, which have to be identifiers and not too many. -/
def makeShape (parameters : List Text) (body : Text) : Except ReadingFault Shape :=
  if maxShapeParameters < parameters.length then .error (.tooManyParameters parameters.length)
  else match parameters.find? fun p => !p.isIdentifier with
    | some bad => .error (.badParameter bad)
    | none => .ok ⟨parameters, body⟩

end Text

/-! ## Layers -/

/-- One layer of an expression. -/
inductive Layer where
  | text (text : Text)
  | boolean (b : Bool)
  | number (x : Number)
  | sequence (pieces : List Text)
  | tome (pairs : List (Text × Text))
  | invoke (name function : Text) (args : List Text)
  | path (root : Text) (steps : List Text)
  | shape (s : Shape)
  | malformed (fault : ReadingFault)
  | group (inner : Text)
  | binary (left : Text) (op : Operator) (right : Text)
  deriving DecidableEq, Repr

namespace Layer

/-- The texts of the parts. -/
def parts : Layer → List Text
  | sequence pieces => pieces
  | tome pairs => pairs.map Prod.snd
  | invoke _ _ args => args
  | group inner => [inner]
  | binary left _ right => [left, right]
  | _ => []

/-- The layer of a shape. -/
def ofShape (parameters : List Text) (body : Text) : Layer :=
  match Text.makeShape parameters body with
  | .ok s => shape s
  | .error fault => malformed fault

/-- The layer of a path. -/
def ofPath (s : Text) : Layer :=
  match Text.splitOn '.' s with
  | root :: steps => path root steps
  | [] => path s []

/-- The layer of a call. -/
def ofInvoke (g : Groups) : Layer :=
  invoke (g.text 1) (g.text 2) (Text.topLevelPieces (g.text 3))

/-- The form of a text that no literal, container, call, path or shape takes. -/
def ofOperators (s : Text) : Layer :=
  match Text.unwrap? '(' ')' s with
  | some inner => group inner
  | none =>
    match Text.splitBinary? s with
    | some (left, op, right) => binary left op right
    | none => text s

/-- The form of a text that no literal and no container takes. -/
def ofCompound (s : Text) : Layer :=
  match Text.invokePattern.match? s with
  | some g => ofInvoke g
  | none =>
    if s.isPath then ofPath s
    else match s.shapeParts? with
      | some (parameters, body) => ofShape parameters body
      | none => ofOperators s

/-- The form of a text that no literal takes. -/
def ofContainer (s : Text) : Layer :=
  match Text.unwrap? '[' ']' s with
  | some inner => sequence (Text.topLevelPieces inner)
  | none =>
    match s.tomeBody? with
    | some body => tome body.tomePairs
    | none => ofCompound s

/-- The form of a trimmed text. -/
def of (s : Text) : Layer :=
  match s.tripleQuoted?, s.quoted? with
  | some body, _ => text body
  | none, some body => text body.unescape
  | none, none =>
    if s.isTrueWord then boolean true
    else if s.isFalseWord then boolean false
    else if s.isNumeral then number s.numeralValue
    else ofContainer s

/-! ## Parts are shorter -/

theorem parts_ofShape (parameters : List Text) (body : Text) :
    (ofShape parameters body).parts = [] := by
  rw [ofShape]
  split <;> rfl

theorem parts_ofPath (s : Text) : (ofPath s).parts = [] := by
  rw [ofPath]
  split <;> rfl

theorem length_lt_of_mem_ofOperators {s part : Text} (h : part ∈ (ofOperators s).parts) :
    part.length < s.length := by
  rw [ofOperators] at h
  split at h
  · next inner hinner =>
    rw [parts, List.mem_singleton] at h
    subst h
    exact Text.length_unwrap?_lt hinner
  · split at h
    · next left op right hsplit =>
      obtain ⟨hl, hr⟩ := Text.length_splitBinary?_lt hsplit
      simp only [parts, List.mem_cons, List.not_mem_nil, or_false] at h
      rcases h with rfl | rfl
      · exact hl
      · exact hr
    · simp [parts] at h

theorem length_lt_of_mem_ofCompound {s part : Text} (h : part ∈ (ofCompound s).parts) :
    part.length < s.length := by
  rw [ofCompound] at h
  split at h
  · next g hg =>
    exact Nat.lt_of_le_of_lt (Text.length_le_of_mem_topLevelPieces h)
      (Pattern.length_capture_lt 3 (by decide) hg)
  · split at h
    · simp [parts_ofPath] at h
    · split at h
      · simp [parts_ofShape] at h
      · exact length_lt_of_mem_ofOperators h

theorem length_tomeBody?_lt {s body : Text} (h : s.tomeBody? = some body) :
    body.length < s.length := by
  simp only [Text.tomeBody?, Option.bind_eq_bind, Option.bind_eq_some_iff] at h
  obtain ⟨⟨g, rest⟩, hstart, h⟩ := h
  have hrest := Pattern.length_matchStart?_lt (by decide) hstart
  have hbody := Text.length_unwrap?_lt h
  simp only [List.length_cons] at hbody
  omega

theorem length_le_of_mem_tomePairs {body : Text} {pair : Text × Text}
    (h : pair ∈ body.tomePairs) : pair.2.length ≤ body.length := by
  rw [Text.tomePairs, List.mem_map] at h
  obtain ⟨piece, hpiece, rfl⟩ := h
  exact Nat.le_trans (Text.length_splitPair_le piece)
    (Text.length_le_of_mem_topLevelPieces (List.mem_filter.1 hpiece).1)

theorem length_lt_of_mem_ofContainer {s part : Text} (h : part ∈ (ofContainer s).parts) :
    part.length < s.length := by
  rw [ofContainer] at h
  split at h
  · next inner hinner =>
    exact Nat.lt_of_le_of_lt (Text.length_le_of_mem_topLevelPieces h)
      (Text.length_unwrap?_lt hinner)
  · split at h
    · next body hbody =>
      rw [parts, List.mem_map] at h
      obtain ⟨pair, hpair, rfl⟩ := h
      exact Nat.lt_of_le_of_lt (length_le_of_mem_tomePairs hpair) (length_tomeBody?_lt hbody)
    · exact length_lt_of_mem_ofCompound h

/-- Every part of a text is shorter than the text. -/
theorem length_lt_of_mem_parts {s part : Text} (h : part ∈ (of s).parts) :
    part.length < s.length := by
  rw [of] at h
  split at h
  · simp [parts] at h
  · simp [parts] at h
  · split at h
    · simp [parts] at h
    · split at h
      · simp [parts] at h
      · split at h
        · simp [parts] at h
        · exact length_lt_of_mem_ofContainer h

end Layer

end Grimoire
