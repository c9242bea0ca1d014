import Grimoire.Text.Basic
import Grimoire.Text.Word

/-!
# Patterns

The phrases of the language are recognised by patterns: keywords in any letter case, gaps of
blanks, and operands that take as much or as little text as the rest allows. A pattern is data; its
meaning is the list of all the ways in which it can take the start of a text, the preferred way
first. A pattern takes a whole text in the first of its ways that leaves nothing over.

Keywords are compared with letter case folded. Two characters outside the first block fold to
letters there: the long s to `s` and the kelvin sign to `k`.
-/

namespace Grimoire

/-- A character with its letter case folded away, for comparison with keywords. -/
def foldCase (c : Char) : Char :=
  if c = 'ſ' then 's' else if c = '\u212a' then 'k' else c.toLower

/-! ## The pieces of patterns -/

/-- The classes of characters that patterns mention. -/
inductive Charset where
  /-- White space. -/
  | blank
  /-- Characters of words. -/
  | word
  /-- Characters that a name may begin with, in any letter case. -/
  | initial
  /-- All characters. -/
  | any
  /-- All characters but one. -/
  | except (c : Char)
  deriving DecidableEq, Repr

/-- Whether a character belongs to a class. -/
def Charset.holds : Charset → Char → Bool
  | .blank, c => isBlank c
  | .word, c => isWord c
  | .initial, c => (foldCase c).isLower || c == '_'
  | .any, _ => true
  | .except d, c => c != d

/-- Which of several lengths a run prefers. -/
inductive Preference where
  | longest
  | shortest
  deriving DecidableEq, Repr

/-- A pattern for the start of a text. -/
inductive Pattern where
  /-- Takes nothing. -/
  | nothing
  /-- Takes a keyword, in any letter case. -/
  | word (letters : Text)
  /-- Takes one character of a class. -/
  | one (set : Charset)
  /-- Takes at least `least` characters of a class. -/
  | run (set : Charset) (least : Nat) (preference : Preference)
  /-- Takes what the first takes and then what the second takes. -/
  | andThen (first second : Pattern)
  /-- Takes what either takes, preferring the first. -/
  | orElse (first second : Pattern)
  /-- Takes what the body takes any number of times, preferring more. -/
  | many (body : Pattern)
  /-- Takes what the body takes and notes where under a slot number. -/
  | capture (slot : Nat) (body : Pattern)
  deriving DecidableEq, Repr

namespace Pattern

/-- Several patterns one after the other. -/
def all : List Pattern → Pattern
  | [] => nothing
  | [last] => last
  | first :: rest => andThen first (all rest)

/-- A pattern that may be left out, though preferably not. -/
def optional (body : Pattern) : Pattern :=
  orElse body nothing

/-- A keyword. -/
def keyword (letters : String) : Pattern :=
  word letters.toList

/-- One or more blanks. -/
def gap : Pattern :=
  run .blank 1 .longest

/-- Any number of blanks. -/
def space : Pattern :=
  run .blank 0 .longest

/-- Several patterns with gaps between them. -/
def spaced : List Pattern → Pattern
  | [] => nothing
  | [last] => last
  | first :: rest => all [first, gap, spaced rest]

/-- Text on one line, as much as the rest allows. -/
def long (slot : Nat) : Pattern :=
  capture slot (run (.except '\n') 1 .longest)

/-- Text on one line, as little as the rest allows. -/
def short (slot : Nat) : Pattern :=
  capture slot (run (.except '\n') 1 .shortest)

/-- Text over any number of lines, as little as the rest allows. -/
def shortLines (slot : Nat) : Pattern :=
  capture slot (run .any 1 .shortest)

/-- Text over any number of lines, as much as the rest allows. -/
def longLines (slot : Nat) : Pattern :=
  capture slot (run .any 1 .longest)

/-- A name: one or more word characters. -/
def name (slot : Nat) : Pattern :=
  capture slot (run .word 1 .longest)

/-- An identifier: a name that does not begin with a digit. -/
def identifier : Pattern :=
  andThen (one .initial) (run .word 0 .longest)

/-- Identifiers joined by points. -/
def path (slot : Nat) : Pattern :=
  capture slot (andThen identifier (many (andThen (keyword ".") identifier)))

/-- At least `least` characters between double quotes, which the slot leaves out. -/
def quoted (slot least : Nat) : Pattern :=
  all [keyword "\"", capture slot (run (.except '"') least .longest), keyword "\""]

end Pattern

/-! ## The ways of a pattern -/

/-- A stretch of a text, from the position `start` up to `stop`. -/
structure Span where
  start : Nat
  stop : Nat
  deriving DecidableEq, Repr

/-- How far a text has been taken: the position reached, the text left and the stretches noted. -/
structure Scan where
  place : Nat
  rest : Text
  spans : List (Nat × Span)
  deriving DecidableEq, Repr

namespace Scan

/-- Nothing of `text` taken yet. -/
def start (text : Text) : Scan :=
  ⟨0, text, []⟩

/-- Takes a keyword. -/
def takeWord : Text → Scan → Option Scan
  | [], s => some s
  | _ :: _, ⟨_, [], _⟩ => none
  | letter :: letters, ⟨place, c :: rest, spans⟩ =>
    if foldCase c = foldCase letter then takeWord letters ⟨place + 1, rest, spans⟩ else none

/-- Takes one character of a class. -/
def takeOne (set : Charset) : Scan → Option Scan
  | ⟨_, [], _⟩ => none
  | ⟨place, c :: rest, spans⟩ =>
    if set.holds c then some ⟨place + 1, rest, spans⟩ else none

/-- All the ways to take characters of a class from a text, the shortest first. -/
def alongFrom (set : Charset) (spans : List (Nat × Span)) : Nat → Text → List Scan
  | place, [] => [⟨place, [], spans⟩]
  | place, c :: rest =>
    ⟨place, c :: rest, spans⟩ ::
      if set.holds c then alongFrom set spans (place + 1) rest else []

/-- All the ways to take at least `least` characters of a class, the preferred one first. -/
def takeRun (set : Charset) (least : Nat) (preference : Preference) (s : Scan) : List Scan :=
  let ways := (alongFrom set s.spans s.place s.rest).drop least
  match preference with
  | .shortest => ways
  | .longest => ways.reverse

/-- All the ways to take a step at most `bound` times, more often being preferred. -/
def takeMany (step : Scan → List Scan) : Nat → Scan → List Scan
  | 0, s => [s]
  | bound + 1, s => (step s).flatMap (takeMany step bound) ++ [s]

end Scan

namespace Pattern

/-- All the ways in which a pattern can take the text left, the preferred one first. -/
def ways : Pattern → Scan → List Scan
  | nothing, s => [s]
  | word letters, s => (s.takeWord letters).toList
  | one set, s => (s.takeOne set).toList
  | run set least preference, s => s.takeRun set least preference
  | andThen first second, s => (first.ways s).flatMap second.ways
  | orElse first second, s => first.ways s ++ second.ways s
  | many body, s => Scan.takeMany body.ways s.rest.length s
  | capture slot body, s =>
    (body.ways s).map fun t => { t with spans := (slot, ⟨s.place, t.place⟩) :: t.spans }

end Pattern

/-! ## What a match captured -/

/-- The stretches that a match noted in a text. -/
structure Groups where
  source : Text
  spans : List (Nat × Span)
  deriving DecidableEq, Repr

namespace Groups

/-- Where the slot was filled, if it was. -/
def span? (g : Groups) (slot : Nat) : Option Span :=
  g.spans.lookup slot

/-- The text of a slot, if it was filled. -/
def get? (g : Groups) (slot : Nat) : Option Text :=
  (g.span? slot).map fun span => (g.source.drop span.start).take (span.stop - span.start)

/-- The text of a slot; empty if it was not filled. -/
def text (g : Groups) (slot : Nat) : Text :=
  (g.get? slot).getD []

end Groups

namespace Pattern

/-- The match of a pattern with the whole of a text. -/
def match? (p : Pattern) (text : Text) : Option Groups :=
  ((p.ways (.start text)).find? (·.rest.isEmpty)).map fun s => ⟨text, s.spans⟩

/-- The preferred match of a pattern with the start of a text, and the text that follows it. -/
def matchStart? (p : Pattern) (text : Text) : Option (Groups × Text) :=
  (p.ways (.start text)).head?.map fun s => (⟨text, s.spans⟩, s.rest)

/-- Whether a pattern takes the whole of a text. -/
def accepts (p : Pattern) (text : Text) : Bool :=
  (p.match? text).isSome

end Pattern

end Grimoire
