import Grimoire.Fault
import Grimoire.Text.Case
import Grimoire.Text.Word

/-!
# Shaping texts

Cutting out, title case, padding and repetition, all counted in characters.
-/

namespace Grimoire

namespace Text

/-! ## Cutting out -/

/-- At most `length` characters from position `start` on. A negative start counts back from the
end, though not beyond the beginning. -/
def carve (s : Text) (start length : Int) : Text :=
  let start := if start < 0 then max (s.length + start) 0 else start
  (s.drop start.toNat).take length.toNat

/-! ## Title case -/

/-- Capitalises `s`; `inRun` tells whether the last character belongs to a run, and `done` holds
the result so far, reversed. -/
def titleFrom (inRun : Bool) (done : Text) : Text → Text
  | [] => done.reverse
  | c :: rest =>
    if inRun then
      if isBlank c then titleFrom false (c :: done) rest
      else titleFrom true ((lowerChar c).reverse ++ done) rest
    else if isWord c then titleFrom true ((upperChar c).reverse ++ done) rest
    else titleFrom false (c :: done) rest

/-- Capitalises each run that starts at a word character and reaches to the next blank: its first
character is raised and the others are lowered. -/
def titleCase (s : Text) : Text :=
  titleFrom false [] s

/-! ## Padding -/

end Text

/-- Where padding goes. -/
inductive Side where
  | left
  | right
  | center
  deriving DecidableEq, Repr

namespace Text

/-- Whether the next copy of a fill goes after a text when `missing` characters are missing. In the
middle it does while their number is odd. -/
def goesAfter (side : Side) (missing : Nat) : Bool :=
  match side with
  | .left => false
  | .right => true
  | .center => missing % 2 == 1

/-- Places copies of a fill, of `fill` characters each, until no character is missing. `before` and
`after` count the copies placed so far; the result is how many go before the text and after it. A
copy has at least one character. -/
def placed (side : Side) (fill before after : Nat) : Nat → Nat × Nat
  | 0 => (before, after)
  | missing + 1 =>
    if goesAfter side (missing + 1) then placed side fill before (after + 1) (missing - (fill - 1))
    else placed side fill (before + 1) after (missing - (fill - 1))

/-- The fill that is used, a space when there is none. -/
def filler (fill : Text) : Text :=
  if fill.isEmpty then [' '] else fill

/-- Grows a text to a width with whole copies of a fill and trims what is too much: at the start on
the left side and at the end otherwise. A text that is wide enough stays as it is. -/
def pad (s : Text) (width : Nat) (fill : Text) (side : Side) : Except RangeFault Text :=
  let fill := filler fill
  if maxTextLength < width then .error (.padTooWide width)
  else if width ≤ s.length then .ok s
  else
    let (before, after) := placed side fill.length 0 0 (width - s.length)
    let grown := repeated before fill ++ s ++ repeated after fill
    match side with
    | .left => .ok (grown.drop (grown.length - width))
    | .right | .center => .ok (grown.take width)

/-- Copies of a text, unless they are too long together. -/
def chant (s : Text) (times : Nat) : Except RangeFault Text :=
  if s.length * times ≤ maxTextLength then .ok (repeated times s)
  else .error (.chantTooLong times)

end Text

end Grimoire
