import Grimoire.Block
import Grimoire.Construct
import Grimoire.Statement

/-!
# Programs

A source is a list of lines; a program is the tree of statements and blocks that they form. A block
that is not closed ends the program where it is opened. What stands in the body of a block and is
neither idle nor a construct is a statement, even if no form of statement takes it.
-/

namespace Grimoire

/-! ## Lines -/

/-- A line of a source: where it stands and what it does to blocks. -/
structure Line where
  place : Place
  role : Role
  deriving DecidableEq, Repr

namespace Line

/-- The lines of a list of texts, numbered from `number` on. -/
def numberFrom (number : Nat) : List Text → List Line
  | [] => []
  | text :: rest => ⟨⟨number, text.trim⟩, text.role⟩ :: numberFrom (number + 1) rest

/-- The lines of a source. -/
def ofSource (source : Text) : List Line :=
  numberFrom 1 source.lines

/-- The construct that a line opens. -/
def construct? (line : Line) : Option Construct :=
  if line.role = .opener then Construct.ofLine? line.place.text else none

/-- The fault of an opener whose block is not closed. -/
def unterminated (line : Line) : Fault :=
  .unterminatedBlock (Text.openerName line.place.text) line.place.line

end Line

/-! ## Trees -/

/-- A part of a program. -/
inductive Node where
  | statement (place : Place)
  /-- A block; the second part is empty unless a conditional has an `otherwise:`. -/
  | block (place : Place) (construct : Construct) (body otherwise : List Node)
  /-- An opener whose block is not closed. -/
  | unterminated (line : Line)

namespace Program

/-- The two parts of the body of a block. Loops have one part only. -/
def parts (construct : Construct) (body : List Line) : List Line × List Line :=
  match if construct.isConditional then Block.otherwise? (body.map Line.role) else none with
  | some place => (body.take place, body.drop (place + 1))
  | none => (body, [])

theorem length_parts_le (construct : Construct) (body : List Line) :
    (parts construct body).1.length ≤ body.length ∧
      (parts construct body).2.length ≤ body.length := by
  unfold parts
  split
  · simp only [List.length_take, List.length_drop]
    omega
  · simp

/-- The program of a list of lines. -/
def ofLines : List Line → List Node
  | [] => []
  | line :: rest =>
    if line.place.text.isIdle then ofLines rest
    else match line.construct? with
      | none => .statement line.place :: ofLines rest
      | some construct =>
        match Block.close? (rest.map Line.role) with
        | none => [.unterminated line]
        | some close =>
          let body := parts construct (rest.take close)
          .block line.place construct (ofLines body.1) (ofLines body.2)
            :: ofLines (rest.drop (close + 1))
termination_by lines => lines.length
decreasing_by
  · simp
  · simp
  · have := (length_parts_le construct (rest.take close)).1
    simp only [List.length_take] at this
    simp only [List.length_cons]
    omega
  · have := (length_parts_le construct (rest.take close)).2
    simp only [List.length_take] at this
    simp only [List.length_cons]
    omega
  · simp only [List.length_drop, List.length_cons]
    omega

/-- The program of a source. -/
def ofSource (source : Text) : List Node :=
  ofLines (Line.ofSource source)

end Program

end Grimoire
