import Grimoire.Expr.Evaluation
import Grimoire.Pattern.Lemmas

/-!
# Magic ink

A revealed text may hold expressions between the markers `{|` and `|}`. Each is replaced with the
display text of its value; what is outside the markers stays.
-/

namespace Grimoire

/-- A piece of a revealed text. -/
inductive Ink where
  | plain (text : Text)
  | expr (text : Text)
  deriving DecidableEq, Repr

namespace Ink

/-- An expression between markers; it has at least one character. -/
def marked : Pattern :=
  .andThen (.keyword "\x7b|") (.all [.space, .shortLines 1, .space, .keyword "|\x7d"])

/-- The pieces of a text; `before` is the plain text just passed, reversed. -/
def piecesFrom (before : Text) : Text → List Ink
  | [] => [plain before.reverse]
  | c :: rest =>
    match _h : marked.matchStart? (c :: rest) with
    | some (g, after) => plain before.reverse :: expr (g.text 1) :: piecesFrom [] after
    | none => piecesFrom (c :: before) rest
termination_by s => s.length
decreasing_by
  · exact Pattern.length_matchStart?_lt (by decide) _h
  · simp

/-- The pieces of a text, in order. Markers are found from the left and do not overlap. -/
def pieces (s : Text) : List Ink :=
  piecesFrom [] s

/-- The text that a piece shows. -/
def shown : Ink → Eval Text
  | plain text => return text
  | expr text => Eval.display text

/-- The text that pieces show one after the other. -/
def shownAll : List Ink → Eval Text
  | [] => return []
  | piece :: rest => do
    let first ← piece.shown
    return first ++ (← shownAll rest)

end Ink

end Grimoire
