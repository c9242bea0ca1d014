import Grimoire.Expr.Layer

/-!
# Reading expressions

The reader takes a text apart layer by layer until nothing is left to read. Every text has an
expression: what fits no form stands for itself.
-/

namespace Grimoire

namespace Layer

/-- The expression of a layer whose parts are read by `read`. -/
def assemble (read : Text → Expr) : Layer → Expr
  | .text body => .text body
  | boolean b => .boolean b
  | number x => .number x
  | sequence pieces => .sequence (pieces.map read)
  | tome pairs => .tome (pairs.map fun pair => (pair.1, read pair.2))
  | invoke name function args => .invoke name function (args.map read)
  | path root steps => .path root steps
  | shape s => .shape s
  | malformed fault => .malformed fault
  | group inner => read inner
  | binary left op right => .binary (read left) op (read right)

/-- `assemble` reads nothing but the parts. -/
theorem assemble_congr {read read' : Text → Expr} {layer : Layer}
    (h : ∀ part ∈ layer.parts, read part = read' part) :
    layer.assemble read = layer.assemble read' := by
  cases layer with
  | sequence pieces =>
    simp only [assemble, Expr.sequence.injEq]
    exact List.map_congr_left h
  | tome pairs =>
    simp only [assemble, Expr.tome.injEq]
    refine List.map_congr_left fun pair hpair => ?_
    rw [h pair.2 (List.mem_map_of_mem hpair)]
  | invoke name function args =>
    simp only [assemble, Expr.invoke.injEq, true_and]
    exact List.map_congr_left h
  | group inner => exact h inner (by simp [parts])
  | binary left op right =>
    simp only [assemble]
    rw [h left (by simp [parts]), h right (by simp [parts])]
  | _ => rfl

end Layer

namespace Expr

/-- Reads a text. Parts are read in turn; a part is shorter than its text, so what `read` would do
with longer texts does not matter. -/
def ofText (s : Text) : Expr :=
  (Layer.of s.trim).assemble fun part =>
    if part.length < s.length then ofText part else .text part
termination_by s.length

/-- A text is read layer by layer. -/
theorem ofText_eq_assemble (s : Text) : ofText s = (Layer.of s.trim).assemble ofText := by
  rw [ofText]
  refine Layer.assemble_congr fun part hpart => if_pos ?_
  exact Nat.lt_of_lt_of_le (Layer.length_lt_of_mem_parts hpart) (Text.length_trim_le s)

/-- Reads the expressions between top-level commas. -/
def listOfText (s : Text) : List Expr :=
  (Text.topLevelPieces s).map ofText

end Expr

end Grimoire
