import Grimoire.Program

/-!
# Checking programs

A check finds, without running anything, the first line that no block and no form of statement
accounts for, or the first block that is not closed.
-/

namespace Grimoire

/-- A line at fault. -/
structure Issue where
  line : Nat
  fault : Fault
  deriving DecidableEq, Repr

/-- The wording of an issue. -/
def Issue.message (issue : Issue) : Text :=
  "line ".toList ++ Text.ofNat issue.line ++ ": [".toList ++ issue.fault.code.text ++ "] ".toList
    ++ issue.fault.message

namespace Program

/-- The issue of a line that nothing takes. -/
def unknown (place : Place) : Issue :=
  ⟨place.line, .unknownStatement place.text⟩

/-- The first issue of lines inside which `depth` blocks are open. -/
def firstIssue (depth : Nat) : List Line → Option Issue
  | [] => none
  | line :: rest =>
    if line.place.text.isIdle then firstIssue depth rest
    else match line.role with
      | .conclude => if depth = 0 then some (unknown line.place) else firstIssue (depth - 1) rest
      | .otherwise => if depth = 0 then some (unknown line.place) else firstIssue depth rest
      | _ =>
        match line.construct? with
        | some _ =>
          if (Block.close? (rest.map Line.role)).isSome then firstIssue (depth + 1) rest
          else some ⟨line.place.line, line.unterminated⟩
        | none =>
          if (Form.classify line.place.text).isSome then firstIssue depth rest
          else some (unknown line.place)

/-- Checks a source. -/
def check (source : Text) : Except Issue Unit :=
  match firstIssue 0 (Line.ofSource source) with
  | some issue => .error issue
  | none => .ok ()

end Program

end Grimoire
