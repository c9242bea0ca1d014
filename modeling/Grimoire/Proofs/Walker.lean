import Grimoire.Program.Run
import Grimoire.Proofs.Balance
import Grimoire.Proofs.Lines

/-!
# Running lines by their indices

A source can be run without a tree: a walker goes from line to line and, where it meets an opener,
looks for the end of the block among the lines before the end of the block it is in. It searches
anew every time that it comes to the opener. Here it is shown to do what the tree of the lines does.
-/

namespace Grimoire

/-! ## Bounds of the searches -/

namespace Block

/-- A block ends where the search finds its end behind the opener. -/
theorem end?_eq_ok_iff {lines : List Text} {opener close : Nat} : end? lines opener = .ok close ↔
    ∃ place, closeFrom 0 ((lines.drop (opener + 1)).map Text.role) = some place ∧
      opener + 1 + place = close := by
  unfold end?
  rw [close?]
  cases closeFrom 0 ((lines.drop (opener + 1)).map Text.role) with
  | none => simp
  | some place => simp

theorem bounds_of_end? {lines : List Text} {opener close : Nat}
    (h : end? lines opener = .ok close) : opener < close ∧ close < lines.length := by
  obtain ⟨place, hplace, rfl⟩ := end?_eq_ok_iff.1 h
  have hlt := lt_length_of_closeFrom hplace
  rw [List.length_map, List.length_drop] at hlt
  omega

theorem bounds_of_otherwiseBetween? {lines : List Text} {opener close separator : Nat}
    (h : otherwiseBetween? lines opener close = some separator) :
    opener < separator ∧ separator < close := by
  obtain ⟨place, hplace, rfl⟩ := Option.map_eq_some_iff.1 h
  have hlt := lt_length_of_otherwiseFrom hplace
  rw [List.length_map, List.length_drop, List.length_take] at hlt
  omega

end Block

namespace Program

variable {σ : Type}

/-- The index of the `otherwise:` that separates the parts of a block. -/
def separator? (lines : List Text) (c : Construct) (opener close : Nat) : Option Nat :=
  if c.isConditional then Block.otherwiseBetween? lines opener close else none

theorem bounds_of_separator? {lines : List Text} {c : Construct} {opener close separator : Nat}
    (h : separator? lines c opener close = some separator) :
    opener < separator ∧ separator < close := by
  unfold separator? at h
  split at h
  · exact Block.bounds_of_otherwiseBetween? h
  · cases h

/-- Runs the lines from one index up to another inside `depth` blocks. -/
def runLines [Host σ] (lines : List Text) (depth start stop : Nat) : Run σ Unit :=
  if start < stop then
    let text := (lines.getD start []).trim
    if text.isIdle then runLines lines depth (start + 1) stop
    else match text.construct? with
      | none => do
        Run.located ⟨start + 1, text⟩ (Run.statement text)
        runLines lines depth (start + 1) stop
      | some c =>
        match hclose : Block.end? (lines.take stop) start with
        | .error fault => Run.fail fault
        | .ok close => do
          Run.located ⟨start + 1, text⟩ do
            refuseDepth (depth + 1)
            match hseparator : separator? lines c start close with
            | some separator =>
              construct (runLines lines (depth + 1) (start + 1) separator)
                (runLines lines (depth + 1) (separator + 1) close) c
            | none => construct (runLines lines (depth + 1) (start + 1) close) (return ()) c
          runLines lines depth (close + 1) stop
  else return ()
termination_by stop - start
decreasing_by
  · omega
  · omega
  · have hbounds := Block.bounds_of_end? hclose
    have hbounds' := bounds_of_separator? hseparator
    rw [List.length_take] at hbounds
    omega
  · have hbounds := Block.bounds_of_end? hclose
    have hbounds' := bounds_of_separator? hseparator
    rw [List.length_take] at hbounds
    omega
  · have hbounds := Block.bounds_of_end? hclose
    rw [List.length_take] at hbounds
    omega
  · have hbounds := Block.bounds_of_end? hclose
    rw [List.length_take] at hbounds
    omega

/-! ## The lines between two indices -/

/-- The lines from one index up to another. -/
def between (lines : List Text) (start stop : Nat) : List Line :=
  Line.numberFrom (start + 1) ((lines.take stop).drop start)

/-- The line at an index. -/
def lineAt (lines : List Text) (start : Nat) : Line :=
  ⟨⟨start + 1, (lines.getD start []).trim⟩, (lines.getD start []).role⟩

variable {lines : List Text} {start stop : Nat}

theorem construct?_lineAt :
    (lineAt lines start).construct? = (lines.getD start []).trim.construct? :=
  Line.construct?_mk (start + 1) (lines.getD start [])

theorem between_of_le (h : stop ≤ start) : between lines start stop = [] := by
  have hlength : (lines.take stop).length ≤ start := by
    rw [List.length_take]
    omega
  rw [between, List.drop_eq_nil_of_le hlength, Line.numberFrom]

theorem between_cons (h : start < stop) (hstop : stop ≤ lines.length) :
    between lines start stop = lineAt lines start :: between lines (start + 1) stop := by
  have hlength : start < (lines.take stop).length := by
    rw [List.length_take]
    omega
  have hstart : start < lines.length := Nat.lt_of_lt_of_le h hstop
  have hget : (lines.take stop)[start] = lines.getD start [] := by simp [hstart]
  rw [between, List.drop_eq_getElem_cons hlength, Line.numberFrom, hget, lineAt, between]

theorem take_between (count : Nat) (h : start + count ≤ stop) :
    (between lines start stop).take count = between lines start (start + count) := by
  rw [between, between, Line.take_numberFrom, List.take_drop, List.take_take]
  congr 3
  omega

theorem drop_between (count : Nat) :
    (between lines start stop).drop count = between lines (start + count) stop := by
  rw [between, between, Line.drop_numberFrom, List.drop_drop, Nat.add_right_comm]

theorem map_role_between :
    (between lines start stop).map Line.role = ((lines.take stop).drop start).map Text.role := by
  rw [between, Line.map_role_numberFrom]

/-- The parts of the body of a block are the lines on both sides of its separator. -/
theorem parts_between (c : Construct) (opener close : Nat) :
    parts c (between lines (opener + 1) close) = match separator? lines c opener close with
      | some separator =>
        (between lines (opener + 1) separator, between lines (separator + 1) close)
      | none => (between lines (opener + 1) close, []) := by
  unfold parts separator? Block.otherwiseBetween?
  rw [map_role_between]
  by_cases hc : c.isConditional = true
  · rw [if_pos hc, if_pos hc]
    cases hplace : Block.otherwise? (((lines.take close).drop (opener + 1)).map Text.role) with
    | none => rfl
    | some place =>
      have hlt := Block.lt_length_of_otherwiseFrom hplace
      rw [List.length_map, List.length_drop, List.length_take] at hlt
      have htake : (between lines (opener + 1) close).take place
          = between lines (opener + 1) (opener + 1 + place) := take_between place (by omega)
      have hdrop : (between lines (opener + 1) close).drop (place + 1)
          = between lines (opener + 1 + place + 1) close := drop_between (place + 1)
      exact congrArg₂ Prod.mk htake hdrop
  · rw [if_neg hc, if_neg hc]

/-- The end of a block is searched among the lines behind its opener. -/
theorem end?_take (h : start < stop) :
    Block.end? (lines.take stop) start
      = match Block.close? ((between lines (start + 1) stop).map Line.role) with
        | some place => .ok (start + 1 + place)
        | none => .error (lineAt lines start).unterminated := by
  have hget : (lines.take stop).getD start [] = lines.getD start [] := by simp [h]
  have hname : Text.openerName (lines.getD start []).trim = Text.openerName (lines.getD start []) := by
    rw [Text.openerName, Text.trim_trim, Text.openerName]
  rw [Block.end?, map_role_between, hget, Line.unterminated, lineAt]
  cases Block.close? (((lines.take stop).drop (start + 1)).map Text.role) with
  | none =>
    show Except.error (Fault.unterminatedBlock (Text.openerName (lines.getD start [])) (start + 1))
      = .error (.unterminatedBlock (Text.openerName (lines.getD start []).trim) (start + 1))
    rw [hname]
  | some place => rfl

theorem close?_of_end?_ok {close : Nat} (h : start < stop)
    (hclose : Block.end? (lines.take stop) start = .ok close) :
    ∃ place, Block.close? ((between lines (start + 1) stop).map Line.role) = some place ∧
      start + 1 + place = close := by
  rw [end?_take h] at hclose
  cases hplace : Block.close? ((between lines (start + 1) stop).map Line.role) with
  | none =>
    rw [hplace] at hclose
    cases hclose
  | some place =>
    rw [hplace] at hclose
    exact ⟨place, rfl, Except.ok.inj hclose⟩

theorem close?_of_end?_error {fault : Fault} (h : start < stop)
    (hclose : Block.end? (lines.take stop) start = .error fault) :
    Block.close? ((between lines (start + 1) stop).map Line.role) = none ∧
      (lineAt lines start).unterminated = fault := by
  rw [end?_take h] at hclose
  cases hplace : Block.close? ((between lines (start + 1) stop).map Line.role) with
  | none =>
    rw [hplace] at hclose
    exact ⟨rfl, Except.error.inj hclose⟩
  | some place =>
    rw [hplace] at hclose
    cases hclose

/-! ## The walker and the tree -/

/-- The walker does what the tree of the lines does. -/
theorem runLines_eq [Host σ] {depth : Nat} (hstop : stop ≤ lines.length) :
    runLines (σ := σ) lines depth start stop
      = runNodes depth (ofLines (between lines start stop)) := by
  fun_induction runLines (σ := σ) lines depth start stop with
  | case1 depth start stop h text hidle ih =>
    have hidle : (lineAt lines start).place.text.isIdle = true := hidle
    rw [between_cons h hstop, ofLines_idle hidle]
    exact ih hstop
  | case2 depth start stop h text hidle hc ih =>
    have hidle : (lineAt lines start).place.text.isIdle = false := Bool.eq_false_iff.2 hidle
    have hc : (lineAt lines start).construct? = none := construct?_lineAt.trans hc
    rw [between_cons h hstop, ofLines_statement hidle hc, runNodes, runNode, ih hstop]
    rfl
  | case3 depth start stop h text hidle c hc fault hclose =>
    have hidle : (lineAt lines start).place.text.isIdle = false := Bool.eq_false_iff.2 hidle
    have hc : (lineAt lines start).construct? = some c := construct?_lineAt.trans hc
    obtain ⟨hplace, rfl⟩ := close?_of_end?_error h hclose
    rw [between_cons h hstop, ofLines_unterminated hidle hc hplace, runNodes, runNode]
    rfl
  | case4 depth start stop h text hidle c hc close hclose ih₄ ih₃ ih₂ ih₁ =>
    have hbounds := Block.bounds_of_end? hclose
    rw [List.length_take] at hbounds
    have hidle : (lineAt lines start).place.text.isIdle = false := Bool.eq_false_iff.2 hidle
    have hc : (lineAt lines start).construct? = some c := construct?_lineAt.trans hc
    obtain ⟨place, hplace, hend⟩ := close?_of_end?_ok h hclose
    have hbody : (between lines (start + 1) stop).take place = between lines (start + 1) close := by
      rw [take_between place (by omega), hend]
    have hrest : (between lines (start + 1) stop).drop (place + 1)
        = between lines (close + 1) stop := by
      rw [drop_between, ← hend]
      rfl
    rw [between_cons h hstop, ofLines_block hidle hc hplace, hbody, hrest, runNodes, runNode,
      ih₁ hstop, parts_between]
    -- both sides now run the same construct; what is left is that its parts are the same runs
    refine congrArg (· >>= _) (congrArg (Run.located _)
      (congrArg (refuseDepth (depth + 1) >>= ·) (funext fun _ => ?_)))
    split
    · next separator hseparator =>
      have hbounds' := bounds_of_separator? hseparator
      rw [hseparator, ih₄ separator hseparator (by omega), ih₃ separator hseparator (by omega)]
    · next hseparator =>
      rw [hseparator, ih₂ (by omega), ofLines_nil, runNodes]
  | case5 depth start stop h =>
    rw [between_of_le (Nat.le_of_not_lt h), ofLines_nil, runNodes]

/-- A source is run by walking over its lines. -/
theorem interpret_eq [Host σ] (source : Text) :
    interpret (σ := σ) source =
      modify Machine.reset >>= fun _ => runLines source.lines 0 0 source.lines.length := by
  have hall : between source.lines 0 source.lines.length = Line.ofSource source := by
    rw [between, List.take_length, List.drop_zero, Line.ofSource]
  rw [interpret, runLines_eq (Nat.le_refl _), hall, ofSource]

end Program

end Grimoire
