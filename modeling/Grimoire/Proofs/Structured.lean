import Grimoire.Library.Standard
import Grimoire.Proofs.Balance
import Grimoire.Proofs.Outcomes
import Grimoire.Proofs.Walker

/-!
# Structured programs

A structured program is built from plain lines, conditionals and loops. It runs by recursion on its
structure. It may be laid out as lines in many ways: with any indentation, with blank lines and
comments anywhere, and with or without an `otherwise:` when the second part of a conditional is
empty. Whatever the layout, the walker over the lines does what the structure says.
-/

namespace Grimoire

/-! ## Structure -/

/-- A line that takes no part in a block and is neither blank nor a comment. -/
structure PlainLine where
  text : Text
  isIdle_eq : text.isIdle = false
  isOpener_eq : text.isOpener = false
  isConclude_eq : text.isConclude = false
  isOtherwise_eq : text.isOtherwise = false

/-- A line that opens a construct. -/
structure Opener where
  text : Text
  construct : Construct
  isOpener_eq : text.isOpener = true
  ofLine?_eq : Construct.ofLine? text = some construct

/-- A part of a structured program. -/
inductive Part where
  | plain (line : PlainLine)
  | conditional (opener : {o : Opener // o.construct.isConditional = true})
    (body otherwise : List Part)
  | loop (opener : {o : Opener // o.construct.isConditional = false}) (body : List Part)

/-! ## Runs by recursion on the structure -/

namespace Structured

variable {σ : Type}

/-- Runs a body and then tests a condition until it holds; fails after `limit` rounds, of which
`done` have passed. -/
def runUntil (condition : Text) (body : Run σ Unit) (limit done : Nat) : Run σ Unit := do
  body
  if ← Run.evaluate (Eval.holds condition) then return ()
  else if limit ≤ done + 1 then Run.fail (.loopBoundExceeded limit)
  else runUntil condition body limit (done + 1)
termination_by limit - done

/-- Runs a construct: a conditional evaluates its condition once and runs one of two parts, a loop
over a container evaluates it once and runs its body for each element that it had then. -/
def runConstruct (body otherwise : Run σ Unit) : Construct → Run σ Unit
  | .when condition | .ward condition => do
    let holds ← Run.evaluate (Eval.holds condition)
    if holds then body else otherwise
  | .repeatEach name container => do
    let elements ← Run.evaluate (Program.iterationOf "repeat each" container)
    elements.forM fun v => do
      Run.bindName name v
      body
  | .stride index name container => do
    let elements ← Run.evaluate (Program.iterationOf "stride" container)
    elements.zipIdx.forM fun (v, place) => do
      Run.bindName index (.number (Number.ofNat place))
      Run.bindName name v
      body
  | .until condition => do
    let m ← get
    runUntil condition body m.config.untilLimit 0

mutual

/-- Runs a part inside `depth` blocks. -/
def runPart [Host σ] (depth : Nat) : Part → Run σ Unit
  | .plain line => Run.statement line.text
  | .conditional opener body otherwise => do
    Program.refuseDepth (depth + 1)
    runConstruct (runParts (depth + 1) body) (runParts (depth + 1) otherwise) opener.val.construct
  | .loop opener body => do
    Program.refuseDepth (depth + 1)
    runConstruct (runParts (depth + 1) body) (return ()) opener.val.construct

/-- Runs parts in order; the first failure ends the run. -/
def runParts [Host σ] (depth : Nat) : List Part → Run σ Unit
  | [] => return ()
  | part :: rest => do
    runPart depth part
    runParts depth rest

end

/-! ### The constructs of the language -/

variable {body otherwise : Run σ Unit}

theorem repeatEach_eq (name : Text) (elements : List Value) :
    Program.repeatEach name body elements =
      elements.forM fun v => (Run.bindName name v >>= fun _ => body) := by
  induction elements with
  | nil => rfl
  | cons v rest ih =>
    rw [Program.repeatEach, ih, List.forM, bind_assoc]

theorem stride_eq (index name : Text) (place : Nat) (elements : List Value) :
    Program.stride index name body place elements =
      (elements.zipIdx place).forM fun entry =>
        (Run.bindName index (.number (Number.ofNat entry.2)) >>= fun _ =>
          Run.bindName name entry.1 >>= fun _ => body) := by
  induction elements generalizing place with
  | nil => rfl
  | cons v rest ih =>
    rw [Program.stride, ih, List.zipIdx_cons, List.forM, bind_assoc]
    simp only [bind_assoc]

/-- Counting the rounds that are left is counting those that have passed. -/
theorem untilHolds_eq (condition : Text) {limit done rounds : Nat}
    (h : done + rounds = max limit (done + 1)) :
    Program.untilHolds condition body limit rounds = runUntil condition body limit done := by
  induction rounds generalizing done with
  | zero => omega
  | succ rounds ih =>
    rw [Program.untilHolds, runUntil]
    refine congrArg (body >>= ·) (funext fun _ => ?_)
    refine congrArg (Run.evaluate (Eval.holds condition) >>= ·) (funext fun holds => ?_)
    split
    · rfl
    · split
      · next hlimit =>
        obtain rfl : rounds = 0 := by omega
        rfl
      · exact ih (by omega)

theorem construct_eq (c : Construct) :
    Program.construct body otherwise c = runConstruct body otherwise c := by
  cases c with
  | when condition | ward condition => rfl
  | repeatEach name container =>
    simp only [Program.construct, runConstruct, repeatEach_eq]
  | stride index name container =>
    simp only [Program.construct, runConstruct, stride_eq]
  | «until» condition =>
    -- even where the limit is 0 the body runs once
    simp only [Program.construct, runConstruct]
    refine congrArg (get >>= ·) (funext fun m => ?_)
    exact untilHolds_eq condition (by omega)

end Structured

/-! ## Layouts -/

/-- The lines are a layout of the parts. -/
inductive Layout : List Part → List Text → Prop
  | nil : Layout [] []
  | idle {parts : List Part} {lines : List Text} {text : Text} (htext : text.isIdle = true) :
    Layout parts lines → Layout parts (text :: lines)
  | plain {rest : List Part} {lines : List Text} {line : PlainLine} {text : Text}
    (htext : text.trim = line.text.trim) : Layout rest lines →
    Layout (.plain line :: rest) (text :: lines)
  | conditional {opener : {o : Opener // o.construct.isConditional = true}} {body rest : List Part}
    {inside lines : List Text} {text close : Text} (htext : text.trim = opener.val.text.trim)
    (hclose : close.isConclude = true) : Layout body inside → Layout rest lines →
    Layout (.conditional opener body [] :: rest) (text :: (inside ++ close :: lines))
  | conditionalOtherwise {opener : {o : Opener // o.construct.isConditional = true}}
    {body otherwise rest : List Part} {inside others lines : List Text}
    {text separator close : Text} (htext : text.trim = opener.val.text.trim)
    (hseparator : separator.isOtherwise = true) (hclose : close.isConclude = true) :
    Layout body inside → Layout otherwise others → Layout rest lines →
    Layout (.conditional opener body otherwise :: rest)
      (text :: ((inside ++ separator :: others) ++ close :: lines))
  | loop {opener : {o : Opener // o.construct.isConditional = false}} {body rest : List Part}
    {inside lines : List Text} {text close : Text} (htext : text.trim = opener.val.text.trim)
    (hclose : close.isConclude = true) : Layout body inside → Layout rest lines →
    Layout (.loop opener body :: rest) (text :: (inside ++ close :: lines))

/-! ### Printing -/

mutual

/-- The lines of a part without indentation, blank lines or comments. -/
def Part.print : Part → List Text
  | .plain line => [line.text]
  | .conditional opener body otherwise =>
    opener.val.text :: ((printAll body ++ "otherwise:".toList :: printAll otherwise)
      ++ ["conclude".toList])
  | .loop opener body => opener.val.text :: (printAll body ++ ["conclude".toList])

/-- The lines of parts, one part after the other. -/
def Part.printAll : List Part → List Text
  | [] => []
  | part :: rest => part.print ++ printAll rest

end

/-- Every structured program has a layout. -/
theorem layout_printAll : ∀ parts : List Part, Layout parts (Part.printAll parts)
  | [] => .nil
  | .plain line :: rest => .plain rfl (layout_printAll rest)
  | .conditional opener body otherwise :: rest => by
    rw [Part.printAll, Part.print, List.cons_append, List.append_assoc]
    exact .conditionalOtherwise rfl (by decide) (by decide) (layout_printAll body)
      (layout_printAll otherwise) (layout_printAll rest)
  | .loop opener body :: rest => by
    rw [Part.printAll, Part.print, List.cons_append, List.append_assoc]
    exact .loop rfl (by decide) (layout_printAll body) (layout_printAll rest)

/-! ### Roles in a layout -/

theorem PlainLine.role_eq (line : PlainLine) : line.text.role = .plain :=
  Text.role_of_plain line.isOpener_eq line.isConclude_eq line.isOtherwise_eq

namespace Layout

variable {parts : List Part} {lines : List Text}

/-- The role of a line that is a plain line up to blanks around it. -/
theorem role_of_plain {line : PlainLine} {text : Text} (h : text.trim = line.text.trim) :
    text.role = .plain :=
  (Text.role_congr h).trans line.role_eq

/-- The role of a line that is an opener up to blanks around it. -/
theorem role_of_opener {opener : Opener} {text : Text} (h : text.trim = opener.text.trim) :
    text.role = .opener :=
  (Text.role_congr h).trans (Text.role_of_isOpener opener.isOpener_eq)

/-- Layouts open and close the same blocks. -/
theorem unwinds (h : Layout parts lines) : Block.Unwinds 0 (lines.map Text.role) := by
  induction h with
  | nil => exact .nil
  | idle htext _ ih =>
    rw [List.map_cons, Text.role_of_isIdle htext]
    exact .skip Role.noConfusion Role.noConfusion ih
  | plain htext _ ih =>
    rw [List.map_cons, role_of_plain htext]
    exact .skip Role.noConfusion Role.noConfusion ih
  | conditional htext hclose _ _ ihbody ih | loop htext hclose _ _ ihbody ih =>
    rw [List.map_cons, List.map_append, List.map_cons, role_of_opener htext,
      Text.role_of_isConclude hclose]
    exact ihbody.block ih
  | conditionalOtherwise htext hseparator hclose _ _ _ ihbody ihotherwise ih =>
    rw [List.map_cons, List.map_append, List.map_append, List.map_cons, List.map_cons,
      role_of_opener htext, Text.role_of_isOtherwise hseparator, Text.role_of_isConclude hclose]
    exact (ihbody.append (ihotherwise.skip Role.noConfusion Role.noConfusion)).block ih

/-- A search for an `otherwise:` passes over a whole block. -/
theorem otherwiseFrom_block {inside rest : List Role} (h : Block.Unwinds 0 inside) :
    Block.otherwiseFrom 0 (.opener :: (inside ++ .conclude :: rest))
      = (Block.otherwiseFrom 0 rest).map (· + (inside.length + 2)) := by
  have hinside : Block.otherwiseFrom 1 (inside ++ .conclude :: rest)
      = (Block.otherwiseFrom 1 (.conclude :: rest)).map (· + inside.length) :=
    h.otherwiseFrom_append (e := 0)
  rw [Block.otherwiseFrom_opener, hinside, Block.otherwiseFrom_conclude, Block.map_add_map_add,
    Block.map_add_map_add]
  congr 2
  funext place
  omega

/-- A search for an `otherwise:` passes over a layout: every one in it belongs to a block in it. -/
theorem otherwiseFrom_append (h : Layout parts lines) (more : List Role) :
    Block.otherwiseFrom 0 (lines.map Text.role ++ more)
      = (Block.otherwiseFrom 0 more).map (· + lines.length) := by
  induction h with
  | nil => simp
  | idle htext _ ih =>
    rw [List.map_cons, Text.role_of_isIdle htext, List.cons_append, Block.otherwiseFrom_plain, ih,
      Block.map_add_map_add]
    rfl
  | plain htext _ ih =>
    rw [List.map_cons, role_of_plain htext, List.cons_append, Block.otherwiseFrom_plain, ih,
      Block.map_add_map_add]
    rfl
  | conditional htext hclose hbody _ _ ih | loop htext hclose hbody _ _ ih =>
    -- inside a block the search counts only, so the body need not be gone through again
    rw [List.map_cons, List.map_append, List.map_cons, role_of_opener htext,
      Text.role_of_isConclude hclose, List.cons_append, List.append_assoc, List.cons_append,
      otherwiseFrom_block hbody.unwinds, ih, Block.map_add_map_add]
    congr 2
    funext place
    simp only [List.length_cons, List.length_append, List.length_map]
    omega
  | @conditionalOtherwise _ _ _ _ _ others _ _ _ _ htext hseparator hclose hbody hotherwise _ _ _ ih =>
    have hsecond : Block.Unwinds 0 (.otherwise :: others.map Text.role) :=
      hotherwise.unwinds.skip Role.noConfusion Role.noConfusion
    rw [List.map_cons, List.map_append, List.map_append, List.map_cons, List.map_cons,
      role_of_opener htext, Text.role_of_isOtherwise hseparator, Text.role_of_isConclude hclose,
      List.cons_append, List.append_assoc, List.cons_append,
      otherwiseFrom_block (hbody.unwinds.append hsecond), ih, Block.map_add_map_add]
    congr 2
    funext place
    simp only [List.length_cons, List.length_append, List.length_map]
    omega

/-! ### The tree of a layout -/

open Program

variable {number : Nat}

/-- The line of a text. -/
theorem construct?_of_opener {opener : Opener} {text : Text} (h : text.trim = opener.text.trim) :
    (Line.mk ⟨number, text.trim⟩ text.role).construct? = some opener.construct := by
  have hopener : text.trim.isOpener = true := by
    rw [← Text.role_eq_opener_iff, Text.role_congr (Text.trim_trim text), role_of_opener h]
  have hofLine : Construct.ofLine? text.trim = Construct.ofLine? opener.text := by
    unfold Construct.ofLine?
    rw [Text.trim_trim, h]
  rw [Line.construct?_mk, Text.construct?, if_pos hopener, hofLine, opener.ofLine?_eq]

theorem isIdle_of_role {text : Text} (h : text.role ≠ .plain) : text.trim.isIdle = false := by
  rw [Text.isIdle_congr (Text.trim_trim text), Bool.eq_false_iff]
  exact fun hidle => h (Text.role_of_isIdle hidle)

/-- The tree of a block in a layout and the lines behind it. -/
theorem ofLines_of_opener {opener : Opener} {inside lines : List Text} {text close : Text}
    (htext : text.trim = opener.text.trim) (hclose : close.isConclude = true)
    (hinside : Block.Unwinds 0 (inside.map Text.role)) :
    ofLines (Line.numberFrom number (text :: (inside ++ close :: lines))) =
      .block ⟨number, text.trim⟩ opener.construct
        (ofLines (Program.parts opener.construct (Line.numberFrom (number + 1) inside)).1)
        (ofLines (Program.parts opener.construct (Line.numberFrom (number + 1) inside)).2)
        :: ofLines (Line.numberFrom (number + 1 + inside.length + 1) lines) := by
  have hidle : (Line.mk ⟨number, text.trim⟩ text.role).place.text.isIdle = false :=
    isIdle_of_role (by rw [role_of_opener htext]; exact Role.noConfusion)
  have hfound : Block.close? ((Line.numberFrom (number + 1) (inside ++ close :: lines)).map Line.role)
      = some inside.length := by
    rw [Line.map_role_numberFrom, List.map_append, List.map_cons, Text.role_of_isConclude hclose,
      hinside.close?_append, List.length_map]
  have hrest : (inside ++ close :: lines).drop (inside.length + 1) = lines := by simp
  rw [Line.numberFrom, ofLines_block hidle (construct?_of_opener htext) hfound, Line.take_numberFrom,
    Line.drop_numberFrom, List.take_left, hrest]
  rfl

theorem parts_of_loop {c : Construct} (hc : c.isConditional = false) (body : List Line) :
    Program.parts c body = (body, []) := by
  rw [Program.parts, hc]
  rfl

theorem parts_of_conditional {c : Construct} (hc : c.isConditional = true) {body : List Part}
    {inside : List Text} (hbody : Layout body inside) :
    Program.parts c (Line.numberFrom number inside) = (Line.numberFrom number inside, []) := by
  have hnone : Block.otherwise? ((Line.numberFrom number inside).map Line.role) = none := by
    have happend := hbody.otherwiseFrom_append []
    rw [List.append_nil] at happend
    rw [Line.map_role_numberFrom, Block.otherwise?, happend]
    rfl
  rw [Program.parts, if_pos hc, hnone]

theorem parts_of_otherwise {c : Construct} (hc : c.isConditional = true) {body : List Part}
    {inside others : List Text} {separator : Text} (hbody : Layout body inside)
    (hseparator : separator.isOtherwise = true) :
    Program.parts c (Line.numberFrom number (inside ++ separator :: others)) =
      (Line.numberFrom number inside, Line.numberFrom (number + (inside.length + 1)) others) := by
  have hsome : Block.otherwise? ((Line.numberFrom number (inside ++ separator :: others)).map
      Line.role) = some inside.length := by
    rw [Line.map_role_numberFrom, List.map_append, List.map_cons,
      Text.role_of_isOtherwise hseparator, Block.otherwise?, hbody.otherwiseFrom_append]
    simp [Block.otherwiseFrom]
  have hrest : (inside ++ separator :: others).drop (inside.length + 1) = others := by simp
  rw [Program.parts, if_pos hc, hsome]
  show (List.take _ _, List.drop _ _) = _
  rw [Line.take_numberFrom, Line.drop_numberFrom, List.take_left, hrest]

/-! ### Running a layout -/

open Run Structured

variable {σ : Type} [Host σ] {depth : Nat}

/-- A statement depends on its trimmed text alone. -/
theorem statement_congr {s t : Text} (h : s.trim = t.trim) :
    statement (σ := σ) s = statement t := by
  have hfind : Form.find? s = Form.find? t := by
    unfold Form.find?
    rw [h]
  rw [statement, statement, Text.isIdle_congr h, hfind, h]

/-- A block does what its construct does with parts that are alike. -/
theorem alike_block {place : Place} {c : Construct} {body otherwise : List Node}
    {body' otherwise' : Run σ Unit} (hbody : Alike (runNodes (depth + 1) body) body')
    (hotherwise : Alike (runNodes (depth + 1) otherwise) otherwise') :
    Alike (runNode depth (.block place c body otherwise))
      (refuseDepth (depth + 1) >>= fun _ => runConstruct body' otherwise' c) := by
  rw [runNode]
  refine (alike_located _ _).trans ((Alike.refl _).bind fun _ => ?_)
  rw [← construct_eq]
  exact alike_construct hbody hotherwise c

/-- The tree of a layout does what the structure says. -/
theorem alike_runNodes (h : Layout parts lines) (number depth : Nat) :
    Alike (σ := σ) (runNodes depth (ofLines (Line.numberFrom number lines)))
      (runParts depth parts) := by
  induction h generalizing number depth with
  | nil =>
    rw [Line.numberFrom, ofLines_nil, runNodes, runParts]
    exact .refl _
  | @idle _ _ text htext _ ih =>
    have hidle : (Line.mk ⟨number, text.trim⟩ text.role).place.text.isIdle = true := by
      rw [← htext]
      exact Text.isIdle_congr (Text.trim_trim text)
    rw [Line.numberFrom, ofLines_idle hidle]
    exact ih (number + 1) depth
  | @plain _ _ line text htext _ ih =>
    have htrim : text.trim.trim = line.text.trim := (Text.trim_trim text).trans htext
    have hidle : (Line.mk ⟨number, text.trim⟩ text.role).place.text.isIdle = false :=
      (Text.isIdle_congr htrim).trans line.isIdle_eq
    have hopener : text.trim.isOpener = false := by
      rw [Bool.eq_false_iff, ne_eq, ← Text.role_eq_opener_iff, role_of_plain htrim]
      exact Role.noConfusion
    have hconstruct : (Line.mk ⟨number, text.trim⟩ text.role).construct? = none := by
      rw [Line.construct?_mk, Text.construct?, hopener]
      rfl
    rw [Line.numberFrom, ofLines_statement hidle hconstruct, runNodes, runNode, runParts, runPart,
      statement_congr htrim]
    exact (alike_located _ _).bind fun _ => ih _ _
  | @conditional opener body rest inside lines text close htext hclose hbody hrest ihbody ih =>
    rw [ofLines_of_opener htext hclose hbody.unwinds, parts_of_conditional opener.property hbody,
      runNodes, runParts, runPart]
    refine Alike.bind (alike_block (ihbody _ _) ?_) fun _ => ih _ _
    rw [ofLines_nil, runNodes, runParts]
    exact .refl _
  | @conditionalOtherwise opener body otherwise rest inside others lines text separator close htext
      hseparator hclose hbody hotherwise hrest ihbody ihotherwise ih =>
    have hunwinds : Block.Unwinds 0 ((inside ++ separator :: others).map Text.role) := by
      rw [List.map_append, List.map_cons, Text.role_of_isOtherwise hseparator]
      exact hbody.unwinds.append (hotherwise.unwinds.skip Role.noConfusion Role.noConfusion)
    rw [ofLines_of_opener htext hclose hunwinds,
      parts_of_otherwise opener.property hbody hseparator, runNodes, runParts, runPart]
    exact Alike.bind (alike_block (ihbody _ _) (ihotherwise _ _)) fun _ => ih _ _
  | @loop opener body rest inside lines text close htext hclose hbody hrest ihbody ih =>
    rw [ofLines_of_opener htext hclose hbody.unwinds, parts_of_loop opener.property,
      runNodes, runParts, runPart]
    refine Alike.bind (alike_block (ihbody _ _) ?_) fun _ => ih _ _
    rw [ofLines_nil, runNodes]
    exact .refl _

/-- Walking over the lines of a layout leaves the machine, with all that its host was asked, and ends
in the fault, if in any, that running the structure does; so does running a source whose lines they
are, from the machine reset. -/
theorem runLines_outcome (h : Layout parts lines) (m : Machine σ) :
    (runLines lines 0 0 lines.length).outcome m = (runParts 0 parts).outcome m ∧
      ∀ source : Text, source.lines = lines →
        (interpret source).outcome m = (runParts 0 parts).outcome m.reset := by
  have hall : between lines 0 lines.length = Line.numberFrom 1 lines := by
    rw [between, List.take_length, List.drop_zero]
  have hwalk : Alike (σ := σ) (runLines lines 0 0 lines.length) (runParts 0 parts) := by
    rw [runLines_eq (Nat.le_refl _), hall]
    exact h.alike_runNodes 1 0
  refine ⟨hwalk m, fun source hsource => ?_⟩
  rw [interpret_eq, hsource, outcome_bind]
  exact hwalk m.reset

end Layout

/-- A loop over two letters with a conditional in it. -/
def lettersLoop : List Part :=
  [.loop ⟨⟨"repeat each c in \"ab\":".toList, .repeatEach "c".toList "\"ab\"".toList, by decide,
      by decide⟩, rfl⟩
    [.conditional ⟨⟨"when c is \"a\":".toList, .when "c is \"a\"".toList, by decide,
        by decide⟩, rfl⟩
      [.plain ⟨"Reveal: first".toList, by decide, by decide, by decide, by decide⟩]
      [.plain ⟨"Reveal: second".toList, by decide, by decide, by decide, by decide⟩]]]

theorem runLines_outcome_lettersLoop :
    Layout lettersLoop (Part.printAll lettersLoop) ∧
      (Program.runLines (σ := Transcript) (Part.printAll lettersLoop) 0 0
        (Part.printAll lettersLoop).length).outcome (.fresh {} .standard default {}) =
      (Structured.runParts 0 lettersLoop).outcome (.fresh {} .standard default {}) :=
  ⟨layout_printAll lettersLoop, (Layout.runLines_outcome (layout_printAll lettersLoop) _).1⟩

end Grimoire
