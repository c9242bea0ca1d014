import Grimoire.Program.Check
import Grimoire.Proofs.Grounded
import Grimoire.Proofs.Trees

/-!
# Checks and runs

A check reads the lines once and counts the constructs that are open, while a run gives every
`otherwise:` and `conclude` to a block. A run that ends at an unclosed block does so outside all
blocks, and the check finds that block or something before it. A run that ends at an unknown
statement does so at a line that the check finds too, unless the line is a `conclude` or an
`otherwise:` before which more constructs are opened than closed: those the check lets pass.
-/

namespace Grimoire

/-! ## Numbers of lines -/

namespace Line

/-- The roles of lines are those of their texts. -/
theorem role_of_mem_numberFrom {number : Nat} {texts : List Text} {line : Line}
    (h : line ∈ numberFrom number texts) : line.role = line.place.text.role := by
  induction texts generalizing number with
  | nil => cases h
  | cons text rest ih =>
    rw [numberFrom, List.mem_cons] at h
    rcases h with rfl | h
    · exact Text.role_congr (Text.trim_trim text).symm
    · exact ih h

theorem le_line_of_mem_numberFrom {number : Nat} {texts : List Text} {line : Line}
    (h : line ∈ numberFrom number texts) : number ≤ line.place.line := by
  induction texts generalizing number with
  | nil => cases h
  | cons text rest ih =>
    rw [numberFrom, List.mem_cons] at h
    rcases h with rfl | h
    · exact Nat.le_refl _
    · exact Nat.le_of_succ_le (ih h)

/-- Later lines have greater numbers. -/
theorem pairwise_numberFrom (number : Nat) (texts : List Text) :
    (numberFrom number texts).Pairwise fun line line' => line.place.line < line'.place.line := by
  induction texts generalizing number with
  | nil => exact .nil
  | cons text rest ih =>
    exact .cons (fun line hline => le_line_of_mem_numberFrom hline) (ih (number + 1))

end Line

namespace Program

/-! ## The check up to a line -/

/-- The check of a line either finds an issue in it or goes on behind it, with one construct more if
it opens one and one block less if it closes one. -/
theorem firstIssue_cons {line : Line} (hread : line.role = line.place.text.role) (rest : List Line)
    (depth : Nat) :
    (∃ issue, firstIssue depth (line :: rest) = some issue ∧ issue.line = line.place.line) ∨
    ∃ depth', firstIssue depth (line :: rest) = firstIssue depth' rest ∧
      depth' + (if line.role = .conclude then 1 else 0)
        = depth + if line.construct?.isSome then 1 else 0 := by
  by_cases hidle : line.place.text.isIdle = true
  · have hrole : line.role = .plain := hread.trans (Text.role_of_isIdle hidle)
    have hc : line.construct? = none := construct?_of_role_ne (by rw [hrole]; exact Role.noConfusion)
    refine Or.inr ⟨depth, ?_, ?_⟩
    · rw [firstIssue, if_pos hidle]
    · rw [hrole, hc]
      rfl
  · rw [firstIssue, if_neg hidle]
    cases hrole : line.role with
    | conclude =>
      have hc : line.construct? = none :=
        construct?_of_role_ne (by rw [hrole]; exact Role.noConfusion)
      cases depth with
      | zero => exact Or.inl ⟨unknown line.place, rfl, rfl⟩
      | succ depth => exact Or.inr ⟨depth, rfl, by rw [hc]; rfl⟩
    | «otherwise» =>
      have hc : line.construct? = none :=
        construct?_of_role_ne (by rw [hrole]; exact Role.noConfusion)
      cases depth with
      | zero => exact Or.inl ⟨unknown line.place, rfl, rfl⟩
      | succ depth => exact Or.inr ⟨depth + 1, rfl, by rw [hc]; rfl⟩
    | opener | plain =>
      cases hc : line.construct? with
      | none =>
        cases hform : (Form.classify line.place.text).isSome with
        | true => exact Or.inr ⟨depth, rfl, rfl⟩
        | false => exact Or.inl ⟨unknown line.place, rfl, rfl⟩
      | some c =>
        cases hclose : (Block.close? (rest.map Line.role)).isSome with
        | true => exact Or.inr ⟨depth + 1, rfl, rfl⟩
        | false => exact Or.inl ⟨⟨line.place.line, line.unterminated⟩, rfl, rfl⟩

/-- The check of some lines either finds an issue in them or goes on behind them, with the
constructs that they open less the blocks that they close. -/
theorem firstIssue_append {front : List Line}
    (hread : ∀ line ∈ front, line.role = line.place.text.role) (rest : List Line) (depth : Nat) :
    (∃ issue, firstIssue depth (front ++ rest) = some issue ∧
      ∃ line ∈ front, issue.line = line.place.line) ∨
    ∃ depth', firstIssue depth (front ++ rest) = firstIssue depth' rest ∧
      depth' + concludes front = depth + constructs front := by
  induction front generalizing depth with
  | nil => exact Or.inr ⟨depth, rfl, rfl⟩
  | cons line front ih =>
    rw [List.cons_append, constructs_cons, concludes_cons]
    rcases firstIssue_cons (hread line List.mem_cons_self) (front ++ rest) depth with
      ⟨issue, hissue, hline⟩ | ⟨depth₁, hstep, hcount₁⟩
    · exact Or.inl ⟨issue, hissue, line, List.mem_cons_self, hline⟩
    · rw [hstep]
      rcases ih (fun l hl => hread l (List.mem_cons_of_mem line hl)) depth₁ with
        ⟨issue, hissue, stood, hstood, hline⟩ | ⟨depth₂, hrest, hcount₂⟩
      · exact Or.inl ⟨issue, hissue, stood, List.mem_cons_of_mem line hstood, hline⟩
      · exact Or.inr ⟨depth₂, hrest, by omega⟩

/-- Issues are at lines. -/
theorem exists_line_of_firstIssue {depth : Nat} {lines : List Line} {issue : Issue}
    (hread : ∀ line ∈ lines, line.role = line.place.text.role)
    (h : firstIssue depth lines = some issue) : ∃ line ∈ lines, issue.line = line.place.line := by
  have happend := firstIssue_append hread [] depth
  rw [List.append_nil, h] at happend
  rcases happend with ⟨found, hfound, hline⟩ | ⟨depth', hnone, -⟩
  · cases hfound
    exact hline
  · rw [firstIssue] at hnone
    cases hnone

theorem check_eq_error_iff {source : Text} {issue : Issue} :
    check source = .error issue ↔ firstIssue 0 (Line.ofSource source) = some issue := by
  unfold check
  cases firstIssue 0 (Line.ofSource source) <;> simp

theorem check_eq_ok_iff {source : Text} :
    check source = .ok () ↔ firstIssue 0 (Line.ofSource source) = none := by
  unfold check
  cases firstIssue 0 (Line.ofSource source) <;> simp

/-! ## The check at a line -/

section Split

variable {source : Text} {front rest : List Line} {line : Line}

/-- The lines before a line of a source have lower numbers, and those behind it have greater. -/
theorem line_lt_of_split (hsplit : Line.ofSource source = front ++ line :: rest) :
    (∀ l ∈ front, l.place.line < line.place.line) ∧
      ∀ l ∈ rest, line.place.line < l.place.line := by
  have hpairs := Line.pairwise_numberFrom 1 source.lines
  rw [← Line.ofSource, hsplit, List.pairwise_append, List.pairwise_cons] at hpairs
  exact ⟨fun l hl => hpairs.2.2 l hl line List.mem_cons_self, hpairs.2.1.1⟩

theorem role_of_split (hsplit : Line.ofSource source = front ++ line :: rest) :
    (∀ l ∈ front, l.role = l.place.text.role) ∧ line.role = line.place.text.role ∧
      ∀ l ∈ rest, l.role = l.place.text.role := by
  have hread : ∀ l ∈ front ++ line :: rest, l.role = l.place.text.role := by
    intro l hl
    rw [← hsplit] at hl
    exact Line.role_of_mem_numberFrom hl
  refine ⟨fun l hl => hread l (List.mem_append_left _ hl), hread line (by simp), fun l hl => ?_⟩
  exact hread l (List.mem_append_right _ (List.mem_cons_of_mem line hl))

/-- The check finds an issue before a line, or it comes to the line inside as many constructs as
were opened and not closed. -/
theorem check_split (hsplit : Line.ofSource source = front ++ line :: rest) :
    (∃ issue, check source = .error issue ∧ issue.line < line.place.line) ∨
    ∃ depth, firstIssue 0 (Line.ofSource source) = firstIssue depth (line :: rest) ∧
      depth + concludes front = constructs front := by
  rcases firstIssue_append (role_of_split hsplit).1 (line :: rest) 0 with
    ⟨issue, hissue, stood, hstood, hline⟩ | ⟨depth, hgoes, hcount⟩
  · refine Or.inl ⟨issue, check_eq_error_iff.2 (hsplit ▸ hissue), ?_⟩
    rw [hline]
    exact (line_lt_of_split hsplit).1 stood hstood
  · exact Or.inr ⟨depth, hsplit ▸ hgoes, by omega⟩

/-- The check finds an unclosed opener or something before it. -/
theorem exists_issue_of_unclosed (hsplit : Line.ofSource source = front ++ line :: rest)
    (hidle : line.place.text.isIdle = false) (hc : line.construct?.isSome = true)
    (hclose : Block.close? (rest.map Line.role) = none) :
    ∃ issue, check source = .error issue ∧ issue.line ≤ line.place.line := by
  rcases check_split hsplit with ⟨issue, hissue, hlt⟩ | ⟨depth, hgoes, -⟩
  · exact ⟨issue, hissue, Nat.le_of_lt hlt⟩
  · obtain ⟨c, hc⟩ := Option.isSome_iff_exists.1 hc
    have hstep : firstIssue depth (line :: rest) = some ⟨line.place.line, line.unterminated⟩ := by
      rw [firstIssue, hidle, role_of_construct? hc, hc, hclose]
      rfl
    exact ⟨_, check_eq_error_iff.2 (hgoes.trans hstep), Nat.le_refl _⟩

/-- A line that the check lets pass though no form of statement takes it: it would close or separate
a block, and more constructs are opened before it than blocks are closed. -/
structure Overlooked (front : List Line) (line : Line) : Prop where
  role : line.role = .conclude ∨ line.role = .otherwise
  inside : concludes front < constructs front

/-- Inside `depth` constructs, the check of a statement of no form finds it or goes on behind it. The
latter happens inside a construct to lines that would close or separate a block. -/
theorem firstIssue_of_find?_eq_none (hidle : line.place.text.isIdle = false)
    (hc : line.construct? = none) (hfind : Form.find? line.place.text = none) (depth : Nat) :
    firstIssue depth (line :: rest) = some (unknown line.place) ∧
        ¬ ((line.role = .conclude ∨ line.role = .otherwise) ∧ 0 < depth) ∨
      (line.role = .conclude ∨ line.role = .otherwise) ∧ 0 < depth ∧
        ∃ depth', firstIssue depth (line :: rest) = firstIssue depth' rest := by
  have hform : Form.classify line.place.text = none := by rw [Form.classify, hfind]; rfl
  rw [firstIssue, hidle]
  cases hrole : line.role with
  | conclude =>
    cases depth with
    | zero => exact Or.inl ⟨rfl, fun h => Nat.lt_irrefl 0 h.2⟩
    | succ depth => exact Or.inr ⟨Or.inl rfl, Nat.succ_pos depth, depth, rfl⟩
  | «otherwise» =>
    cases depth with
    | zero => exact Or.inl ⟨rfl, fun h => Nat.lt_irrefl 0 h.2⟩
    | succ depth => exact Or.inr ⟨Or.inr rfl, Nat.succ_pos depth, depth + 1, rfl⟩
  | opener | plain =>
    rw [hc, hform]
    exact Or.inl ⟨rfl, fun h => by simp at h⟩

/-- The check finds a statement of no form, or something before it, unless it overlooks it. -/
theorem issue_le_iff (hsplit : Line.ofSource source = front ++ line :: rest)
    (hidle : line.place.text.isIdle = false) (hc : line.construct? = none)
    (hfind : Form.find? line.place.text = none) :
    (∃ issue, check source = .error issue ∧ issue.line ≤ line.place.line) ↔
      (∃ issue, check source = .error issue ∧ issue.line < line.place.line) ∨
        ¬ Overlooked front line := by
  rcases check_split hsplit with ⟨issue, hissue, hlt⟩ | ⟨depth, hgoes, hcount⟩
  · exact ⟨fun _ => Or.inl ⟨issue, hissue, hlt⟩, fun _ => ⟨issue, hissue, Nat.le_of_lt hlt⟩⟩
  · have hinside : 0 < depth ↔ concludes front < constructs front := by omega
    rcases firstIssue_of_find?_eq_none hidle hc hfind depth with
      ⟨hfound, hout⟩ | ⟨hrole, hpos, depth', hon⟩
    · have hissue : check source = .error (unknown line.place) :=
        check_eq_error_iff.2 (hgoes.trans hfound)
      refine ⟨fun _ => Or.inr fun h => hout ⟨h.role, hinside.2 h.inside⟩, fun _ => ?_⟩
      exact ⟨unknown line.place, hissue, Nat.le_refl _⟩
    · -- the check goes on behind the line, so an issue it finds is too late
      have hbehind : ∀ issue, check source = .error issue → line.place.line < issue.line := by
        intro issue hissue
        rw [check_eq_error_iff, hgoes, hon] at hissue
        obtain ⟨stood, hstood, hline⟩ := exists_line_of_firstIssue (role_of_split hsplit).2.2 hissue
        rw [hline]
        exact (line_lt_of_split hsplit).2 stood hstood
      constructor
      · rintro ⟨issue, hissue, hle⟩
        exact absurd hle (Nat.not_le_of_lt (hbehind issue hissue))
      · rintro (⟨issue, hissue, hlt⟩ | hseen)
        · exact ⟨issue, hissue, Nat.le_of_lt hlt⟩
        · exact absurd ⟨hrole, hinside.1 hpos⟩ hseen

/-- Where the check finds nothing no `conclude` is a statement: each closes a construct. -/
theorem strays_eq_zero_of_check (h : check source = .ok ()) :
    strays (statements (ofSource source)) = 0 := by
  have hread : ∀ l ∈ Line.ofSource source, l.role = l.place.text.role :=
    fun l hl => Line.role_of_mem_numberFrom hl
  have hclosed : unclosed (ofSource source) = [] := by
    by_contra hopen
    obtain ⟨nodes, line, front, rest, -, -, hsplit, hidle, hc, hclose⟩ :=
      exists_last_of_unclosed hopen
    obtain ⟨issue, hissue, -⟩ := exists_issue_of_unclosed hsplit hidle hc hclose
    rw [h] at hissue
    cases hissue
  have hnone := check_eq_ok_iff.1 h
  -- the depth of the check never falls below 0
  have hcount : concludes (Line.ofSource source) ≤ constructs (Line.ofSource source) := by
    rcases firstIssue_append hread [] 0 with ⟨issue, hissue, -⟩ | ⟨depth, -, hcount⟩
    · rw [List.append_nil, hnone] at hissue
      cases hissue
    · omega
  have hbalance := concludes_eq hread hclosed
  rw [← ofSource] at hbalance
  omega

end Split

/-! ## Runs of checked sources -/

section Runs

variable {σ : Type} [Host σ]

/-- Parts of a program run one after the other. -/
theorem runNodes_append (depth : Nat) (nodes more : List Node) :
    runNodes (σ := σ) depth (nodes ++ more) =
      (runNodes depth nodes >>= fun _ => runNodes depth more) := by
  induction nodes with
  | nil => rw [List.nil_append, runNodes, pure_bind]
  | cons node rest ih => rw [List.cons_append, runNodes, runNodes, ih, bind_assoc]

/-- A program that ends in an unclosed opener, and has no other, fails as that opener does only
after it has run all that stands before it. -/
theorem runNodes_ok_of_unterminated {C : Contract σ} (hC : Respects C) {nodes : List Node}
    {line : Line} {m : Machine σ} (hm : C.holds m) (hnodes : unclosed nodes = [])
    {failure : Failure} {opener : Text} {number : Nat}
    (hrun : ((runNodes 0 (nodes ++ [.unterminated line])).run.run m).1 = .error failure)
    (hfault : failure.fault = .unterminatedBlock opener number) :
    ((runNodes 0 nodes).run.run m).1 = .ok () ∧ failure = { fault := line.unterminated } := by
  rw [runNodes_append, run_bind] at hrun
  cases hfront : (runNodes 0 nodes).run.run m with
  | mk result m' =>
    rw [hfront] at hrun
    cases result with
    | error failure' =>
      -- among the nodes before there is no unclosed opener to blame
      have hsame : failure' = failure := Except.error.inj hrun
      subst hsame
      obtain ⟨f, -, hf, hblamed⟩ := exists_blamed hC hm (congrArg Prod.fst hfront)
      obtain ⟨stood, hstood, -⟩ := hblamed.unterminated opener number (hf.trans hfault)
      rw [hnodes] at hstood
      cases hstood
    | ok _ =>
      rw [runNodes, runNode] at hrun
      exact ⟨rfl, (Except.error.inj hrun).symm⟩

variable (config : Config) (clock : Clock) (host : σ) (calls : List Call)

/-- A run that ends at an unclosed block has run everything before the opener, outside all blocks,
and the check finds that block or something before it. -/
theorem unterminated_outside_blocks (source : Text) {failure : Failure} {opener : Text}
    {number : Nat}
    (hrun : ((interpret source).run.run (Machine.afterCalls config clock host calls)).1
      = .error failure)
    (hfault : failure.fault = .unterminatedBlock opener number) :
    (∃ nodes line, ofSource source = nodes ++ [.unterminated line] ∧ unclosed nodes = [] ∧
      ((runNodes 0 nodes).run.run (Machine.afterCalls config clock host calls).reset).1 = .ok () ∧
      line ∈ Line.ofSource source ∧ line.construct?.isSome = true ∧ line.place.line = number ∧
      failure = { fault := line.unterminated }) ∧
    ∃ issue, check source = .error issue ∧ issue.line ≤ number := by
  have hm := (Machine.grounded_afterCalls config clock host calls).reset
  obtain ⟨f, -, hf, hblamed⟩ := exists_blamed respects_grounded hm hrun
  obtain ⟨stood, hstood, -⟩ := hblamed.unterminated opener number (hf.trans hfault)
  have hunclosed : unclosed (ofSource source) ≠ [] := List.ne_nil_of_mem hstood
  obtain ⟨nodes, line, front, rest, htree, hnodes, hsplit, hidle, hc, hclose⟩ :=
    exists_last_of_unclosed hunclosed
  have hrun' : ((runNodes 0 (nodes ++ [.unterminated line])).run.run
      (Machine.afterCalls config clock host calls).reset).1 = .error failure := htree ▸ hrun
  obtain ⟨hfront, hfailure⟩ := runNodes_ok_of_unterminated respects_grounded hm hnodes hrun' hfault
  have hnumber : line.place.line = number := by
    rw [hfailure] at hfault
    exact (Fault.unterminatedBlock.inj hfault).2
  have hmem : line ∈ Line.ofSource source := by
    rw [hsplit]
    exact List.mem_append_right front List.mem_cons_self
  exact ⟨⟨nodes, line, htree, hnodes, hfront, hmem, hc, hnumber, hfailure⟩,
    hnumber ▸ exists_issue_of_unclosed hsplit hidle hc hclose⟩

/-- A loop that is not closed. -/
def openLoop : Text :=
  "until truth:".toList

theorem ofSource_openLoop : ofSource openLoop = [.unterminated ⟨⟨1, openLoop⟩, .opener⟩] := by
  have hlines : Line.ofSource openLoop = [⟨⟨1, openLoop⟩, .opener⟩] := by decide +kernel
  rw [ofSource, hlines]
  exact ofLines_unterminated (c := .until "truth".toList) (by decide +kernel) (by decide +kernel) rfl

theorem unterminated_outside_blocks_openLoop :
    ((interpret openLoop).run.run (Machine.afterCalls {} default ({} : Transcript) [])).1
        = .error { fault := .unterminatedBlock "until".toList 1 } ∧
      ∃ issue, check openLoop = .error issue ∧ issue.line ≤ 1 := by
  have hrun : ((interpret openLoop).run.run (Machine.afterCalls {} default ({} : Transcript) [])).1
      = .error { fault := .unterminatedBlock "until".toList 1 } := by
    rw [interpret, ofSource_openLoop]
    rfl
  exact ⟨hrun, (unterminated_outside_blocks (σ := Transcript) {} default {} [] openLoop hrun rfl).2⟩

/-- A run of a source raises a fault at a place. Failures are located here where they are raised,
unknown statements too, which changes nothing else of a run. -/
def Raises (source : Text) (m : Machine σ) (fault : Fault) (place : Place) : Prop :=
  ((runNodesWith Failure.pin 0 (ofSource source)).run.run m.reset).1 = .error { fault, place }

/-- A run that ends at an unknown statement raises it at a line that has no form and opens no
construct. The check finds this line or something before it just if it does not overlook the line.
If it finds nothing at all then the line is an `otherwise:` that separates no parts of a block. -/
theorem issue_le_iff_of_unknown (source : Text) {failure : Failure} {text : Text}
    (hrun : ((interpret source).run.run (Machine.afterCalls config clock host calls)).1
      = .error failure)
    (hfault : failure.fault = .unknownStatement text) :
    ∃ front line rest, Line.ofSource source = front ++ line :: rest ∧
      Raises source (Machine.afterCalls config clock host calls) (.unknownStatement text)
        line.place ∧
      line.construct? = none ∧ Form.find? line.place.text = none ∧ line.place.text.trim = text ∧
      ((∃ issue, check source = .error issue ∧ issue.line ≤ line.place.line) ↔
        (∃ issue, check source = .error issue ∧ issue.line < line.place.line) ∨
          ¬ Overlooked front line) ∧
      (check source = .ok () → Overlooked front line ∧ line.role = .otherwise) := by
  have hm := (Machine.grounded_afterCalls config clock host calls).reset
  obtain ⟨f, hraised, hf, hblamed⟩ := exists_blamed respects_grounded hm hrun
  obtain ⟨place, hplace, hfind, htext, hlocated⟩ := hblamed.unknown text (hf.trans hfault)
  obtain ⟨line, hline, rfl, hidle, hc⟩ := exists_line_of_mem_statements hplace
  obtain ⟨front, rest, hsplit⟩ := List.append_of_mem hline
  have hissue := issue_le_iff hsplit hidle hc hfind
  have hraises : f = { fault := .unknownStatement text, place := line.place } := by
    rcases f with ⟨fault, located⟩
    cases hf.trans hfault
    cases hlocated
    rfl
  refine ⟨front, line, rest, hsplit, hraised.trans (congrArg Except.error hraises), hc, hfind, htext,
    hissue, fun hok => ?_⟩
  have hover : Overlooked front line := by
    by_contra hseen
    obtain ⟨issue, hfound, -⟩ := hissue.2 (Or.inr hseen)
    rw [hok] at hfound
    cases hfound
  -- a `conclude` that is a statement would be one too many, and the check counts them
  refine ⟨hover, hover.role.resolve_left fun hconclude => ?_⟩
  have hstrays := strays_eq_zero_of_check hok
  rw [strays, List.countP_eq_zero] at hstrays
  have hrole : line.place.text.role = .conclude := (role_of_split hsplit).2.1.symm.trans hconclude
  exact hstrays line.place hplace (decide_eq_true hrole)

/-- A loop with an `otherwise:` in its body. -/
def loopOtherwise : Text :=
  "until truth:\notherwise:\nconclude".toList

theorem ofSource_loopOtherwise : ofSource loopOtherwise =
    [.block ⟨1, "until truth:".toList⟩ (.until "truth".toList)
      [.statement ⟨2, "otherwise:".toList⟩] []] := by
  have hlines : Line.ofSource loopOtherwise = [⟨⟨1, "until truth:".toList⟩, .opener⟩,
      ⟨⟨2, "otherwise:".toList⟩, .otherwise⟩, ⟨⟨3, "conclude".toList⟩, .conclude⟩] := by
    decide +kernel
  have hbody : ofLines [⟨⟨2, "otherwise:".toList⟩, .otherwise⟩]
      = [.statement ⟨2, "otherwise:".toList⟩] := by
    rw [ofLines_statement (by decide +kernel) rfl, ofLines_nil]
  have hclose : Block.close? ([⟨⟨2, "otherwise:".toList⟩, .otherwise⟩,
      ⟨⟨3, "conclude".toList⟩, .conclude⟩].map Line.role) = some 1 := rfl
  rw [ofSource, hlines, ofLines_block (c := .until "truth".toList) (by decide +kernel)
    (by decide +kernel) hclose]
  show .block _ _ (ofLines [_]) (ofLines []) :: ofLines [] = _
  rw [hbody, ofLines_nil]

/-- The check lets an `otherwise:` in a loop pass, and the loop fails on it. -/
theorem issue_le_iff_of_unknown_loopOtherwise :
    let m := Machine.afterCalls {} default ({} : Transcript) []
    check loopOtherwise = .ok () ∧
      ((interpret loopOtherwise).run.run m).1
        = .error { fault := .unknownStatement "otherwise:".toList } ∧
      ∃ front line rest, Line.ofSource loopOtherwise = front ++ line :: rest ∧
        Raises loopOtherwise m (.unknownStatement "otherwise:".toList) line.place ∧
        Overlooked front line := by
  intro m
  have hcheck : check loopOtherwise = .ok () := by decide +kernel
  have hfind : Form.find? "otherwise:".toList = none := by decide +kernel
  have hstatement : Run.statement (σ := Transcript) "otherwise:".toList =
      Run.fail (.unknownStatement "otherwise:".toList) := by
    rw [Run.statement, if_neg (by decide +kernel), hfind]
    rfl
  have hrun : ((interpret loopOtherwise).run.run m).1
      = .error { fault := .unknownStatement "otherwise:".toList } := by
    rw [interpret, ofSource_loopOtherwise]
    simp only [runNodes, runNode, hstatement, construct]
    rfl
  obtain ⟨front, line, rest, hsplit, hraises, -, -, -, -, hok⟩ :=
    issue_le_iff_of_unknown (σ := Transcript) {} default {} [] loopOtherwise hrun rfl
  exact ⟨hcheck, hrun, front, line, rest, hsplit, hraises, (hok hcheck).1⟩

end Runs

end Program

end Grimoire
