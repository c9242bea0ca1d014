import Grimoire.Proofs.Balance
import Grimoire.Proofs.Lines
import Grimoire.Proofs.Runs

/-!
# Trees and the lines they come from

Where every block that is opened is closed, the tree has no unclosed opener; in particular the
parts of a block never have one, so an unclosed opener can only stand at the end of a whole program
outside all blocks. The statements of a tree are lines of the source that open no construct. A
`conclude` closes a construct of the tree or is itself a statement.
-/

namespace Grimoire

namespace Program

/-! ## Parts of blocks -/

/-- The lines before the end of a block, its end and the lines behind it. -/
theorem exists_body_of_close? {rest : List Line} {close : Nat}
    (h : Block.close? (rest.map Line.role) = some close) :
    ∃ body last after, rest = body ++ last :: after ∧ body.length = close ∧
      last.role = .conclude ∧ Block.Unwinds 0 (body.map Line.role) := by
  obtain ⟨before, behind, hroles, hlength, hbefore⟩ := Block.exists_unwinds_of_closeFrom h
  obtain ⟨body, tail, rfl, hbody, htail⟩ := List.map_eq_append_iff.1 hroles
  obtain ⟨last, after, rfl, hlast, -⟩ := List.map_eq_cons_iff.1 htail
  subst hbody
  exact ⟨body, last, after, rfl, by rw [← hlength, List.length_map], hlast, hbefore⟩

/-- A body is its two parts, with an `otherwise:` between them if there is a second. -/
theorem exists_parts (c : Construct) {body : List Line}
    (hbody : Block.Unwinds 0 (body.map Line.role)) :
    Block.Unwinds 0 ((parts c body).1.map Line.role) ∧
      Block.Unwinds 0 ((parts c body).2.map Line.role) ∧
      (body = (parts c body).1 ∧ (parts c body).2 = [] ∨
        ∃ separator, separator.role = .otherwise ∧
          body = (parts c body).1 ++ separator :: (parts c body).2) := by
  cases hplace : (if c.isConditional then Block.otherwise? (body.map Line.role) else none) with
  | none =>
    have hparts : parts c body = (body, []) := by rw [parts, hplace]
    rw [hparts]
    exact ⟨hbody, .nil, Or.inl ⟨rfl, rfl⟩⟩
  | some place =>
    have hfound : Block.otherwiseFrom 0 (body.map Line.role) = some place := by
      split at hplace
      · exact hplace
      · cases hplace
    obtain ⟨before, behind, hroles, hlength, hbefore, hbehind⟩ := hbody.split hfound
    obtain ⟨first, tail, rfl, hfirst, htail⟩ := List.map_eq_append_iff.1 hroles
    obtain ⟨separator, second, rfl, hseparator, hsecond⟩ := List.map_eq_cons_iff.1 htail
    have hplace' : place = first.length := by rw [← hlength, ← hfirst, List.length_map]
    have hparts : parts c (first ++ separator :: second) = (first, second) := by
      rw [parts, hplace, hplace']
      simp
    rw [hparts]
    subst hfirst hsecond
    exact ⟨hbefore, hbehind, Or.inr ⟨separator, hseparator, rfl⟩⟩

/-- A line that opens a construct is an opener. -/
theorem role_of_construct? {line : Line} {c : Construct} (h : line.construct? = some c) :
    line.role = .opener := by
  unfold Line.construct? at h
  split at h
  · assumption
  · cases h

/-- The tree of a block and the lines behind it. -/
theorem ofLines_body {line last : Line} {body after : List Line} {c : Construct}
    (hidle : line.place.text.isIdle = false) (hc : line.construct? = some c)
    (hlast : last.role = .conclude) (hbody : Block.Unwinds 0 (body.map Line.role)) :
    ofLines (line :: (body ++ last :: after)) =
      .block line.place c (ofLines (parts c body).1) (ofLines (parts c body).2) :: ofLines after := by
  have hclose : Block.close? ((body ++ last :: after).map Line.role) = some body.length := by
    rw [List.map_append, List.map_cons, hlast, hbody.close?_append, List.length_map]
  have hafter : (body ++ last :: after).drop (body.length + 1) = after := by simp
  rw [ofLines_block hidle hc hclose, List.take_left, hafter]

/-- Induction along the tree of a list of lines: the first line is idle, a statement, the opener of
a block that is not closed, or the opener of a block with its two parts and the lines behind it. -/
theorem ofLines_induction {motive : List Line → Prop} (nil : motive [])
    (idle : ∀ line rest, line.place.text.isIdle = true → motive rest → motive (line :: rest))
    (statement : ∀ line rest, line.place.text.isIdle = false → line.construct? = none →
      motive rest → motive (line :: rest))
    (unterminated : ∀ line rest c, line.place.text.isIdle = false → line.construct? = some c →
      Block.close? (rest.map Line.role) = none → motive (line :: rest))
    (block : ∀ line c body last after, line.place.text.isIdle = false → line.construct? = some c →
      last.role = .conclude → Block.Unwinds 0 (body.map Line.role) → motive (parts c body).1 →
      motive (parts c body).2 → motive after → motive (line :: (body ++ last :: after)))
    (lines : List Line) : motive lines := by
  -- by length: the parts of a block are no tails of the lines
  induction hlength : lines.length using Nat.strong_induction_on generalizing lines with
  | _ length ih =>
    subst hlength
    cases lines with
    | nil => exact nil
    | cons line rest =>
      have hrest : motive rest := ih rest.length (Nat.lt_succ_self _) rest rfl
      by_cases hidle : line.place.text.isIdle = true
      · exact idle line rest hidle hrest
      · have hidle : line.place.text.isIdle = false := Bool.eq_false_iff.2 hidle
        cases hc : line.construct? with
        | none => exact statement line rest hidle hc hrest
        | some c =>
          cases hclose : Block.close? (rest.map Line.role) with
          | none => exact unterminated line rest c hidle hc hclose
          | some close =>
            obtain ⟨body, last, after, rfl, -, hlast, hbody⟩ := exists_body_of_close? hclose
            have hshort := length_parts_le c body
            have smaller : ∀ some : List Line, some.length ≤ body.length + after.length →
                motive some := by
              intro some hsome
              refine ih some.length ?_ some rfl
              simp only [List.length_cons, List.length_append]
              omega
            exact block line c body last after hidle hc hlast hbody (smaller _ (by omega))
              (smaller _ (by omega)) (smaller _ (by omega))

/-! ## Unclosed openers -/

/-- Where all blocks are closed no opener is unclosed. -/
theorem unclosed_of_allClosed {lines : List Line} (h : Block.AllClosed (lines.map Line.role)) :
    unclosed (ofLines lines) = [] := by
  induction lines using ofLines_induction with
  | nil => rw [ofLines_nil, unclosed]
  | idle line rest hidle ih =>
    rw [ofLines_idle hidle]
    exact ih h.2
  | statement line rest hidle hc ih =>
    rw [ofLines_statement hidle hc, unclosed, Node.unclosed]
    exact ih h.2
  | unterminated line rest c hidle hc hclose =>
    have hclosed := h.1 (role_of_construct? hc)
    rw [hclose] at hclosed
    cases hclosed
  | block line c body last after hidle hc hlast hbody ihfirst ihsecond ih =>
    have hparts := exists_parts c hbody
    have hafter : Block.AllClosed (after.map Line.role) := by
      have hdrop := h.drop (body.length + 2)
      rw [← List.map_drop] at hdrop
      simpa using hdrop
    rw [ofLines_body hidle hc hlast hbody, unclosed, Node.unclosed, ihfirst hparts.1.allClosed,
      ihsecond hparts.2.1.allClosed, ih hafter]
    rfl

/-- The parts of a block have no unclosed opener. -/
theorem unclosed_of_unwinds {lines : List Line} {d : Nat}
    (h : Block.Unwinds d (lines.map Line.role)) : unclosed (ofLines lines) = [] :=
  unclosed_of_allClosed h.allClosed

/-- An unclosed opener ends the program, outside all blocks. -/
theorem exists_last_of_unclosed {lines : List Line} (h : unclosed (ofLines lines) ≠ []) :
    ∃ nodes line front rest, ofLines lines = nodes ++ [.unterminated line] ∧ unclosed nodes = [] ∧
      lines = front ++ line :: rest ∧ line.place.text.isIdle = false ∧
      line.construct?.isSome = true ∧ Block.close? (rest.map Line.role) = none := by
  induction lines using ofLines_induction with
  | nil =>
    rw [ofLines_nil, unclosed] at h
    exact absurd rfl h
  | idle line rest hidle ih =>
    rw [ofLines_idle hidle] at h ⊢
    obtain ⟨nodes, stood, front, behind, htree, hnodes, rfl, hrest⟩ := ih h
    exact ⟨nodes, stood, line :: front, behind, htree, hnodes, rfl, hrest⟩
  | statement line rest hidle hc ih =>
    rw [ofLines_statement hidle hc, unclosed, Node.unclosed] at h
    obtain ⟨nodes, stood, front, behind, htree, hnodes, rfl, hrest⟩ := ih h
    refine ⟨.statement line.place :: nodes, stood, line :: front, behind, ?_, ?_, rfl, hrest⟩
    · rw [ofLines_statement hidle hc, htree]
      rfl
    · rw [unclosed, Node.unclosed, hnodes]
      rfl
  | unterminated line rest c hidle hc hclose =>
    exact ⟨[], line, [], rest, ofLines_unterminated hidle hc hclose, rfl, rfl, hidle,
      by rw [hc]; rfl, hclose⟩
  | block line c body last after hidle hc hlast hbody _ _ ih =>
    -- the parts of the block are balanced, so the unclosed opener is behind it
    have hparts := exists_parts c hbody
    have hfirst := unclosed_of_unwinds hparts.1
    have hsecond := unclosed_of_unwinds hparts.2.1
    rw [ofLines_body hidle hc hlast hbody, unclosed, Node.unclosed, hfirst, hsecond] at h
    obtain ⟨nodes, stood, front, behind, htree, hnodes, rfl, hrest⟩ := ih h
    refine ⟨.block line.place c (ofLines (parts c body).1) (ofLines (parts c body).2) :: nodes,
      stood, line :: (body ++ last :: front), behind, ?_, ?_, ?_, hrest⟩
    · rw [ofLines_body hidle hc hlast hbody, htree]
      rfl
    · rw [unclosed, Node.unclosed, hfirst, hsecond, hnodes]
      rfl
    · rw [List.cons_append, List.append_assoc, List.cons_append]

/-! ## Statements -/

/-- The parts of a body consist of lines of it. -/
theorem parts_subset (c : Construct) {body : List Line}
    (hbody : Block.Unwinds 0 (body.map Line.role)) :
    (parts c body).1 ⊆ body ∧ (parts c body).2 ⊆ body := by
  obtain ⟨-, -, ⟨hfirst, hsecond⟩ | ⟨separator, -, hsplit⟩⟩ := exists_parts c hbody
  · rw [← hfirst, hsecond]
    exact ⟨List.Subset.refl _, List.nil_subset _⟩
  · have hleft : (parts c body).1 ⊆ (parts c body).1 ++ separator :: (parts c body).2 :=
      List.subset_append_left _ _
    have hright : (parts c body).2 ⊆ (parts c body).1 ++ separator :: (parts c body).2 :=
      List.Subset.trans (List.subset_cons_self _ _) (List.subset_append_right _ _)
    rw [← hsplit] at hleft hright
    exact ⟨hleft, hright⟩

/-- A statement of a tree is a line that is not idle and opens no construct. -/
theorem exists_line_of_mem_statements {lines : List Line} {place : Place}
    (h : place ∈ statements (ofLines lines)) :
    ∃ line ∈ lines, line.place = place ∧ line.place.text.isIdle = false ∧
      line.construct? = none := by
  induction lines using ofLines_induction with
  | nil =>
    rw [ofLines_nil, statements] at h
    cases h
  | idle line rest hidle ih =>
    rw [ofLines_idle hidle] at h
    obtain ⟨stood, hmem, hstood⟩ := ih h
    exact ⟨stood, List.mem_cons_of_mem line hmem, hstood⟩
  | statement line rest hidle hc ih =>
    rw [ofLines_statement hidle hc, statements, Node.statements, List.singleton_append,
      List.mem_cons] at h
    rcases h with rfl | h
    · exact ⟨line, List.mem_cons_self, rfl, hidle, hc⟩
    · obtain ⟨stood, hmem, hstood⟩ := ih h
      exact ⟨stood, List.mem_cons_of_mem line hmem, hstood⟩
  | unterminated line rest c hidle hc hclose =>
    rw [ofLines_unterminated hidle hc hclose, statements, Node.statements] at h
    cases h
  | block line c body last after hidle hc hlast hbody ihfirst ihsecond ih =>
    have hsubset := parts_subset c hbody
    have hinside : body ⊆ line :: (body ++ last :: after) :=
      List.Subset.trans (List.subset_append_left body _) (List.subset_cons_self line _)
    have hbehind : after ⊆ line :: (body ++ last :: after) :=
      List.Subset.trans (List.subset_cons_self last after)
        (List.Subset.trans (List.subset_append_right body _) (List.subset_cons_self line _))
    rw [ofLines_body hidle hc hlast hbody, statements, Node.statements, List.mem_append,
      List.mem_append] at h
    rcases h with (h | h) | h
    · obtain ⟨stood, hmem, hstood⟩ := ihfirst h
      exact ⟨stood, hinside (hsubset.1 hmem), hstood⟩
    · obtain ⟨stood, hmem, hstood⟩ := ihsecond h
      exact ⟨stood, hinside (hsubset.2 hmem), hstood⟩
    · obtain ⟨stood, hmem, hstood⟩ := ih h
      exact ⟨stood, hbehind hmem, hstood⟩

/-! ## Counts -/

/-- The number of lines that open a construct. -/
def constructs (lines : List Line) : Nat :=
  lines.countP fun line => line.construct?.isSome

/-- The number of lines that close a block. -/
def concludes (lines : List Line) : Nat :=
  lines.countP fun line => line.role = .conclude

theorem constructs_cons (line : Line) (rest : List Line) :
    constructs (line :: rest) = constructs rest + if line.construct?.isSome then 1 else 0 := by
  rw [constructs, List.countP_cons, constructs]

theorem concludes_cons (line : Line) (rest : List Line) :
    concludes (line :: rest) = concludes rest + if line.role = .conclude then 1 else 0 := by
  simp only [concludes, List.countP_cons, decide_eq_true_eq]

/-- The number of statements that would close a block. -/
def strays (places : List Place) : Nat :=
  places.countP fun place => place.text.role = .conclude

theorem strays_cons (place : Place) (rest : List Place) :
    strays (place :: rest) = strays rest + if place.text.role = .conclude then 1 else 0 := by
  simp only [strays, List.countP_cons, decide_eq_true_eq]

/-- A line that is no opener opens no construct. -/
theorem construct?_of_role_ne {line : Line} (h : line.role ≠ .opener) : line.construct? = none := by
  rw [Line.construct?, if_neg h]

/-- The counts of a body are those of its parts. -/
theorem counts_parts (c : Construct) {body : List Line}
    (hbody : Block.Unwinds 0 (body.map Line.role)) :
    concludes body = concludes (parts c body).1 + concludes (parts c body).2 ∧
      constructs body = constructs (parts c body).1 + constructs (parts c body).2 := by
  obtain ⟨-, -, ⟨hfirst, hsecond⟩ | ⟨separator, hrole, hsplit⟩⟩ := exists_parts c hbody
  · rw [← hfirst, hsecond]
    exact ⟨rfl, rfl⟩
  · have hconstruct : separator.construct? = none :=
      construct?_of_role_ne (by rw [hrole]; exact Role.noConfusion)
    have hconcludes : concludes ((parts c body).1 ++ separator :: (parts c body).2)
        = concludes (parts c body).1 + concludes (parts c body).2 := by
      simp [concludes, hrole]
    have hconstructs : constructs ((parts c body).1 ++ separator :: (parts c body).2)
        = constructs (parts c body).1 + constructs (parts c body).2 := by
      simp [constructs, hconstruct]
    rw [← hsplit] at hconcludes hconstructs
    exact ⟨hconcludes, hconstructs⟩

/-- A block counts once as a construct and its end once as a `conclude`. -/
theorem counts_block {line last : Line} {c : Construct} (body after : List Line)
    (hc : line.construct? = some c) (hlast : last.role = .conclude) :
    concludes (line :: (body ++ last :: after)) = concludes body + concludes after + 1 ∧
      constructs (line :: (body ++ last :: after)) = constructs body + constructs after + 1 := by
  have hline : line.role = .opener := role_of_construct? hc
  have hlastc : last.construct? = none :=
    construct?_of_role_ne (by rw [hlast]; exact Role.noConfusion)
  constructor
  · simp [concludes, hline, hlast, Nat.add_assoc]
  · simp [constructs, hc, hlastc]

theorem strays_block (place : Place) (c : Construct) (body otherwise rest : List Node) :
    strays (statements (.block place c body otherwise :: rest))
      = strays (statements body) + strays (statements otherwise) + strays (statements rest) := by
  rw [statements, Node.statements, strays, List.countP_append, List.countP_append]
  rfl

/-- Where every block is closed, each `conclude` closes a construct or is a statement. -/
theorem concludes_eq {lines : List Line} (hread : ∀ line ∈ lines, line.role = line.place.text.role)
    (h : unclosed (ofLines lines) = []) :
    concludes lines = constructs lines + strays (statements (ofLines lines)) := by
  induction lines using ofLines_induction with
  | nil => rw [ofLines_nil]; rfl
  | idle line rest hblank ih =>
    have hrole : line.role = .plain :=
      (hread line List.mem_cons_self).trans (Text.role_of_isIdle hblank)
    have hconstruct : line.construct? = none :=
      construct?_of_role_ne (by rw [hrole]; exact Role.noConfusion)
    rw [ofLines_idle hblank] at h ⊢
    have hrest := ih (fun l hl => hread l (List.mem_cons_of_mem line hl)) h
    rw [concludes_cons, constructs_cons, hrole, hconstruct]
    exact hrest
  | statement line rest hblank hc ih =>
    have hrole : line.role = line.place.text.role := hread line List.mem_cons_self
    rw [ofLines_statement hblank hc] at h ⊢
    have hrest := ih (fun l hl => hread l (List.mem_cons_of_mem line hl)) h
    -- the line adds to both counts just if it is a `conclude`
    rw [statements, Node.statements, List.singleton_append, concludes_cons, constructs_cons,
      strays_cons, hc, hrole, hrest]
    exact Nat.add_assoc _ _ _
  | unterminated line rest c hblank hc hclose =>
    rw [ofLines_unterminated hblank hc hclose] at h
    cases h
  | block line c body last after hblank hc hlast hbody ihfirst ihsecond ih =>
    have hsubset := parts_subset c hbody
    have hinside : ∀ l ∈ body, l.role = l.place.text.role := fun l hl =>
      hread l (List.mem_cons_of_mem line (List.mem_append_left _ hl))
    have hbehind : ∀ l ∈ after, l.role = l.place.text.role := fun l hl =>
      hread l (List.mem_cons_of_mem line (List.mem_append_right _ (List.mem_cons_of_mem last hl)))
    rw [ofLines_body hblank hc hlast hbody] at h ⊢
    rw [unclosed, Node.unclosed, List.append_eq_nil_iff, List.append_eq_nil_iff] at h
    obtain ⟨⟨hfirst, hsecond⟩, hafter⟩ := h
    -- the opener of the block is paired with its end, the rest is in the parts and behind
    have hblock := counts_block body after hc hlast
    have hcounts := counts_parts c hbody
    have hfirst := ihfirst (fun l hl => hinside l (hsubset.1 hl)) hfirst
    have hsecond := ihsecond (fun l hl => hinside l (hsubset.2 hl)) hsecond
    have hafter := ih hbehind hafter
    rw [hblock.1, hblock.2, strays_block]
    omega

end Program

end Grimoire
