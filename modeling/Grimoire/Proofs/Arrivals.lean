import Grimoire.Proofs.Trees
import Grimoire.Proofs.Unlocated

/-!
# Where runs arrive and where they fail

A run of a program arrives at parts of it, at some depth and on some machine: it has run the parts
before, and inside a block the construct has taken its turns until it asked for the part. A run
fails exactly where it arrives at something that fails by itself. The failure is located there, and
the blocks around leave it as it is.
-/

namespace Grimoire

variable {σ : Type}

/-! ## Locating -/

/-- What was located stays located as it is. -/
theorem Failure.locate_locate (place place' : Place) (f : Failure) :
    (f.locate place).locate place' = f.locate place := by
  rcases f with ⟨fault, _ | stood⟩
  · cases fault <;> rfl
  · rfl

namespace Run

/-- A located run fails as the run does, at the place if it is not located already. -/
theorem located_eq_error_iff {place : Place} {run : Run σ Unit} {m m' : Machine σ}
    {failure : Failure} :
    (located place run).run.run m = (.error failure, m') ↔
      ∃ f, run.run.run m = (.error f, m') ∧ failure = f.locate place := by
  have hrun := run_adjusted Failure.locate place run m
  rw [show located place run = adjusted Failure.locate place run from rfl, hrun]
  rcases run.run.run m with ⟨f | _, m₁⟩
  · constructor
    · intro h
      cases h
      exact ⟨f, rfl, rfl⟩
    · rintro ⟨g, hg, rfl⟩
      cases hg
      rfl
  · constructor
    · intro h
      cases h
    · rintro ⟨g, hg, -⟩
      cases hg

end Run

/-- A run whose failures are not located fails with nothing but a fault. -/
theorem Run.exists_fault {α : Type} {run : Run σ α} {m m' : Machine σ} {failure : Failure}
    (hrun : run.Unlocated) (h : run.run.run m = (.error failure, m')) :
    ∃ fault, failure = { fault } := by
  rcases failure with ⟨fault, place⟩
  obtain rfl : place = none := hrun m _ m' h
  exact ⟨fault, rfl⟩

theorem Program.run_refuseDepth (depth : Nat) (m : Machine σ) :
    (Program.refuseDepth depth).run.run m =
      if m.config.maxNesting < depth then
        (.error { fault := .nestingTooDeep m.config.maxNesting }, m)
      else (.ok (), m) := by
  show (if m.config.maxNesting < depth then _ else _ : Run σ Unit).run.run m = _
  split <;> rfl

/-- What runs in a block that is not nested too deeply. -/
theorem Program.run_block {body otherwise : Run σ Unit} {c : Construct} {depth : Nat}
    {m : Machine σ} (hdepth : depth + 1 ≤ m.config.maxNesting) :
    (Program.refuseDepth (depth + 1) >>= fun _ => Program.construct body otherwise c).run.run m =
      match (Program.turns c).run.run m with
      | (.ok ts, m₁) => (Program.takeTurns (Branch.pick body otherwise) ts).run.run m₁
      | (.error f, m₁) => (.error f, m₁) := by
  rw [run_bind, run_refuseDepth, if_neg (Nat.not_lt.2 hdepth), Program.construct_eq_takeTurns]
  dsimp only
  rw [run_bind]
  rcases (Program.turns c).run.run m with ⟨f | ts, m₁⟩ <;> rfl

variable [Host σ]

/-! ## Failing by itself -/

namespace Program

/-- A construct inside `depth` blocks breaks down: the block is nested too deeply, the container of
its loop fails, or a turn of its own does when it is due. -/
inductive Breaks (depth : Nat) (c : Construct) (body otherwise : List Node) (m : Machine σ) :
    Fault → Machine σ → Prop
  | nesting (hdepth : m.config.maxNesting < depth + 1) :
    Breaks depth c body otherwise m (.nestingTooDeep m.config.maxNesting) m
  | container {fault : Fault} {m' : Machine σ} (hdepth : depth + 1 ≤ m.config.maxNesting)
    (hfails : (turns c).run.run m = (.error { fault }, m')) :
    Breaks depth c body otherwise m fault m'
  | turn {fault : Fault} {m₁ m₂ m' : Machine σ} {ts : List (Turn σ)} {turn : Turn σ}
    (hdepth : depth + 1 ≤ m.config.maxNesting) (hturns : (turns c).run.run m = (.ok ts, m₁))
    (hdue : Due (Branch.pick (runNodes (depth + 1) body) (runNodes (depth + 1) otherwise)) ts m₁
      turn m₂)
    (hfails : turn.run.run m₂ = (.error { fault }, m')) :
    Breaks depth c body otherwise m fault m'

end Program

namespace Node

/-- A part of a program fails by itself, and not because of what is inside it. -/
def Fails (depth : Nat) (m : Machine σ) (fault : Fault) (m' : Machine σ) : Node → Prop
  | .statement place => (Run.statement place.text).run.run m = (.error { fault }, m')
  | .block _ c body otherwise => Program.Breaks depth c body otherwise m fault m'
  | .unterminated line => fault = line.unterminated ∧ m' = m

/-- The failure of a part of a program with a fault of its own. -/
def failure (fault : Fault) : Node → Failure
  | .statement place => Failure.locate place { fault }
  | .block place _ _ _ => Failure.locate place { fault }
  | .unterminated _ => { fault }

end Node

/-! ## Arriving -/

namespace Program

/-- A run of some parts inside `depth` blocks arrives at a part of the program. -/
inductive Arrives : Nat → List Node → Machine σ → Nat → Node → Machine σ → Prop
  | here {depth : Nat} {node : Node} {rest : List Node} {m : Machine σ} :
    Arrives depth (node :: rest) m depth node m
  | later {depth d : Nat} {node goal : Node} {rest : List Node} {m m₁ m₂ : Machine σ}
    (hnode : (runNode depth node).run.run m = (.ok (), m₁)) :
    Arrives depth rest m₁ d goal m₂ → Arrives depth (node :: rest) m d goal m₂
  | inside {depth d : Nat} {place : Place} {c : Construct} {body otherwise rest : List Node}
    {goal : Node} {m m₁ m₂ m₃ m₄ : Machine σ} {ts : List (Turn σ)} {turn : Turn σ} {p : Branch}
    (hdepth : depth + 1 ≤ m.config.maxNesting) (hturns : (turns c).run.run m = (.ok ts, m₁))
    (hdue : Due (Branch.pick (runNodes (depth + 1) body) (runNodes (depth + 1) otherwise)) ts m₁
      turn m₂)
    (hturn : turn.run.run m₂ = (.ok (some p), m₃)) :
    Arrives (depth + 1) (p.pick body otherwise) m₃ d goal m₄ →
      Arrives depth (.block place c body otherwise :: rest) m d goal m₄

variable {depth d : Nat} {nodes rest : List Node} {node goal : Node} {m m' m₁ : Machine σ}
  {fault : Fault} {failure : Failure}

/-- What is arrived at in the first part does not depend on the parts after it. -/
theorem Arrives.cons (h : Arrives depth [node] m d goal m₁) :
    Arrives depth (node :: rest) m d goal m₁ := by
  cases h with
  | here => exact .here
  | later hnode h => cases h
  | inside hdepth hturns hdue hturn h => exact .inside hdepth hturns hdue hturn h

/-! ## Parts of programs, at any depth -/

end Program

mutual

/-- A part of a program with all that is inside it. -/
def Node.all : Node → List Node
  | .statement place => [.statement place]
  | .block place c body otherwise =>
    .block place c body otherwise :: (Program.all body ++ Program.all otherwise)
  | .unterminated line => [.unterminated line]

/-- The parts of a program with all that is inside them. -/
def Program.all : List Node → List Node
  | [] => []
  | node :: rest => node.all ++ Program.all rest

end

theorem Node.mem_all (node : Node) : node ∈ node.all := by
  cases node <;> simp [Node.all]

/-- The line from which a part of a program was read. -/
def Node.ReadFrom (line : Line) : Node → Prop
  | .statement place => place = line.place ∧ line.construct? = none
  | .block place c _ _ => place = line.place ∧ line.construct? = some c
  | .unterminated l => l = line ∧ line.construct?.isSome

namespace Program

variable {depth d : Nat} {nodes rest : List Node} {node goal : Node} {m m' m₁ : Machine σ}
  {fault : Fault} {failure : Failure}

theorem mem_all_pick {place : Place} {c : Construct} {body otherwise : List Node} {p : Branch}
    (h : node ∈ all (p.pick body otherwise)) : node ∈ (Node.block place c body otherwise).all := by
  rw [Node.all]
  cases p with
  | body => exact List.mem_cons_of_mem _ (List.mem_append_left _ h)
  | «otherwise» => exact List.mem_cons_of_mem _ (List.mem_append_right _ h)

/-- A run arrives only at parts of the program. -/
theorem Arrives.mem_all (h : Arrives depth nodes m d goal m₁) : goal ∈ all nodes := by
  induction h with
  | here =>
    rw [all]
    exact List.mem_append_left _ (Node.mem_all _)
  | later _ _ ih =>
    rw [all]
    exact List.mem_append_right _ ih
  | inside _ _ _ _ _ ih =>
    rw [all]
    exact List.mem_append_left _ (mem_all_pick ih)

/-- All parts of the tree of some lines were read from them. -/
theorem exists_readFrom {lines : List Line} (h : node ∈ all (ofLines lines)) :
    ∃ line ∈ lines, node.ReadFrom line := by
  induction lines using ofLines_induction with
  | nil =>
    rw [ofLines_nil, all] at h
    cases h
  | idle line rest hidle ih =>
    rw [ofLines_idle hidle] at h
    obtain ⟨stood, hmem, hstood⟩ := ih h
    exact ⟨stood, List.mem_cons_of_mem line hmem, hstood⟩
  | statement line rest hidle hc ih =>
    rw [ofLines_statement hidle hc, all, Node.all, List.singleton_append, List.mem_cons] at h
    rcases h with rfl | h
    · exact ⟨line, List.mem_cons_self, rfl, hc⟩
    · obtain ⟨stood, hmem, hstood⟩ := ih h
      exact ⟨stood, List.mem_cons_of_mem line hmem, hstood⟩
  | unterminated line rest c hidle hc hclose =>
    rw [ofLines_unterminated hidle hc hclose, all, Node.all, all, List.append_nil,
      List.mem_singleton] at h
    subst h
    exact ⟨line, List.mem_cons_self, rfl, by rw [hc]; rfl⟩
  | block line c body last after hidle hc hlast hbody ihfirst ihsecond ih =>
    have hsubset := parts_subset c hbody
    have hinside : body ⊆ line :: (body ++ last :: after) :=
      List.Subset.trans (List.subset_append_left body _) (List.subset_cons_self line _)
    have hbehind : after ⊆ line :: (body ++ last :: after) :=
      List.Subset.trans (List.subset_cons_self last after)
        (List.Subset.trans (List.subset_append_right body _) (List.subset_cons_self line _))
    rw [ofLines_body hidle hc hlast hbody, all, Node.all, List.cons_append, List.mem_cons,
      List.mem_append, List.mem_append] at h
    rcases h with rfl | (h | h) | h
    · exact ⟨line, List.mem_cons_self, rfl, hc⟩
    · obtain ⟨stood, hmem, hstood⟩ := ihfirst h
      exact ⟨stood, hinside (hsubset.1 hmem), hstood⟩
    · obtain ⟨stood, hmem, hstood⟩ := ihsecond h
      exact ⟨stood, hinside (hsubset.2 hmem), hstood⟩
    · obtain ⟨stood, hmem, hstood⟩ := ih h
      exact ⟨stood, hbehind hmem, hstood⟩

/-! ## Failures inside blocks -/

/-- All openers inside the blocks of a program are closed. -/
def ClosedInside (nodes : List Node) : Prop :=
  ∀ place c body otherwise, .block place c body otherwise ∈ nodes →
    unclosed body = [] ∧ unclosed otherwise = []

theorem unclosed_cons_eq_nil :
    unclosed (node :: rest) = [] ↔ node.unclosed = [] ∧ unclosed rest = [] := by
  rw [unclosed, List.append_eq_nil_iff]

theorem unclosed_block_eq_nil {place : Place} {c : Construct} {body otherwise : List Node} :
    (Node.block place c body otherwise).unclosed = [] ↔
      unclosed body = [] ∧ unclosed otherwise = [] := by
  rw [Node.unclosed, List.append_eq_nil_iff]

theorem closedInside_of_unclosed (h : unclosed nodes = []) : ClosedInside nodes := by
  induction nodes with
  | nil => exact fun _ _ _ _ hmem => absurd hmem List.not_mem_nil
  | cons node rest ih =>
    rw [unclosed_cons_eq_nil] at h
    intro place c body otherwise hmem
    rcases List.mem_cons.1 hmem with rfl | hmem
    · exact unclosed_block_eq_nil.1 h.1
    · exact ih h.2 place c body otherwise hmem

/-- In the tree of some lines all openers inside blocks are closed. -/
theorem closedInside_ofLines (lines : List Line) : ClosedInside (ofLines lines) := by
  induction lines using ofLines_induction with
  | nil =>
    rw [ofLines_nil]
    exact closedInside_of_unclosed rfl
  | idle line rest hidle ih =>
    rw [ofLines_idle hidle]
    exact ih
  | statement line rest hidle hc ih =>
    rw [ofLines_statement hidle hc]
    intro place c body otherwise hmem
    rcases List.mem_cons.1 hmem with hhead | hmem
    · cases hhead
    · exact ih place c body otherwise hmem
  | unterminated line rest c hidle hc hclose =>
    rw [ofLines_unterminated hidle hc hclose]
    intro place c body otherwise hmem
    cases List.mem_singleton.1 hmem
  | block line c body last after hidle hc hlast hbody _ _ ih =>
    have hparts := exists_parts c hbody
    rw [ofLines_body hidle hc hlast hbody]
    intro place c' body' otherwise hmem
    rcases List.mem_cons.1 hmem with hhead | hmem
    · cases hhead
      exact ⟨unclosed_of_unwinds hparts.1, unclosed_of_unwinds hparts.2.1⟩
    · exact ih place c' body' otherwise hmem

theorem unclosed_pick {body otherwise : List Node}
    (h : unclosed body = [] ∧ unclosed otherwise = []) (p : Branch) :
    unclosed (p.pick body otherwise) = [] := by
  cases p with
  | body => exact h.1
  | «otherwise» => exact h.2

/-- Where all openers are closed a run arrives at no opener that is not. -/
theorem Arrives.unclosed (h : Arrives depth nodes m d goal m₁)
    (hnodes : Program.unclosed nodes = []) : goal.unclosed = [] := by
  induction h with
  | here => exact (unclosed_cons_eq_nil.1 hnodes).1
  | later _ _ ih => exact ih (unclosed_cons_eq_nil.1 hnodes).2
  | inside _ _ _ _ _ ih =>
    exact ih (unclosed_pick (unclosed_block_eq_nil.1 (unclosed_cons_eq_nil.1 hnodes).1) _)

end Program

/-- The blocks around leave a failure as it is. -/
theorem Node.locate_failure {node : Node} (h : node.unclosed = []) (place : Place) (fault : Fault) :
    (node.failure fault).locate place = node.failure fault := by
  cases node with
  | statement stood => exact Failure.locate_locate stood place _
  | block stood c body otherwise => exact Failure.locate_locate stood place _
  | unterminated line => cases h

/-! ## Failing where something fails by itself -/

namespace Program

variable {depth d : Nat} {nodes rest : List Node} {node goal : Node} {m m' m₁ : Machine σ}
  {fault : Fault} {failure : Failure}

/-- A run of some parts inside `depth` blocks comes to something that fails by itself, and the
failure is located there. -/
def FailsSomewhere (depth : Nat) (nodes : List Node) (m : Machine σ) (failure : Failure)
    (m' : Machine σ) : Prop :=
  ∃ d goal m₁ fault, Arrives depth nodes m d goal m₁ ∧ goal.Fails d m₁ fault m' ∧
    failure = goal.failure fault

/-- The parts of a block run as parts of the program. -/
theorem pick_runNodes (depth : Nat) (body otherwise : List Node) (p : Branch) :
    Branch.pick (runNodes (σ := σ) depth body) (runNodes depth otherwise) p
      = runNodes depth (p.pick body otherwise) := by
  cases p <;> rfl

/-- A block fails by itself, or where one of its parts does that its construct asks for. -/
theorem breaks_or_part_fails {c : Construct} {body otherwise : List Node}
    (h : (refuseDepth (depth + 1) >>= fun _ =>
      construct (runNodes (depth + 1) body) (runNodes (depth + 1) otherwise) c).run.run m
        = (.error failure, m')) :
    (∃ fault, failure = { fault } ∧ Breaks depth c body otherwise m fault m') ∨
      ∃ m₁ m₂ m₃ ts turn p, depth + 1 ≤ m.config.maxNesting ∧
        (turns c).run.run m = (.ok ts, m₁) ∧
        Due (Branch.pick (runNodes (depth + 1) body) (runNodes (depth + 1) otherwise)) ts m₁ turn m₂ ∧
        turn.run.run m₂ = (.ok (some p), m₃) ∧
        (runNodes (depth + 1) (p.pick body otherwise)).run.run m₃ = (.error failure, m') := by
  by_cases hdepth : m.config.maxNesting < depth + 1
  · rw [run_bind, run_refuseDepth, if_pos hdepth] at h
    cases h
    exact Or.inl ⟨_, rfl, .nesting hdepth⟩
  have hdepth : depth + 1 ≤ m.config.maxNesting := Nat.not_lt.1 hdepth
  rw [run_block hdepth] at h
  rcases hturns : (turns c).run.run m with ⟨result, m₁⟩
  cases result with
  | error f =>
    rw [hturns] at h
    cases h
    obtain ⟨fault, rfl⟩ := Run.exists_fault (unlocated_turns c) hturns
    exact Or.inl ⟨fault, rfl, .container hdepth hturns⟩
  | ok ts =>
    rw [hturns] at h
    obtain ⟨turn, m₂, hdue, hfails | ⟨p, m₃, hturn, hpart⟩⟩ := takeTurns_eq_error_iff.1 h
    · obtain ⟨fault, rfl⟩ := Run.exists_fault (unlocated_of_mem_turns hturns turn hdue.mem) hfails
      exact Or.inl ⟨fault, rfl, .turn hdepth hturns hdue hfails⟩
    · rw [pick_runNodes] at hpart
      exact Or.inr ⟨m₁, m₂, m₃, ts, turn, p, hdepth, rfl, hdue, hturn, hpart⟩

/-- A block in which a turn that is due fails or asks for a part that fails, fails so. -/
theorem run_block_of_due {c : Construct} {body otherwise : List Node} {m₂ : Machine σ}
    {ts : List (Turn σ)} {turn : Turn σ} (hdepth : depth + 1 ≤ m.config.maxNesting)
    (hturns : (turns c).run.run m = (.ok ts, m₁))
    (hdue : Due (Branch.pick (runNodes (depth + 1) body) (runNodes (depth + 1) otherwise)) ts m₁
      turn m₂)
    (hfails : turn.run.run m₂ = (.error failure, m') ∨ ∃ p m₃,
      turn.run.run m₂ = (.ok (some p), m₃) ∧
        (runNodes (depth + 1) (p.pick body otherwise)).run.run m₃ = (.error failure, m')) :
    (refuseDepth (depth + 1) >>= fun _ =>
      construct (runNodes (depth + 1) body) (runNodes (depth + 1) otherwise) c).run.run m
        = (.error failure, m') := by
  rw [run_block hdepth, hturns]
  refine takeTurns_eq_error_iff.2 ⟨turn, m₂, hdue, ?_⟩
  simp only [pick_runNodes]
  exact hfails

theorem run_block_of_breaks {c : Construct} {body otherwise : List Node}
    (h : Breaks depth c body otherwise m fault m') :
    (refuseDepth (depth + 1) >>= fun _ =>
      construct (runNodes (depth + 1) body) (runNodes (depth + 1) otherwise) c).run.run m
        = (.error { fault }, m') := by
  cases h with
  | nesting hdepth => rw [run_bind, run_refuseDepth, if_pos hdepth]
  | container hdepth hfails => rw [run_block hdepth, hfails]
  | turn hdepth hturns hdue hfails => exact run_block_of_due hdepth hturns hdue (Or.inl hfails)

/-! ### What fails arrives -/

mutual

theorem failsSomewhere_of_runNode : ∀ (node : Node) (depth : Nat) (m : Machine σ)
    {failure : Failure} {m' : Machine σ}, ClosedInside [node] →
      (runNode depth node).run.run m = (.error failure, m') →
      FailsSomewhere depth [node] m failure m'
  | .statement place, depth, m, failure, m', _, h => by
    obtain ⟨f, hf, rfl⟩ := Run.located_eq_error_iff.1 h
    obtain ⟨fault, rfl⟩ := Run.exists_fault (Run.unlocated_statement place.text) hf
    exact ⟨depth, .statement place, m, fault, .here, hf, rfl⟩
  | .block place c body otherwise, depth, m, failure, m', hclosed, h => by
    obtain ⟨f, hf, rfl⟩ := Run.located_eq_error_iff.1 h
    have hparts := hclosed place c body otherwise List.mem_cons_self
    rcases breaks_or_part_fails hf with ⟨fault, rfl, hbreaks⟩ |
      ⟨m₁, m₂, m₃, ts, turn, p, hdepth, hturns, hdue, hturn, hpart⟩
    · exact ⟨depth, .block place c body otherwise, m, fault, .here, hbreaks, rfl⟩
    -- the part fails somewhere inside, where its failure is located for good
    have hinside : FailsSomewhere (depth + 1) (p.pick body otherwise) m₃ f m' := by
      cases p with
      | body =>
        exact failsSomewhere_of_runNodes body (depth + 1) m₃
          (closedInside_of_unclosed hparts.1) hpart
      | «otherwise» =>
        exact failsSomewhere_of_runNodes otherwise (depth + 1) m₃
          (closedInside_of_unclosed hparts.2) hpart
    obtain ⟨d, goal, m₄, fault, harrives, hfails, rfl⟩ := hinside
    refine ⟨d, goal, m₄, fault, .inside hdepth hturns hdue hturn harrives, hfails, ?_⟩
    exact Node.locate_failure (harrives.unclosed (unclosed_pick hparts p)) place fault
  | .unterminated line, depth, m, failure, m', _, h => by
    obtain ⟨hfailure, rfl⟩ := Prod.mk.inj h
    obtain rfl := Except.error.inj hfailure
    exact ⟨depth, .unterminated line, m, line.unterminated, .here, ⟨rfl, rfl⟩, rfl⟩

theorem failsSomewhere_of_runNodes : ∀ (nodes : List Node) (depth : Nat) (m : Machine σ)
    {failure : Failure} {m' : Machine σ}, ClosedInside nodes →
      (runNodes depth nodes).run.run m = (.error failure, m') →
      FailsSomewhere depth nodes m failure m'
  | [], depth, m, failure, m', _, h => by cases h
  | node :: rest, depth, m, failure, m', hclosed, h => by
    have hfirst : ClosedInside [node] := fun place c body otherwise hmem =>
      hclosed place c body otherwise (List.mem_singleton.1 hmem ▸ List.mem_cons_self)
    have hrest : ClosedInside rest := fun place c body otherwise hmem =>
      hclosed place c body otherwise (List.mem_cons_of_mem node hmem)
    rw [runNodes, run_bind] at h
    rcases hnode : (runNode depth node).run.run m with ⟨f | _, m₁⟩
    · rw [hnode] at h
      cases h
      obtain ⟨d, goal, m₂, fault, harrives, hfails⟩ :=
        failsSomewhere_of_runNode node depth m hfirst hnode
      exact ⟨d, goal, m₂, fault, harrives.cons, hfails⟩
    · rw [hnode] at h
      obtain ⟨d, goal, m₂, fault, harrives, hfails⟩ :=
        failsSomewhere_of_runNodes rest depth m₁ hrest h
      exact ⟨d, goal, m₂, fault, .later hnode harrives, hfails⟩

end

/-! ### What arrives fails -/

theorem runNode_of_fails (h : node.Fails depth m fault m') :
    (runNode depth node).run.run m = (.error (node.failure fault), m') := by
  cases node with
  | statement place => exact Run.located_eq_error_iff.2 ⟨_, h, rfl⟩
  | block place c body otherwise =>
    exact Run.located_eq_error_iff.2 ⟨_, run_block_of_breaks h, rfl⟩
  | unterminated line =>
    obtain ⟨rfl, rfl⟩ := h
    rfl

theorem runNodes_of_arrives (harrives : Arrives depth nodes m d goal m₁)
    (hfails : goal.Fails d m₁ fault m') (hclosed : ClosedInside nodes) :
    (runNodes depth nodes).run.run m = (.error (goal.failure fault), m') := by
  induction harrives with
  | here => rw [runNodes, run_bind, runNode_of_fails hfails]
  | later hnode _ ih =>
    rw [runNodes, run_bind, hnode]
    exact ih hfails fun place c body otherwise hmem =>
      hclosed place c body otherwise (List.mem_cons_of_mem _ hmem)
  | @inside depth d place c body otherwise rest goal m m₁ m₂ m₃ m₄ ts turn p hdepth hturns hdue
      hturn harrives ih =>
    have hparts := hclosed place c body otherwise List.mem_cons_self
    have hunclosed := unclosed_pick hparts p
    have hpart := ih hfails (closedInside_of_unclosed hunclosed)
    have hblock := run_block_of_due hdepth hturns hdue (Or.inr ⟨p, m₃, hturn, hpart⟩)
    have hlocated : (goal.failure fault).locate place = goal.failure fault :=
      Node.locate_failure (harrives.unclosed hunclosed) place fault
    rw [runNodes, run_bind, runNode, Run.located_eq_error_iff.2 ⟨_, hblock, rfl⟩, hlocated]

/-- A run fails exactly where it arrives at something that fails by itself, with the failure located
there. -/
theorem runNodes_eq_error_iff (hclosed : ClosedInside nodes) :
    (runNodes depth nodes).run.run m = (.error failure, m') ↔
      FailsSomewhere depth nodes m failure m' := by
  constructor
  · exact failsSomewhere_of_runNodes nodes depth m hclosed
  · rintro ⟨d, goal, m₁, fault, harrives, hfails, rfl⟩
    exact runNodes_of_arrives harrives hfails hclosed

end Program

end Grimoire
