import Grimoire.Proofs.Outcomes

/-!
# What runs keep and what they fail with

A condition on machines that statements, conditions, containers of loops and loop bindings keep is
kept by whole programs, whatever the order in which their parts run and wherever they fail. Beside
the condition goes a relation between earlier and later machines, under which the elements that a
loop goes through stay admissible. The faults that the order of lines decides come from the places
in the tree where they should: an unknown statement from a statement of no form, and an
unterminated block from an opener whose block is not closed.
-/

namespace Grimoire

/-- A machine on which nothing has been run, with a host that grants every request. -/
def Machine.unused : Machine Transcript :=
  .fresh {} .standard default {}

variable {σ α β : Type}

namespace Run

/-- Evaluation changes nothing of a machine but its resources. -/
theorem run_evaluate (e : Eval α) (m : Machine σ) :
    (evaluate e).run.run m =
      (((e.run m.scope).run.run m.resources).1.mapError fun fault => { fault },
        { m with resources := ((e.run m.scope).run.run m.resources).2 }) := rfl

theorem run_evaluate_of_ok {e : Eval α} {m : Machine σ} {a : α} {r : Resources}
    (h : (e.run m.scope).run.run m.resources = (.ok a, r)) :
    (evaluate e).run.run m = (.ok a, { m with resources := r }) := by
  rw [run_evaluate, h]
  rfl

/-- Computations can be evaluated together or one after the other. -/
theorem evaluate_bind (e : Eval α) (f : α → Eval β) :
    (evaluate (e >>= f) : Run σ β) = evaluate e >>= fun a => evaluate (f a) := by
  refine ExceptT.ext (StateT.ext fun m => ?_)
  have hrun : ((e >>= f).run m.scope).run.run m.resources = _ :=
    run_bind (e.run m.scope) (fun a => (f a).run m.scope) m.resources
  rw [run_bind, run_evaluate, run_evaluate, hrun]
  rcases (e.run m.scope).run.run m.resources with ⟨fault | a, r⟩ <;> rfl

/-- What comes after an evaluation goes on from the machine that it leaves. -/
theorem run_evaluate_bind_of_ok {e : Eval α} {m m₁ : Machine σ} {a : α}
    (h : (evaluate e).run.run m = (.ok a, m₁)) (f : α → Eval β) :
    (evaluate (e >>= f)).run.run m = (evaluate (f a)).run.run m₁ := by
  rw [evaluate_bind, run_bind, h]

section Operands

variable {m m₁ : Machine σ} {g : Groups} {slot cell : Nat} {v : Value}

/-- The elements of an operand are those that the array has once it is evaluated. -/
theorem run_items_bind {user : String}
    (h : (evaluate (g.value slot)).run.run m = (.ok (.sequence cell), m₁))
    (f : List Value → Eval α) :
    (evaluate (g.items slot user >>= f)).run.run m =
      (evaluate (f (m₁.store.items cell))).run.run m₁ := by
  rw [Groups.items, bind_assoc, run_evaluate_bind_of_ok h]
  rfl

theorem run_integer_bind (h : (evaluate (g.value slot)).run.run m = (.ok v, m₁))
    (f : Int → Eval α) :
    (evaluate (g.integer slot >>= f)).run.run m = (evaluate (f (m₁.store.toInt v))).run.run m₁ := by
  rw [Groups.integer, bind_assoc, run_evaluate_bind_of_ok h]
  rfl

theorem run_display_bind (h : (evaluate (g.value slot)).run.run m = (.ok v, m₁))
    (f : Text → Eval α) :
    (evaluate (g.display slot >>= f)).run.run m =
      (evaluate (f (m₁.store.display v))).run.run m₁ := by
  rw [Groups.display, Eval.display, bind_assoc]
  exact run_evaluate_bind_of_ok h _

end Operands

/-- What a machine evaluates is evaluated in its scope with its resources. -/
theorem exists_of_run_evaluate {e : Eval α} {m m' : Machine σ} {a : α}
    (h : (evaluate e).run.run m = (.ok a, m')) :
    ∃ r, (e.run m.scope).run.run m.resources = (.ok a, r) ∧ m' = { m with resources := r } := by
  rw [run_evaluate] at h
  rcases hrun : (e.run m.scope).run.run m.resources with ⟨fault | b, r⟩
  · rw [hrun] at h
    cases h
  · rw [hrun] at h
    cases h
    exact ⟨r, rfl, rfl⟩

end Run

/-! ## Contracts -/

/-- A condition on machines, with a relation between earlier and later ones and a condition on
values that lasts. -/
structure Contract (σ : Type) where
  holds : Machine σ → Prop
  later : Machine σ → Machine σ → Prop
  admissible : Machine σ → Value → Prop
  refl : ∀ m, later m m
  trans : ∀ {m m' m''}, later m m' → later m' m'' → later m m''
  admissible_of_later : ∀ {m m' v}, later m m' → admissible m v → admissible m' v

/-- A run that started on `m` has kept a contract; its result satisfies `post`, or its failure
satisfies `blame`. -/
structure Contract.Kept (C : Contract σ) (m : Machine σ) (post : Machine σ → α → Prop)
    (blame : Failure → Prop) (out : Except Failure α × Machine σ) : Prop where
  holds : C.holds out.2
  later : C.later m out.2
  result : ∀ a, out.1 = .ok a → post out.2 a
  failure : ∀ f, out.1 = .error f → blame f

namespace Run

variable {C : Contract σ} {m : Machine σ} {post : Machine σ → α → Prop} {blame : Failure → Prop}

/-- On a machine of which the contract holds, the run keeps it. -/
def Keeps (C : Contract σ) (m : Machine σ) (run : Run σ α) (post : Machine σ → α → Prop)
    (blame : Failure → Prop) : Prop :=
  C.holds m → C.Kept m post blame (run.run.run m)

theorem keeps_pure {a : α} (h : C.holds m → post m a) : Keeps C m (pure a) post blame := by
  refine fun hm => ⟨hm, C.refl m, fun b hb => ?_, nofun⟩
  cases hb
  exact h hm

theorem keeps_fail {fault : Fault} (h : blame { fault }) :
    Keeps C m (fail fault : Run σ α) post blame := by
  refine fun hm => ⟨hm, C.refl m, nofun, fun f hf => ?_⟩
  cases hf
  exact h

theorem Keeps.bind {run : Run σ α} {f : α → Run σ β} {goal : Machine σ → β → Prop}
    (hrun : Keeps C m run post blame)
    (hf : ∀ a m', C.later m m' → C.holds m' → post m' a → Keeps C m' (f a) goal blame) :
    Keeps C m (run >>= f) goal blame := by
  intro hm
  have hkept := hrun hm
  rw [run_bind]
  rcases h : run.run.run m with ⟨failure | a, m'⟩
  · rw [h] at hkept
    exact ⟨hkept.holds, hkept.later, nofun,
      fun f h => hkept.failure f (congrArg Except.error (Except.error.inj h))⟩
  · rw [h] at hkept
    have hnext := hf a m' hkept.later hkept.holds (hkept.result a rfl) hkept.holds
    exact ⟨hnext.holds, C.trans hkept.later hnext.later, hnext.result, hnext.failure⟩

/-- What comes after a failure does not matter. -/
theorem keeps_fail_bind {fault : Fault} {f : β → Run σ α} (h : blame { fault }) :
    Keeps C m (fail fault >>= f) post blame :=
  Keeps.bind (keeps_fail h) fun _ _ _ _ hnever => absurd hnever id

theorem Keeps.weaken {run : Run σ α} {goal : Machine σ → α → Prop} {blame' : Failure → Prop}
    (h : Keeps C m run post blame) (hpost : ∀ m a, post m a → goal m a)
    (hblame : ∀ f, blame f → blame' f) : Keeps C m run goal blame' :=
  fun hm => ⟨(h hm).holds, (h hm).later, fun a ha => hpost _ a ((h hm).result a ha),
    fun f hf => hblame f ((h hm).failure f hf)⟩

theorem Keeps.forget {run : Run σ α} (h : Keeps C m run post blame) :
    Keeps C m run (fun _ _ => True) blame :=
  h.weaken (fun _ _ _ => trivial) fun _ hf => hf

/-- Adjusted failures are blamed where the failures before were. -/
theorem Keeps.adjusted {adjust : Place → Failure → Failure} {place : Place} {run : Run σ α}
    {blame' : Failure → Prop} (h : Keeps C m run post blame)
    (hblame : ∀ f, blame f → blame' (adjust place f)) :
    Keeps C m (Run.adjusted adjust place run) post blame' := by
  intro hm
  have hkept := h hm
  rw [run_adjusted]
  rcases hrun : run.run.run m with ⟨failure | a, m'⟩
  · rw [hrun] at hkept
    refine ⟨hkept.holds, hkept.later, nofun, fun f hf => ?_⟩
    cases hf
    exact hblame failure (hkept.failure failure rfl)
  · rw [hrun] at hkept
    exact ⟨hkept.holds, hkept.later, hkept.result, nofun⟩

/-- What is computed from the machine as it is. -/
theorem keeps_get_bind {f : Machine σ → Run σ β} {goal : Machine σ → β → Prop}
    (h : Keeps C m (f m) goal blame) : Keeps C m (get >>= f) goal blame :=
  fun hm => h hm

theorem keeps_set {m' : Machine σ} (h : C.holds m → C.holds m' ∧ C.later m m') :
    Keeps C m (set m' : Run σ Unit) (fun m'' _ => m'' = m') blame :=
  fun hm => ⟨(h hm).1, (h hm).2, fun _ _ => rfl, nofun⟩

theorem keeps_modify {f : Machine σ → Machine σ} (h : C.holds m → C.holds (f m) ∧ C.later m (f m)) :
    Keeps C m (modify f : Run σ Unit) (fun m' _ => m' = f m) blame :=
  fun hm => ⟨(h hm).1, (h hm).2, fun _ _ => rfl, nofun⟩

end Run

/-! ## The places of faults -/

/-- Whether a failure is none of those that the order of lines decides. -/
def Failure.Inner (f : Failure) : Prop :=
  f.fault.isOfLines = false

mutual

/-- The statements in a part of a program. -/
def Node.statements : Node → List Place
  | .statement place => [place]
  | .block _ _ body otherwise => Program.statements body ++ Program.statements otherwise
  | .unterminated _ => []

/-- The statements in a program, those inside its blocks too. -/
def Program.statements : List Node → List Place
  | [] => []
  | node :: rest => node.statements ++ Program.statements rest

end

mutual

/-- The openers in a part of a program whose blocks are not closed. -/
def Node.unclosed : Node → List Line
  | .statement _ => []
  | .block _ _ body otherwise => Program.unclosed body ++ Program.unclosed otherwise
  | .unterminated line => [line]

/-- The openers in a program whose blocks are not closed, those inside its blocks too. -/
def Program.unclosed : List Node → List Line
  | [] => []
  | node :: rest => node.unclosed ++ Program.unclosed rest

end

/-- A failure that is about the order of lines only if one of the statements or openers given is at
fault. An unknown statement names the line at which it stands. -/
structure Failure.BlamedOn (statements : List Place) (unclosed : List Line) (f : Failure) :
    Prop where
  unknown : ∀ text, f.fault = .unknownStatement text → ∃ place ∈ statements,
    Form.find? place.text = none ∧ place.text.trim = text ∧ f.place = some place
  unterminated : ∀ opener number, f.fault = .unterminatedBlock opener number →
    ∃ line ∈ unclosed, line.place.line = number

namespace Failure

variable {statements statements' : List Place} {unclosed unclosed' : List Line} {f : Failure}

theorem BlamedOn.of_inner (h : f.Inner) : f.BlamedOn statements unclosed where
  unknown text hf := by
    rw [Inner, hf] at h
    cases h
  unterminated opener number hf := by
    rw [Inner, hf] at h
    cases h

theorem BlamedOn.mono (h : f.BlamedOn statements unclosed) (hs : statements ⊆ statements')
    (hu : unclosed ⊆ unclosed') : f.BlamedOn statements' unclosed' where
  unknown text hf := by
    obtain ⟨place, hplace, hrest⟩ := h.unknown text hf
    exact ⟨place, hs hplace, hrest⟩
  unterminated opener number hf := by
    obtain ⟨line, hline, hrest⟩ := h.unterminated opener number hf
    exact ⟨line, hu hline, hrest⟩

/-- A failure that is located already stays where it is. -/
theorem BlamedOn.pin (h : f.BlamedOn statements unclosed) (place : Place) :
    (f.pin place).BlamedOn statements unclosed where
  unknown text hf := by
    obtain ⟨stood, hstood, hfind, htext, hplace⟩ := h.unknown text hf
    exact ⟨stood, hstood, hfind, htext, by rw [Failure.pin, hplace]; rfl⟩
  unterminated opener number hf := h.unterminated opener number hf

end Failure

/-! ## Programs -/

namespace Program

open Run Failure

/-- The parts that programs are made of keep a contract: statements, the conditions and containers
that are evaluated, and the bindings of loops. A statement of no form is unknown; else a failure is
none that the order of lines decides. -/
structure Respects [Host σ] (C : Contract σ) : Prop where
  statement : ∀ m text, Keeps C m (Run.statement text) (fun _ _ => True) fun f =>
    f.Inner ∨ (Form.find? text = none ∧ f = { fault := .unknownStatement text.trim })
  condition : ∀ m text, Keeps C m (Run.evaluate (Eval.holds text)) (fun _ _ => True) Inner
  container : ∀ m loop text, Keeps C m (Run.evaluate (iterationOf loop text))
    (fun m' elements => ∀ v ∈ elements, C.admissible m' v) Inner
  binding : ∀ m name v, C.admissible m v →
    Keeps C m (Run.bindName name v) (fun _ _ => True) Inner
  index : ∀ m x, C.admissible m (.number x)

variable {C : Contract σ} {body otherwise : Run σ Unit} {statements : List Place}
  {unclosed : List Line}

/-- What fails with inner faults fails with those that may be blamed on anything. -/
theorem Keeps.blamedOn {run : Run σ α} {m : Machine σ} {post : Machine σ → α → Prop}
    (h : Keeps C m run post Inner) : Keeps C m run post (BlamedOn statements unclosed) :=
  h.weaken (fun _ _ h => h) fun _ hf => .of_inner hf

theorem keeps_refuseDepth {depth : Nat} {m : Machine σ} :
    Keeps C m (refuseDepth depth) (fun _ _ => True) (BlamedOn statements unclosed) := by
  refine keeps_get_bind ?_
  show Keeps C m (if m.config.maxNesting < depth then _ else _) _ _
  split
  · exact keeps_fail ⟨nofun, nofun⟩
  · exact keeps_pure fun _ => trivial

variable [Host σ]

theorem keeps_repeatEach (hC : Respects C)
    (hbody : ∀ m, Keeps C m body (fun _ _ => True) (BlamedOn statements unclosed)) {name : Text}
    {elements : List Value} {m : Machine σ} (h : ∀ v ∈ elements, C.admissible m v) :
    Keeps C m (repeatEach name body elements) (fun _ _ => True) (BlamedOn statements unclosed) := by
  induction elements generalizing m with
  | nil => exact keeps_pure fun _ => trivial
  | cons v rest ih =>
    have hv : C.admissible m v := h v List.mem_cons_self
    -- the elements were listed before the loop: they must last through the binding and the body
    refine (Keeps.blamedOn (hC.binding m name v hv)).bind fun _ m₁ hm₁ _ _ => ?_
    refine (hbody m₁).bind fun _ m₂ hm₂ _ _ => ih fun w hw => ?_
    exact C.admissible_of_later (C.trans hm₁ hm₂) (h w (List.mem_cons_of_mem v hw))

theorem keeps_stride (hC : Respects C)
    (hbody : ∀ m, Keeps C m body (fun _ _ => True) (BlamedOn statements unclosed))
    {index name : Text} {place : Nat} {elements : List Value} {m : Machine σ}
    (h : ∀ v ∈ elements, C.admissible m v) :
    Keeps C m (stride index name body place elements) (fun _ _ => True)
      (BlamedOn statements unclosed) := by
  induction elements generalizing m place with
  | nil => exact keeps_pure fun _ => trivial
  | cons v rest ih =>
    have hindex := hC.binding m index _ (hC.index m (Number.ofNat place))
    refine (Keeps.blamedOn hindex).bind fun _ m₁ hm₁ _ _ => ?_
    have hv : C.admissible m₁ v := C.admissible_of_later hm₁ (h v List.mem_cons_self)
    refine (Keeps.blamedOn (hC.binding m₁ name v hv)).bind fun _ m₂ hm₂ _ _ => ?_
    refine (hbody m₂).bind fun _ m₃ hm₃ _ _ => ih fun w hw => ?_
    have hlater : C.later m m₃ := C.trans (C.trans hm₁ hm₂) hm₃
    exact C.admissible_of_later hlater (h w (List.mem_cons_of_mem v hw))

theorem keeps_untilHolds (hC : Respects C)
    (hbody : ∀ m, Keeps C m body (fun _ _ => True) (BlamedOn statements unclosed))
    {condition : Text} {limit rounds : Nat} {m : Machine σ} :
    Keeps C m (untilHolds condition body limit rounds) (fun _ _ => True)
      (BlamedOn statements unclosed) := by
  induction rounds generalizing m with
  | zero => exact keeps_fail ⟨nofun, nofun⟩
  | succ rounds ih =>
    refine (hbody m).bind fun _ m₁ _ _ _ => ?_
    refine (Keeps.blamedOn (hC.condition m₁ condition)).bind fun holds m₂ _ _ _ => ?_
    split
    · exact keeps_pure fun _ => trivial
    · exact ih

/-- A construct keeps a contract that its parts keep, and fails as they do. -/
theorem keeps_construct (hC : Respects C)
    (hbody : ∀ m, Keeps C m body (fun _ _ => True) (BlamedOn statements unclosed))
    (hotherwise : ∀ m, Keeps C m otherwise (fun _ _ => True) (BlamedOn statements unclosed))
    (c : Construct) (m : Machine σ) :
    Keeps C m (construct body otherwise c) (fun _ _ => True) (BlamedOn statements unclosed) := by
  cases c with
  | when condition | ward condition =>
    refine (Keeps.blamedOn (hC.condition m condition)).bind fun holds m₁ _ _ _ => ?_
    split
    · exact hbody m₁
    · exact hotherwise m₁
  | repeatEach name container =>
    exact (Keeps.blamedOn (hC.container m _ container)).bind fun _ _ _ _ h =>
      keeps_repeatEach hC hbody h
  | stride index name container =>
    exact (Keeps.blamedOn (hC.container m _ container)).bind fun _ _ _ _ h =>
      keeps_stride hC hbody h
  | «until» condition => exact keeps_get_bind (keeps_untilHolds hC hbody)

/-- A statement that fails as an unknown one is blamed on its place. -/
theorem keeps_statement_pinned (hC : Respects C) (place : Place) (m : Machine σ) :
    Keeps C m (adjusted pin place (Run.statement place.text)) (fun _ _ => True)
      (BlamedOn [place] []) := by
  refine (hC.statement m place.text).adjusted fun f hf => ?_
  rcases hf with hinner | ⟨hfind, rfl⟩
  · exact (BlamedOn.of_inner hinner).pin place
  · refine ⟨fun text htext => ⟨place, List.mem_singleton_self place, hfind, ?_, rfl⟩, nofun⟩
    exact Fault.unknownStatement.inj htext

mutual

theorem keeps_runNode (hC : Respects C) : ∀ (node : Node) (depth : Nat) (m : Machine σ),
    Keeps C m (runNodeWith pin depth node) (fun _ _ => True)
      (BlamedOn node.statements node.unclosed)
  | .statement place, depth, m => by
    rw [runNodeWith, Node.statements, Node.unclosed]
    exact keeps_statement_pinned hC place m
  | .block place c body otherwise, depth, m => by
    rw [runNodeWith, Node.statements, Node.unclosed]
    refine Keeps.adjusted (keeps_refuseDepth.bind fun _ m₁ _ _ _ => ?_) fun f hf => hf.pin place
    refine keeps_construct hC (fun m => ?_) (fun m => ?_) c m₁
    · exact (keeps_runNodes hC body (depth + 1) m).weaken (fun _ _ h => h) fun f hf =>
        hf.mono (List.subset_append_left _ _) (List.subset_append_left _ _)
    · exact (keeps_runNodes hC otherwise (depth + 1) m).weaken (fun _ _ h => h) fun f hf =>
        hf.mono (List.subset_append_right _ _) (List.subset_append_right _ _)
  | .unterminated line, depth, m => by
    rw [runNodeWith, Node.statements, Node.unclosed]
    refine keeps_fail ⟨nofun, fun opener number hf => ⟨line, List.mem_singleton_self line, ?_⟩⟩
    cases hf
    rfl

/-- A program keeps a contract that its parts keep, and its failures are blamed on its statements
and its openers. -/
theorem keeps_runNodes (hC : Respects C) : ∀ (nodes : List Node) (depth : Nat) (m : Machine σ),
    Keeps C m (runNodesWith pin depth nodes) (fun _ _ => True)
      (BlamedOn (Program.statements nodes) (Program.unclosed nodes))
  | [], depth, m => by
    rw [runNodesWith]
    exact keeps_pure fun _ => trivial
  | node :: rest, depth, m => by
    rw [runNodesWith, Program.statements, Program.unclosed]
    refine Keeps.bind ((keeps_runNode hC node depth m).weaken (fun _ _ h => h) fun f hf =>
      hf.mono (List.subset_append_left _ _) (List.subset_append_left _ _)) fun _ m₁ _ _ _ => ?_
    exact (keeps_runNodes hC rest depth m₁).weaken (fun _ _ h => h) fun f hf =>
      hf.mono (List.subset_append_right _ _) (List.subset_append_right _ _)

end

/-- The machine that a program leaves is one of which the contract holds. -/
theorem holds_after_runNodes (hC : Respects C) (nodes : List Node) (depth : Nat) {m : Machine σ}
    (hm : C.holds m) : C.holds ((runNodes depth nodes).run.run m).2 := by
  rw [← (alike_pinned depth nodes).machine m]
  exact (keeps_runNodes hC nodes depth m hm).holds

/-- Where a program fails, it fails with the same fault when failures are located where they are
raised, and then it is clear what they are blamed on. -/
theorem exists_blamed (hC : Respects C) {nodes : List Node} {depth : Nat} {m : Machine σ}
    (hm : C.holds m) {failure : Failure}
    (hrun : ((runNodes depth nodes).run.run m).1 = .error failure) :
    ∃ f, ((runNodesWith pin depth nodes).run.run m).1 = .error f ∧ f.fault = failure.fault ∧
      f.BlamedOn (Program.statements nodes) (Program.unclosed nodes) := by
  obtain ⟨f, hf, hfault⟩ := (alike_pinned depth nodes).error hrun
  exact ⟨f, hf, hfault, (keeps_runNodes hC nodes depth m hm).failure f hf⟩

end Program

end Grimoire
