import Grimoire.Proofs.Arrivals
import Grimoire.Proofs.Grounded

/-!
# The lines of failures

Arriving keeps what runs keep, so on the machine where a run fails it is known what may be at fault.
A failure of a source is an unknown statement with the text of its line, an unterminated block
outside all blocks with the number of its opener, or it is located once, at the innermost line at
fault: a statement that fails or an opener whose construct breaks down.
-/

namespace Grimoire

/-- Whether a fault says itself which line is at fault. -/
def Fault.namesLine : Fault → Bool
  | .unknownStatement _ | .unterminatedBlock .. => true
  | _ => false

theorem Fault.namesLine_of_isOfLines {fault : Fault} (h : fault.isOfLines = false) :
    fault.namesLine = false := by
  cases fault <;> first | rfl | cases h

/-- Whether a failure is left to the program to be located. -/
def Failure.Locatable (f : Failure) : Prop :=
  f.fault.namesLine = false

theorem Failure.Inner.locatable {f : Failure} (h : f.Inner) : f.Locatable :=
  Fault.namesLine_of_isOfLines h

variable {σ : Type}

namespace Program

open Run

variable {C : Contract σ} {m m' m₁ : Machine σ} {part : Branch → Run σ Unit}

/-! ## What turns keep -/

/-- From a machine on, a turn keeps a contract, whatever has kept it before. -/
def Settles (C : Contract σ) (m : Machine σ) (turn : Turn σ) : Prop :=
  ∀ m', C.later m m' → Keeps C m' turn (fun _ _ => True) Failure.Locatable

theorem Settles.mono {turn : Turn σ} (h : Settles C m turn) (hlater : C.later m m') :
    Settles C m' turn :=
  fun m'' hlater' => h m'' (C.trans hlater hlater')


/-- A turn that is due finds the contract kept. -/
theorem Due.keeps {ts : List (Turn σ)} {due : Turn σ} (h : Due part ts m due m')
    (hpart : ∀ p m, Keeps C m (part p) (fun _ _ => True) (fun _ => True))
    (hts : ∀ turn ∈ ts, Settles C m turn) (hm : C.holds m) :
    C.holds m' ∧ C.later m m' ∧ Settles C m' due := by
  induction h with
  | first => exact ⟨hm, C.refl _, hts _ List.mem_cons_self⟩
  | @later turn due rest m m₁ m₂ m₃ p hturn hrun _ ih =>
    have hkept := hts turn List.mem_cons_self m (C.refl m) hm
    rw [hturn] at hkept
    have hkept' := hpart p m₁ hkept.holds
    rw [hrun] at hkept'
    have hlater : C.later m m₂ := C.trans hkept.later hkept'.later
    obtain ⟨hholds, hlater', hdue⟩ :=
      ih (fun t ht => (hts t (List.mem_cons_of_mem turn ht)).mono hlater) hkept'.holds
    exact ⟨hholds, C.trans hlater hlater', hdue⟩

theorem Keeps.locatable {α : Type} {run : Run σ α} {post : Machine σ → α → Prop}
    (h : Keeps C m run post Failure.Inner) : Keeps C m run post Failure.Locatable :=
  h.weaken (fun _ _ h => h) fun _ hf => hf.locatable

variable [Host σ]

theorem keeps_choose (hC : Respects C) (condition : Text) (m : Machine σ) :
    Keeps C m (Turn.choose condition) (fun _ _ => True) Failure.Locatable := by
  refine (Keeps.locatable (hC.condition m condition)).bind fun holds m₁ _ _ _ => ?_
  split <;> exact keeps_pure fun _ => trivial

theorem keeps_again (hC : Respects C) (condition : Text) (m : Machine σ) :
    Keeps C m (Turn.again condition) (fun _ _ => True) Failure.Locatable := by
  refine (Keeps.locatable (hC.condition m condition)).bind fun holds m₁ _ _ _ => ?_
  split <;> exact keeps_pure fun _ => trivial

theorem keeps_giveUp (hC : Respects C) (condition : Text) (limit : Nat) (m : Machine σ) :
    Keeps C m (Turn.giveUp condition limit) (fun _ _ => True) Failure.Locatable := by
  refine (Keeps.locatable (hC.condition m condition)).bind fun holds m₁ _ _ _ => ?_
  split
  · exact keeps_pure fun _ => trivial
  · exact keeps_fail rfl

theorem settles_element (hC : Respects C) {name : Text} {v : Value} (hv : C.admissible m v) :
    Settles C m (Turn.element name v) := by
  intro m' hlater
  have hbinding := hC.binding m' name v (C.admissible_of_later hlater hv)
  exact (Keeps.locatable hbinding).bind fun _ m₁ _ _ _ => keeps_pure fun _ => trivial

theorem settles_elementAt (hC : Respects C) {index name : Text} {place : Nat} {v : Value}
    (hv : C.admissible m v) : Settles C m (Turn.elementAt index name place v) := by
  intro m' hlater
  have hindex := hC.binding m' index _ (hC.index m' (Number.ofNat place))
  exact (Keeps.locatable hindex).bind fun _ m₁ hlater₁ _ _ =>
    settles_element hC hv m₁ (C.trans hlater hlater₁)

theorem keeps_turns (hC : Respects C) (c : Construct) (m : Machine σ) :
    Keeps C m (turns c) (fun _ _ => True) Failure.Locatable := by
  cases c with
  | when | ward => exact keeps_pure fun _ => trivial
  | repeatEach name container | stride index name container =>
    exact (Keeps.locatable (hC.container m _ container)).bind fun _ _ _ _ _ =>
      keeps_pure fun _ => trivial
  | «until» => exact keeps_get_bind (keeps_pure fun _ => trivial)

/-- The turns of a construct keep the contract from where they are known on: what they bind was
admissible then. -/
theorem settles_of_mem_turns (hC : Respects C) (hm : C.holds m) {c : Construct}
    {ts : List (Turn σ)} (hturns : (turns c).run.run m = (.ok ts, m₁)) :
    ∀ turn ∈ ts, Settles C m₁ turn := by
  have hadmissible : ∀ loop container elements, ∀ v ∈ elements,
      (Run.evaluate (iterationOf loop container)).run.run m = (.ok elements, m₁) →
        C.admissible m₁ v := by
    intro loop container elements v hv hrun
    have hkept := hC.container m loop container hm
    rw [hrun] at hkept
    exact hkept.result elements rfl v hv
  refine forall_turns ?_ ?_ ?_ ?_ ?_ ?_ hturns
  · exact fun condition m' _ => keeps_choose hC condition m'
  · exact fun m' _ => keeps_pure fun _ => trivial
  · exact fun condition m' _ => keeps_again hC condition m'
  · exact fun condition limit m' _ => keeps_giveUp hC condition limit m'
  · exact fun loop container elements v hv name hrun =>
      settles_element hC (hadmissible loop container elements v hv hrun)
  · exact fun loop container elements v hv index name place hrun =>
      settles_elementAt hC (hadmissible loop container elements v hv hrun)

/-! ## What arriving keeps -/

/-- A program keeps a contract, wherever it ends. -/
theorem keeps_runNodes_any (hC : Respects C) (nodes : List Node) (depth : Nat) (m : Machine σ) :
    Keeps C m (runNodes depth nodes) (fun _ _ => True) (fun _ => True) := by
  intro hm
  have hkept := keeps_runNodes hC nodes depth m hm
  have hsame := (alike_pinned depth nodes).machine m
  exact ⟨hsame ▸ hkept.holds, hsame ▸ hkept.later, fun _ _ => trivial, fun _ _ => trivial⟩

variable {depth d : Nat} {nodes : List Node} {goal : Node} {fault : Fault} {c : Construct}
  {body otherwise : List Node}

/-- A turn of a block that is due finds the contract kept. -/
theorem keeps_due (hC : Respects C) {m₂ : Machine σ} {ts : List (Turn σ)} {turn : Turn σ}
    (hm : C.holds m) (hturns : (turns c).run.run m = (.ok ts, m₁))
    (hdue : Due (Branch.pick (runNodes depth body) (runNodes depth otherwise)) ts m₁ turn m₂) :
    C.holds m₂ ∧ Keeps C m₂ turn (fun _ _ => True) Failure.Locatable := by
  have hkept := keeps_turns hC c m hm
  rw [hturns] at hkept
  have hpart : ∀ p m, Keeps C m (Branch.pick (runNodes depth body) (runNodes depth otherwise) p)
      (fun _ _ => True) (fun _ => True) := by
    intro p m
    rw [pick_runNodes]
    exact keeps_runNodes_any hC _ depth m
  obtain ⟨hholds, -, hsettles⟩ := hdue.keeps hpart (settles_of_mem_turns hC hm hturns) hkept.holds
  exact ⟨hholds, hsettles m₂ (C.refl m₂)⟩

/-- Where a run arrives the contract is kept. -/
theorem Arrives.holds (hC : Respects C) (h : Arrives depth nodes m d goal m₁) (hm : C.holds m) :
    C.holds m₁ := by
  induction h with
  | here => exact hm
  | @later depth d node goal rest m m₁ m₂ hnode _ ih =>
    have hkept := keeps_runNodes_any hC [node] depth m hm
    rw [runNodes, run_bind, hnode] at hkept
    exact ih hkept.holds
  | inside _ hturns hdue hturn _ ih =>
    obtain ⟨hholds, hkeeps⟩ := keeps_due hC hm hturns hdue
    have hkept := hkeeps hholds
    rw [hturn] at hkept
    exact ih hkept.holds

/-- A construct that breaks down leaves its fault to be located. -/
theorem Breaks.namesLine (hC : Respects C) (h : Breaks depth c body otherwise m fault m')
    (hm : C.holds m) : fault.namesLine = false := by
  cases h with
  | nesting => rfl
  | container _ hfails =>
    have hkept := keeps_turns hC c m hm
    rw [hfails] at hkept
    exact hkept.failure _ rfl
  | turn _ hturns hdue hfails =>
    obtain ⟨hholds, hkeeps⟩ := keeps_due hC hm hturns hdue
    have hkept := hkeeps hholds
    rw [hfails] at hkept
    exact hkept.failure _ rfl

end Program

/-! ## Sources -/

theorem Line.exists_of_mem_numberFrom {number : Nat} {texts : List Text} {line : Line}
    (h : line ∈ numberFrom number texts) : ∃ i text, texts[i]? = some text ∧
      line = ⟨⟨number + i, text.trim⟩, text.role⟩ := by
  induction texts generalizing number with
  | nil => cases h
  | cons text rest ih =>
    rw [numberFrom, List.mem_cons] at h
    rcases h with rfl | h
    · exact ⟨0, text, rfl, rfl⟩
    · obtain ⟨i, found, hfound, rfl⟩ := ih h
      exact ⟨i + 1, found, hfound, by rw [Nat.add_assoc, Nat.add_comm 1 i]⟩

theorem Failure.locate_of_not_namesLine {fault : Fault} (h : fault.namesLine = false)
    (place : Place) : locate place { fault } = { fault, place := some place } := by
  cases fault <;> first | rfl | cases h

namespace Program

variable [Host σ]

/-- Outside all blocks is the only place where a run arrives at an opener that is not closed. -/
theorem Arrives.depth_eq {depth d : Nat} {nodes : List Node} {goal : Node} {m m' : Machine σ}
    (h : Arrives depth nodes m d goal m') (hclosed : ClosedInside nodes)
    (hgoal : goal.unclosed ≠ []) : d = depth := by
  induction h with
  | here => rfl
  | @later depth d node goal rest m m₁ m₂ _ _ ih =>
    exact ih (fun place c body otherwise hmem =>
      hclosed place c body otherwise (List.mem_cons_of_mem node hmem)) hgoal
  | @inside depth d place c body otherwise rest goal m m₁ m₂ m₃ m₄ ts turn p _ _ _ _ h _ =>
    have hparts := hclosed place c body otherwise List.mem_cons_self
    exact absurd (h.unclosed (unclosed_pick hparts p)) hgoal

/-- A run of a source arrives at a part of its program. -/
def Comes (source : Text) (m : Machine σ) (depth : Nat) (node : Node) (m' : Machine σ) : Prop :=
  Arrives 0 (ofSource source) m.reset depth node m'

theorem interpret_eq_error_iff_failsSomewhere {source : Text} {failure : Failure}
    {m m' : Machine σ} : (interpret source).run.run m = (.error failure, m') ↔
      FailsSomewhere 0 (ofSource source) m.reset failure m' :=
  runNodes_eq_error_iff (closedInside_ofLines _)

/-- What a run of a source arrives at was read from one of its lines. -/
theorem Comes.readFrom {source : Text} {m m' : Machine σ} {depth : Nat} {node : Node}
    (h : Comes source m depth node m') :
    ∃ i text, source.lines[i]? = some text ∧
      node.ReadFrom ⟨⟨i + 1, text.trim⟩, text.role⟩ := by
  obtain ⟨line, hline, hread⟩ := exists_readFrom h.mem_all
  obtain ⟨i, text, htext, rfl⟩ := Line.exists_of_mem_numberFrom hline
  exact ⟨i, text, htext, by rwa [Nat.add_comm 1 i] at hread⟩

variable (config : Config) (clock : Clock) (host : σ) (calls : List Call)

/-- Where a failure of a source is located: it is an unknown statement and bears the text of its
line, or a block that is not closed and bears the number of its opener, which stands outside all
blocks, or it is located at the line at which the run has come to a statement that fails or to an
opener whose construct breaks down. -/
theorem interpret_eq_error_iff (source : Text) (failure : Failure) (m' : Machine σ) :
    (interpret source).run.run (Machine.afterCalls config clock host calls) = (.error failure, m') ↔
      (∃ i text depth m, source.lines[i]? = some text ∧
        Comes source (Machine.afterCalls config clock host calls) depth
          (.statement ⟨i + 1, text.trim⟩) m ∧
        (Run.statement text.trim).run.run m = (.error failure, m') ∧
        failure = { fault := .unknownStatement text.trim }) ∨
      (∃ i text, source.lines[i]? = some text ∧
        Comes source (Machine.afterCalls config clock host calls) 0
          (.unterminated ⟨⟨i + 1, text.trim⟩, text.role⟩) m' ∧
        failure = { fault := .unterminatedBlock (Text.openerName text.trim) (i + 1) }) ∨
      ∃ i text depth m fault, source.lines[i]? = some text ∧
        failure = { fault, place := some ⟨i + 1, text.trim⟩ } ∧ fault.namesLine = false ∧
        ((Comes source (Machine.afterCalls config clock host calls) depth
            (.statement ⟨i + 1, text.trim⟩) m ∧
          (Run.statement text.trim).run.run m = (.error { fault }, m')) ∨
        ∃ c body otherwise,
          Comes source (Machine.afterCalls config clock host calls) depth
            (.block ⟨i + 1, text.trim⟩ c body otherwise) m ∧
          Breaks depth c body otherwise m fault m') := by
  rw [interpret_eq_error_iff_failsSomewhere]
  constructor
  · rintro ⟨depth, goal, m, fault, hcomes, hfails, rfl⟩
    have hm : m.Grounded := hcomes.holds respects_grounded
      (Machine.grounded_afterCalls config clock host calls).reset
    obtain ⟨i, text, htext, hread⟩ := Comes.readFrom hcomes
    cases goal with
    | statement place =>
      obtain ⟨rfl, -⟩ := hread
      have hkept := respects_grounded.statement m text.trim hm
      rw [hfails] at hkept
      rcases hkept.failure _ rfl with hinner | ⟨-, hunknown⟩
      · have hnames := Fault.namesLine_of_isOfLines hinner
        exact Or.inr (Or.inr ⟨i, text, depth, m, fault, htext,
          Failure.locate_of_not_namesLine hnames _, hnames, Or.inl ⟨hcomes, hfails⟩⟩)
      · obtain rfl : fault = .unknownStatement text.trim := by
          rw [Text.trim_trim] at hunknown
          exact congrArg Failure.fault hunknown
        exact Or.inl ⟨i, text, depth, m, htext, hcomes, hfails, rfl⟩
    | block place c body otherwise =>
      obtain ⟨rfl, -⟩ := hread
      have hnames := Breaks.namesLine respects_grounded hfails hm
      exact Or.inr (Or.inr ⟨i, text, depth, m, fault, htext,
        Failure.locate_of_not_namesLine hnames _, hnames,
        Or.inr ⟨c, body, otherwise, hcomes, hfails⟩⟩)
    | unterminated line =>
      obtain ⟨rfl, -⟩ := hread
      obtain ⟨rfl, rfl⟩ := hfails
      obtain rfl : depth = 0 := hcomes.depth_eq (closedInside_ofLines _) nofun
      exact Or.inr (Or.inl ⟨i, text, htext, hcomes, rfl⟩)
  · rintro (⟨i, text, depth, m, -, hcomes, hfails, rfl⟩ | ⟨i, text, -, hcomes, rfl⟩ |
      ⟨i, text, depth, m, fault, -, rfl, hnames,
        ⟨hcomes, hfails⟩ | ⟨c, body, otherwise, hcomes, hfails⟩⟩)
    · exact ⟨depth, _, m, _, hcomes, hfails, rfl⟩
    · exact ⟨0, _, m', _, hcomes, ⟨rfl, rfl⟩, rfl⟩
    · exact ⟨depth, _, m, fault, hcomes, hfails, (Failure.locate_of_not_namesLine hnames _).symm⟩
    · exact ⟨depth, _, m, fault, hcomes, hfails, (Failure.locate_of_not_namesLine hnames _).symm⟩

end Program

end Grimoire
