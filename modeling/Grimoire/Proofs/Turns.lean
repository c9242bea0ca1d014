import Grimoire.Proofs.Runs

/-!
# Constructs turn by turn

A construct takes turns with its parts. In a turn of its own it tests its condition, binds the
names of a loop or gives a loop up, and with that it says which part is run next, if any. The turns
of a loop over elements are known once its container was evaluated.
-/

namespace Grimoire

variable {σ : Type}

/-! ## Parts and turns -/

/-- The two parts of a block. -/
inductive Branch where
  | body
  | otherwise
  deriving DecidableEq, Repr

/-- What belongs to a part. -/
def Branch.pick {α : Type} (body otherwise : α) : Branch → α
  | .body => body
  | .otherwise => otherwise

/-- What a construct does itself, and the part that is run then, if any. -/
abbrev Turn (σ : Type) := Run σ (Option Branch)

namespace Turn

/-- Chooses a part by a condition. -/
def choose (condition : Text) : Run σ (Option Branch) := do
  if ← Run.evaluate (Eval.holds condition) then return some .body else return some .otherwise

/-- Binds the name of a loop to an element. -/
def element (name : Text) (v : Value) : Run σ (Option Branch) := do
  Run.bindName name v
  return some .body

/-- Binds the names of a loop to a place and the element there. -/
def elementAt (index name : Text) (place : Nat) (v : Value) : Run σ (Option Branch) := do
  Run.bindName index (.number (Number.ofNat place))
  Run.bindName name v
  return some .body

/-- Begins a loop that runs its body before any test. -/
def start : Run σ (Option Branch) :=
  return some .body

/-- Ends a loop if its condition holds. -/
def again (condition : Text) : Run σ (Option Branch) := do
  if ← Run.evaluate (Eval.holds condition) then return none else return some .body

/-- Ends a loop if its condition holds and gives it up if not. -/
def giveUp (condition : Text) (limit : Nat) : Run σ (Option Branch) := do
  if ← Run.evaluate (Eval.holds condition) then return none
  else Run.fail (.loopBoundExceeded limit)

end Turn

namespace Program

/-- Takes turns with the parts. -/
def takeTurns (part : Branch → Run σ Unit) : List (Turn σ) → Run σ Unit
  | [] => return ()
  | turn :: rest => do
    match ← turn with
    | some p => do
      part p
      takeTurns part rest
    | none => return ()

/-- The turns of a loop over elements with their places. -/
def strideTurns (index name : Text) (place : Nat) : List Value → List (Turn σ)
  | [] => []
  | v :: rest => Turn.elementAt index name place v :: strideTurns index name (place + 1) rest

/-- The turns of a loop after its first round if `rounds` more are allowed. -/
def untilTurns (condition : Text) (limit : Nat) : Nat → List (Turn σ)
  | 0 => [Turn.giveUp condition limit]
  | rounds + 1 => Turn.again condition :: untilTurns condition limit rounds

/-- The turns of a construct. -/
def turns : Construct → Run σ (List (Turn σ))
  | .when condition | .ward condition => return [Turn.choose condition]
  | .repeatEach name container => do
    return (← Run.evaluate (iterationOf "repeat each" container)).map (Turn.element name)
  | .stride index name container => do
    return strideTurns index name 0 (← Run.evaluate (iterationOf "stride" container))
  | .until condition => do
    let limit := (← get).config.untilLimit
    return Turn.start :: untilTurns condition limit (max limit 1 - 1)

/-! ## What takes turns is what runs -/

variable {body otherwise : Run σ Unit}

theorem takeTurns_map_element (name : Text) (elements : List Value) :
    takeTurns (Branch.pick body otherwise) (elements.map (Turn.element name))
      = repeatEach name body elements := by
  induction elements with
  | nil => rfl
  | cons v rest ih =>
    rw [List.map_cons, takeTurns, repeatEach, ← ih, Turn.element, bind_assoc]
    simp only [pure_bind]
    rfl

theorem takeTurns_strideTurns (index name : Text) (place : Nat) (elements : List Value) :
    takeTurns (Branch.pick body otherwise) (strideTurns index name place elements)
      = stride index name body place elements := by
  induction elements generalizing place with
  | nil => rfl
  | cons v rest ih =>
    rw [strideTurns, takeTurns, stride, ← ih, Turn.elementAt]
    simp only [bind_assoc, pure_bind]
    rfl

theorem takeTurns_untilTurns (condition : Text) (limit rounds : Nat) :
    takeTurns (Branch.pick body otherwise) (untilTurns condition limit rounds)
      = (do
        if ← Run.evaluate (Eval.holds condition) then return ()
        else untilHolds condition body limit rounds) := by
  induction rounds with
  | zero =>
    rw [untilTurns, takeTurns, untilHolds, Turn.giveUp, bind_assoc]
    congr 1
    funext holds
    cases holds <;> rfl
  | succ rounds ih =>
    rw [untilTurns, takeTurns, untilHolds, ← ih, Turn.again, bind_assoc]
    congr 1
    funext holds
    cases holds
    · simp only [Bool.false_eq_true, ↓reduceIte, pure_bind]
      rfl
    · rfl

/-- A construct takes turns with its parts. -/
theorem construct_eq_takeTurns (body otherwise : Run σ Unit) (c : Construct) :
    construct body otherwise c
      = (do takeTurns (Branch.pick body otherwise) (← turns c)) := by
  cases c with
  | when condition | ward condition =>
    rw [construct, turns, pure_bind, takeTurns, Turn.choose, bind_assoc]
    congr 1
    funext holds
    cases holds
    · exact (bind_pure otherwise).symm
    · exact (bind_pure body).symm
  | repeatEach name container =>
    rw [construct, turns, bind_assoc]
    simp only [pure_bind, takeTurns_map_element]
  | stride index name container =>
    rw [construct, turns, bind_assoc]
    simp only [pure_bind, takeTurns_strideTurns]
  | «until» condition =>
    rw [construct, turns, bind_assoc]
    congr 1
    funext m
    obtain ⟨rounds, hrounds⟩ : ∃ rounds, max m.config.untilLimit 1 = rounds + 1 :=
      Nat.exists_eq_add_one.2 (by omega)
    dsimp only
    rw [pure_bind, hrounds, Nat.add_sub_cancel, takeTurns, Turn.start, pure_bind]
    dsimp only
    rw [takeTurns_untilTurns, untilHolds]
    rfl

/-! ## The kinds of turns -/

/-- The turns of a construct are of few kinds. The elements that they bind come from a container. -/
theorem forall_turns {property : Turn σ → Prop} {c : Construct} {ts : List (Turn σ)}
    {m m' : Machine σ} (choose : ∀ condition, property (Turn.choose condition))
    (start : property Turn.start) (again : ∀ condition, property (Turn.again condition))
    (giveUp : ∀ condition limit, property (Turn.giveUp condition limit))
    (element : ∀ loop container elements, ∀ v ∈ elements, ∀ name,
      (Run.evaluate (iterationOf loop container)).run.run m = (.ok elements, m') →
        property (Turn.element name v))
    (elementAt : ∀ loop container elements, ∀ v ∈ elements, ∀ index name place,
      (Run.evaluate (iterationOf loop container)).run.run m = (.ok elements, m') →
        property (Turn.elementAt index name place v))
    (h : (turns c).run.run m = (.ok ts, m')) : ∀ turn ∈ ts, property turn := by
  cases c with
  | when condition | ward condition =>
    cases h
    exact List.forall_mem_singleton.2 (choose condition)
  | repeatEach name container =>
    rw [turns, run_bind] at h
    rcases hrun : (Run.evaluate (iterationOf "repeat each" container)).run.run m
      with ⟨f | elements, m₁⟩
    · rw [hrun] at h
      cases h
    · rw [hrun] at h
      cases h
      intro turn hturn
      obtain ⟨v, hv, rfl⟩ := List.mem_map.1 hturn
      exact element _ container elements v hv name hrun
  | stride index name container =>
    rw [turns, run_bind] at h
    rcases hrun : (Run.evaluate (iterationOf "stride" container)).run.run m with ⟨f | elements, m₁⟩
    · rw [hrun] at h
      cases h
    · rw [hrun] at h
      cases h
      have hall : ∀ place, ∀ rest ⊆ elements, ∀ turn ∈ strideTurns index name place rest,
          property turn := by
        intro place rest
        induction rest generalizing place with
        | nil => exact fun _ _ hturn => absurd hturn List.not_mem_nil
        | cons v rest ih =>
          intro hsub
          rw [List.cons_subset] at hsub
          exact List.forall_mem_cons.2
            ⟨elementAt _ container elements v hsub.1 index name place hrun, ih (place + 1) hsub.2⟩
      exact hall 0 elements (List.Subset.refl _)
  | «until» condition =>
    cases h
    have hall : ∀ rounds, ∀ turn ∈ untilTurns condition m.config.untilLimit rounds,
        property turn := by
      intro rounds
      induction rounds with
      | zero => exact List.forall_mem_singleton.2 (giveUp condition _)
      | succ rounds ih => exact List.forall_mem_cons.2 ⟨again condition, ih⟩
    exact List.forall_mem_cons.2 ⟨start, hall _⟩

/-! ## The turn that is due -/

/-- Turns are taken from a machine on, each with the part that it asks for, until a turn is due. -/
inductive Due (part : Branch → Run σ Unit) :
    List (Turn σ) → Machine σ → Turn σ → Machine σ → Prop
  | first {turn : Turn σ} {rest : List (Turn σ)} {m : Machine σ} :
    Due part (turn :: rest) m turn m
  | later {turn due : Turn σ} {rest : List (Turn σ)} {m m₁ m₂ m₃ : Machine σ} {p : Branch}
    (hturn : turn.run.run m = (.ok (some p), m₁))
    (hpart : (part p).run.run m₁ = (.ok (), m₂)) :
    Due part rest m₂ due m₃ → Due part (turn :: rest) m due m₃

variable {part : Branch → Run σ Unit} {m m' : Machine σ} {failure : Failure}

theorem Due.mem {part : Branch → Run σ Unit} {ts : List (Turn σ)} {due : Turn σ}
    (h : Due part ts m due m') : due ∈ ts := by
  induction h with
  | first => exact List.mem_cons_self
  | later _ _ _ ih => exact List.mem_cons_of_mem _ ih

/-- Taking turns fails where the turn that is due fails or the part that it asks for. -/
theorem takeTurns_eq_error_iff {ts : List (Turn σ)} :
    (takeTurns part ts).run.run m = (.error failure, m') ↔
      ∃ due m₁, Due part ts m due m₁ ∧ (due.run.run m₁ = (.error failure, m') ∨
        ∃ p m₂, due.run.run m₁ = (.ok (some p), m₂) ∧
          (part p).run.run m₂ = (.error failure, m')) := by
  constructor
  · intro h
    induction ts generalizing m with
    | nil => cases h
    | cons turn rest ih =>
      rw [takeTurns, run_bind] at h
      rcases hturn : turn.run.run m with ⟨f | _ | p, m₁⟩
      · rw [hturn] at h
        cases h
        exact ⟨turn, m, .first, Or.inl hturn⟩
      · rw [hturn] at h
        cases h
      · rw [hturn] at h
        dsimp only at h
        rw [run_bind] at h
        rcases hpart : (part p).run.run m₁ with ⟨f | _, m₂⟩
        · rw [hpart] at h
          exact ⟨turn, m, .first, Or.inr ⟨p, m₁, hturn, hpart.trans h⟩⟩
        · rw [hpart] at h
          obtain ⟨due, m₃, hdue, hfails⟩ := ih h
          exact ⟨due, m₃, .later hturn hpart hdue, hfails⟩
  · rintro ⟨due, m₁, hdue, hfails⟩
    induction hdue with
    | first =>
      rw [takeTurns, run_bind]
      rcases hfails with hfails | ⟨p, m₂, hturn, hpart⟩
      · rw [hfails]
      · rw [hturn]
        dsimp only
        rw [run_bind, hpart]
    | later hturn hpart _ ih =>
      rw [takeTurns, run_bind, hturn]
      dsimp only
      rw [run_bind, hpart]
      exact ih hfails

end Program

end Grimoire
