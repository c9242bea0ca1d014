import Grimoire.Proofs.Containment
import Grimoire.Proofs.Shapes
import Grimoire.Scope

/-!
# What evaluation keeps

Evaluation only adds cells. A discipline is a pair of conditions, on stores and on values in them,
that fresh cells of valid values keep and that the shapes which are read satisfy. This module states
once what a computation does under any discipline: it extends the store, keeps it sound, gives a
valid result, and when it fails the fault is none of those that the order of lines decides. The
rules for the steps of computations follow; each function of the language then needs one lemma.
-/

namespace Grimoire

/-! ## Faults -/

/-- Whether a fault is about the order or the number of lines and not about a statement. -/
def Fault.isOfLines : Fault → Bool
  | .unknownStatement _ | .unterminatedBlock .. | .loopBoundExceeded _ | .nestingTooDeep _ => true
  | _ => false

/-! ## Computations that change a state and may fail -/

/-- One computation after another: a failure of the first ends both, and the state stays as the
first has left it. -/
theorem run_bind {ε τ α β : Type} (x : ExceptT ε (StateM τ) α) (f : α → ExceptT ε (StateM τ) β)
    (t : τ) :
    (x >>= f).run.run t = match x.run.run t with
      | (.ok a, t') => (f a).run.run t'
      | (.error e, t') => (.error e, t') := by
  rw [ExceptT.run_bind, StateT.run_bind]
  rcases StateT.run x.run t with ⟨e | a, t'⟩ <;> rfl

/-! ## Growth -/

/-- What evaluation leaves as it was: the cells that exist and the reading of the clock. -/
structure Resources.Grows (r r' : Resources) : Prop where
  store : r.store.Extends r'.store
  clock : r'.clock = r.clock

theorem Resources.Grows.refl (r : Resources) : r.Grows r :=
  ⟨.refl _, rfl⟩

theorem Resources.Grows.trans {r r' r'' : Resources} (h : r.Grows r') (h' : r'.Grows r'') :
    r.Grows r'' :=
  ⟨h.store.trans h'.store, h'.clock.trans h.clock⟩

/-! ## Disciplines -/

/-- Whether a value is neither a container nor a shape. -/
def Value.isScalar : Value → Bool
  | .sequence _ | .tome _ | .shape _ => false
  | _ => true

theorem Value.isContainer_of_isScalar {v : Value} (h : v.isScalar = true) :
    v.isContainer = false := by
  cases v <;> first | rfl | cases h

/-- A condition on stores and one on values that evaluation keeps. -/
structure Discipline where
  sound : Store → Prop
  valid : Store → Value → Prop
  valid_of_extends : ∀ {s t : Store} {v : Value}, s.Extends t → valid s v → valid t v
  valid_of_isScalar : ∀ {s : Store} {v : Value}, v.isScalar = true → valid s v
  valid_of_shape : ∀ {s : Store} {f : Shape}, f.WellFormed → valid s (.shape f)
  valid_of_encloses : ∀ {s : Store} {v w : Value}, sound s → valid s v → s.Encloses v w →
    valid s w
  newSequence : ∀ {s : Store} {items : List Value}, sound s → (∀ v ∈ items, valid s v) →
    sound (s.newSequence items).2 ∧ valid (s.newSequence items).2 (s.newSequence items).1
  newTome : ∀ {s : Store} {entries : Table Value}, sound s → (∀ v ∈ entries.values, valid s v) →
    sound (s.newTome entries).2 ∧ valid (s.newTome entries).2 (s.newTome entries).1

namespace Discipline

/-- No condition at all. -/
def trivial : Discipline where
  sound _ := True
  valid _ _ := True
  valid_of_extends _ _ := True.intro
  valid_of_isScalar _ := True.intro
  valid_of_shape _ := True.intro
  valid_of_encloses _ _ _ := True.intro
  newSequence _ _ := ⟨True.intro, True.intro⟩
  newTome _ _ := ⟨True.intro, True.intro⟩

/-- Values exist, and no container is inside itself. -/
def acyclic : Discipline where
  sound := Store.Sound
  valid := Store.Has
  valid_of_extends h hv := h.has hv
  valid_of_isScalar h := Store.has_of_not_isContainer (Value.isContainer_of_isScalar h)
  valid_of_shape _ := Store.has_of_not_isContainer rfl
  valid_of_encloses hs _ h := hs.closed _ _ h
  newSequence hs h := ⟨hs.newSequence h, Store.has_newSequence⟩
  newTome hs h := ⟨hs.newTome h, Store.has_newTome⟩

variable (D : Discipline)

/-- All values of a list are valid. -/
def ValidAll (s : Store) (values : List Value) : Prop :=
  ∀ v ∈ values, D.valid s v

/-- All values of a table are valid. -/
def ValidTable (s : Store) (entries : Table Value) : Prop :=
  D.ValidAll s entries.values

variable {D} {s t : Store}

theorem ValidAll.mono {values : List Value} (h : D.ValidAll s values) (hst : s.Extends t) :
    D.ValidAll t values :=
  fun v hv => D.valid_of_extends hst (h v hv)

theorem validAll_nil : D.ValidAll s [] :=
  fun _ h => absurd h List.not_mem_nil

theorem ValidAll.cons {v : Value} {values : List Value} (hv : D.valid s v)
    (h : D.ValidAll s values) : D.ValidAll s (v :: values) :=
  List.forall_mem_cons.2 ⟨hv, h⟩

theorem ValidAll.append {values more : List Value} (h : D.ValidAll s values)
    (h' : D.ValidAll s more) : D.ValidAll s (values ++ more) :=
  List.forall_mem_append.2 ⟨h, h'⟩

theorem ValidAll.subset {values some : List Value} (h : D.ValidAll s values)
    (hsub : some ⊆ values) : D.ValidAll s some :=
  fun v hv => h v (hsub hv)

/-- Values that are neither containers nor shapes are valid. -/
theorem validAll_map {α : Type} {values : List α} {f : α → Value}
    (hf : ∀ a, (f a).isScalar = true) : D.ValidAll s (values.map f) := by
  intro v hv
  obtain ⟨a, -, rfl⟩ := List.mem_map.1 hv
  exact D.valid_of_isScalar (hf a)

/-- A place of a list of valid values, or none, holds a valid value. -/
theorem ValidAll.getD {values : List Value} (h : D.ValidAll s values) (place : Nat) :
    D.valid s (values.getD place .undefined) := by
  rw [List.getD_eq_getElem?_getD]
  cases hv : values[place]? with
  | none => exact D.valid_of_isScalar rfl
  | some v => exact h v (List.mem_of_getElem? hv)

theorem validTable_empty : D.ValidTable s .empty :=
  validAll_nil

theorem ValidTable.get? {entries : Table Value} (h : D.ValidTable s entries) {key : Text}
    {v : Value} (hv : entries.get? key = some v) : D.valid s v :=
  h v (Table.mem_values_of_get? hv)

/-- The elements of a valid sequence are valid. -/
theorem validAll_items (hs : D.sound s) {cell : Nat} (hv : D.valid s (.sequence cell)) :
    D.ValidAll s (s.items cell) :=
  fun _ hw => D.valid_of_encloses hs hv hw

/-- The entries of a valid tome are valid. -/
theorem validTable_entries (hs : D.sound s) {cell : Nat} (hv : D.valid s (.tome cell)) :
    D.ValidTable s (s.entries cell) :=
  fun _ hw => D.valid_of_encloses hs hv hw

end Discipline

/-! ## Outcomes -/

/-- What comes of a computation that starts from `r`: more cells, still sound, and a result that
satisfies `post` in the store it is left in. -/
structure Outcome {α : Type} (D : Discipline) (r : Resources) (post : Store → α → Prop)
    (out : Except Fault α × Resources) : Prop where
  grows : r.Grows out.2
  sound : D.sound out.2.store
  result : ∀ a, out.1 = .ok a → post out.2.store a
  fault : ∀ f, out.1 = .error f → f.isOfLines = false

namespace Outcome

variable {α β : Type} {D : Discipline} {r r' : Resources} {post : Store → α → Prop}

theorem ok {a : α} (hr : r.Grows r') (hs : D.sound r'.store) (ha : post r'.store a) :
    Outcome D r post (.ok a, r') where
  grows := hr
  sound := hs
  result b hb := by
    cases hb
    exact ha
  fault f hf := by cases hf

theorem error {f : Fault} (hr : r.Grows r') (hs : D.sound r'.store) (hf : f.isOfLines = false) :
    Outcome D r post (.error f, r') where
  grows := hr
  sound := hs
  result b hb := by cases hb
  fault g hg := by
    cases hg
    exact hf

theorem of_grows {out : Except Fault α × Resources} (hr : r.Grows r') (h : Outcome D r' post out) :
    Outcome D r post out :=
  ⟨hr.trans h.grows, h.sound, h.result, h.fault⟩

end Outcome

/-! ## Computations on the resources -/

namespace Work

variable {α β : Type} {D : Discipline} {r : Resources} {post : Store → α → Prop}

/-- Under a discipline, a computation from `r` comes out with results that satisfy `post`. -/
def Yields (D : Discipline) (r : Resources) (w : Work α) (post : Store → α → Prop) : Prop :=
  D.sound r.store → Outcome D r post (w.run.run r)

theorem yields_pure {a : α} (h : D.sound r.store → post r.store a) :
    Yields D r (pure a) post :=
  fun hs => .ok (.refl r) hs (h hs)

theorem yields_throw {f : Fault} (hf : f.isOfLines = false) : Yields D r (throw f : Work α) post :=
  fun hs => .error (.refl r) hs hf

/-- One computation after another. -/
theorem Yields.bind {w : Work α} {f : α → Work β} {goal : Store → β → Prop}
    (hw : Yields D r w post)
    (hf : ∀ a r', r.Grows r' → D.sound r'.store → post r'.store a → Yields D r' (f a) goal) :
    Yields D r (w >>= f) goal := by
  intro hs
  have hout := hw hs
  rw [run_bind]
  rcases h : w.run.run r with ⟨fault | a, r'⟩
  · rw [h] at hout
    exact .error hout.grows hout.sound (hout.fault fault rfl)
  · rw [h] at hout
    exact .of_grows hout.grows
      (hf a r' hout.grows hout.sound (hout.result a rfl) hout.sound)

theorem yields_ite {c : Prop} [Decidable c] {w w' : Work α}
    (hw : c → Yields D r w post) (hw' : ¬ c → Yields D r w' post) :
    Yields D r (if c then w else w') post := by
  split
  · next h => exact hw h
  · next h => exact hw' h

end Work

end Grimoire
