import Grimoire.Operands
import Grimoire.Proofs.Evaluation.Libraries

/-!
# What expressions, conditions and shape calls keep

The rules for computations that read a scope, and with them the evaluation of every text: as an
expression, as a condition, as the body of a shape, as an operand.
-/

namespace Grimoire

open Discipline

/-! ## Scopes -/

/-- A store and a scope under a discipline: what the scope names is valid, and the libraries that
it knows keep the discipline. -/
structure Discipline.Admits (D : Discipline) (scope : Scope) (s : Store) : Prop where
  sound : D.sound s
  globals : D.ValidTable s scope.globals
  frames : ∀ frame ∈ scope.frames, D.ValidTable s frame
  aliases : ∀ summoned ∈ scope.aliases.values, summoned.library.Keeps D

namespace Discipline

variable {D : Discipline} {scope : Scope} {s t : Store}

theorem Admits.mono (h : D.Admits scope s) (hst : s.Extends t) (ht : D.sound t) :
    D.Admits scope t where
  sound := ht
  globals := h.globals.mono hst
  frames frame hframe := (h.frames frame hframe).mono hst
  aliases := h.aliases

/-- The scope inside a call. -/
theorem Admits.enter (h : D.Admits scope s) {frame : Table Value} (hframe : D.ValidTable s frame) :
    D.Admits (scope.enter frame) s where
  sound := h.sound
  globals := h.globals
  frames := List.forall_mem_cons.2 ⟨hframe, h.frames⟩
  aliases := h.aliases

theorem Admits.lookup? (h : D.Admits scope s) {name : Text} {v : Value}
    (hv : scope.lookup? name = some v) : D.valid s v := by
  rw [Scope.lookup?, Option.orElse_eq_orElse, Option.orElse_eq_or, Option.or_eq_some_iff] at hv
  rcases hv with hv | ⟨-, hv⟩
  · obtain ⟨frame, hframe, hv⟩ := Option.bind_eq_some_iff.1 hv
    exact (h.frames frame (List.mem_of_mem_head? hframe)).get? hv
  · exact h.globals.get? hv

/-- What a valid value has under a key is valid. -/
theorem Admits.member (h : D.Admits scope s) {v : Value} (hv : D.valid s v) (key : Text) :
    D.valid s (s.member v key) := by
  cases v with
  | tome cell =>
    rw [Store.member]
    cases hw : (s.entries cell).get? key with
    | none => exact D.valid_of_isScalar rfl
    | some w => exact (validTable_entries h.sound hv).get? hw
  | sequence cell =>
    rw [Store.member]
    split <;> exact D.valid_of_isScalar rfl
  | string text =>
    rw [Store.member]
    split <;> exact D.valid_of_isScalar rfl
  | _ => exact D.valid_of_isScalar rfl

/-- What a path leads to is valid. -/
theorem Admits.follow (h : D.Admits scope s) (root : Text) (steps : List Text) :
    D.valid s (scope.follow s root steps) := by
  have members : ∀ (steps : List Text) (v : Value), D.valid s v →
      D.valid s (steps.foldl s.member v) := by
    intro steps
    induction steps with
    | nil => exact fun v hv => hv
    | cons key rest ih => exact fun v hv => ih _ (h.member hv key)
  unfold Scope.follow
  split
  · next v hv => exact members steps v (h.lookup? hv)
  · split <;> exact D.valid_of_isScalar rfl

end Discipline

/-! ## Computations in a scope -/

namespace Eval

variable {α β : Type} {D : Discipline} {scope : Scope} {r : Resources}
  {post : Store → α → Prop}

/-- Under a discipline, a computation in a scope comes out with results that satisfy `post`. -/
def Yields (D : Discipline) (scope : Scope) (r : Resources) (e : Eval α)
    (post : Store → α → Prop) : Prop :=
  D.Admits scope r.store → Outcome D r post ((e.run scope).run.run r)

theorem yields_pure {a : α} (h : D.Admits scope r.store → post r.store a) :
    Yields D scope r (pure a) post :=
  fun hs => .ok (.refl r) hs.sound (h hs)

theorem yields_fail {f : Fault} (hf : f.isOfLines = false) :
    Yields D scope r (fail f : Eval α) post :=
  fun hs => .error (.refl r) hs.sound hf

theorem yields_failType {fault : TypeFault} : Yields D scope r (failType fault : Eval α) post :=
  yields_fail rfl

/-- A computation on the resources does in a scope what it does anywhere. -/
theorem yields_lift {w : Work α} (h : w.Yields D r post) : Yields D scope r (liftM w) post :=
  fun hs => h hs.sound

/-- One computation after another. -/
theorem Yields.bind {e : Eval α} {f : α → Eval β} {goal : Store → β → Prop}
    (he : Yields D scope r e post)
    (hf : ∀ a r', r.Grows r' → D.Admits scope r'.store → post r'.store a →
      Yields D scope r' (f a) goal) :
    Yields D scope r (e >>= f) goal := by
  intro hs
  have hw : Work.Yields D r (e.run scope) post := fun _ => he hs
  refine hw.bind (fun a r' hr hsound ha => ?_) hs.sound
  have hs' : D.Admits scope r'.store := hs.mono hr.store hsound
  exact fun _ => hf a r' hr hs' ha hs'

/-- What is computed from the scope. -/
theorem yields_read_bind {f : Scope → Eval β} {goal : Store → β → Prop}
    (h : Yields D scope r (f scope) goal) : Yields D scope r (read >>= f) goal :=
  fun hs => h hs

/-- What is computed from the store as it is. -/
theorem yields_store_bind {f : Store → Eval β} {goal : Store → β → Prop}
    (h : Yields D scope r (f r.store) goal) :
    Yields D scope r (liftM Work.store >>= f) goal :=
  fun hs => h hs

/-- A result that is neither a container nor a shape is valid. -/
theorem yields_pure_scalar {v : Value} (hv : v.isScalar = true) :
    Yields D scope r (pure v) D.valid :=
  yields_pure fun _ => D.valid_of_isScalar hv

theorem yields_newSequence {items : List Value} (h : D.ValidAll r.store items) :
    Yields D scope r (liftM (Work.newSequence items)) D.valid :=
  yields_lift (Work.yields_newSequence h)

theorem yields_newTome {entries : Table Value} (h : D.ValidTable r.store entries) :
    Yields D scope r (liftM (Work.newTome entries)) D.valid :=
  yields_lift (Work.yields_newTome h)

theorem yields_callLibrary {name function : Text} {args : List Value}
    (h : D.ValidAll r.store args) :
    Yields D scope r (callLibrary name function args) D.valid := by
  refine yields_read_bind ?_
  split
  · next summoned hsummoned =>
    intro hs
    -- the library is one of those the scope knows, and these keep the discipline
    have hknown := Table.mem_values_of_get? hsummoned
    exact (hs.aliases summoned hknown).yields_call h hs.sound
  · exact yields_fail rfl

end Eval

/-! ## Expressions -/

namespace Expr

open Eval

variable {D : Discipline}

mutual

/-- An expression is evaluated to a valid value, if its shapes are well formed. -/
theorem yields_eval {scope : Scope} {r : Resources} :
    ∀ e : Expr, (∀ f ∈ e.shapes, f.WellFormed) → Eval.Yields D scope r e.eval D.valid
  | .text _, _ | .boolean _, _ | .number _, _ => yields_pure_scalar rfl
  | .shape f, h => yields_pure fun _ => D.valid_of_shape (h f List.mem_cons_self)
  | .malformed _, _ => yields_fail rfl
  | .path root steps, _ => by
    rw [eval]
    refine yields_read_bind (yields_store_bind (yields_pure fun hs => ?_))
    exact hs.follow root steps
  | .sequence items, h => by
    rw [eval]
    exact (yields_evalAll items h).bind fun _ _ _ _ hvalues => yields_newSequence hvalues
  | .tome entries, h => by
    rw [eval]
    exact (yields_evalEntries entries h).bind fun _ _ _ _ hentries =>
      yields_newTome (validTable_ofList hentries)
  | .invoke name function args, h => by
    rw [eval]
    exact (yields_evalAll args h).bind fun _ _ _ _ hvalues => yields_callLibrary hvalues
  | .binary left op right, h => by
    rw [shapes, List.forall_mem_append] at h
    rw [eval]
    refine (yields_eval left h.1).bind fun a r₁ _ _ _ => ?_
    refine (yields_eval right h.2).bind fun b r₂ _ _ _ => yields_store_bind ?_
    refine yields_pure_scalar ?_
    unfold Store.applyOperator
    split <;> rfl

theorem yields_evalAll {scope : Scope} {r : Resources} :
    ∀ es : List Expr, (∀ f ∈ shapesOfAll es, f.WellFormed) →
      Eval.Yields D scope r (evalAll es) D.ValidAll
  | [], _ => yields_pure fun _ => validAll_nil
  | e :: rest, h => by
    rw [shapesOfAll, List.forall_mem_append] at h
    rw [evalAll]
    refine (yields_eval e h.1).bind fun v r₁ _ _ hv => ?_
    refine (yields_evalAll rest h.2).bind fun values r₂ grown _ hvalues => ?_
    exact yields_pure fun _ => .cons (D.valid_of_extends grown.store hv) hvalues

theorem yields_evalEntries {scope : Scope} {r : Resources} :
    ∀ es : List (Text × Expr), (∀ f ∈ shapesOfEntries es, f.WellFormed) →
      Eval.Yields D scope r (evalEntries es) fun s entries => D.ValidAll s (entries.map Prod.snd)
  | [], _ => yields_pure fun _ => validAll_nil
  | (key, e) :: rest, h => by
    rw [shapesOfEntries, List.forall_mem_append] at h
    rw [evalEntries]
    refine (yields_eval e h.1).bind fun v r₁ _ _ hv => ?_
    refine (yields_evalEntries rest h.2).bind fun values r₂ grown _ hvalues => ?_
    exact yields_pure fun _ => .cons (D.valid_of_extends grown.store hv) hvalues

end

end Expr

/-! ## Texts as values, conditions and shape bodies -/

namespace Eval

variable {D : Discipline} {scope : Scope} {r : Resources}

theorem yields_value {s : Text} : Yields D scope r (value s) D.valid :=
  Expr.yields_eval _ fun _ hf => Expr.wellFormed_of_mem_shapes hf

theorem yields_values {s : Text} : Yields D scope r (values s) D.ValidAll :=
  Expr.yields_evalAll _ fun _ hf => Expr.wellFormed_of_mem_shapesOfAll hf

theorem yields_number {s : Text} : Yields D scope r (number s) fun _ _ => True :=
  yields_value.bind fun _ _ _ _ _ => yields_lift Work.yields_toNumber

theorem yields_display {s : Text} : Yields D scope r (display s) fun _ _ => True :=
  yields_value.bind fun _ _ _ _ _ => yields_lift Work.yields_display

theorem yields_test {p : Phrase} {left right : Text} :
    Yields D scope r (Condition.test p left right) fun _ _ => True := by
  cases p with
  | greater | less | atLeast | atMost =>
    exact yields_number.bind fun _ _ _ _ _ =>
      yields_number.bind fun _ _ _ _ _ => yields_pure fun _ => True.intro
  | differs | same =>
    exact yields_display.bind fun _ _ _ _ _ =>
      yields_display.bind fun _ _ _ _ _ => yields_pure fun _ => True.intro
  | begins | ends => exact yields_display.bind fun _ _ _ _ _ => yields_pure fun _ => True.intro
  | contains | holdsKey =>
    exact yields_value.bind fun _ _ _ _ _ => yields_value.bind fun _ _ _ _ _ =>
      yields_store_bind (yields_pure fun _ => True.intro)

theorem yields_holds {s : Text} : Yields D scope r (holds s) fun _ _ => True := by
  unfold holds
  cases Condition.ofText s with
  | phrase p left right => exact yields_test
  | word b => exact yields_pure fun _ => True.intro
  | value s =>
    exact yields_value.bind fun _ _ _ _ _ =>
      yields_store_bind (yields_pure fun _ => True.intro)

theorem yields_shapeBody {body : Text} : Yields D scope r (shapeBody body) D.valid := by
  unfold shapeBody
  split
  · exact yields_holds.bind fun _ _ _ _ _ => yields_pure_scalar rfl
  · exact yields_value

/-- The parameters of a call hold the arguments. -/
theorem validTable_frameOf {s : Store} {parameters : List Text} {args : List Value}
    (h : D.ValidAll s args) : D.ValidTable s (frameOf parameters args) := by
  refine validTable_ofList fun v hv => ?_
  obtain ⟨pair, hpair, rfl⟩ := List.mem_map.1 hv
  rcases List.mem_append.1 (List.of_mem_zip hpair).2 with harg | hundefined
  · exact h _ harg
  · rw [List.eq_of_mem_replicate hundefined]
    exact D.valid_of_isScalar rfl

/-- A call evaluates the body with the arguments in scope. -/
theorem yields_callShape {shape : Shape} {args : List Value} (h : D.ValidAll r.store args) :
    Yields D scope r (callShape shape args) D.valid := by
  intro hs
  exact yields_shapeBody (hs.enter (validTable_frameOf h))

/-! ## Operands -/

theorem yields_itemsOf {user : String} {v : Value} (hv : D.valid r.store v) :
    Yields D scope r (itemsOf user v) D.ValidAll :=
  yields_lift (Work.yields_elements hv)

theorem yields_entriesOf {user : String} {v : Value} (hv : D.valid r.store v) :
    Yields D scope r (entriesOf user v) D.ValidTable := by
  cases v with
  | tome cell => exact yields_store_bind (yields_pure fun hs => validTable_entries hs.sound hv)
  | _ => exact yields_failType

theorem yields_shapeOf {user : String} {v : Value} :
    Yields D scope r (shapeOf user v) fun _ _ => True := by
  cases v with
  | shape s => exact yields_pure fun _ => True.intro
  | _ => exact yields_failType

end Eval

namespace Groups

open Eval

variable {D : Discipline} {scope : Scope} {r : Resources} {g : Groups} {slot : Nat}
  {user : String}

theorem yields_integer : Yields D scope r (g.integer slot) fun _ _ => True :=
  yields_value.bind fun _ _ _ _ _ => yields_lift Work.yields_toInt

theorem yields_items : Yields D scope r (g.items slot user) D.ValidAll :=
  yields_value.bind fun _ _ _ _ hv => yields_itemsOf hv

theorem yields_entries : Yields D scope r (g.entries slot user) D.ValidTable :=
  yields_value.bind fun _ _ _ _ hv => yields_entriesOf hv

theorem yields_date : Yields D scope r (g.date slot) fun _ _ => True :=
  yields_value.bind fun _ _ _ _ _ => yields_lift Work.yields_toTimestamp

theorem yields_ifPresent {α : Type} {take : Groups → Nat → Eval α}
    (h : Yields D scope r (take g slot) fun _ _ => True) :
    Yields D scope r (g.ifPresent slot take) fun _ _ => True := by
  unfold ifPresent
  split
  · exact yields_pure fun _ => True.intro
  · exact h.bind fun _ _ _ _ _ => yields_pure fun _ => True.intro

end Groups

end Grimoire
