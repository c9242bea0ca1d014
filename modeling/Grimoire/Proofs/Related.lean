import Grimoire.Proofs.Outcomes

/-!
# Related computations

Two computations are related under a relation between their states if from related states they come
to the same result and to related states. Computations that are built alike from related parts are
related; so are two runs of one program, perhaps with different hosts, if the statements, the
evaluations and the loop bindings that the program is made of are. With the relation that takes a
state only to itself, and only if it satisfies a condition, this says that a run keeps the
condition.
-/

namespace Grimoire

/-! ## Computations -/

section Computations

variable {ε τ τ' α β : Type} {R : τ → τ' → Prop}

/-- From related states two computations come to the same result and to related states. -/
def Related (R : τ → τ' → Prop) (x : ExceptT ε (StateM τ) α) (y : ExceptT ε (StateM τ') α) : Prop :=
  ∀ t t', R t t' → (x.run.run t).1 = (y.run.run t').1 ∧ R (x.run.run t).2 (y.run.run t').2

theorem related_pure (a : α) :
    Related R (pure a : ExceptT ε (StateM τ) α) (pure a : ExceptT ε (StateM τ') α) :=
  fun _ _ h => ⟨rfl, h⟩

theorem related_throw (e : ε) :
    Related R (throw e : ExceptT ε (StateM τ) α) (throw e : ExceptT ε (StateM τ') α) :=
  fun _ _ h => ⟨rfl, h⟩

/-- What comes after a failure does not matter. -/
theorem related_throw_bind (e : ε) {f : β → ExceptT ε (StateM τ) α}
    {g : β → ExceptT ε (StateM τ') α} : Related R (throw e >>= f) (throw e >>= g) :=
  fun _ _ h => ⟨rfl, h⟩

/-- One computation after another, on both sides. -/
theorem Related.bind {x : ExceptT ε (StateM τ) α} {y : ExceptT ε (StateM τ') α}
    {f : α → ExceptT ε (StateM τ) β} {g : α → ExceptT ε (StateM τ') β} (h : Related R x y)
    (hf : ∀ a, Related R (f a) (g a)) : Related R (x >>= f) (y >>= g) := by
  intro t t' ht
  obtain ⟨hresult, hstate⟩ := h t t' ht
  rw [run_bind, run_bind]
  revert hresult hstate
  rcases x.run.run t with ⟨e | a, s⟩ <;> rcases y.run.run t' with ⟨e' | a', s'⟩ <;>
    intro hresult hstate
  · exact ⟨congrArg Except.error (Except.error.inj hresult), hstate⟩
  · cases hresult
  · cases hresult
  · obtain rfl := Except.ok.inj hresult
    exact hf a s s' hstate

/-- What is computed from states that are related. -/
theorem related_get_bind {f : τ → ExceptT ε (StateM τ) β} {g : τ' → ExceptT ε (StateM τ') β}
    (h : ∀ t t', R t t' → Related R (f t) (g t')) :
    Related R (get >>= f) (get >>= g) :=
  fun t t' ht => h t t' ht t t' ht

theorem related_set {s : τ} {s' : τ'} (h : R s s') :
    Related R (set s : ExceptT ε (StateM τ) PUnit) (set s' : ExceptT ε (StateM τ') PUnit) :=
  fun _ _ _ => ⟨rfl, h⟩

theorem related_modify {f : τ → τ} {g : τ' → τ'} (h : ∀ t t', R t t' → R (f t) (g t')) :
    Related R (modify f : ExceptT ε (StateM τ) PUnit) (modify g : ExceptT ε (StateM τ') PUnit) :=
  fun t t' ht => ⟨rfl, h t t' ht⟩

end Computations

/-! ## Programs -/

namespace Program

open Run

variable {σ σ' : Type} {R : Machine σ → Machine σ' → Prop}

/-- Locating failures relates what was related. -/
theorem related_located {α : Type} {run : Run σ α} {run' : Run σ' α} (h : Related R run run')
    (place : Place) : Related R (located place run) (located place run') := by
  intro m m' hm
  obtain ⟨hresult, hstate⟩ := h m m' hm
  show ((adjusted Failure.locate place run).run.run m).1
      = ((adjusted Failure.locate place run').run.run m').1 ∧
    R ((adjusted Failure.locate place run).run.run m).2
      ((adjusted Failure.locate place run').run.run m').2
  rw [run_adjusted, run_adjusted]
  revert hresult hstate
  rcases run.run.run m with ⟨f | a, s⟩ <;> rcases run'.run.run m' with ⟨f' | a', s'⟩ <;>
    intro hresult hstate
  · obtain rfl := Except.error.inj hresult
    exact ⟨rfl, hstate⟩
  · cases hresult
  · cases hresult
  · exact ⟨hresult, hstate⟩

/-- Related machines have the same settings, and the parts that programs are made of are related:
statements, the conditions and containers that are evaluated, and the bindings of loops. -/
structure Relates [Host σ] [Host σ'] (R : Machine σ → Machine σ' → Prop) : Prop where
  config : ∀ m m', R m m' → m.config = m'.config
  statement : ∀ line, Related R (Run.statement line) (Run.statement line)
  condition : ∀ text, Related R (Run.evaluate (Eval.holds text)) (Run.evaluate (Eval.holds text))
  container : ∀ loop text,
    Related R (Run.evaluate (iterationOf loop text)) (Run.evaluate (iterationOf loop text))
  binding : ∀ name v, Related R (Run.bindName name v) (Run.bindName name v)

variable [Host σ] [Host σ'] {body otherwise : Run σ Unit} {body' otherwise' : Run σ' Unit}

theorem related_refuseDepth (hR : Relates R) (depth : Nat) :
    Related R (refuseDepth depth) (refuseDepth depth) := by
  apply related_get_bind
  intro m m' hm
  show Related R (if m.config.maxNesting < depth then fail (.nestingTooDeep m.config.maxNesting)
      else pure ())
    (if m'.config.maxNesting < depth then fail (.nestingTooDeep m'.config.maxNesting) else pure ())
  rw [hR.config m m' hm]
  split
  · exact related_throw _
  · exact related_pure _

theorem related_repeatEach (hR : Relates R) (hbody : Related R body body') (name : Text)
    (elements : List Value) :
    Related R (repeatEach name body elements) (repeatEach name body' elements) := by
  induction elements with
  | nil => exact related_pure _
  | cons v rest ih =>
    apply (hR.binding name v).bind
    intro _
    exact hbody.bind fun _ => ih

theorem related_stride (hR : Relates R) (hbody : Related R body body') (index name : Text)
    (place : Nat) (elements : List Value) :
    Related R (stride index name body place elements) (stride index name body' place elements) := by
  induction elements generalizing place with
  | nil => exact related_pure _
  | cons v rest ih =>
    apply (hR.binding index _).bind
    intro _
    apply (hR.binding name v).bind
    intro _
    exact hbody.bind fun _ => ih (place + 1)

theorem related_untilHolds (hR : Relates R) (hbody : Related R body body') (condition : Text)
    (limit rounds : Nat) :
    Related R (untilHolds condition body limit rounds) (untilHolds condition body' limit rounds) := by
  induction rounds with
  | zero => exact related_throw _
  | succ rounds ih =>
    apply hbody.bind
    intro _
    apply (hR.condition condition).bind
    intro holds
    cases holds
    · exact ih
    · exact related_pure _

/-- Constructs over related parts are related. -/
theorem related_construct (hR : Relates R) (hbody : Related R body body')
    (hotherwise : Related R otherwise otherwise') (c : Construct) :
    Related R (construct body otherwise c) (construct body' otherwise' c) := by
  cases c with
  | when condition | ward condition =>
    apply (hR.condition condition).bind
    intro holds
    cases holds
    · exact hotherwise
    · exact hbody
  | repeatEach name container =>
    exact (hR.container _ container).bind fun elements => related_repeatEach hR hbody name elements
  | stride index name container =>
    exact (hR.container _ container).bind fun elements =>
      related_stride hR hbody index name 0 elements
  | «until» condition =>
    apply related_get_bind
    intro m m' hm
    rw [hR.config m m' hm]
    exact related_untilHolds hR hbody condition _ _

mutual

theorem related_runNode (hR : Relates R) : ∀ (node : Node) (depth : Nat),
    Related R (runNode depth node) (runNode depth node)
  | .statement place, depth => by
    rw [runNode, runNode]
    exact related_located (hR.statement place.text) place
  | .block place c body otherwise, depth => by
    rw [runNode, runNode]
    apply related_located
    apply (related_refuseDepth hR (depth + 1)).bind
    intro _
    exact related_construct hR (related_runNodes hR body (depth + 1))
      (related_runNodes hR otherwise (depth + 1)) c
  | .unterminated line, depth => by
    rw [runNode, runNode]
    exact related_throw _

/-- Two runs of one program are related. -/
theorem related_runNodes (hR : Relates R) : ∀ (nodes : List Node) (depth : Nat),
    Related R (runNodes depth nodes) (runNodes depth nodes)
  | [], depth => by
    rw [runNodes, runNodes]
    exact related_pure _
  | node :: rest, depth => by
    rw [runNodes, runNodes]
    exact (related_runNode hR node depth).bind fun _ => related_runNodes hR rest depth

end

end Program

end Grimoire
