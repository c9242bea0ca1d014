import Grimoire.Proofs.Steps

/-!
# What evaluation leaves alone

Evaluation of any text, as an expression or as a condition, and a call of a shape leave all of a
machine as it was but the random stream, the prepared time patterns and cells that are added. That
holds for failures too, and it needs only that the libraries which the machine knows by an alias are
standard ones.
-/

namespace Grimoire

variable {σ : Type}

namespace Machine

/-- The second machine is the first with other random numbers and time patterns, and with cells
added. -/
structure Retains (m m' : Machine σ) : Prop where
  config : m'.config = m.config
  host : m'.host = m.host
  scope : m'.scope = m.scope
  registry : m'.registry = m.registry
  grows : m.resources.Grows m'.resources

theorem Retains.refl (m : Machine σ) : m.Retains m :=
  ⟨rfl, rfl, rfl, rfl, .refl m.resources⟩

/-- The aliases of a machine stand for standard libraries. -/
def KnowsStandard (m : Machine σ) : Prop :=
  ∀ summoned ∈ m.scope.aliases.values, summoned.library ∈ Library.standard

variable {m : Machine σ}

theorem KnowsStandard.admits (h : m.KnowsStandard) (D : Discipline) (hsound : D.sound m.store)
    (hglobals : D.ValidTable m.store m.scope.globals)
    (hframes : ∀ frame ∈ m.scope.frames, D.ValidTable m.store frame) :
    D.Admits m.scope m.store where
  sound := hsound
  globals := hglobals
  frames := hframes
  aliases summoned hmem := Library.keeps_of_mem_standard (h summoned hmem)

end Machine

namespace Run

variable {α : Type} {m : Machine σ} {e : Eval α}

/-- What keeps a discipline grows the resources and retains the rest. -/
theorem retains_evaluate {D : Discipline} {post : Store → α → Prop}
    (hadmits : D.Admits m.scope m.store) (h : Eval.Yields D m.scope m.resources e post) :
    m.Retains ((evaluate e).run.run m).2 := by
  constructor
  · rfl
  · rfl
  · rfl
  · rfl
  · exact (h hadmits).grows

/-- With standard libraries nothing need be known of the values. -/
theorem retains_evaluate_of_standard {post : Store → α → Prop} (hm : m.KnowsStandard)
    (h : Eval.Yields .trivial m.scope m.resources e post) :
    m.Retains ((evaluate e).run.run m).2 := by
  have hadmits : Discipline.trivial.Admits m.scope m.store :=
    hm.admits .trivial trivial (fun _ _ => trivial) fun _ _ _ _ => trivial
  exact retains_evaluate hadmits h

/-- An expression is evaluated without a trace. -/
theorem retains_value (hm : m.KnowsStandard) (text : Text) :
    m.Retains ((evaluate (Eval.value text)).run.run m).2 :=
  retains_evaluate_of_standard hm Eval.yields_value

/-- A condition is evaluated without a trace. -/
theorem retains_holds (hm : m.KnowsStandard) (text : Text) :
    m.Retains ((evaluate (Eval.holds text)).run.run m).2 :=
  retains_evaluate_of_standard hm Eval.yields_holds

/-- A shape is called without a trace. -/
theorem retains_callShape (hm : m.KnowsStandard) (shape : Shape) (args : List Value) :
    m.Retains ((evaluate (Eval.callShape shape args)).run.run m).2 :=
  retains_evaluate_of_standard hm (Eval.yields_callShape fun _ _ => trivial)

end Run

end Grimoire
