import Grimoire.Proofs.Grounded
import Grimoire.Proofs.Related
import Mathlib.Logic.Relation

/-!
# Steps

Between two resets a machine changes by statements, by evaluations, by the bindings of loops and by
the passing of time. A machine leads to another if the other comes of it by such steps. A whole
program leads from the machine that it starts on to the machine that it leaves, also when it fails
halfway, so what every step preserves is preserved by programs.
-/

namespace Grimoire

open Relation

namespace Machine

variable {σ : Type} [Host σ] {m m' : Machine σ}

/-- What happens to a machine at once, whether it fails or not. -/
inductive Step (m : Machine σ) : Machine σ → Prop
  | statement (line : Text) : Step m ((Run.statement line).run.run m).2
  | evaluation {α : Type} (e : Eval α) : Step m ((Run.evaluate e).run.run m).2
  /-- A loop binds one of its variables. -/
  | binding (name : Text) (v : Value) : Step m ((Run.bindName name v).run.run m).2
  | waiting (clock : Clock) : Step m { m with resources := { m.resources with clock } }

/-- Any number of steps, none of them a reset. -/
def LeadsTo : Machine σ → Machine σ → Prop :=
  ReflTransGen Step

/-- A machine that has been reset, with all that was done to it since. -/
def SinceReset (m : Machine σ) : Prop :=
  ∃ origin : Machine σ, origin.reset.LeadsTo m

theorem LeadsTo.refl (m : Machine σ) : m.LeadsTo m :=
  ReflTransGen.refl

theorem LeadsTo.trans {m'' : Machine σ} (h : m.LeadsTo m') (h' : m'.LeadsTo m'') :
    m.LeadsTo m'' :=
  ReflTransGen.trans h h'

theorem Step.leadsTo (h : m.Step m') : m.LeadsTo m' :=
  ReflTransGen.single h

/-- What every step preserves holds wherever a machine leads. -/
theorem LeadsTo.preserves {P : Machine σ → Prop} (hstep : ∀ m m', m.Step m' → P m → P m')
    (h : m.LeadsTo m') (hm : P m) : P m' := by
  induction h with
  | refl => exact hm
  | tail _ hlast ih => exact hstep _ _ hlast ih

/-- What a reset brings about and every step preserves holds ever since. -/
theorem SinceReset.induction {P : Machine σ → Prop} (hreset : ∀ origin : Machine σ, P origin.reset)
    (hstep : ∀ m m', m.Step m' → P m → P m') (h : m.SinceReset) : P m := by
  obtain ⟨origin, horigin⟩ := h
  exact horigin.preserves hstep (hreset origin)

theorem sinceReset_reset (m : Machine σ) : m.reset.SinceReset :=
  ⟨m, .refl _⟩

theorem SinceReset.leadsTo (h : m.SinceReset) (h' : m.LeadsTo m') : m'.SinceReset := by
  obtain ⟨origin, horigin⟩ := h
  exact ⟨origin, horigin.trans h'⟩

end Machine

/-! ## Programs -/

namespace Program

variable {σ : Type} [Host σ]

/-- A machine beside itself, with a trace of steps to it. -/
def Reached (start m m' : Machine σ) : Prop :=
  m = m' ∧ start.LeadsTo m

/-- What is a step from every machine extends the trace. -/
theorem Reached.of_step {α : Type} {start : Machine σ} {run : Run σ α}
    (h : ∀ m : Machine σ, m.Step (run.run.run m).2) : Related (Reached start) run run := by
  rintro m m' ⟨rfl, hm⟩
  exact ⟨rfl, rfl, hm.trans (h m).leadsTo⟩

/-- All that programs do is a step. -/
theorem relates_reached (start : Machine σ) : Relates (Reached start) where
  config := by
    rintro m m' ⟨rfl, -⟩
    rfl
  statement line := Reached.of_step fun _ => .statement line
  condition _ := Reached.of_step fun _ => .evaluation _
  container _ _ := Reached.of_step fun _ => .evaluation _
  binding name v := Reached.of_step fun _ => .binding name v

/-- A program leads from where it starts to where it ends. -/
theorem leadsTo_runNodes (nodes : List Node) (depth : Nat) (m : Machine σ) :
    m.LeadsTo ((runNodes depth nodes).run.run m).2 :=
  (related_runNodes (relates_reached m) nodes depth m m ⟨rfl, .refl m⟩).2.2

end Program

/-! ## Calls -/

namespace Machine

variable {σ : Type} [Host σ] {m : Machine σ}

theorem SinceReset.call (h : m.SinceReset) (c : Call) : (m.call c).SinceReset := by
  cases c with
  | interpret source =>
    exact (sinceReset_reset m).leadsTo (Program.leadsTo_runNodes (Program.ofSource source) 0 _)
  | execute line => exact h.leadsTo (Step.statement line).leadsTo
  | evaluate text => exact h.leadsTo (Step.evaluation (Eval.value text)).leadsTo
  | condition text => exact h.leadsTo (Step.evaluation (Eval.holds text)).leadsTo
  | reset => exact sinceReset_reset m
  | wait clock => exact h.leadsTo (Step.waiting clock).leadsTo

theorem sinceReset_fresh (config : Config) (registry : Registry) (clock : Clock) (host : σ) :
    (fresh config registry clock host).SinceReset :=
  sinceReset_reset (fresh config registry clock host)

theorem SinceReset.foldl_call (h : m.SinceReset) (calls : List Call) :
    (calls.foldl Machine.call m).SinceReset := by
  induction calls generalizing m with
  | nil => exact h
  | cons c rest ih => exact ih (h.call c)

/-- Whatever calls are made on a fresh machine, the machine they leave is one since a reset. -/
theorem sinceReset_afterCalls (config : Config) (clock : Clock) (host : σ) (calls : List Call) :
    (afterCalls config clock host calls).SinceReset :=
  (sinceReset_fresh config .standard clock host).foldl_call calls

end Machine

end Grimoire
