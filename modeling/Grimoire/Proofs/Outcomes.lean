import Grimoire.Program.Run
import Grimoire.Proofs.Evaluation

/-!
# Outcomes

The outcome of a run is its fault, if it fails, and the machine it leaves; the line that a failure
names is left out. Runs are alike when they have the same outcome on every machine. How failures
are located does not matter for it, so a program may as well be run with every failure located at
the line that raises it.
-/

namespace Grimoire

variable {σ α β : Type}

namespace Run

/-! ## Alike runs -/

/-- The fault of a run, if it fails, and the machine afterwards. -/
def outcome (run : Run σ α) (m : Machine σ) : Except Fault α × Machine σ :=
  ((run.run.run m).1.mapError Failure.fault, (run.run.run m).2)

/-- Runs with the same outcome on every machine. -/
def Alike (run run' : Run σ α) : Prop :=
  ∀ m, run.outcome m = run'.outcome m

theorem Alike.refl (run : Run σ α) : Alike run run :=
  fun _ => rfl

theorem Alike.symm {run run' : Run σ α} (h : Alike run run') : Alike run' run :=
  fun m => (h m).symm

theorem Alike.trans {run run' run'' : Run σ α} (h : Alike run run') (h' : Alike run' run'') :
    Alike run run'' :=
  fun m => (h m).trans (h' m)

/-- Alike runs leave the same machine. -/
theorem Alike.machine {run run' : Run σ α} (h : Alike run run') (m : Machine σ) :
    (run.run.run m).2 = (run'.run.run m).2 :=
  congrArg (fun out : Except Fault α × Machine σ => out.2) (h m)

/-- Where one of two alike runs fails the other fails with the same fault. -/
theorem Alike.error {run run' : Run σ α} (h : Alike run run') {m : Machine σ} {failure : Failure}
    (hrun : (run'.run.run m).1 = .error failure) :
    ∃ failure', (run.run.run m).1 = .error failure' ∧ failure'.fault = failure.fault := by
  have hsame : (run.run.run m).1.mapError Failure.fault = .error failure.fault := by
    have hfirst := congrArg Prod.fst (h m)
    rw [outcome, outcome, hrun] at hfirst
    exact hfirst
  cases hresult : (run.run.run m).1 with
  | error failure' =>
    rw [hresult] at hsame
    exact ⟨failure', rfl, Except.error.inj hsame⟩
  | ok a =>
    rw [hresult] at hsame
    cases hsame

/-- The outcome of one run after another. -/
theorem outcome_bind (run : Run σ α) (f : α → Run σ β) (m : Machine σ) :
    (run >>= f).outcome m = match run.outcome m with
      | (.ok a, m') => (f a).outcome m'
      | (.error fault, m') => (.error fault, m') := by
  unfold outcome
  rw [run_bind]
  rcases run.run.run m with ⟨failure | a, m'⟩ <;> rfl

theorem Alike.bind {run run' : Run σ α} {f f' : α → Run σ β} (h : Alike run run')
    (hf : ∀ a, Alike (f a) (f' a)) : Alike (run >>= f) (run' >>= f') := by
  intro m
  rw [outcome_bind, outcome_bind, h m]
  rcases run'.outcome m with ⟨fault | a, m'⟩
  · rfl
  · exact hf a m'

/-- Runs that go on alike from any machine. -/
theorem alike_get_bind {f f' : Machine σ → Run σ α} (h : ∀ m, Alike (f m) (f' m)) :
    Alike (get >>= f) (get >>= f') :=
  Alike.bind (.refl _) h

/-! ## Failures adjusted -/

/-- Adjusts the failures of a run to a place. -/
def adjusted (adjust : Place → Failure → Failure) (place : Place) (run : Run σ α) : Run σ α :=
  tryCatch run fun failure => throw (adjust place failure)

theorem run_adjusted (adjust : Place → Failure → Failure) (place : Place) (run : Run σ α)
    (m : Machine σ) :
    (adjusted adjust place run).run.run m = match run.run.run m with
      | (.ok a, m') => (.ok a, m')
      | (.error failure, m') => (.error (adjust place failure), m') := by
  rw [adjusted, ExceptT.run_tryCatch, StateT.run_bind]
  rcases StateT.run run.run m with ⟨failure | a, m'⟩ <;> rfl

/-- An adjustment that keeps faults changes no outcome. -/
theorem alike_adjusted {adjust : Place → Failure → Failure}
    (hfault : ∀ place failure, (adjust place failure).fault = failure.fault) (place : Place)
    (run : Run σ α) : Alike (adjusted adjust place run) run := by
  intro m
  unfold outcome
  rw [run_adjusted]
  rcases run.run.run m with ⟨failure | a, m'⟩
  · exact congrArg (fun fault => (Except.error fault, m')) (hfault place failure)
  · rfl

theorem alike_located (place : Place) (run : Run σ α) : Alike (located place run) run :=
  alike_adjusted Failure.fault_locate place run

end Run

/-! ## Programs with failures adjusted -/

/-- Locates every failure that is not located already, unknown statements too. -/
def Failure.pin (place : Place) (f : Failure) : Failure :=
  { f with place := f.place.getD place }

theorem Failure.fault_pin (place : Place) (f : Failure) : (f.pin place).fault = f.fault := rfl

namespace Program

open Run

variable {body body' otherwise otherwise' : Run σ Unit}

theorem alike_repeatEach (h : Alike body body') (name : Text) (elements : List Value) :
    Alike (repeatEach name body elements) (repeatEach name body' elements) := by
  induction elements with
  | nil => exact .refl _
  | cons v rest ih => exact (Alike.refl _).bind fun _ => h.bind fun _ => ih

theorem alike_stride (h : Alike body body') (index name : Text) (place : Nat)
    (elements : List Value) :
    Alike (stride index name body place elements) (stride index name body' place elements) := by
  induction elements generalizing place with
  | nil => exact .refl _
  | cons v rest ih =>
    exact (Alike.refl _).bind fun _ => (Alike.refl _).bind fun _ => h.bind fun _ => ih (place + 1)

theorem alike_untilHolds (h : Alike body body') (condition : Text) (limit rounds : Nat) :
    Alike (untilHolds condition body limit rounds) (untilHolds condition body' limit rounds) := by
  induction rounds with
  | zero => exact .refl _
  | succ rounds ih =>
    refine h.bind fun _ => (Alike.refl _).bind fun holds => ?_
    cases holds
    · exact ih
    · exact .refl _

/-- Constructs over alike parts are alike. -/
theorem alike_construct (h : Alike body body') (h' : Alike otherwise otherwise') (c : Construct) :
    Alike (construct body otherwise c) (construct body' otherwise' c) := by
  cases c with
  | when condition | ward condition =>
    refine (Alike.refl _).bind fun holds => ?_
    cases holds
    · exact h'
    · exact h
  | repeatEach name container =>
    exact (Alike.refl _).bind fun elements => alike_repeatEach h name elements
  | stride index name container =>
    exact (Alike.refl _).bind fun elements => alike_stride h index name 0 elements
  | «until» condition =>
    exact alike_get_bind fun m => alike_untilHolds h condition _ _

mutual

/-- Runs a part of a program inside `depth` blocks, adjusting failures at every line. -/
def runNodeWith [Host σ] (adjust : Place → Failure → Failure) (depth : Nat) : Node → Run σ Unit
  | .statement place => adjusted adjust place (statement place.text)
  | .block place c body otherwise => adjusted adjust place do
    refuseDepth (depth + 1)
    construct (runNodesWith adjust (depth + 1) body) (runNodesWith adjust (depth + 1) otherwise) c
  | .unterminated line => fail line.unterminated

/-- Runs parts of a program one after the other, adjusting failures at every line. -/
def runNodesWith [Host σ] (adjust : Place → Failure → Failure) (depth : Nat) :
    List Node → Run σ Unit
  | [] => return ()
  | node :: rest => do
    runNodeWith adjust depth node
    runNodesWith adjust depth rest

end

variable [Host σ]

mutual

theorem runNodeWith_locate (depth : Nat) :
    ∀ node : Node, runNodeWith (σ := σ) Failure.locate depth node = runNode depth node
  | .statement place => rfl
  | .block place c body otherwise => by
    rw [runNodeWith, runNode, runNodesWith_locate, runNodesWith_locate]
    rfl
  | .unterminated line => rfl

/-- Programs locate the failures of their lines. -/
theorem runNodesWith_locate (depth : Nat) :
    ∀ nodes : List Node, runNodesWith (σ := σ) Failure.locate depth nodes = runNodes depth nodes
  | [] => rfl
  | node :: rest => by
    rw [runNodesWith, runNodes, runNodeWith_locate, runNodesWith_locate]

end

mutual

theorem alike_runNodeWith {adjust adjust' : Place → Failure → Failure}
    (hfault : ∀ place failure, (adjust place failure).fault = failure.fault)
    (hfault' : ∀ place failure, (adjust' place failure).fault = failure.fault) (depth : Nat) :
    ∀ node : Node, Alike (σ := σ) (runNodeWith adjust depth node) (runNodeWith adjust' depth node)
  | .statement place => by
    rw [runNodeWith, runNodeWith]
    exact (alike_adjusted hfault _ _).trans (alike_adjusted hfault' _ _).symm
  | .block place c body otherwise => by
    rw [runNodeWith, runNodeWith]
    refine (alike_adjusted hfault _ _).trans (Alike.trans ?_ (alike_adjusted hfault' _ _).symm)
    exact (Alike.refl _).bind fun _ =>
      alike_construct (alike_runNodesWith hfault hfault' (depth + 1) body)
        (alike_runNodesWith hfault hfault' (depth + 1) otherwise) c
  | .unterminated line => by
    rw [runNodeWith, runNodeWith]
    exact .refl _

/-- How failures are adjusted changes no outcome of a program. -/
theorem alike_runNodesWith {adjust adjust' : Place → Failure → Failure}
    (hfault : ∀ place failure, (adjust place failure).fault = failure.fault)
    (hfault' : ∀ place failure, (adjust' place failure).fault = failure.fault) (depth : Nat) :
    ∀ nodes : List Node,
      Alike (σ := σ) (runNodesWith adjust depth nodes) (runNodesWith adjust' depth nodes)
  | [] => by
    rw [runNodesWith, runNodesWith]
    exact .refl _
  | node :: rest => by
    rw [runNodesWith, runNodesWith]
    exact (alike_runNodeWith hfault hfault' depth node).bind fun _ =>
      alike_runNodesWith hfault hfault' depth rest

end

/-- Running a program with every failure located where it is raised. -/
theorem alike_pinned (depth : Nat) (nodes : List Node) :
    Alike (σ := σ) (runNodesWith Failure.pin depth nodes) (runNodes depth nodes) := by
  -- both adjustments keep faults, and the second is the one that programs make
  have h : Alike (σ := σ) (runNodesWith Failure.pin depth nodes)
      (runNodesWith Failure.locate depth nodes) :=
    alike_runNodesWith Failure.fault_pin Failure.fault_locate depth nodes
  rwa [runNodesWith_locate] at h

end Program

end Grimoire
