import Grimoire.Proofs.Runs
import Grimoire.Proofs.Tables

/-!
# Parameters as global names

A call of a shape puts a frame before the global names, and the frame hides the frames of the calls
around it. Evaluation looks at a scope only through what its names stand for. So a call comes to
what its body comes to where the parameters are global names and no call is in progress.
-/

namespace Grimoire

/-! ## Tables with parameters -/

namespace Table

variable {t : Table Value} {parameters : List Text} {args : List Value} {name : Text}

/-- Binds parameters to arguments; a parameter without an argument is undefined. -/
def bound (t : Table Value) : List Text → List Value → Table Value
  | [], _ => t
  | parameter :: rest, args => (t.insert parameter (args.headD .undefined)).bound rest args.tail

theorem bound_eq_foldl (t : Table Value) (parameters : List Text) (args : List Value) :
    t.bound parameters args =
      (parameters.zip (args ++ List.replicate (parameters.length - args.length) .undefined)).foldl
        (fun t entry => t.insert entry.1 entry.2) t := by
  induction parameters generalizing t args with
  | nil => rfl
  | cons parameter rest ih =>
    rw [bound, ih]
    cases args with
    | nil => rfl
    | cons arg args =>
      rw [List.length_cons, List.length_cons, Nat.add_sub_add_right]
      rfl

/-- A frame is a table with nothing but the parameters. -/
theorem frameOf_eq_bound (parameters : List Text) (args : List Value) :
    Eval.frameOf parameters args = empty.bound parameters args :=
  (bound_eq_foldl empty parameters args).symm

/-- Names that are no parameters keep what is under them. -/
theorem get?_bound_of_not_mem (h : name ∉ parameters) :
    (t.bound parameters args).get? name = t.get? name := by
  induction parameters generalizing t args with
  | nil => rfl
  | cons parameter rest ih =>
    rw [List.mem_cons, not_or] at h
    rw [bound, ih h.2, get?_insert, if_neg h.1]

/-- Under a parameter is the argument at its place. -/
theorem get?_bound_of_getElem? (hparameters : parameters.Nodup) {i : Nat}
    (h : parameters[i]? = some name) :
    (t.bound parameters args).get? name = some (args[i]?.getD .undefined) := by
  induction parameters generalizing t args i with
  | nil => cases h
  | cons parameter rest ih =>
    rw [List.nodup_cons] at hparameters
    rw [bound]
    cases i with
    | zero =>
      obtain rfl : parameter = name := Option.some.inj h
      rw [get?_bound_of_not_mem hparameters.1, get?_insert, if_pos rfl]
      cases args <;> rfl
    | succ i =>
      rw [ih hparameters.2 h]
      cases args <;> rfl

/-- What a frame holds comes before what was there. -/
theorem get?_bound (t : Table Value) (parameters : List Text) (args : List Value) (name : Text) :
    (t.bound parameters args).get? name =
      ((empty.bound parameters args).get? name <|> t.get? name) := by
  induction parameters generalizing t args with
  | nil => rfl
  | cons parameter rest ih =>
    rw [bound, bound, ih, ih (empty.insert _ _), get?_insert, get?_insert]
    cases (empty.bound rest args.tail).get? name with
    | some v => rfl
    | none =>
      by_cases h : name = parameter
      · rw [if_pos h, if_pos h]
        rfl
      · rw [if_neg h, if_neg h]
        rfl

end Table

/-! ## Scopes with parameters -/

namespace Scope

variable {scope scope' : Scope}

/-- The scope in which parameters are global names and no call is in progress. -/
def extended (scope : Scope) (parameters : List Text) (args : List Value) : Scope :=
  { scope with globals := scope.globals.bound parameters args, frames := [] }

/-- In two scopes names stand for the same. -/
structure Alike (scope scope' : Scope) : Prop where
  lookup? : ∀ name, scope.lookup? name = scope'.lookup? name
  aliases : scope.aliases = scope'.aliases

/-- Inside a call names stand for what they stand for where the parameters are global. -/
theorem alike_extended (scope : Scope) (parameters : List Text) (args : List Value) :
    (scope.enter (Eval.frameOf parameters args)).Alike (scope.extended parameters args) where
  lookup? name := by
    rw [Table.frameOf_eq_bound]
    exact (Table.get?_bound scope.globals parameters args name).symm
  aliases := rfl

theorem Alike.follow (h : scope.Alike scope') (s : Store) (root : Text) (steps : List Text) :
    scope.follow s root steps = scope'.follow s root steps := by
  unfold Scope.follow
  rw [h.lookup?, h.aliases]

end Scope

/-! ## What evaluation looks at -/

namespace Eval

variable {α β : Type}

/-- A computation that looks at a scope only through what the names stand for. -/
def ReadsNames (e : Eval α) : Prop :=
  ∀ scope scope' : Scope, scope.Alike scope' → e.run scope = e.run scope'

theorem readsNames_pure (a : α) : ReadsNames (pure a) :=
  fun _ _ _ => rfl

theorem readsNames_fail (fault : Fault) : ReadsNames (fail fault : Eval α) :=
  fun _ _ _ => rfl

theorem readsNames_lift (w : Work α) : ReadsNames (liftM w) :=
  fun _ _ _ => rfl

theorem ReadsNames.bind {e : Eval α} {f : α → Eval β} (h : ReadsNames e)
    (hf : ∀ a, ReadsNames (f a)) : ReadsNames (e >>= f) := by
  intro scope scope' halike
  have hsame : ∀ a, (f a).run scope = (f a).run scope' := fun a => hf a scope scope' halike
  rw [ReaderT.run_bind, ReaderT.run_bind, h scope scope' halike]
  exact congrArg _ (funext hsame)

theorem run_read_bind (f : Scope → Eval β) (scope : Scope) :
    (read >>= f).run scope = (f scope).run scope :=
  rfl

theorem readsNames_follow (root : Text) (steps : List Text) :
    ReadsNames (do return (← read).follow (← Work.store) root steps) := by
  intro scope scope' halike
  rw [run_read_bind, run_read_bind]
  simp only [halike.follow]
  rfl

theorem readsNames_callLibrary (name function : Text) (args : List Value) :
    ReadsNames (callLibrary name function args) := by
  intro scope scope' halike
  rw [callLibrary, run_read_bind, run_read_bind, halike.aliases]
  cases scope'.aliases.get? name <;> rfl

end Eval

namespace Expr

open Eval

mutual

theorem readsNames_eval : ∀ e : Expr, ReadsNames e.eval
  | .text _ | .boolean _ | .number _ | .shape _ => readsNames_pure _
  | .malformed _ => readsNames_fail _
  | .path root steps => by
    rw [eval]
    exact readsNames_follow root steps
  | .sequence items => by
    rw [eval]
    exact (readsNames_evalAll items).bind fun values => readsNames_lift _
  | .tome entries => by
    rw [eval]
    exact (readsNames_evalEntries entries).bind fun values => readsNames_lift _
  | .invoke name function args => by
    rw [eval]
    exact (readsNames_evalAll args).bind fun values => readsNames_callLibrary name function values
  | .binary left op right => by
    rw [eval]
    apply (readsNames_eval left).bind
    intro a
    apply (readsNames_eval right).bind
    intro b
    exact (readsNames_lift Work.store).bind fun _ => readsNames_pure _

theorem readsNames_evalAll : ∀ es : List Expr, ReadsNames (evalAll es)
  | [] => readsNames_pure _
  | e :: rest => by
    rw [evalAll]
    apply (readsNames_eval e).bind
    intro v
    exact (readsNames_evalAll rest).bind fun _ => readsNames_pure _

theorem readsNames_evalEntries : ∀ es : List (Text × Expr), ReadsNames (evalEntries es)
  | [] => readsNames_pure _
  | (key, e) :: rest => by
    rw [evalEntries]
    apply (readsNames_eval e).bind
    intro v
    exact (readsNames_evalEntries rest).bind fun _ => readsNames_pure _

end

end Expr

namespace Eval

theorem readsNames_value (s : Text) : ReadsNames (value s) :=
  Expr.readsNames_eval (Expr.ofText s)

theorem readsNames_number (s : Text) : ReadsNames (number s) :=
  (readsNames_value s).bind fun _ => readsNames_lift _

theorem readsNames_display (s : Text) : ReadsNames (display s) :=
  (readsNames_value s).bind fun _ => readsNames_lift _

theorem readsNames_test (p : Phrase) (left right : Text) :
    ReadsNames (Condition.test p left right) := by
  cases p with
  | greater | less | atLeast | atMost =>
    exact (readsNames_number left).bind fun _ =>
      (readsNames_number right).bind fun _ => readsNames_pure _
  | differs | same =>
    exact (readsNames_display left).bind fun _ =>
      (readsNames_display right).bind fun _ => readsNames_pure _
  | begins | ends => exact (readsNames_display left).bind fun _ => readsNames_pure _
  | contains | holdsKey =>
    apply (readsNames_value left).bind
    intro v
    apply (readsNames_value right).bind
    intro w
    exact (readsNames_lift Work.store).bind fun _ => readsNames_pure _

theorem readsNames_holds (s : Text) : ReadsNames (holds s) := by
  unfold holds
  cases Condition.ofText s with
  | phrase p left right => exact readsNames_test p left right
  | word b => exact readsNames_pure b
  | value s =>
    exact (readsNames_value s).bind fun _ =>
      (readsNames_lift Work.store).bind fun _ => readsNames_pure _

theorem readsNames_shapeBody (body : Text) : ReadsNames (shapeBody body) := by
  unfold shapeBody
  split
  · exact (readsNames_holds body).bind fun _ => readsNames_pure _
  · exact readsNames_value body

/-- A call is the evaluation of the body where the parameters are global names. -/
theorem run_callShape (s : Shape) (args : List Value) (scope : Scope) :
    (callShape s args).run scope = (shapeBody s.body).run (scope.extended s.parameters args) :=
  readsNames_shapeBody s.body _ _ (scope.alike_extended s.parameters args)

end Eval

/-! ## Runs -/

namespace Run

variable {σ : Type}

/-- The body of a shape evaluated where the parameters are global names. Afterwards the names are
what they were before. -/
def applied (s : Shape) (args : List Value) : Run σ Value := fun m =>
  let (outcome, m') := (evaluate (Eval.shapeBody s.body)).run.run
    (m.withScope (m.scope.extended s.parameters args))
  (outcome, m'.withScope m.scope)

theorem evaluate_callShape (s : Shape) (args : List Value) :
    (evaluate (Eval.callShape s args) : Run σ Value) = applied s args := by
  refine ExceptT.ext (StateT.ext fun m => ?_)
  rw [run_evaluate, Eval.run_callShape]
  rfl

end Run

end Grimoire
