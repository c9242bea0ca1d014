import Grimoire.Operands
import Grimoire.Proofs.Blind.Libraries

/-!
# Evaluation is blind

In a scope that knows blind libraries only, no evaluation of a text can tell which time patterns
have been prepared: not as an expression, not as a condition and not as the body of a shape.
-/

namespace Grimoire

/-- The aliases of a scope stand for blind libraries. -/
def Scope.KnowsBlind (scope : Scope) : Prop :=
  ∀ summoned ∈ scope.aliases.values, summoned.library.Blind

namespace Eval

variable {α β : Type}

/-- A computation that is blind in every scope that knows blind libraries only. -/
def Blind (e : Eval α) : Prop :=
  ∀ scope : Scope, scope.KnowsBlind → Work.Blind (e.run scope)

/-! ## Steps -/

theorem blind_pure (a : α) : Blind (pure a) :=
  fun _ _ => Work.blind_pure a

theorem blind_fail (fault : Fault) : Blind (fail fault : Eval α) :=
  fun _ _ => Work.blind_throw fault

theorem blind_failType (fault : TypeFault) : Blind (failType fault : Eval α) :=
  blind_fail _

theorem blind_lift {w : Work α} (h : Work.Blind w) : Blind (liftM w) :=
  fun _ _ => h

theorem Blind.bind {e : Eval α} {f : α → Eval β} (h : Blind e) (hf : ∀ a, Blind (f a)) :
    Blind (e >>= f) := by
  intro scope hscope
  exact (h scope hscope).bind fun a => hf a scope hscope

theorem blind_read : Blind (read : Eval Scope) :=
  fun scope _ => Work.blind_pure scope

theorem blind_store : Blind (liftM Work.store : Eval Store) :=
  blind_lift Work.blind_store

theorem blind_newSequence (items : List Value) : Blind (liftM (Work.newSequence items)) :=
  blind_lift (Work.blind_newSequence items)

theorem blind_newTome (entries : Table Value) : Blind (liftM (Work.newTome entries)) :=
  blind_lift (Work.blind_newTome entries)

/-- A call of a library that the scope knows. -/
theorem run_callLibrary (name function : Text) (args : List Value) (scope : Scope) :
    (callLibrary name function args).run scope =
      (match scope.aliases.get? name with
        | some summoned => liftM (summoned.library.call function args)
        | none => fail (.unknownModule name) : Eval Value).run scope := rfl

theorem blind_callLibrary (name function : Text) (args : List Value) :
    Blind (callLibrary name function args) := by
  intro scope hscope
  rw [run_callLibrary]
  cases hfound : scope.aliases.get? name with
  | none => exact Work.blind_throw _
  | some summoned =>
    have hblind := hscope summoned (Table.mem_values_of_get? hfound)
    exact hblind.call function args

/-- A frame brings in no library. -/
theorem Blind.enter {e : Eval α} (h : Blind e) (frame : Table Value) :
    Blind (withReader (fun scope : Scope => scope.enter frame) e) :=
  fun scope hscope => h (scope.enter frame) hscope

end Eval

/-! ## Expressions -/

namespace Expr

open Eval

mutual

theorem blind_eval : ∀ e : Expr, Eval.Blind e.eval
  | .text _ | .boolean _ | .number _ | .shape _ => blind_pure _
  | .malformed _ => blind_fail _
  | .path root steps => by
    rw [eval]
    exact blind_read.bind fun _ => blind_store.bind fun _ => blind_pure _
  | .sequence items => by
    rw [eval]
    exact (blind_evalAll items).bind fun values => blind_newSequence values
  | .tome entries => by
    rw [eval]
    exact (blind_evalEntries entries).bind fun values => blind_newTome _
  | .invoke name function args => by
    rw [eval]
    exact (blind_evalAll args).bind fun values => blind_callLibrary name function values
  | .binary left op right => by
    rw [eval]
    apply (blind_eval left).bind
    intro a
    apply (blind_eval right).bind
    intro b
    exact blind_store.bind fun _ => blind_pure _

theorem blind_evalAll : ∀ es : List Expr, Eval.Blind (evalAll es)
  | [] => blind_pure _
  | e :: rest => by
    rw [evalAll]
    apply (blind_eval e).bind
    intro v
    exact (blind_evalAll rest).bind fun _ => blind_pure _

theorem blind_evalEntries : ∀ es : List (Text × Expr), Eval.Blind (evalEntries es)
  | [] => blind_pure _
  | (key, e) :: rest => by
    rw [evalEntries]
    apply (blind_eval e).bind
    intro v
    exact (blind_evalEntries rest).bind fun _ => blind_pure _

end

end Expr

/-! ## Texts as values, conditions and shape bodies -/

namespace Eval

theorem blind_value (s : Text) : Blind (value s) :=
  Expr.blind_eval (Expr.ofText s)

theorem blind_values (s : Text) : Blind (values s) :=
  Expr.blind_evalAll (Expr.listOfText s)

theorem blind_number (s : Text) : Blind (number s) :=
  (blind_value s).bind fun v => blind_lift (Work.blind_toNumber v)

theorem blind_display (s : Text) : Blind (display s) :=
  (blind_value s).bind fun v => blind_lift (Work.blind_display v)

theorem blind_test (p : Phrase) (left right : Text) : Blind (Condition.test p left right) := by
  cases p with
  | greater | less | atLeast | atMost =>
    exact (blind_number left).bind fun _ => (blind_number right).bind fun _ => blind_pure _
  | differs | same =>
    exact (blind_display left).bind fun _ => (blind_display right).bind fun _ => blind_pure _
  | begins | ends => exact (blind_display left).bind fun _ => blind_pure _
  | contains | holdsKey =>
    apply (blind_value left).bind
    intro v
    apply (blind_value right).bind
    intro w
    exact blind_store.bind fun _ => blind_pure _

theorem blind_holds (s : Text) : Blind (holds s) := by
  unfold holds
  cases Condition.ofText s with
  | phrase p left right => exact blind_test p left right
  | word b => exact blind_pure b
  | value s => exact (blind_value s).bind fun _ => blind_store.bind fun _ => blind_pure _

theorem blind_shapeBody (body : Text) : Blind (shapeBody body) := by
  unfold shapeBody
  split
  · exact (blind_holds body).bind fun _ => blind_pure _
  · exact blind_value body

theorem blind_callShape (shape : Shape) (args : List Value) : Blind (callShape shape args) :=
  (blind_shapeBody shape.body).enter (frameOf shape.parameters args)

/-! ## Operands -/

theorem blind_itemsOf (user : String) (v : Value) : Blind (itemsOf user v) :=
  blind_lift (Work.blind_elements user.toList v)

theorem blind_entriesOf (user : String) (v : Value) : Blind (entriesOf user v) := by
  cases v with
  | tome cell => exact blind_store.bind fun _ => blind_pure _
  | _ => exact blind_failType _

theorem blind_shapeOf (user : String) (v : Value) : Blind (shapeOf user v) := by
  cases v with
  | shape s => exact blind_pure s
  | _ => exact blind_failType _

end Eval

namespace Groups

open Eval

variable (g : Groups) (slot : Nat)

theorem blind_value : Eval.Blind (g.value slot) :=
  Eval.blind_value (g.text slot)

theorem blind_number : Eval.Blind (g.number slot) :=
  Eval.blind_number (g.text slot)

theorem blind_display : Eval.Blind (g.display slot) :=
  Eval.blind_display (g.text slot)

theorem blind_integer : Eval.Blind (g.integer slot) :=
  (g.blind_value slot).bind fun v => blind_lift (Work.blind_toInt v)

theorem blind_items (user : String) : Eval.Blind (g.items slot user) :=
  (g.blind_value slot).bind fun v => blind_itemsOf user v

theorem blind_entries (user : String) : Eval.Blind (g.entries slot user) :=
  (g.blind_value slot).bind fun v => blind_entriesOf user v

theorem blind_date : Eval.Blind (g.date slot) :=
  (g.blind_value slot).bind fun v => blind_lift (Work.blind_toTimestamp v)

theorem blind_ifPresent {α : Type} {take : Groups → Nat → Eval α} (h : Eval.Blind (take g slot)) :
    Eval.Blind (g.ifPresent slot take) := by
  unfold ifPresent
  split
  · exact blind_pure _
  · exact h.bind fun _ => blind_pure _

end Groups

end Grimoire
