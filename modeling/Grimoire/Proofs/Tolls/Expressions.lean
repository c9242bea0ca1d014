import Grimoire.Operands
import Grimoire.Proofs.Blind.Expressions
import Grimoire.Proofs.Tolls.Libraries

/-!
# What evaluation takes of the random stream

An expression takes what its parts take, from left to right, and then what the library functions
take that it calls. Operands are evaluated one after the other, and the next one is evaluated only
if the value of the last is of the kind that is wanted; so conditions, shapes and operands of
statements take what the expressions take that are evaluated on the way.
-/

namespace Grimoire

/-! ## Tariffs -/

/-- What is due for a computation, by its scope and the resources. -/
abbrev Tariff := Scope → Resources → List Toll

/-- The aliases of a scope stand for standard libraries. -/
def Scope.KnowsStandard (scope : Scope) : Prop :=
  ∀ summoned ∈ scope.aliases.values, summoned.library ∈ Library.standard

namespace Tariff

variable {α : Type}

/-- Nothing is due. -/
def free : Tariff :=
  fun _ _ => []

/-- What is due for a computation, and if it comes to a result for what follows. -/
def andThen (t : Tariff) (e : Eval α) (following : α → Tariff) : Tariff := fun scope r =>
  t scope r ++ dueAfter (e.run scope) (fun a => following a scope) r

end Tariff

namespace Eval

variable {α β : Type} {t : Tariff}

/-- In scopes that know standard libraries, the computation takes what is due. -/
def Pays (e : Eval α) (t : Tariff) : Prop :=
  ∀ scope : Scope, scope.KnowsStandard → ∀ r, Work.Pays r (e.run scope) (t scope r)

theorem Pays.bind {e : Eval α} {f : α → Eval β} {following : α → Tariff} (h : Pays e t)
    (hf : ∀ a, Pays (f a) (following a)) : Pays (e >>= f) (t.andThen e following) := by
  intro scope hscope r
  exact (h scope hscope r).bind fun a r' => hf a scope hscope r'

/-- What is due in the scope of a call is due outside. -/
theorem Pays.enter {e : Eval α} (h : Pays e t) (frame : Table Value) :
    Pays (withReader (fun scope : Scope => scope.enter frame) e)
      fun scope r => t (scope.enter frame) r :=
  fun scope hscope r => h (scope.enter frame) hscope r

/-! ## Computations that take nothing -/

/-- The computation leaves the random stream where it is, in every scope. -/
def Still (e : Eval α) : Prop :=
  ∀ scope, Work.Still (e.run scope)

theorem Still.pays {e : Eval α} (h : Still e) : Pays e .free :=
  fun scope _ r => (h scope).pays r

theorem still_pure (a : α) : Still (pure a) :=
  fun _ => Work.still_pure a

theorem still_fail (fault : Fault) : Still (fail fault : Eval α) :=
  fun _ => Work.still_throw fault

theorem still_lift {w : Work α} (h : Work.Still w) : Still (liftM w : Eval α) :=
  fun _ => h

theorem still_read : Still (read : Eval Scope) :=
  fun scope => Work.still_pure scope

theorem still_store : Still (liftM Work.store : Eval Store) :=
  still_lift Work.still_store

theorem Still.bind {e : Eval α} {f : α → Eval β} (h : Still e) (hf : ∀ a, Still (f a)) :
    Still (e >>= f) :=
  fun scope => (h scope).bind fun a => hf a scope

/-- What takes nothing may follow. -/
theorem Pays.bind_still {e : Eval α} {f : α → Eval β} (h : Pays e t) (hf : ∀ a, Still (f a)) :
    Pays (e >>= f) t := by
  intro scope hscope r
  have hpays := (h scope hscope r).bind fun a => (hf a scope).pays
  rwa [dueAfter_nothing, List.append_nil] at hpays

/-- The computation only reads the scope and the resources. -/
def Reads (e : Eval α) : Prop :=
  ∀ scope r, ∃ a, (e.run scope).run.run r = (.ok a, r)

/-- What only reads may go before. -/
theorem Reads.pays_bind {e : Eval α} {f : α → Eval β} (h : Reads e) (hf : ∀ a, Pays (f a) t) :
    Pays (e >>= f) t := by
  intro scope hscope r
  obtain ⟨a, ha⟩ := h scope r
  have hrun : ((e >>= f).run scope).run.run r = ((f a).run scope).run.run r := by
    have hbind := run_bind (e.run scope) (fun a => (f a).run scope) r
    rwa [ha] at hbind
  unfold Work.Pays
  rw [hrun]
  exact hf a scope hscope r

theorem reads_store : Reads (liftM Work.store : Eval Store) :=
  fun _ r => ⟨r.store, rfl⟩

end Eval

/-! ## Expressions -/

namespace Tariff

/-- What is due for a call through an alias. -/
def callLibrary (name function : Text) (args : List Value) : Tariff := fun scope r =>
  match scope.aliases.get? name with
  | some summoned => summoned.library.due function args r
  | none => []

mutual

/-- What is due for an expression. -/
def expr : Expr → Tariff
  | .sequence items => exprs items
  | .tome entries => members entries
  | .invoke name function args =>
    (exprs args).andThen (Expr.evalAll args) (callLibrary name function)
  | .binary left _ right => (expr left).andThen left.eval fun _ => expr right
  | _ => free

/-- What is due for several expressions. -/
def exprs : List Expr → Tariff
  | [] => free
  | e :: rest => (expr e).andThen e.eval fun _ => exprs rest

/-- What is due for the entries of a tome. -/
def members : List (Text × Expr) → Tariff
  | [] => free
  | (_, e) :: rest => (expr e).andThen e.eval fun _ => members rest

end

/-- What is due for the value that a text denotes. -/
def value (s : Text) : Tariff :=
  expr (Expr.ofText s)

end Tariff

namespace Eval

theorem pays_callLibrary (name function : Text) (args : List Value) :
    Pays (callLibrary name function args) (.callLibrary name function args) := by
  intro scope hscope r
  rw [run_callLibrary, Tariff.callLibrary]
  cases hfound : scope.aliases.get? name with
  | none => rfl
  | some summoned =>
    exact Library.pays_call args (hscope summoned (Table.mem_values_of_get? hfound)) function r

mutual

theorem pays_eval : ∀ e : Expr, Pays e.eval (.expr e)
  | .text _ | .boolean _ | .number _ | .shape _ | .malformed _ => fun _ _ _ => rfl
  | .path root steps => fun _ _ _ => rfl
  | .sequence items => by
    rw [Expr.eval, Tariff.expr]
    exact (pays_evalAll items).bind_still fun values => still_lift (Work.still_newSequence values)
  | .tome entries => by
    rw [Expr.eval, Tariff.expr]
    exact (pays_evalEntries entries).bind_still fun _ => still_lift (Work.still_newTome _)
  | .invoke name function args => by
    rw [Expr.eval, Tariff.expr]
    exact (pays_evalAll args).bind fun values => pays_callLibrary name function values
  | .binary left op right => by
    rw [Expr.eval, Tariff.expr]
    apply (pays_eval left).bind
    intro a
    exact (pays_eval right).bind_still fun b => still_store.bind fun _ => still_pure _

theorem pays_evalAll : ∀ es : List Expr, Pays (Expr.evalAll es) (.exprs es)
  | [] => fun _ _ _ => rfl
  | e :: rest => by
    rw [Expr.evalAll, Tariff.exprs]
    apply (pays_eval e).bind
    intro v
    exact (pays_evalAll rest).bind_still fun _ => still_pure _

theorem pays_evalEntries : ∀ es : List (Text × Expr), Pays (Expr.evalEntries es) (.members es)
  | [] => fun _ _ _ => rfl
  | (key, e) :: rest => by
    rw [Expr.evalEntries, Tariff.members]
    apply (pays_eval e).bind
    intro v
    exact (pays_evalEntries rest).bind_still fun _ => still_pure _

end

/-- The value that a text denotes takes what is due. -/
theorem pays_value (s : Text) : Pays (value s) (.value s) :=
  pays_eval (Expr.ofText s)

end Eval

/-! ## Operands -/

/-- The timestamp that a value stands for. -/
def Value.timestamp? : Value → Option Timestamp
  | .timestamp t => some t
  | .number x => if x.isFinite then Timestamp.ofEpochSeconds? x.floorInt else none
  | .string text => DateText.read? text.trim
  | _ => none

/-- What an operand is evaluated for. -/
inductive Demand where
  | any
  | array
  | tome
  | shape
  | date
  deriving DecidableEq, Repr

/-- What is taken of the value of an operand. -/
inductive Argument where
  | value (v : Value)
  | items (items : List Value)
  | entries (entries : Table Value)
  | shape (s : Shape)
  | date (t : Timestamp)

/-- What is taken of a value, if it is of the kind that is wanted. -/
def Demand.take? (s : Store) : Demand → Value → Option Argument
  | any, v => some (.value v)
  | array, .sequence cell => some (.items (s.items cell))
  | tome, .tome cell => some (.entries (s.entries cell))
  | shape, .shape body => some (.shape body)
  | date, v => v.timestamp?.map .date
  | _, _ => none

/-- A text that is evaluated, with what it is evaluated for. -/
structure Input where
  text : Text
  demand : Demand

namespace Groups

/-- An operand. -/
def input (g : Groups) (demand : Demand) (slot : Nat) : Input :=
  ⟨g.text slot, demand⟩

/-- An operand that may be left out. -/
def optional (g : Groups) (slot : Nat) : List Input :=
  if (g.get? slot).isSome then [g.input .any slot] else []

end Groups

namespace Tariff

/-- What is due for operands one after the other and then for what is done with them. -/
def inputs : List Input → (List Argument → Tariff) → Tariff
  | [], following => following []
  | input :: rest, following =>
    (value input.text).andThen (Eval.value input.text) fun v scope r =>
      match input.demand.take? r.store v with
      | some argument => inputs rest (fun args => following (argument :: args)) scope r
      | none => []

end Tariff

namespace Eval

variable {α β : Type} {t : Tariff} {rest : List Input} {following : List Argument → Tariff}

/-- The step takes of every value what is demanded, and fails if that is not there. It changes
nothing. -/
def Takes (take : Value → Eval β) (demand : Demand) (as : β → Argument → Prop) : Prop :=
  ∀ v scope r, match demand.take? r.store v with
    | some argument => ∃ b, ((take v).run scope).run.run r = (.ok b, r) ∧ as b argument
    | none => ∃ fault, ((take v).run scope).run.run r = (.error fault, r)

theorem Takes.pays_bind {take : Value → Eval β} {demand : Demand} {as : β → Argument → Prop}
    (h : Takes take demand as) {text : Text} {f : β → Eval α}
    (hf : ∀ b argument, as b argument →
      Pays (f b) (.inputs rest fun args => following (argument :: args))) :
    Pays (value text >>= fun v => take v >>= f) (.inputs (⟨text, demand⟩ :: rest) following) := by
  apply (pays_value text).bind
  intro v scope hscope r
  have htake := h v scope r
  have hrun : ((take v >>= f).run scope).run.run r = _ :=
    run_bind ((take v).run scope) (fun b => (f b).run scope) r
  unfold Work.Pays
  rw [hrun]
  dsimp only
  -- the step looks at the store that the evaluation of the text has left
  cases hargument : demand.take? r.store v with
  | none =>
    rw [hargument] at htake
    obtain ⟨fault, hfault⟩ := htake
    rw [hfault]
    rfl
  | some argument =>
    rw [hargument] at htake
    obtain ⟨b, hb, has⟩ := htake
    rw [hb]
    exact hf b argument has scope hscope r

/-! ### One operand after the other -/

theorem pays_value_bind {text : Text} {f : Value → Eval α}
    (hf : ∀ v, Pays (f v) (.inputs rest fun args => following (.value v :: args))) :
    Pays (value text >>= f) (.inputs (⟨text, .any⟩ :: rest) following) := by
  have htakes : Takes pure .any fun v argument => argument = .value v := by
    intro v scope r
    exact ⟨v, rfl, rfl⟩
  show Pays (value text >>= fun v => pure v >>= f) _
  apply htakes.pays_bind
  rintro v _ rfl
  exact hf v

/-- What only reads the value of an operand is evaluated for any. -/
theorem Reads.pays_value_bind {take : Value → Eval β} (htake : ∀ v, Reads (take v)) {text : Text}
    {f : β → Eval α}
    (hf : ∀ b v, Pays (f b) (.inputs rest fun args => following (.value v :: args))) :
    Pays ((value text >>= take) >>= f) (.inputs (⟨text, .any⟩ :: rest) following) := by
  rw [bind_assoc]
  exact Eval.pays_value_bind fun v => (htake v).pays_bind fun b => hf b v

theorem reads_display (v : Value) : Reads (liftM (Work.display v) : Eval Text) :=
  fun _ r => ⟨r.store.display v, rfl⟩

theorem reads_toNumber (v : Value) : Reads (liftM (Work.toNumber v) : Eval Number) :=
  fun _ r => ⟨r.store.toNumber v, rfl⟩

theorem reads_toInt (v : Value) : Reads (liftM (Work.toInt v) : Eval Int) :=
  fun _ r => ⟨r.store.toInt v, rfl⟩

theorem takes_itemsOf (user : String) :
    Takes (itemsOf user) .array fun items argument => argument = .items items := by
  intro v scope r
  cases v with
  | sequence cell => exact ⟨_, rfl, rfl⟩
  | _ => exact ⟨_, rfl⟩

theorem takes_entriesOf (user : String) :
    Takes (entriesOf user) .tome fun entries argument => argument = .entries entries := by
  intro v scope r
  cases v with
  | tome cell => exact ⟨_, rfl, rfl⟩
  | _ => exact ⟨_, rfl⟩

theorem takes_shapeOf (user : String) :
    Takes (shapeOf user) .shape fun s argument => argument = .shape s := by
  intro v scope r
  cases v with
  | shape s => exact ⟨_, rfl, rfl⟩
  | _ => exact ⟨_, rfl⟩

theorem takes_toTimestamp :
    Takes (fun v => liftM (Work.toTimestamp v)) .date fun t argument => argument = .date t := by
  intro v scope r
  show match v.timestamp?.map Argument.date with
    | some argument => ∃ t, (Work.toTimestamp v).run.run r = (.ok t, r) ∧ argument = .date t
    | none => ∃ fault, (Work.toTimestamp v).run.run r = (.error fault, r)
  cases v with
  | timestamp t => exact ⟨t, rfl, rfl⟩
  | number x =>
    rw [Value.timestamp?, Work.toTimestamp]
    cases x.isFinite with
    | false => exact ⟨_, rfl⟩
    | true =>
      cases Timestamp.ofEpochSeconds? x.floorInt with
      | none => exact ⟨_, rfl⟩
      | some t => exact ⟨t, rfl, rfl⟩
  | string text =>
    rw [Value.timestamp?, Work.toTimestamp]
    cases DateText.read? text.trim with
    | none => exact ⟨_, rfl⟩
    | some t => exact ⟨t, rfl, rfl⟩
  | _ => exact ⟨_, rfl⟩

end Eval

namespace Groups

open Eval

variable {α : Type} {rest : List Input} {following : List Argument → Tariff} (g : Groups)
  (slot : Nat)

theorem pays_value {f : Value → Eval α}
    (hf : ∀ v, Pays (f v) (.inputs rest fun args => following (.value v :: args))) :
    Pays (g.value slot >>= f) (.inputs (g.input .any slot :: rest) following) :=
  pays_value_bind hf

theorem pays_display {f : Text → Eval α}
    (hf : ∀ text v, Pays (f text) (.inputs rest fun args => following (.value v :: args))) :
    Pays (g.display slot >>= f) (.inputs (g.input .any slot :: rest) following) :=
  Reads.pays_value_bind reads_display hf

theorem pays_number {f : Number → Eval α}
    (hf : ∀ x v, Pays (f x) (.inputs rest fun args => following (.value v :: args))) :
    Pays (g.number slot >>= f) (.inputs (g.input .any slot :: rest) following) :=
  Reads.pays_value_bind reads_toNumber hf

theorem pays_integer {f : Int → Eval α}
    (hf : ∀ x v, Pays (f x) (.inputs rest fun args => following (.value v :: args))) :
    Pays (g.integer slot >>= f) (.inputs (g.input .any slot :: rest) following) :=
  Reads.pays_value_bind reads_toInt hf

theorem pays_items {user : String} {f : List Value → Eval α}
    (hf : ∀ items, Pays (f items) (.inputs rest fun args => following (.items items :: args))) :
    Pays (g.items slot user >>= f) (.inputs (g.input .array slot :: rest) following) := by
  unfold items
  rw [bind_assoc]
  apply (takes_itemsOf user).pays_bind
  rintro items _ rfl
  exact hf items

theorem pays_entries {user : String} {f : Table Value → Eval α}
    (hf : ∀ entries,
      Pays (f entries) (.inputs rest fun args => following (.entries entries :: args))) :
    Pays (g.entries slot user >>= f) (.inputs (g.input .tome slot :: rest) following) := by
  unfold entries
  rw [bind_assoc]
  apply (takes_entriesOf user).pays_bind
  rintro entries _ rfl
  exact hf entries

theorem pays_date {f : Timestamp → Eval α}
    (hf : ∀ t, Pays (f t) (.inputs rest fun args => following (.date t :: args))) :
    Pays (g.date slot >>= f) (.inputs (g.input .date slot :: rest) following) := by
  unfold date
  rw [bind_assoc]
  apply takes_toTimestamp.pays_bind
  rintro t _ rfl
  exact hf t

/-- An operand that may be left out takes nothing then. -/
theorem pays_ifPresent {β : Type} {take : Value → Eval β} (htake : ∀ v, Reads (take v))
    {f : Option β → Eval α} (hf : ∀ b args, Pays (f b) (following args)) :
    Pays (g.ifPresent slot (fun g slot => g.value slot >>= take) >>= f)
      (.inputs (g.optional slot) following) := by
  unfold ifPresent optional
  cases g.get? slot with
  | none => exact hf none []
  | some text =>
    show Pays (((Eval.value (g.text slot) >>= take) >>= fun b => pure (some b)) >>= f) _
    rw [bind_assoc]
    apply Reads.pays_value_bind htake
    intro b v
    exact hf (some b) [.value v]

end Groups

/-! ## Conditions and shapes -/

/-- The operands that a condition evaluates. -/
def Condition.inputs : Condition → List Input
  | phrase .begins left _ | phrase .ends left _ => [⟨left, .any⟩]
  | phrase _ left right => [⟨left, .any⟩, ⟨right, .any⟩]
  | word _ => []
  | value s => [⟨s, .any⟩]

namespace Tariff

/-- What is due for a condition. -/
def holds (s : Text) : Tariff :=
  inputs (Condition.ofText s).inputs fun _ => free

/-- What is due for the body of a shape. -/
def shapeBody (body : Text) : Tariff :=
  if Condition.isComparison body then holds body else value body

/-- What is due for a call of a shape. -/
def callShape (s : Shape) (args : List Value) : Tariff := fun scope r =>
  shapeBody s.body (scope.enter (Eval.frameOf s.parameters args)) r

end Tariff

namespace Eval

theorem pays_test (p : Phrase) (left right : Text) :
    Pays (Condition.test p left right)
      (.inputs (Condition.phrase p left right).inputs fun _ => .free) := by
  cases p with
  | greater | less | atLeast | atMost =>
    refine Reads.pays_value_bind reads_toNumber fun x _ => ?_
    exact Reads.pays_value_bind reads_toNumber fun y _ => (still_pure _).pays
  | differs | same =>
    refine Reads.pays_value_bind reads_display fun x _ => ?_
    exact Reads.pays_value_bind reads_display fun y _ => (still_pure _).pays
  | begins | ends => exact Reads.pays_value_bind reads_display fun x _ => (still_pure _).pays
  | contains | holdsKey =>
    refine pays_value_bind fun v => ?_
    exact pays_value_bind fun w => (still_store.bind fun _ => still_pure _).pays

/-- A condition takes what is due. -/
theorem pays_holds (s : Text) : Pays (holds s) (.holds s) := by
  unfold holds Tariff.holds
  cases Condition.ofText s with
  | phrase p left right => exact pays_test p left right
  | word b => exact (still_pure b).pays
  | value s => exact pays_value_bind fun v => (still_store.bind fun _ => still_pure _).pays

theorem pays_shapeBody (body : Text) : Pays (shapeBody body) (.shapeBody body) := by
  unfold shapeBody Tariff.shapeBody
  split
  · exact (pays_holds body).bind_still fun _ => still_pure _
  · exact pays_value body

theorem pays_callShape (s : Shape) (args : List Value) :
    Pays (callShape s args) (.callShape s args) :=
  (pays_shapeBody s.body).enter (frameOf s.parameters args)

end Eval

end Grimoire
