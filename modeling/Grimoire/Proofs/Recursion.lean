import Grimoire.Proofs.Descent
import Grimoire.Proofs.Evaluation

/-!
# The recursion of evaluation

What evaluation does at one text, one condition and one call of a shape is written down here with
the evaluation of parts, operands and bodies left open. With evaluation itself put in for these, it
is evaluation. With calls put in that are kept on a stack, which has room for so many of them and is
written down whenever it grows, it is evaluation with a record of all its calls. Such evaluation
ends if there is room for two calls more than the text has characters, and it comes to the same as
evaluation without a record.
-/

namespace Grimoire

/-! ## One step of evaluation -/

section Steps

variable {m : Type → Type} [Monad m] [MonadLiftT Eval m] (evaluate : Text → m Value)

/-- The value of a layer. Its parts are evaluated from left to right. -/
def Layer.valueBy : Layer → m Value
  | text body => return .string body
  | boolean b => return .boolean b
  | number x => return .number x
  | sequence pieces => do
    let items ← pieces.mapM evaluate
    liftM (Work.newSequence items : Eval Value)
  | tome pairs => do
    let entries ← pairs.mapM fun pair => return (pair.1, ← evaluate pair.2)
    liftM (Work.newTome (.ofList entries) : Eval Value)
  | invoke name function args => do
    let values ← args.mapM evaluate
    liftM (Eval.callLibrary name function values)
  | path root steps => liftM (do return (← read).follow (← Work.store) root steps : Eval Value)
  | shape s => return .shape s
  | malformed fault => liftM (Eval.fail (.unreadable fault) : Eval Value)
  | group inner => evaluate inner
  | binary left op right => do
    let a ← evaluate left
    let b ← evaluate right
    liftM (do return (← Work.store).applyOperator a op b : Eval Value)

namespace Phrase

/-- The number of an operand. -/
def numberBy (operand : Text) : m Number := do
  let v ← evaluate operand
  liftM (Work.toNumber v : Eval Number)

/-- The display text of an operand. -/
def displayBy (operand : Text) : m Text := do
  let v ← evaluate operand
  liftM (Work.display v : Eval Text)

/-- Whether a phrase holds of two operands. The right operand of `begins` and `ends` is not
evaluated. -/
def testBy (p : Phrase) (left right : Text) : m Bool := do
  match p with
  | greater => return (← numberBy evaluate left) > (← numberBy evaluate right)
  | less => return (← numberBy evaluate left) < (← numberBy evaluate right)
  | atLeast => return (← numberBy evaluate left) ≥ (← numberBy evaluate right)
  | atMost => return (← numberBy evaluate left) ≤ (← numberBy evaluate right)
  | differs => return (← displayBy evaluate left) != (← displayBy evaluate right)
  | same => return (← displayBy evaluate left) == (← displayBy evaluate right)
  | begins => return Text.startsWith right (← displayBy evaluate left)
  | ends => return Text.endsWith right (← displayBy evaluate left)
  | contains =>
    let needle ← evaluate left
    let haystack ← evaluate right
    liftM (do return Collection.contains (← Work.store) haystack needle : Eval Bool)
  | holdsKey =>
    let key ← evaluate left
    let container ← evaluate right
    liftM (do return Collection.holdsKey (← Work.store) container key : Eval Bool)

end Phrase

/-- Whether a condition holds. -/
def Condition.holdsBy : Condition → m Bool
  | phrase p left right => p.testBy evaluate left right
  | word b => return b
  | value s => do
    let v ← evaluate s
    liftM (do return (← Work.store).truthy v : Eval Bool)

/-- The value of a shape for some arguments. -/
def Shape.valueBy [MonadWithReaderOf Scope m] (holds : Text → m Bool) (f : Shape)
    (args : List Value) : m Value :=
  withTheReader Scope (·.enter (Eval.frameOf f.parameters args)) do
    if Condition.isComparison f.body then return .boolean (← holds f.body) else evaluate f.body

end Steps

/-! ### Evaluation is made of such steps -/

theorem Expr.evalAll_map_ofText (pieces : List Text) :
    evalAll (pieces.map ofText) = pieces.mapM Eval.value := by
  induction pieces with
  | nil => rfl
  | cons piece rest ih =>
    rw [List.map_cons, evalAll, ih, List.mapM_cons]
    rfl

theorem Expr.evalEntries_map_ofText (pairs : List (Text × Text)) :
    evalEntries (pairs.map fun pair => (pair.1, ofText pair.2)) =
      pairs.mapM fun pair => do return (pair.1, ← Eval.value pair.2) := by
  induction pairs with
  | nil => rfl
  | cons pair rest ih =>
    rw [List.map_cons, evalEntries, ih, List.mapM_cons]
    simp only [bind_assoc, pure_bind]
    rfl

namespace Eval

theorem value_eq_valueBy (s : Text) : value s = (Layer.of s.trim).valueBy value := by
  rw [value, Expr.ofText_eq_assemble]
  cases Layer.of s.trim with
  | sequence pieces =>
    rw [Layer.assemble, Expr.eval, Expr.evalAll_map_ofText]
    rfl
  | tome pairs =>
    rw [Layer.assemble, Expr.eval, Expr.evalEntries_map_ofText]
    rfl
  | invoke name function args =>
    rw [Layer.assemble, Expr.eval, Expr.evalAll_map_ofText]
    rfl
  | _ => rfl

theorem holds_eq_holdsBy (s : Text) : holds s = (Condition.ofText s).holdsBy value := by
  rw [holds]
  cases Condition.ofText s with
  | phrase p left right => cases p <;> rfl
  | _ => rfl

theorem callShape_eq_valueBy (f : Shape) (args : List Value) :
    callShape f args = f.valueBy value holds args :=
  rfl

end Eval

/-! ## Evaluation with a record of its calls -/

/-- A computation with a stack of the calls in progress, the innermost first, that writes down every
stack there has been. It comes to nothing if a call finds no room on the stack. -/
abbrev Recorded :=
  ReaderT (List Activation)
    (ReaderT Scope (ExceptT Fault (StateT Resources (StateT (List (List Activation)) Option))))

namespace Recorded

variable {α β : Type}

/-- What comes of a computation, with the stacks written down before. -/
def outcome (x : Recorded α) (stack : List Activation) (scope : Scope) (r : Resources)
    (record : List (List Activation)) :
    Option ((Except Fault α × Resources) × List (List Activation)) :=
  (((x.run stack).run scope).run.run r).run record

/-- A computation that makes no calls. -/
instance : MonadLift Eval Recorded where
  monadLift e := fun _ scope r record => some ((e.run scope).run.run r, record)

/-- Runs a computation within a call. -/
def enter (call : Activation) (x : Recorded α) : Recorded α := fun stack scope r record =>
  x.outcome (call :: stack) scope r (record ++ [call :: stack])

/-- There is no room for a call. -/
def overflow : Recorded α :=
  fun _ _ _ _ => none

/-- The value that a text denotes, with room for so many calls. -/
def value : Nat → Text → Recorded Value
  | 0, _ => overflow
  | room + 1, s => enter (.value s) ((Layer.of s.trim).valueBy (value room))

/-- Whether the condition in a text holds. -/
def holds : Nat → Text → Recorded Bool
  | 0, _ => overflow
  | room + 1, s => enter (.condition s) ((Condition.ofText s).holdsBy (value room))

/-- Calls a shape. -/
def callShape : Nat → Shape → List Value → Recorded Value
  | 0, _, _ => overflow
  | room + 1, f, args => enter (.shape f) (f.valueBy (value room) (holds room) args)

/-! ### Agreement -/

/-- The shape that is called by the innermost call, if it is for a shape. -/
def innermostShape? (stack : List Activation) : Option Shape :=
  stack.head?.bind Activation.shape?

/-- Above some calls in progress, a computation comes to what another comes to. The stacks that it
writes down begin with a given call, and none is for a call of a shape. -/
def Follows (origin : Activation) (stack : List Activation) (x : Recorded α) (e : Eval α) : Prop :=
  ∀ scope r record, ∃ more,
    x.outcome stack scope r record = some ((e.run scope).run.run r, record ++ more) ∧
      ∀ st ∈ more, origin.Stacks st ∧ innermostShape? st = none

variable {origin : Activation} {stack : List Activation} {x : Recorded α} {e : Eval α}

theorem follows_lift (e : Eval α) : Follows origin stack (liftM e) e :=
  fun _ _ record => ⟨[], by rw [List.append_nil]; rfl, fun _ h => absurd h List.not_mem_nil⟩

theorem follows_pure (a : α) : Follows origin stack (pure a) (pure a) :=
  follows_lift (pure a)

/-- One computation after another, with the same calls in progress. -/
theorem Follows.bind {f : α → Recorded β} {g : α → Eval β} (h : Follows origin stack x e)
    (hf : ∀ a, Follows origin stack (f a) (g a)) : Follows origin stack (x >>= f) (e >>= g) := by
  intro scope r record
  obtain ⟨more, hx, hmore⟩ := h scope r record
  have hleft : (x >>= f).outcome stack scope r record =
      (x.outcome stack scope r record).bind fun
        | ((.ok a, r'), record') => (f a).outcome stack scope r' record'
        | ((.error fault, r'), record') => some ((.error fault, r'), record') := by
    show Option.bind (x.outcome stack scope r record) _ = _
    congr 1
    funext ⟨⟨result, r'⟩, record'⟩
    cases result <;> rfl
  have hright : ((e >>= g).run scope).run.run r = _ :=
    run_bind (e.run scope) (fun a => (g a).run scope) r
  rw [hleft, hx, hright, Option.bind_some]
  -- after a failure there are no more calls, and otherwise the second writes on
  rcases (e.run scope).run.run r with ⟨fault | a, r'⟩
  · exact ⟨more, rfl, hmore⟩
  · obtain ⟨later, hlater, hstacks⟩ := hf a scope r' (record ++ more)
    refine ⟨more ++ later, ?_, List.forall_mem_append.2 ⟨hmore, hstacks⟩⟩
    rw [← List.append_assoc]
    exact hlater

/-- A list of computations, from left to right. -/
theorem follows_mapM {γ : Type} {f : γ → Recorded α} {g : γ → Eval α} {items : List γ}
    (h : ∀ item ∈ items, Follows origin stack (f item) (g item)) :
    Follows origin stack (items.mapM f) (items.mapM g) := by
  induction items with
  | nil => exact follows_pure []
  | cons item rest ih =>
    obtain ⟨hitem, hrest⟩ := List.forall_mem_cons.1 h
    rw [List.mapM_cons, List.mapM_cons]
    exact hitem.bind fun a => (ih hrest).bind fun as => follows_pure (a :: as)

/-- A call is put on the stack for as long as it lasts. -/
theorem Follows.enter {call : Activation} (h : Follows origin (call :: stack) x e)
    (hstack : origin.Stacks (call :: stack)) (hcall : call.shape? = none) :
    Follows origin stack (enter call x) e := by
  intro scope r record
  obtain ⟨more, hx, hmore⟩ := h scope r (record ++ [call :: stack])
  refine ⟨(call :: stack) :: more, ?_, List.forall_mem_cons.2 ⟨⟨hstack, hcall⟩, hmore⟩⟩
  show x.outcome (call :: stack) scope r (record ++ [call :: stack]) = _
  rw [hx, List.append_assoc, List.singleton_append]

/-! ### Steps -/

/-- If the parts of a layer are evaluated with a record, so is the layer. -/
theorem follows_layer {evaluate : Text → Recorded Value} {layer : Layer}
    (h : ∀ part ∈ layer.parts, Follows origin stack (evaluate part) (Eval.value part)) :
    Follows origin stack (layer.valueBy evaluate) (layer.valueBy Eval.value) := by
  cases layer with
  | text | boolean | number | shape => exact follows_pure _
  | path | malformed => exact follows_lift _
  | sequence pieces | invoke _ _ pieces =>
    exact (follows_mapM h).bind fun values => follows_lift _
  | tome pairs =>
    refine (follows_mapM fun pair hpair => ?_).bind fun entries => follows_lift _
    exact (h pair.2 (List.mem_map_of_mem hpair)).bind fun v => follows_pure (pair.1, v)
  | group inner => exact h inner (List.mem_singleton_self inner)
  | binary left op right =>
    apply (h left (by simp [Layer.parts])).bind
    intro a
    exact (h right (by simp [Layer.parts])).bind fun b => follows_lift _

/-- If two operands are evaluated with a record, so is a phrase of them. -/
theorem follows_test {evaluate : Text → Recorded Value} (p : Phrase) {left right : Text}
    (hleft : Follows origin stack (evaluate left) (Eval.value left))
    (hright : Follows origin stack (evaluate right) (Eval.value right)) :
    Follows origin stack (p.testBy evaluate left right) (p.testBy Eval.value left right) := by
  cases p with
  | greater | less | atLeast | atMost =>
    apply (hleft.bind fun v => follows_lift (Work.toNumber v)).bind
    intro a
    exact (hright.bind fun v => follows_lift (Work.toNumber v)).bind fun b => follows_pure _
  | differs | same =>
    apply (hleft.bind fun v => follows_lift (Work.display v)).bind
    intro a
    exact (hright.bind fun v => follows_lift (Work.display v)).bind fun b => follows_pure _
  | begins | ends =>
    exact (hleft.bind fun v => follows_lift (Work.display v)).bind fun a => follows_pure _
  | contains | holdsKey =>
    exact hleft.bind fun v => hright.bind fun w => follows_lift _

/-- The frame of a call of a shape changes nothing about the calls. -/
theorem Follows.inFrame (h : Follows origin stack x e) (frame : Table Value) :
    Follows origin stack (withTheReader Scope (·.enter frame) x)
      (withTheReader Scope (·.enter frame) e) :=
  fun scope => h (scope.enter frame)

/-! ### Calls -/

/-- With room for itself and for shorter texts, a text is evaluated. -/
theorem follows_value {room : Nat} {s : Text} (hstack : origin.Stacks (.value s :: stack))
    (hroom : s.length + 1 ≤ room) : Follows origin stack (value room s) (Eval.value s) := by
  -- by induction on the room, as each call leaves less of it and is for a shorter text
  induction room generalizing s stack with
  | zero => exact absurd hroom (Nat.not_succ_le_zero _)
  | succ room ih =>
    rw [Eval.value_eq_valueBy, value]
    refine (follows_layer fun part hpart => ?_).enter hstack rfl
    have hshort : part.length < s.length :=
      Nat.lt_of_lt_of_le (Layer.length_lt_of_mem_parts hpart) (Text.length_trim_le s)
    exact ih (hstack.push (.part hpart hshort)) (by omega)

/-- A condition is evaluated with room for its operands or, if it has none, for its text. -/
theorem follows_holds {room : Nat} {s : Text} (hstack : origin.Stacks (.condition s :: stack))
    (hroom : (Activation.condition s).height ≤ room) :
    Follows origin stack (holds room s) (Eval.holds s) := by
  have htrim := Text.length_trim_le s
  have hpos := Nat.lt_of_lt_of_le (Activation.condition s).height_pos hroom
  obtain ⟨room, rfl⟩ := Nat.exists_eq_succ_of_ne_zero hpos.ne'
  rw [Eval.holds_eq_holdsBy, holds]
  refine Follows.enter ?_ hstack rfl
  cases hfind : Phrase.find? s.trim with
  | some found =>
    obtain ⟨p, left, right⟩ := found
    have hphrase : Condition.ofText s = .phrase p left right := by rw [Condition.ofText, hfind]
    obtain ⟨hleft, hright⟩ := Phrase.length_lt_of_find? hfind
    have hcalled : ∀ operand ∈ [left, right], operand.length < s.trim.length →
        Follows origin (.condition s :: stack) (value room operand) (Eval.value operand) := by
      intro operand hoperand hshort
      rw [Activation.height_condition_of_some hfind] at hroom
      exact follows_value (hstack.push (.operand hfind hoperand (by omega))) (by omega)
    rw [hphrase]
    exact follows_test p (hcalled left (by simp) hleft) (hcalled right (by simp) hright)
  | none =>
    rw [Activation.height_condition_of_none hfind] at hroom
    rw [Condition.ofText]
    simp only [hfind]
    split
    · exact follows_pure true
    · split
      · exact follows_pure false
      · have hwhole : s.trim.length + 1 ≤ room := by omega
        exact (follows_value (hstack.push (.whole hfind)) hwhole).bind fun v => follows_lift _

/-- The body of a shape is evaluated within the call. -/
theorem follows_body {room : Nat} {f : Shape} (hstack : origin.Stacks (.shape f :: stack))
    (hroom : f.body.length + 1 ≤ room) (args : List Value) :
    Follows origin (.shape f :: stack) (f.valueBy (value room) (holds room) args)
      (Eval.callShape f args) := by
  rw [Eval.callShape_eq_valueBy]
  apply Follows.inFrame
  cases hcomparison : Condition.isComparison f.body with
  | true =>
    have hheight : (Activation.condition f.body).height ≤ room := by
      rwa [Activation.height, if_pos hcomparison]
    exact (follows_holds (hstack.push (.comparison hcomparison)) hheight).bind fun b =>
      follows_pure _
  | false => exact follows_value (hstack.push (.body hcomparison)) hroom

/-! ### All calls -/

/-- The shapes that are called, one after the other. -/
def shapesCalled (record : List (List Activation)) : List Shape :=
  record.filterMap innermostShape?

/-- A call that comes to what is expected, whatever the scope and the resources. Every stack of
calls that arises begins with this call and goes on to calls that the one below may call, and it
holds `depth` calls at most. Of the calls, those in `shapes` are for shapes. -/
def Ends (origin : Activation) (x : Recorded α) (e : Eval α) (depth : Nat) (shapes : List Shape) :
    Prop :=
  ∀ scope r, ∃ record, x.outcome [] scope r [] = some ((e.run scope).run.run r, record) ∧
    (∀ stack ∈ record, origin.Stacks stack ∧ stack.length ≤ depth) ∧ shapesCalled record = shapes

theorem Follows.ends (h : Follows origin [] x e) {depth : Nat} (hdepth : origin.height ≤ depth) :
    Ends origin x e depth [] := by
  intro scope r
  obtain ⟨record, hx, hrecord⟩ := h scope r []
  refine ⟨record, hx, fun stack hstack => ?_, ?_⟩
  · obtain ⟨hchain, -⟩ := hrecord stack hstack
    exact ⟨hchain, Nat.le_trans hchain.length_le hdepth⟩
  · exact List.filterMap_eq_nil_iff.2 fun stack hstack => (hrecord stack hstack).2

/-- A call of a shape is the first call, and its body makes the others. -/
theorem Follows.ends_call {f : Shape}
    (h : Follows (Activation.shape f) [Activation.shape f] x e) :
    Ends (.shape f) (Recorded.enter (.shape f) x) e (f.body.length + 2) [f] := by
  have hbottom := Activation.stacks_singleton (.shape f)
  intro scope r
  obtain ⟨more, hx, hmore⟩ := h scope r [[.shape f]]
  refine ⟨[.shape f] :: more, hx, List.forall_mem_cons.2 ⟨?_, fun stack hstack => ?_⟩, ?_⟩
  · exact ⟨hbottom, hbottom.length_le⟩
  · obtain ⟨hchain, -⟩ := hmore stack hstack
    exact ⟨hchain, hchain.length_le⟩
  · have hnone : more.filterMap innermostShape? = [] :=
      List.filterMap_eq_nil_iff.2 fun stack hstack => (hmore stack hstack).2
    show f :: more.filterMap innermostShape? = [f]
    rw [hnone]

/-- What comes of a first call, and how many calls have been in progress whenever one was made. -/
def profile (x : Recorded α) (scope : Scope) (r : Resources) :
    Option (Except Fault α × List Nat) :=
  (x.outcome [] scope r []).map fun out => (out.1.1, out.2.map List.length)

/-- What a first call comes to with a record, evaluation comes to. -/
theorem Ends.eq_of_profile {depth : Nat} {shapes : List Shape} (h : Ends origin x e depth shapes)
    {scope : Scope} {r : Resources} {result : Except Fault α} {heights : List Nat}
    (hprofile : x.profile scope r = some (result, heights)) :
    ((e.run scope).run.run r).1 = result ∧ ∀ height ∈ heights, height ≤ depth := by
  obtain ⟨record, hx, hstacks, -⟩ := h scope r
  rw [profile, hx] at hprofile
  obtain ⟨rfl, rfl⟩ := Prod.mk.inj (Option.some.inj hprofile)
  refine ⟨rfl, fun height hheight => ?_⟩
  obtain ⟨stack, hstack, rfl⟩ := List.mem_map.1 hheight
  exact (hstacks stack hstack).2

/-- Evaluation is made of the steps above, and it ends on every text, with no more calls at once than
the text has characters and two. A text is evaluated with calls for shorter texts alone; so is a
condition, but for the call for its text if that is no phrase with operands; a call of a shape calls
for its body, and for no shape. With room for that many calls, all come to what they come to without
a record. -/
theorem evaluation_ends :
    (∀ s : Text, Eval.value s = (Layer.of s.trim).valueBy Eval.value ∧
      ∀ room, s.length + 1 ≤ room →
        Ends (.value s) (value room s) (Eval.value s) (s.length + 1) []) ∧
    (∀ s : Text, Eval.holds s = (Condition.ofText s).holdsBy Eval.value ∧
      ∀ room, s.length + 2 ≤ room →
        Ends (.condition s) (holds room s) (Eval.holds s) (s.length + 2) []) ∧
    ∀ (f : Shape) (args : List Value),
      Eval.callShape f args = f.valueBy Eval.value Eval.holds args ∧
      ∀ room, f.body.length + 2 ≤ room →
        Ends (.shape f) (callShape room f args) (Eval.callShape f args) (f.body.length + 2) [f] := by
  refine ⟨fun s => ⟨Eval.value_eq_valueBy s, fun room hroom => ?_⟩,
    fun s => ⟨Eval.holds_eq_holdsBy s, fun room hroom => ?_⟩,
    fun f args => ⟨Eval.callShape_eq_valueBy f args, fun room hroom => ?_⟩⟩
  · exact (follows_value (Activation.stacks_singleton _) hroom).ends (Nat.le_refl _)
  · have hheight : (Activation.condition s).height ≤ s.length + 2 := by
      rw [Activation.height]
      split <;> omega
    exact (follows_holds (Activation.stacks_singleton _) (hheight.trans hroom)).ends hheight
  · obtain ⟨room, rfl⟩ := Nat.exists_eq_succ_of_ne_zero (n := room) (by omega)
    have hbottom := Activation.stacks_singleton (.shape f)
    exact (follows_body hbottom (Nat.le_of_succ_le_succ hroom) args).ends_call

/-- A text with a bracket that is not closed. -/
def unclosed : Text :=
  "((1 + 2) * 3) + [4".toList

/-- A shape that compares its parameter with such a text. -/
def matching : Shape :=
  ⟨["x".toList], "x is (2) + [4".toList⟩

theorem evaluation_ends_unclosed :
    let r : Resources := ⟨{}, ⟨1⟩, .empty, default⟩
    let args : List Value := [.string "2[4".toList]
    unclosed.length + 1 ≤ 19 ∧ unclosed.length + 2 ≤ 20 ∧ matching.body.length + 2 ≤ 15 ∧
      (value 19 unclosed).profile {} r =
        some (.ok (.string "9[4".toList), [1, 2, 3, 4, 5, 6, 6, 4, 2]) ∧
      (((Eval.value unclosed).run {}).run.run r).1 = .ok (.string "9[4".toList) ∧
      (holds 20 unclosed).profile {} r = some (.ok true, [1, 2, 3, 4, 5, 6, 7, 7, 5, 3]) ∧
      (((Eval.holds unclosed).run {}).run.run r).1 = .ok true ∧
      (callShape 15 matching args).profile {} r =
        some (.ok (.boolean true), [1, 2, 3, 3, 4, 5, 4]) ∧
      (((Eval.callShape matching args).run {}).run.run r).1 = .ok (.boolean true) := by
  intro r args
  obtain ⟨hvalue, hholds, hcall⟩ := evaluation_ends
  have hvalue' : (value 19 unclosed).profile {} r =
      some (.ok (.string "9[4".toList), [1, 2, 3, 4, 5, 6, 6, 4, 2]) := by decide +kernel
  have hholds' : (holds 20 unclosed).profile {} r =
      some (.ok true, [1, 2, 3, 4, 5, 6, 7, 7, 5, 3]) := by decide +kernel
  have hcall' : (callShape 15 matching args).profile {} r =
      some (.ok (.boolean true), [1, 2, 3, 3, 4, 5, 4]) := by decide +kernel
  exact ⟨by decide, by decide, by decide,
    hvalue', (((hvalue unclosed).2 19 (by decide)).eq_of_profile hvalue').1,
    hholds', (((hholds unclosed).2 20 (by decide)).eq_of_profile hholds').1,
    hcall', (((hcall matching args).2 15 (by decide)).eq_of_profile hcall').1⟩

end Recorded

end Grimoire
