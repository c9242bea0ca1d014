import Grimoire.Proofs.Purity
import Grimoire.Proofs.Seals

/-!
# Frames of shape calls

Evaluation reads the frames of the shape calls in progress from the scope. Here the same language is
evaluated with a stack of frames that is part of the state: a call pushes a frame, evaluates the body
and pops the frame, whatever comes of the body, and the most frames that there have been at once are
written down. The two come to the same results. The stack is after every evaluation what it was
before; as no shape's body calls a shape, a statement never has more than one frame on it.
-/

namespace Grimoire

/-- The frames in force, the innermost first, and the most there have been at once. -/
structure Frames where
  live : List (Table Value) := []
  peak : Nat := 0

namespace Frames

/-- The stack inside a call. -/
def push (frames : Frames) (frame : Table Value) : Frames where
  live := frame :: frames.live
  peak := max frames.peak (frames.live.length + 1)

/-- The stack after a call. -/
def pop (frames : Frames) : Frames :=
  { frames with live := frames.live.tail }

end Frames

/-- A computation that reads global names and changes a stack of frames and the resources. -/
abbrev Stacked := ReaderT Scope (ExceptT Fault (StateM (Frames × Resources)))

namespace Stacked

variable {α β : Type}

/-! ## Evaluation with a stack -/

/-- A computation on the resources, with the stack as it is. -/
def work (w : Work α) : Stacked α := fun _ state =>
  let (outcome, resources) := (w.run.run state.2 : Except Fault α × Resources)
  (outcome, state.1, resources)

/-- The names in force: the global ones and the frames on the stack. -/
def names : Stacked Scope := fun scope state =>
  (.ok { scope with frames := state.1.live }, state)

/-- A computation that calls no shape, with the names in force. -/
def still (e : Eval α) : Stacked α := do
  work (e.run (← names))

/-- Pushes a frame, runs, and pops the frame whatever comes of it. -/
def inside (frame : Table Value) (x : Stacked α) : Stacked α := fun scope state =>
  let (outcome, frames, resources) :=
    ((x.run scope).run.run (state.1.push frame, state.2) : Except Fault α × Frames × Resources)
  (outcome, frames.pop, resources)

mutual

/-- The value of an expression. -/
def ofExpr : Expr → Stacked Value
  | .text body => return .string body
  | .boolean b => return .boolean b
  | .number x => return .number x
  | .sequence items => do work (Work.newSequence (← ofExprs items))
  | .tome entries => do work (Work.newTome (.ofList (← ofEntries entries)))
  | .invoke name function args => do still (Eval.callLibrary name function (← ofExprs args))
  | .path root steps => do return (← names).follow (← work Work.store) root steps
  | .shape s => return .shape s
  | .malformed fault => throw (.unreadable fault)
  | .binary left op right => do
    let a ← ofExpr left
    let b ← ofExpr right
    return (← work Work.store).applyOperator a op b

/-- The values of several expressions. -/
def ofExprs : List Expr → Stacked (List Value)
  | [] => return []
  | e :: rest => do
    let v ← ofExpr e
    return v :: (← ofExprs rest)

/-- The values of the entries of a tome. -/
def ofEntries : List (Text × Expr) → Stacked (List (Text × Value))
  | [] => return []
  | (key, e) :: rest => do
    let v ← ofExpr e
    return (key, v) :: (← ofEntries rest)

end

/-- The value that a text denotes. -/
def value (s : Text) : Stacked Value :=
  ofExpr (Expr.ofText s)

/-- The number that a text denotes. -/
def number (s : Text) : Stacked Number := do
  work (Work.toNumber (← value s))

/-- The display text of the value that a text denotes. -/
def display (s : Text) : Stacked Text := do
  work (Work.display (← value s))

/-- Whether a phrase holds of two operands. -/
def test (p : Phrase) (left right : Text) : Stacked Bool := do
  match p with
  | .greater => return (← number left) > (← number right)
  | .less => return (← number left) < (← number right)
  | .atLeast => return (← number left) ≥ (← number right)
  | .atMost => return (← number left) ≤ (← number right)
  | .differs => return (← display left) != (← display right)
  | .same => return (← display left) == (← display right)
  | .begins => return Text.startsWith right (← display left)
  | .ends => return Text.endsWith right (← display left)
  | .contains =>
    let needle ← value left
    let haystack ← value right
    return Collection.contains (← work Work.store) haystack needle
  | .holdsKey =>
    let key ← value left
    let container ← value right
    return Collection.holdsKey (← work Work.store) container key

/-- Whether the condition in a text holds. -/
def holds (s : Text) : Stacked Bool :=
  match Condition.ofText s with
  | .phrase p left right => test p left right
  | .word b => return b
  | .value s => do
    let v ← value s
    return (← work Work.store).truthy v

/-- The value of a shape's body. -/
def shapeBody (body : Text) : Stacked Value := do
  if Condition.isComparison body then return .boolean (← holds body) else value body

/-- Calls a shape on a frame of its own. -/
def callShape (s : Shape) (args : List Value) : Stacked Value :=
  inside (Eval.frameOf s.parameters args) (shapeBody s.body)

/-! ## Statements that call shapes -/

/-- The elements of an operand and the shape to use on them. -/
def itemsAndShape (user : String) (g : Groups) : Stacked (List Value × Shape) := do
  let v ← value (g.text 1)
  let items ← still (Eval.itemsOf user v)
  let w ← value (g.text 2)
  return (items, ← still (Eval.shapeOf user w))

/-- The value of a shape for each element. -/
def mapFrom (s : Shape) (place : Nat) : List Value → Stacked (List Value)
  | [] => return []
  | v :: rest => do
    let image ← callShape s (Computation.argumentsFor s 2 [v] place)
    return image :: (← mapFrom s (place + 1) rest)

/-- The elements for which the value of a shape counts as true. -/
def filterFrom (s : Shape) (place : Nat) : List Value → Stacked (List Value)
  | [] => return []
  | v :: rest => do
    let verdict ← callShape s (Computation.argumentsFor s 2 [v] place)
    let keep := (← work Work.store).truthy verdict
    let more ← filterFrom s (place + 1) rest
    return if keep then v :: more else more

/-- The value of a shape for the result so far and each element in turn. -/
def foldFrom (s : Shape) (place : Nat) (result : Value) : List Value → Stacked Value
  | [] => return result
  | v :: rest => do
    let result ← callShape s (Computation.argumentsFor s 3 [result, v] place)
    foldFrom s (place + 1) result rest

/-- The value that a computation works out. Three of them call shapes. -/
def computed : Computation → Groups → Stacked Value
  | .morph, g => do
    let (items, s) ← itemsAndShape "Morph" g
    work (Work.newSequence (← mapFrom s 0 items))
  | .sift, g => do
    let (items, s) ← itemsAndShape "Sift" g
    work (Work.newSequence (← filterFrom s 0 items))
  | .distill, g => do
    let (items, s) ← itemsAndShape "Distill" g
    foldFrom s 0 (← value (g.text 3)) items
  | c, g => still (c.value g)

/-- The effects of a statement. -/
def effects : Form → Groups → Stacked (List Effect)
  | .computation c, g => do return [.bind (g.text c.target) (← computed c g)]
  | .deed d, g => still (d.effects g)

/-! ## Agreement -/

/-- What comes of a computation that starts with some frames on the stack: the outcome and the
resources that are expected, the same frames, and at no time more than `depth` frames above them. -/
structure Agreed (depth : Nat) (frames : Frames) (expected : Except Fault α × Resources)
    (out : Except Fault α × Frames × Resources) : Prop where
  outcome : out.1 = expected.1
  resources : out.2.2 = expected.2
  live : out.2.1.live = frames.live
  peak : out.2.1.peak ≤ max frames.peak (frames.live.length + depth)

/-- With a stack, a computation comes to what another comes to with the frames in its scope, and it
puts at most `depth` frames on the stack and takes them away. -/
def Agrees (depth : Nat) (x : Stacked α) (e : Eval α) : Prop :=
  ∀ (scope : Scope) (frames : Frames) (r : Resources),
    Agreed depth frames ((e.run { scope with frames := frames.live }).run.run r)
      ((x.run scope).run.run (frames, r))

variable {depth : Nat} {x : Stacked α} {e : Eval α}

theorem agrees_pure (a : α) : Agrees depth (pure a) (pure a) :=
  fun _ _ _ => ⟨rfl, rfl, rfl, Nat.le_max_left _ _⟩

theorem agrees_throw (fault : Fault) : Agrees depth (throw fault : Stacked α) (Eval.fail fault) :=
  fun _ _ _ => ⟨rfl, rfl, rfl, Nat.le_max_left _ _⟩

theorem agrees_work (w : Work α) : Agrees depth (work w) (liftM w) :=
  fun _ _ _ => ⟨rfl, rfl, rfl, Nat.le_max_left _ _⟩

theorem agrees_names : Agrees depth names read :=
  fun _ _ _ => ⟨rfl, rfl, rfl, Nat.le_max_left _ _⟩

theorem agrees_still (e : Eval α) : Agrees depth (still e) e :=
  fun _ _ _ => ⟨rfl, rfl, rfl, Nat.le_max_left _ _⟩

/-- One computation after another starts with the same frames. -/
theorem Agrees.bind {f : α → Stacked β} {g : α → Eval β} (h : Agrees depth x e)
    (hf : ∀ a, Agrees depth (f a) (g a)) : Agrees depth (x >>= f) (e >>= g) := by
  intro scope frames r
  have hfirst := h scope frames r
  have hleft : ((x >>= f).run scope).run.run (frames, r) = _ :=
    run_bind (x.run scope) (fun a => (f a).run scope) (frames, r)
  have hright : ((e >>= g).run { scope with frames := frames.live }).run.run r = _ :=
    run_bind (e.run { scope with frames := frames.live })
      (fun a => (g a).run { scope with frames := frames.live }) r
  rw [hleft, hright]
  revert hfirst
  rcases (x.run scope).run.run (frames, r) with ⟨outcome, frames', r'⟩
  rcases (e.run { scope with frames := frames.live }).run.run r with ⟨expected, r''⟩
  rintro ⟨houtcome, hresources, hlive, hpeak⟩
  dsimp only at houtcome hresources hlive hpeak
  subst houtcome hresources
  cases outcome with
  | error fault => exact ⟨rfl, rfl, hlive, hpeak⟩
  | ok a =>
    have hnext := hf a scope frames' r'
    rw [hlive] at hnext
    constructor
    · exact hnext.outcome
    · exact hnext.resources
    · exact hnext.live.trans hlive
    · have hbound := hnext.peak
      rw [hlive] at hbound
      exact Nat.le_trans hbound (Nat.max_le.2 ⟨hpeak, Nat.le_max_right _ _⟩)

/-- A computation on a frame of its own leaves the stack as it finds it. -/
theorem Agrees.inside (h : Agrees depth x e) (frame : Table Value) :
    Agrees (depth + 1) (Stacked.inside frame x) (withReader (·.enter frame) e) := by
  intro scope frames r
  have hbody := h scope (frames.push frame) r
  constructor
  · exact hbody.outcome
  · exact hbody.resources
  · show ((x.run scope).run.run (frames.push frame, r)).2.1.live.tail = frames.live
    rw [hbody.live]
    rfl
  · have hbound := hbody.peak
    show ((x.run scope).run.run (frames.push frame, r)).2.1.peak ≤ _
    simp only [Frames.push, List.length_cons] at hbound ⊢
    omega

theorem Agrees.mono {depth' : Nat} (h : Agrees depth x e) (hle : depth ≤ depth') :
    Agrees depth' x e := by
  intro scope frames r
  have hx := h scope frames r
  have hroom : max frames.peak (frames.live.length + depth)
      ≤ max frames.peak (frames.live.length + depth') := by omega
  exact ⟨hx.outcome, hx.resources, hx.live, Nat.le_trans hx.peak hroom⟩

/-! ### Texts -/

mutual

theorem agrees_ofExpr : ∀ e : Expr, Agrees 0 (ofExpr e) e.eval
  | .text _ | .boolean _ | .number _ | .shape _ => agrees_pure _
  | .malformed _ => agrees_throw _
  | .path root steps => by
    rw [ofExpr, Expr.eval]
    exact agrees_names.bind fun scope => (agrees_work _).bind fun s => agrees_pure _
  | .sequence items => by
    rw [ofExpr, Expr.eval]
    exact (agrees_ofExprs items).bind fun values => agrees_work _
  | .tome entries => by
    rw [ofExpr, Expr.eval]
    exact (agrees_ofEntries entries).bind fun values => agrees_work _
  | .invoke name function args => by
    rw [ofExpr, Expr.eval]
    exact (agrees_ofExprs args).bind fun values => agrees_still _
  | .binary left op right => by
    rw [ofExpr, Expr.eval]
    apply (agrees_ofExpr left).bind
    intro a
    apply (agrees_ofExpr right).bind
    intro b
    exact (agrees_work _).bind fun s => agrees_pure _

theorem agrees_ofExprs : ∀ es : List Expr, Agrees 0 (ofExprs es) (Expr.evalAll es)
  | [] => agrees_pure _
  | e :: rest => by
    rw [ofExprs, Expr.evalAll]
    apply (agrees_ofExpr e).bind
    intro v
    exact (agrees_ofExprs rest).bind fun values => agrees_pure _

theorem agrees_ofEntries : ∀ es : List (Text × Expr), Agrees 0 (ofEntries es) (Expr.evalEntries es)
  | [] => agrees_pure _
  | (key, e) :: rest => by
    rw [ofEntries, Expr.evalEntries]
    apply (agrees_ofExpr e).bind
    intro v
    exact (agrees_ofEntries rest).bind fun values => agrees_pure _

end

theorem agrees_value (s : Text) : Agrees 0 (value s) (Eval.value s) :=
  agrees_ofExpr (Expr.ofText s)

theorem agrees_number (s : Text) : Agrees 0 (number s) (Eval.number s) :=
  (agrees_value s).bind fun _ => agrees_work _

theorem agrees_display (s : Text) : Agrees 0 (display s) (Eval.display s) :=
  (agrees_value s).bind fun _ => agrees_work _

theorem agrees_test (p : Phrase) (left right : Text) :
    Agrees 0 (test p left right) (Condition.test p left right) := by
  cases p with
  | greater | less | atLeast | atMost =>
    exact (agrees_number left).bind fun x => (agrees_number right).bind fun y => agrees_pure _
  | differs | same =>
    exact (agrees_display left).bind fun s => (agrees_display right).bind fun t => agrees_pure _
  | begins | ends => exact (agrees_display left).bind fun s => agrees_pure _
  | contains | holdsKey =>
    apply (agrees_value left).bind
    intro v
    apply (agrees_value right).bind
    intro w
    exact (agrees_work _).bind fun s => agrees_pure _

theorem agrees_holds (s : Text) : Agrees 0 (holds s) (Eval.holds s) := by
  rw [holds, Eval.holds]
  cases Condition.ofText s with
  | phrase p left right => exact agrees_test p left right
  | word b => exact agrees_pure b
  | value s =>
    apply (agrees_value s).bind
    intro v
    exact (agrees_work _).bind fun s => agrees_pure _

theorem agrees_shapeBody (body : Text) : Agrees 0 (shapeBody body) (Eval.shapeBody body) := by
  rw [shapeBody, Eval.shapeBody]
  split
  · exact (agrees_holds body).bind fun b => agrees_pure _
  · exact agrees_value body

/-- A call puts one frame on the stack and takes it away. -/
theorem agrees_callShape (s : Shape) (args : List Value) :
    Agrees 1 (callShape s args) (Eval.callShape s args) :=
  (agrees_shapeBody s.body).inside (Eval.frameOf s.parameters args)

/-! ### Statements -/

theorem agrees_itemsAndShape (user : String) (g : Groups) :
    Agrees 0 (itemsAndShape user g) (Computation.itemsAndShape user g) := by
  have hitems : Computation.itemsAndShape user g = (do
      let v ← Eval.value (g.text 1)
      let items ← Eval.itemsOf user v
      let w ← Eval.value (g.text 2)
      return (items, ← Eval.shapeOf user w)) := by
    simp only [Computation.itemsAndShape, Groups.items, Groups.value, bind_assoc]
  rw [hitems]
  apply (agrees_value (g.text 1)).bind
  intro v
  apply (agrees_still _).bind
  intro items
  apply (agrees_value (g.text 2)).bind
  intro w
  exact (agrees_still _).bind fun s => agrees_pure _

theorem agrees_mapFrom (s : Shape) (place : Nat) (items : List Value) :
    Agrees 1 (mapFrom s place items) (Computation.mapFrom s place items) := by
  induction items generalizing place with
  | nil => exact agrees_pure _
  | cons v rest ih =>
    apply (agrees_callShape s _).bind
    intro image
    exact (ih (place + 1)).bind fun images => agrees_pure _

theorem agrees_filterFrom (s : Shape) (place : Nat) (items : List Value) :
    Agrees 1 (filterFrom s place items) (Computation.filterFrom s place items) := by
  induction items generalizing place with
  | nil => exact agrees_pure _
  | cons v rest ih =>
    apply (agrees_callShape s _).bind
    intro verdict
    apply (agrees_work _).bind
    intro store
    exact (ih (place + 1)).bind fun more => agrees_pure _

theorem agrees_foldFrom (s : Shape) (place : Nat) (result : Value) (items : List Value) :
    Agrees 1 (foldFrom s place result items) (Computation.foldFrom s place result items) := by
  induction items generalizing place result with
  | nil => exact agrees_pure _
  | cons v rest ih =>
    apply (agrees_callShape s _).bind
    intro next
    exact ih (place + 1) next

theorem agrees_computed (c : Computation) (g : Groups) : Agrees 1 (computed c g) (c.value g) := by
  cases c with
  | morph =>
    apply ((agrees_itemsAndShape "Morph" g).mono (Nat.zero_le 1)).bind
    rintro ⟨items, s⟩
    exact (agrees_mapFrom s 0 items).bind fun images => agrees_work _
  | sift =>
    apply ((agrees_itemsAndShape "Sift" g).mono (Nat.zero_le 1)).bind
    rintro ⟨items, s⟩
    exact (agrees_filterFrom s 0 items).bind fun kept => agrees_work _
  | distill =>
    apply ((agrees_itemsAndShape "Distill" g).mono (Nat.zero_le 1)).bind
    rintro ⟨items, s⟩
    apply ((agrees_value (g.text 3)).mono (Nat.zero_le 1)).bind
    intro result
    exact agrees_foldFrom s 0 result items
  | _ => exact agrees_still _

/-- Every statement comes to its effects with at most one frame on the stack at a time. -/
theorem agrees_effects (form : Form) (g : Groups) :
    Agrees 1 (effects form g) (form.effects g) := by
  cases form with
  | computation c => exact (agrees_computed c g).bind fun v => agrees_pure _
  | deed d => exact agrees_still _

end Stacked

/-! ## Machines -/

namespace Machine

variable {σ : Type} [Host σ] {m : Machine σ}

/-- Since a reset no shape call is in progress but during a statement. -/
theorem SinceReset.frames (h : m.SinceReset) : m.scope.frames = [] := by
  apply h.induction (P := fun m => m.scope.frames = [])
  · intro origin
    rfl
  · intro m m' hstep hm
    obtain ⟨target?, seals, hchange⟩ := hstep.change
    exact hchange.frames.trans hm

/-- Evaluation of a text and a call of a shape retain a machine, if its aliases stand for standard
libraries. With a stack of frames, evaluation of a text puts no frame on the stack, and a call puts
one there and takes it away, whatever comes of it. Between two statements there is no frame, and
during one there is never more than one. -/
theorem evaluation_is_pure :
    (∀ m : Machine σ, m.KnowsStandard → ∀ text shape args,
      m.Retains ((Run.evaluate (Eval.value text)).run.run m).2 ∧
        m.Retains ((Run.evaluate (Eval.holds text)).run.run m).2 ∧
        m.Retains ((Run.evaluate (Eval.callShape shape args)).run.run m).2) ∧
    (∀ text shape args, Stacked.Agrees 0 (Stacked.value text) (Eval.value text) ∧
      Stacked.Agrees 0 (Stacked.holds text) (Eval.holds text) ∧
      Stacked.Agrees 1 (Stacked.callShape shape args) (Eval.callShape shape args)) ∧
    ∀ m : Machine σ, m.SinceReset → m.scope.frames = [] ∧ ∀ form g,
      let out := ((Stacked.effects form g).run m.scope).run.run ({}, m.resources)
      (out.1, out.2.2) = ((Form.effects form g).run m.scope).run.run m.resources ∧
        out.2.1.live = [] ∧ out.2.1.peak ≤ 1 := by
  refine ⟨?_, ?_, ?_⟩
  · intro m hm text shape args
    exact ⟨Run.retains_value hm text, Run.retains_holds hm text, Run.retains_callShape hm shape args⟩
  · intro text shape args
    exact ⟨Stacked.agrees_value text, Stacked.agrees_holds text, Stacked.agrees_callShape shape args⟩
  · intro m hm
    have hnone := hm.frames
    refine ⟨hnone, ?_⟩
    intro form g out
    have hagreed := Stacked.agrees_effects form g m.scope {} m.resources
    have hscope : { m.scope with frames := [] } = m.scope := by rw [← hnone]
    rw [hscope] at hagreed
    exact ⟨Prod.ext hagreed.outcome hagreed.resources, hagreed.live, hagreed.peak⟩

/-- A machine that knows the library of chance. -/
def knowingChance : Machine Transcript :=
  (fresh {} .standard default {}).withScope
    { aliases := Table.empty.insert "dice".toList ⟨⟨"std/random".toList, 2⟩, Library.random⟩ }

theorem evaluation_is_pure_knowingChance :
    knowingChance.KnowsStandard ∧
      knowingChance.Retains ((Run.evaluate (Eval.value "dice".toList)).run.run knowingChance).2 ∧
      (fresh {} .standard default ({} : Transcript)).scope.frames = [] := by
  have hstandard : knowingChance.KnowsStandard := by
    intro summoned hmem
    obtain rfl := List.mem_singleton.1 hmem
    simp [Library.standard]
  have hpure := evaluation_is_pure (σ := Transcript)
  refine ⟨hstandard, ?_, ?_⟩
  · exact (hpure.1 knowingChance hstandard "dice".toList ⟨[], []⟩ []).1
  · exact (hpure.2.2 _ (sinceReset_fresh {} .standard default {})).1

end Machine

end Grimoire
