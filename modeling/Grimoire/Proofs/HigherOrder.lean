import Grimoire.Proofs.Dispatch
import Grimoire.Proofs.Parameters
import Grimoire.Proofs.Targets

/-!
# Shapes over arrays

Three statements use a shape on the elements of an array. They are the map, the filter and the fold
of one function, which evaluates the body of the shape where the parameters are global names. The
elements are those that the array has when it is evaluated, and they are gone through in order. If
the function fails of some element, the statement fails like it and binds nothing.
-/

namespace Grimoire

open Text

namespace Run

variable {σ : Type}

/-- What a shape makes of an element and, if it has two parameters or more, its place. -/
def imageOf (s : Shape) : Value × Nat → Run σ Value
  | (v, place) =>
    applied s (if 2 ≤ s.parameters.length then [v, .number (.ofNat place)] else [v])

/-- An element, if what a shape makes of it counts as true. -/
def keptBy (s : Shape) : Value × Nat → Run σ (Option Value)
  | (v, place) => do
    let verdict ← imageOf s (v, place)
    return if (← get).store.truthy verdict then some v else none

/-- What a shape makes of the result so far, an element and, if it has three parameters or more, the
place of the element. -/
def joinedBy (s : Shape) (result : Value) : Value × Nat → Run σ Value
  | (v, place) =>
    applied s
      (if 3 ≤ s.parameters.length then [result, v, .number (.ofNat place)] else [result, v])

/-- A fresh sequence. -/
def newSequence (items : List Value) : Run σ Value := do
  let m ← get
  let (v, store) := m.store.newSequence items
  set (m.withStore store)
  return v

/-! ## Loops -/

theorem evaluate_store_bind {α : Type} (f : Store → Eval α) :
    (evaluate ((Work.store : Eval Store) >>= f) : Run σ α) =
      get >>= fun m => evaluate (f m.store) :=
  rfl

theorem evaluate_mapFrom (s : Shape) (place : Nat) (items : List Value) :
    (evaluate (Computation.mapFrom s place items) : Run σ (List Value)) =
      (items.zipIdx place).mapM (imageOf s) := by
  induction items generalizing place with
  | nil => rfl
  | cons v items ih =>
    rw [Computation.mapFrom, evaluate_bind, evaluate_callShape, List.zipIdx_cons, List.mapM_cons]
    refine bind_congr fun image => ?_
    rw [evaluate_bind, ih]
    rfl

theorem evaluate_filterFrom (s : Shape) (place : Nat) (items : List Value) :
    (evaluate (Computation.filterFrom s place items) : Run σ (List Value)) =
      (items.zipIdx place).filterMapM (keptBy s) := by
  induction items generalizing place with
  | nil => rfl
  | cons v items ih =>
    rw [Computation.filterFrom, evaluate_bind, evaluate_callShape, List.zipIdx_cons,
      List.filterMapM_cons, keptBy]
    simp only [bind_assoc, pure_bind]
    refine bind_congr fun verdict => ?_
    rw [evaluate_store_bind]
    refine bind_congr fun m => ?_
    rw [evaluate_bind, ih]
    cases m.store.truthy verdict with
    | true => rfl
    | false => exact bind_pure _

theorem evaluate_foldFrom (s : Shape) (place : Nat) (result : Value) (items : List Value) :
    (evaluate (Computation.foldFrom s place result items) : Run σ Value) =
      (items.zipIdx place).foldlM (joinedBy s) result := by
  induction items generalizing place result with
  | nil => rfl
  | cons v items ih =>
    rw [Computation.foldFrom, evaluate_bind, evaluate_callShape, List.zipIdx_cons,
      List.foldlM_cons]
    exact bind_congr fun result => ih (place + 1) result

/-! ## Statements -/

section Statements

variable [Host σ] {m m₁ m₂ m₃ : Machine σ} {line : Text} {g : Groups} {cell : Nat} {s : Shape}

/-- On a machine a line binds to a name what a computation comes to on a later machine. If the
computation fails, the line fails like it, and the names are as before. -/
structure Binds (line : Text) (m : Machine σ) (name : Text) (work : Run σ Value)
    (later : Machine σ) : Prop where
  succeeds : ∀ v m', work.run.run later = (.ok v, m') → m'.scope = m.scope ∧
    (statement line).run.run m = (bindName name v).run.run m'
  fails : ∀ failure m', work.run.run later = (.error failure, m') → m'.scope = m.scope ∧
    (statement line).run.run m = (.error failure, m')

/-- A line of the form of a computation binds what the computation comes to. -/
theorem binds_of_computation {c : Computation} (hidle : line.isIdle = false)
    (hform : Form.find? line = some (.computation c, g)) {work : Run σ Value} {later : Machine σ}
    (hwork : (evaluate (c.value g)).run.run m = work.run.run later) :
    Binds line m (g.text c.target) work later := by
  have hscope : (work.run.run later).2.scope = m.scope := by
    rw [← hwork]
    rfl
  have hrun : (statement line).run.run m = match work.run.run later with
      | (.ok v, m') => (bindName (g.text c.target) v).run.run m'
      | (.error failure, m') => (.error failure, m') := by
    rw [run_statement hidle hform, Form.effects, evaluate_bind, run_bind, hwork]
    rcases work.run.run later with ⟨failure | v, m'⟩
    · rfl
    · show (performAll [.bind (g.text c.target) v]).run.run m' = _
      rw [performAll_singleton]
      rfl
  constructor <;> intro result m' hresult <;> rw [hresult] at hscope hrun
  · exact ⟨hscope, hrun⟩
  · exact ⟨hscope, hrun⟩

omit [Host σ] in
/-- The array is evaluated before the shape, and its elements are taken at once. -/
theorem run_itemsAndShape_bind {α : Type} {user : String}
    (hitems : (evaluate (g.value 1)).run.run m = (.ok (.sequence cell), m₁))
    (hshape : (evaluate (g.value 2)).run.run m₁ = (.ok (.shape s), m₂))
    (f : List Value × Shape → Eval α) :
    (evaluate (Computation.itemsAndShape user g >>= f)).run.run m =
      (evaluate (f (m₁.store.items cell, s))).run.run m₂ := by
  rw [Computation.itemsAndShape, bind_assoc, run_items_bind hitems]
  simp only [bind_assoc, pure_bind]
  rw [run_evaluate_bind_of_ok hshape]
  rfl

omit [Host σ] in
theorem run_morphed (hitems : (evaluate (g.value 1)).run.run m = (.ok (.sequence cell), m₁))
    (hshape : (evaluate (g.value 2)).run.run m₁ = (.ok (.shape s), m₂)) :
    (evaluate (Computation.value .morph g)).run.run m =
      ((m₁.store.items cell).zipIdx.mapM (imageOf s) >>= newSequence).run.run m₂ := by
  rw [Computation.value, Computation.morphed, run_itemsAndShape_bind hitems hshape]
  dsimp only
  rw [evaluate_bind, evaluate_mapFrom]
  rfl

omit [Host σ] in
theorem run_sifted (hitems : (evaluate (g.value 1)).run.run m = (.ok (.sequence cell), m₁))
    (hshape : (evaluate (g.value 2)).run.run m₁ = (.ok (.shape s), m₂)) :
    (evaluate (Computation.value .sift g)).run.run m =
      ((m₁.store.items cell).zipIdx.filterMapM (keptBy s) >>= newSequence).run.run m₂ := by
  rw [Computation.value, Computation.sifted, run_itemsAndShape_bind hitems hshape]
  dsimp only
  rw [evaluate_bind, evaluate_filterFrom]
  rfl

omit [Host σ] in
theorem run_distilled {seed : Value}
    (hitems : (evaluate (g.value 1)).run.run m = (.ok (.sequence cell), m₁))
    (hshape : (evaluate (g.value 2)).run.run m₁ = (.ok (.shape s), m₂))
    (hseed : (evaluate (g.value 3)).run.run m₂ = (.ok seed, m₃)) :
    (evaluate (Computation.value .distill g)).run.run m =
      ((m₁.store.items cell).zipIdx.foldlM (joinedBy s) seed).run.run m₃ := by
  rw [Computation.value, Computation.distilled, run_itemsAndShape_bind hitems hshape]
  dsimp only
  rw [run_evaluate_bind_of_ok hseed, evaluate_foldFrom]

/-- While no call is in progress, a call of a shape comes to what its body comes to where each
parameter is a global name that is bound to the argument at its place, or is undefined if there is
none; nothing of this is left afterwards. So the statements that use a shape on the elements that an
array has at the start bind the map, the filter and the fold of that function, and if the function
fails of an element, they fail like it and bind nothing. -/
theorem shape_call_is_evaluation (m : Machine σ) (hframes : m.scope.frames = []) :
    (∀ (s : Shape) (args : List Value), s.parameters.Nodup →
      (∀ (i : Nat) (name : Text), s.parameters[i]? = some name →
        (m.scope.globals.bound s.parameters args).get? name = some (args[i]?.getD .undefined)) ∧
      (∀ name, name ∉ s.parameters →
        (m.scope.globals.bound s.parameters args).get? name = m.scope.globals.get? name) ∧
      m.scope.extended s.parameters args =
        { m.scope with globals := m.scope.globals.bound s.parameters args } ∧
      (evaluate (Eval.callShape s args)).run.run m = (applied s args).run.run m ∧
      ((applied s args).run.run m).2.scope = m.scope) ∧
    (∀ line g cell s m₁ m₂, Form.find? line = some (.computation .morph, g) →
      (evaluate (g.value 1)).run.run m = (.ok (.sequence cell), m₁) →
      (evaluate (g.value 2)).run.run m₁ = (.ok (.shape s), m₂) →
      Binds line m (g.text 3)
        ((m₁.store.items cell).zipIdx.mapM (imageOf s) >>= newSequence) m₂) ∧
    (∀ line g cell s m₁ m₂, Form.find? line = some (.computation .sift, g) →
      (evaluate (g.value 1)).run.run m = (.ok (.sequence cell), m₁) →
      (evaluate (g.value 2)).run.run m₁ = (.ok (.shape s), m₂) →
      Binds line m (g.text 3)
        ((m₁.store.items cell).zipIdx.filterMapM (keptBy s) >>= newSequence) m₂) ∧
    (∀ line g cell s m₁ m₂ seed m₃, Form.find? line = some (.computation .distill, g) →
      (evaluate (g.value 1)).run.run m = (.ok (.sequence cell), m₁) →
      (evaluate (g.value 2)).run.run m₁ = (.ok (.shape s), m₂) →
      (evaluate (g.value 3)).run.run m₂ = (.ok seed, m₃) →
      Binds line m (g.text 4) ((m₁.store.items cell).zipIdx.foldlM (joinedBy s) seed) m₃) := by
  refine ⟨fun s args hparameters => ⟨fun i name hname => ?_, fun name hname => ?_, ?_, ?_, rfl⟩,
    fun line g cell s m₁ m₂ hform hitems hshape => ?_,
    fun line g cell s m₁ m₂ hform hitems hshape => ?_,
    fun line g cell s m₁ m₂ seed m₃ hform hitems hshape hseed => ?_⟩
  · exact Table.get?_bound_of_getElem? hparameters hname
  · exact Table.get?_bound_of_not_mem hname
  · rw [Scope.extended, ← hframes]
  · rw [evaluate_callShape]
  · exact binds_of_computation (Form.isIdle_of_find? (by decide) (by decide) hform) hform
      (run_morphed hitems hshape)
  · exact binds_of_computation (Form.isIdle_of_find? (by decide) (by decide) hform) hform
      (run_sifted hitems hshape)
  · exact binds_of_computation (Form.isIdle_of_find? (by decide) (by decide) hform) hform
      (run_distilled hitems hshape hseed)

end Statements

/-- A line that folds an array with a shape of three parameters. -/
def spreading : Text :=
  "Distill [1, 2, 3] with Shape (acc, x, i) => acc + i from 100 into spread ok".toList

/-- The places of the operands in that line. -/
def spreadingGroups : Groups :=
  ⟨spreading, [(4, ⟨66, 72⟩), (3, ⟨57, 60⟩), (2, ⟨23, 51⟩), (1, ⟨8, 17⟩)]⟩

/-- The shape in that line. -/
def adding : Shape :=
  ⟨["acc".toList, "x".toList, "i".toList], "acc + i".toList⟩

theorem shape_call_is_evaluation_spreading :
    ((evaluate (Eval.callShape adding [.number 100, .number 1, .number 2])).run.run .unused).1 =
        .ok (.number 102) ∧
      ((statement spreading).run.run .unused).2.scope.globals.get? "spread".toList =
        some (.number 103) := by
  obtain ⟨hcalls, -, -, hdistill⟩ := shape_call_is_evaluation Machine.unused rfl
  constructor
  · obtain ⟨-, -, -, hcall, -⟩ :=
      hcalls adding [.number 100, .number 1, .number 2] (by decide)
    rw [hcall]
    decide +kernel
  · have hitems : ((evaluate (spreadingGroups.value 1)).run.run .unused).1 =
        .ok (.sequence 0) := by decide +kernel
    have hshape : ((evaluate (spreadingGroups.value 2)).run.run
        ((evaluate (spreadingGroups.value 1)).run.run .unused).2).1 = .ok (.shape adding) := by
      decide +kernel
    have hseed : ((evaluate (spreadingGroups.value 3)).run.run
        ((evaluate (spreadingGroups.value 2)).run.run
          ((evaluate (spreadingGroups.value 1)).run.run .unused).2).2).1 = .ok (.number 100) := by
      decide +kernel
    have hbinds := hdistill spreading spreadingGroups 0 adding _ _ (.number 100) _
      (by decide +kernel) (Prod.ext hitems rfl) (Prod.ext hshape rfl) (Prod.ext hseed rfl)
    obtain ⟨-, hrun⟩ := hbinds.succeeds (.number 103) _ (Prod.ext (by decide +kernel) rfl)
    rw [hrun]
    decide +kernel

end Run

end Grimoire
