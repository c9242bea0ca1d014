import Grimoire.Proofs.Turns

/-!
# Failures that are not located

Only the program locates failures. Effects, statements and the turns of constructs fail at no line
in particular.
-/

namespace Grimoire

variable {σ α β : Type}

namespace Run

/-! ## Steps -/

/-- A run whose failures are not located. -/
def Unlocated (run : Run σ α) : Prop :=
  ∀ m f m', run.run.run m = (.error f, m') → f.place = none

theorem unlocated_pure (a : α) : Unlocated (pure a : Run σ α) := by
  intro m f m' h
  cases h

theorem unlocated_fail (fault : Fault) : Unlocated (fail fault : Run σ α) := by
  intro m f m' h
  cases h
  rfl

theorem Unlocated.bind {run : Run σ α} {f : α → Run σ β} (h : Unlocated run)
    (hf : ∀ a, Unlocated (f a)) : Unlocated (run >>= f) := by
  intro m failure m' hrun
  rw [run_bind] at hrun
  rcases hfirst : run.run.run m with ⟨g | a, m₁⟩
  · rw [hfirst] at hrun
    cases hrun
    exact h m failure m' hfirst
  · rw [hfirst] at hrun
    exact hf a m₁ failure m' hrun

theorem unlocated_get_bind {f : Machine σ → Run σ α} (h : ∀ m, Unlocated (f m)) :
    Unlocated (get >>= f) :=
  fun m failure m' hrun => h m m failure m' hrun

theorem unlocated_set (m : Machine σ) : Unlocated (set m : Run σ Unit) := by
  intro m₁ f m' h
  cases h

theorem unlocated_evaluate (e : Eval α) : Unlocated (evaluate e : Run σ α) := by
  intro m f m' h
  rw [run_evaluate] at h
  generalize ((e.run m.scope).run.run m.resources).1 = result at h
  cases result with
  | ok a => cases h
  | error fault =>
    cases h
    rfl

/-! ## Effects -/

theorem unlocated_bindName (name : Text) (v : Value) :
    Unlocated (bindName name v : Run σ Unit) := by
  refine unlocated_get_bind fun m => ?_
  split
  · exact unlocated_fail _
  · exact unlocated_set _

theorem unlocated_bindSealed (name : Text) (v : Value) :
    Unlocated (bindSealed name v : Run σ Unit) := by
  refine unlocated_get_bind fun m => ?_
  split
  · exact unlocated_fail _
  · exact unlocated_set _

theorem unlocated_summon (path : Text) (nickname : Option Text) :
    Unlocated (summon path nickname : Run σ Unit) := by
  refine unlocated_get_bind fun m => ?_
  split
  · exact unlocated_fail _
  · exact unlocated_set _

theorem unlocated_setEntries (cell : Nat) (entries : Table Value) :
    Unlocated (setEntries cell entries : Run σ Unit) := by
  intro m f m' h
  cases h

theorem unlocated_setItems (cell : Nat) (items : List Value) :
    Unlocated (setItems cell items : Run σ Unit) := by
  intro m f m' h
  cases h

theorem unlocated_newTomeCell : Unlocated (newTomeCell : Run σ Nat) :=
  unlocated_get_bind fun _ => (unlocated_set _).bind fun _ => unlocated_pure _

theorem unlocated_rootTome (name : Text) : Unlocated (rootTome name : Run σ Nat) := by
  refine unlocated_get_bind fun m => ?_
  split
  · exact unlocated_pure _
  · exact unlocated_newTomeCell.bind fun cell =>
      (unlocated_bindName name _).bind fun _ => unlocated_pure _

theorem unlocated_innerTome (cell : Nat) (key : Text) :
    Unlocated (innerTome cell key : Run σ Nat) := by
  refine unlocated_get_bind fun m => ?_
  dsimp only
  split
  · exact unlocated_pure _
  · exact unlocated_newTomeCell.bind fun inner =>
      (unlocated_setEntries cell _).bind fun _ => unlocated_pure _

theorem unlocated_innerTomes (steps : List Text) (cell : Nat) :
    Unlocated (steps.foldlM innerTome cell : Run σ Nat) := by
  induction steps generalizing cell with
  | nil => exact unlocated_pure _
  | cons key rest ih =>
    rw [List.foldlM_cons]
    exact (unlocated_innerTome cell key).bind ih

theorem unlocated_bindPath (root : Text) (steps : List Text) (v : Value) :
    Unlocated (bindPath root steps v : Run σ Unit) := by
  have hset : ∀ cell, Unlocated (do
      let s := (← get).store
      if s.holds v (.tome cell) then fail (.wrongType (.insideItself "Set".toList .tome))
      setEntries cell ((s.entries cell).insert (steps.getLast?.getD []) v) : Run σ Unit) := by
    refine fun cell => unlocated_get_bind fun m => ?_
    dsimp only
    split
    · exact (unlocated_fail _).bind fun _ => unlocated_setEntries cell _
    · exact unlocated_setEntries cell _
  have hrest : Unlocated (do
      let cell ← steps.dropLast.foldlM innerTome (← rootTome root)
      let s := (← get).store
      if s.holds v (.tome cell) then fail (.wrongType (.insideItself "Set".toList .tome))
      setEntries cell ((s.entries cell).insert (steps.getLast?.getD []) v) : Run σ Unit) :=
    (unlocated_rootTome root).bind fun first =>
      (unlocated_innerTomes steps.dropLast first).bind hset
  refine unlocated_get_bind fun m => ?_
  split
  · exact (unlocated_fail _).bind fun _ => hrest
  · exact hrest

theorem unlocated_ask [Host σ] (request : Request) : Unlocated (ask request : Run σ Unit) := by
  refine unlocated_get_bind fun m => ?_
  rcases Host.answer request m.host with ⟨answer, host⟩
  refine (unlocated_set _).bind fun _ => ?_
  cases answer with
  | ok _ => exact unlocated_pure _
  | error fault => exact unlocated_fail _

theorem unlocated_perform [Host σ] (effect : Effect) :
    Unlocated (perform effect : Run σ Unit) := by
  cases effect with
  | bind name v => exact unlocated_bindName name v
  | bindSealed name v => exact unlocated_bindSealed name v
  | bindPath root steps v => exact unlocated_bindPath root steps v
  | summon path nickname => exact unlocated_summon path nickname
  | setItems cell items => exact unlocated_setItems cell items
  | setEntries cell entries => exact unlocated_setEntries cell entries
  | ask request => exact unlocated_ask request

theorem unlocated_performAll [Host σ] (effects : List Effect) :
    Unlocated (performAll effects : Run σ Unit) := by
  induction effects with
  | nil => exact unlocated_pure _
  | cons effect rest ih => exact (unlocated_perform effect).bind fun _ => ih

/-- A statement does not locate its failure. -/
theorem unlocated_statement [Host σ] (line : Text) : Unlocated (statement line : Run σ Unit) := by
  unfold statement
  split
  · exact unlocated_pure _
  · split
    · exact (unlocated_evaluate _).bind unlocated_performAll
    · exact unlocated_fail _

end Run

/-! ## Turns -/

namespace Program

open Run

theorem unlocated_turns (c : Construct) : Unlocated (turns c : Run σ (List (Turn σ))) := by
  cases c with
  | when | ward => exact unlocated_pure _
  | repeatEach | stride => exact (unlocated_evaluate _).bind fun _ => unlocated_pure _
  | «until» => exact unlocated_get_bind fun _ => unlocated_pure _

theorem unlocated_choose (condition : Text) : Unlocated (Turn.choose condition : Turn σ) := by
  refine (unlocated_evaluate _).bind fun holds => ?_
  cases holds <;> exact unlocated_pure _

theorem unlocated_element (name : Text) (v : Value) : Unlocated (Turn.element name v : Turn σ) :=
  (unlocated_bindName name v).bind fun _ => unlocated_pure _

theorem unlocated_elementAt (index name : Text) (place : Nat) (v : Value) :
    Unlocated (Turn.elementAt index name place v : Turn σ) :=
  (unlocated_bindName index _).bind fun _ => unlocated_element name v

theorem unlocated_again (condition : Text) : Unlocated (Turn.again condition : Turn σ) := by
  refine (unlocated_evaluate _).bind fun holds => ?_
  cases holds <;> exact unlocated_pure _

theorem unlocated_giveUp (condition : Text) (limit : Nat) :
    Unlocated (Turn.giveUp condition limit : Turn σ) := by
  refine (unlocated_evaluate _).bind fun holds => ?_
  cases holds
  · exact unlocated_fail _
  · exact unlocated_pure _

/-- Whatever turn of a construct is due, it does not locate its failure. -/
theorem unlocated_of_mem_turns {c : Construct} {ts : List (Turn σ)} {m m' : Machine σ}
    (h : (turns c).run.run m = (.ok ts, m')) : ∀ turn ∈ ts, Unlocated turn :=
  forall_turns unlocated_choose (unlocated_pure _) unlocated_again unlocated_giveUp
    (fun _ _ _ v _ name _ => unlocated_element name v)
    (fun _ _ _ v _ index name place _ => unlocated_elementAt index name place v) h

end Program

end Grimoire
