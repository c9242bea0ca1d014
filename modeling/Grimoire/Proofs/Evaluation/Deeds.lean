import Grimoire.Proofs.Evaluation.Computations
import Grimoire.Statement

/-!
# The effects of statements

A statement ends in effects. Here every effect is shown to be safe where it is performed: the
values that it stores exist, and none of those that it puts into a container reaches the container
unless it was there before.
-/

namespace Grimoire

open Relation

/-! ## Safe effects -/

/-- The values that an effect stores exist, and those that are new to a container do not reach
it. -/
def Effect.Safe (s : Store) : Effect → Prop
  | .bind _ v | .bindSealed _ v | .bindPath _ _ v => s.Has v
  | .setItems cell items => ∀ w ∈ items,
    s.Has w ∧ (w ∈ s.items cell ∨ ¬ ReflTransGen s.Encloses w (.sequence cell))
  | .setEntries cell entries => ∀ w ∈ entries.values,
    s.Has w ∧ (w ∈ (s.entries cell).values ∨ ¬ ReflTransGen s.Encloses w (.tome cell))
  | .summon _ _ | .ask _ => True

/-- The first effect is safe in a store, and the others are in every store where no cell is
missing. -/
def Effect.AllSafe (s : Store) : List Effect → Prop
  | [] => True
  | e :: rest => e.Safe s ∧ ∀ t : Store, (∀ v, s.Has v → t.Has v) → AllSafe t rest

theorem Effect.allSafe_singleton {s : Store} {e : Effect} (h : e.Safe s) : AllSafe s [e] :=
  ⟨h, fun _ _ => trivial⟩

namespace Deed

open Discipline Eval Groups

variable {D : Discipline} {scope : Scope} {r : Resources} {g : Groups} {user : String}

/-! ## Checks -/

theorem yields_refuseSealed {operand : Text} :
    Yields D scope r (refuseSealed operand) fun _ _ => True := by
  refine yields_read_bind ?_
  split
  · exact yields_fail rfl
  · exact yields_pure fun _ => True.intro

theorem yields_arrayCell {v : Value} :
    Yields D scope r (arrayCell user v) fun _ cell => v = .sequence cell := by
  cases v with
  | sequence cell => exact yields_pure fun _ => rfl
  | _ => exact yields_failType

theorem yields_tomeCell {v : Value} :
    Yields D scope r (tomeCell user v) fun _ cell => v = .tome cell := by
  cases v with
  | tome cell => exact yields_pure fun _ => rfl
  | _ => exact yields_failType

theorem yields_namedCell {name : Text} :
    Yields D scope r (namedCell user name) fun _ _ => True := by
  refine yields_read_bind ?_
  split
  · exact yields_fail rfl
  · split
    · exact yields_pure fun _ => True.intro
    · exact yields_failType

/-- What is not refused does not reach the container. -/
theorem yields_refuseCycle {v c : Value} (hv : r.store.Has v) (hc : c.isContainer = true) :
    Yields .acyclic scope r (refuseCycle user v c)
      fun s _ => ¬ ReflTransGen s.Encloses v c := by
  refine yields_store_bind ?_
  split
  · exact yields_failType
  · next hholds =>
    refine yields_pure fun admits => ?_
    exact admits.sound.not_reach_of_holds_eq_false hv hc (by simpa using hholds)

/-! ## Edits -/

/-- An edit that keeps to the elements of the array is safe. -/
theorem yields_editItems {edit : List Value → Eval (List Value)}
    (hedit : ∀ items r, Yields .acyclic scope r (edit items) fun s edited =>
      edited ⊆ items ∧ s = r.store) :
    Yields .acyclic scope r (editItems user g edit) Effect.AllSafe := by
  refine yields_refuseSealed.bind fun _ r₁ _ _ _ => ?_
  refine yields_value.bind fun v r₂ _ _ _ => ?_
  refine yields_arrayCell.bind fun cell r₃ _ _ _ => yields_store_bind ?_
  refine (hedit _ r₃).bind fun edited r₄ _ admits hedited => yields_pure fun _ => ?_
  refine Effect.allSafe_singleton fun w hw => ?_
  -- the edit itself changes no store, so the elements are those of the array as it is
  have hold : w ∈ r₄.store.items cell := by
    rw [hedited.2]
    exact hedited.1 hw
  exact ⟨admits.sound.closed (.sequence cell) w hold, Or.inl hold⟩

theorem yields_pathSet : Yields .acyclic scope r (pathSet g) Effect.AllSafe := by
  refine yields_value.bind fun v r₁ _ _ hv => ?_
  split
  · exact yields_pure fun _ => Effect.allSafe_singleton hv
  · exact yields_pure fun _ => Effect.allSafe_singleton hv

theorem yields_boundInFront : Yields .acyclic scope r (boundInFront g) Effect.AllSafe := by
  refine yields_value.bind fun v r₁ _ _ hv => ?_
  refine yields_namedCell.bind fun cell r₂ grown _ _ => ?_
  have hv₂ : r₂.store.Has v := grown.store.has hv
  refine (yields_refuseCycle hv₂ rfl).bind fun _ r₃ grown' admits hclear => ?_
  refine yields_store_bind (yields_pure fun _ => Effect.allSafe_singleton fun w hw => ?_)
  rcases List.mem_cons.1 hw with rfl | hw
  · exact ⟨grown'.store.has hv₂, Or.inr hclear⟩
  · exact ⟨admits.sound.closed (.sequence cell) w hw, Or.inl hw⟩

theorem yields_firstPlucked : Yields .acyclic scope r (firstPlucked g) Effect.AllSafe := by
  refine yields_namedCell.bind fun cell r₁ _ admits _ => yields_store_bind ?_
  split
  · exact yields_pure fun _ => Effect.allSafe_singleton trivial
  · next head rest hitems =>
    have hold : ∀ w ∈ head :: rest, r₁.store.Has w := by
      intro w hw
      rw [← hitems] at hw
      exact admits.sound.closed (.sequence cell) w hw
    -- the head is bound after the array is changed, and then it still exists
    refine yields_pure fun _ => ⟨fun w hw => ?_, fun t ht => ?_⟩
    · have hmem : w ∈ head :: rest := List.mem_cons_of_mem head hw
      exact ⟨hold w hmem, Or.inl (hitems ▸ hmem)⟩
    · exact Effect.allSafe_singleton (ht head (hold head List.mem_cons_self))

theorem yields_flooded : Yields .acyclic scope r (flooded g) Effect.AllSafe := by
  refine yields_value.bind fun v r₁ _ _ hv => ?_
  refine yields_namedCell.bind fun cell r₂ grown _ _ => ?_
  have hv₂ : r₂.store.Has v := grown.store.has hv
  refine (yields_refuseCycle hv₂ rfl).bind fun _ r₃ grown' _ hclear => ?_
  refine yields_store_bind (yields_pure fun _ => Effect.allSafe_singleton fun w hw => ?_)
  obtain ⟨-, -, rfl⟩ := List.mem_map.1 hw
  exact ⟨grown'.store.has hv₂, Or.inr hclear⟩

theorem yields_sorted : Yields .acyclic scope r (sorted g) Effect.AllSafe := by
  refine yields_editItems fun items r => yields_store_bind (yields_pure fun _ => ⟨?_, rfl⟩)
  exact (List.mergeSort_perm items _).subset

theorem yields_stirred :
    Yields .acyclic scope r (editItems user g fun items => Work.draw (Xorshift.shuffle items))
      Effect.AllSafe := by
  refine yields_editItems fun items r => ?_
  intro admits
  exact .ok ⟨.refl _, rfl⟩ admits.sound ⟨(Xorshift.shuffle_perm items r.random).subset, rfl⟩

theorem yields_reversed :
    Yields .acyclic scope r (editItems user g fun items => return items.reverse)
      Effect.AllSafe :=
  yields_editItems fun _ _ =>
    yields_pure fun _ => ⟨fun _ hw => List.mem_reverse.1 hw, rfl⟩

/-- Entries that are entries of the tome are safe to put in their place. -/
theorem allSafe_setEntries_of_subset {s : Store} {cell : Nat} {entries : Table Value}
    (hs : s.Sound) (h : ∀ w ∈ entries.values, w ∈ (s.entries cell).values) :
    Effect.AllSafe s [.setEntries cell entries] :=
  Effect.allSafe_singleton fun w hw =>
    ⟨hs.closed (.tome cell) w (h w hw), Or.inl (h w hw)⟩

theorem yields_keyPlucked : Yields .acyclic scope r (keyPlucked g) Effect.AllSafe := by
  refine yields_refuseSealed.bind fun _ r₁ _ _ _ => ?_
  refine yields_display.bind fun key r₂ _ _ _ => ?_
  refine yields_value.bind fun v r₃ _ _ _ => ?_
  refine yields_tomeCell.bind fun cell r₄ _ admits _ => yields_store_bind ?_
  exact yields_pure fun _ => allSafe_setEntries_of_subset admits.sound
    fun w hw => Table.mem_values_erase hw

theorem yields_rebranded : Yields .acyclic scope r (rebranded g) Effect.AllSafe := by
  refine yields_refuseSealed.bind fun _ r₁ _ _ _ => ?_
  refine yields_display.bind fun old r₂ _ _ _ => ?_
  refine yields_display.bind fun new r₃ _ _ _ => ?_
  refine yields_value.bind fun v r₄ _ _ _ => ?_
  refine yields_tomeCell.bind fun cell r₅ _ admits _ => yields_store_bind ?_
  exact yields_pure fun _ => allSafe_setEntries_of_subset admits.sound
    fun w hw => Table.mem_values_rebrand hw

theorem yields_melded : Yields .acyclic scope r (melded g) Effect.AllSafe := by
  refine yields_refuseSealed.bind fun _ r₁ _ _ _ => ?_
  refine yields_value.bind fun v r₂ _ _ hv => ?_
  refine yields_tomeCell.bind fun source r₃ grown _ hsource => ?_
  have hsource₃ : r₃.store.Has (.tome source) := hsource ▸ grown.store.has hv
  refine yields_value.bind fun v' r₄ grown' _ _ => ?_
  refine yields_tomeCell.bind fun cell r₅ grown'' _ _ => ?_
  have hsource₅ : r₅.store.Has (.tome source) := (grown'.trans grown'').store.has hsource₃
  split
  · exact yields_pure fun _ => trivial
  · refine (yields_refuseCycle hsource₅ rfl).bind fun _ r₆ _ admits hclear => ?_
    refine yields_store_bind (yields_pure fun _ => Effect.allSafe_singleton fun w hw => ?_)
    rcases Table.mem_values_meld hw with hw | hw
    · -- an entry of the source is a step away from it, so it cannot lead where the source does not
      refine ⟨admits.sound.closed (.tome source) w hw, Or.inr fun hreach => hclear ?_⟩
      exact .head hw hreach
    · exact ⟨admits.sound.closed (.tome cell) w hw, Or.inl hw⟩

/-! ## Every statement -/

theorem yields_shownAll : ∀ pieces : List Ink,
    ∀ r, Yields D scope r (Ink.shownAll pieces) fun _ _ => True
  | [], _ => yields_pure fun _ => True.intro
  | piece :: rest, r => by
    have hpiece : Yields D scope r piece.shown fun _ _ => True := by
      cases piece with
      | plain text => exact yields_pure fun _ => True.intro
      | expr text => exact yields_display
    exact hpiece.bind fun _ r' _ _ _ =>
      (yields_shownAll rest r').bind fun _ _ _ _ _ => yields_pure fun _ => True.intro

/-- The effects of every deed are safe. -/
theorem yields_effects (d : Deed) : Yields .acyclic scope r (d.effects g) Effect.AllSafe := by
  cases d with
  | setPath => exact yields_pathSet
  | sealName =>
    exact yields_value.bind fun _ _ _ _ hv => yields_pure fun _ => Effect.allSafe_singleton hv
  | reveal =>
    exact (yields_shownAll _ r).bind fun _ _ _ _ _ =>
      yields_pure fun _ => Effect.allSafe_singleton trivial
  | summon => exact yields_pure fun _ => Effect.allSafe_singleton trivial
  | stir => exact yields_stirred
  | bindFront => exact yields_boundInFront
  | pluckFirst => exact yields_firstPlucked
  | flood => exact yields_flooded
  | sort => exact yields_sorted
  | reverse => exact yields_reversed
  | pluckKey => exact yields_keyPlucked
  | rebrand => exact yields_rebranded
  | meld => exact yields_melded
  | scribe | imprint =>
    exact yields_display.bind fun _ _ _ _ _ =>
      yields_pure fun _ => Effect.allSafe_singleton trivial

end Deed

/-- The effects of every statement are safe. -/
theorem Form.yields_effects {scope : Scope} {r : Resources} {g : Groups} (form : Form) :
    Eval.Yields .acyclic scope r (form.effects g) Effect.AllSafe := by
  cases form with
  | computation c =>
    exact (c.yields_computed).bind fun _ _ _ _ hv =>
      Eval.yields_pure fun _ => Effect.allSafe_singleton hv
  | deed d => exact d.yields_effects

end Grimoire
