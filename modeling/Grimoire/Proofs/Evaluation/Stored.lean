import Grimoire.Proofs.Evaluation.Deeds

/-!
# What statements store

The values that a statement binds or puts into containers are values of its operands, elements and
entries that were there before, or what its computation has made of them. So under any discipline
all of them are valid where the effects of the statement begin.
-/

namespace Grimoire

/-- The values that an effect binds or puts into a container. -/
def Effect.values : Effect → List Value
  | .bind _ v | .bindSealed _ v | .bindPath _ _ v => [v]
  | .setItems _ items => items
  | .setEntries _ entries => entries.values
  | .summon _ _ | .ask _ => []

namespace Discipline

variable {D : Discipline} {s : Store}

/-- All values that effects store are valid. -/
def Stores (D : Discipline) (s : Store) (effects : List Effect) : Prop :=
  ∀ effect ∈ effects, D.ValidAll s effect.values

theorem stores_nil : D.Stores s [] :=
  fun _ h => absurd h List.not_mem_nil

theorem Stores.cons {effect : Effect} {effects : List Effect} (h : D.ValidAll s effect.values)
    (hrest : D.Stores s effects) : D.Stores s (effect :: effects) :=
  List.forall_mem_cons.2 ⟨h, hrest⟩

/-- One effect that stores valid values. -/
theorem stores_singleton {effect : Effect} (h : D.ValidAll s effect.values) :
    D.Stores s [effect] :=
  .cons h stores_nil

theorem validAll_singleton {v : Value} (hv : D.valid s v) : D.ValidAll s [v] :=
  .cons hv validAll_nil

end Discipline

namespace Deed

open Discipline Eval Groups

variable {D : Discipline} {scope : Scope} {r : Resources} {g : Groups} {user : String}

/-! ## Containers by name -/

/-- The array of a name is valid. -/
theorem yields_namedCell_valid {name : Text} :
    Yields D scope r (namedCell user name) fun s cell => D.valid s (.sequence cell) := by
  refine yields_read_bind ?_
  split
  · exact yields_fail rfl
  · split
    · next cell hcell => exact yields_pure fun hs => hs.lookup? hcell
    · exact yields_failType

/-- What is refused or not, nothing is changed by it. -/
theorem yields_refuseCycle_any {v c : Value} :
    Yields D scope r (refuseCycle user v c) fun _ _ => True := by
  refine yields_store_bind ?_
  split
  · exact yields_failType
  · exact yields_pure fun _ => True.intro

/-! ## Deeds one by one -/

/-- An edit that keeps to the elements of the array stores valid values. -/
theorem stores_editItems {edit : List Value → Eval (List Value)}
    (hedit : ∀ items r, Yields D scope r (edit items) fun _ edited => edited ⊆ items) :
    Yields D scope r (editItems user g edit) D.Stores := by
  refine yields_refuseSealed.bind fun _ r₁ _ _ _ => ?_
  refine yields_value.bind fun v r₂ _ _ hv => ?_
  refine yields_arrayCell.bind fun cell r₃ grown admits hcell => yields_store_bind ?_
  have hitems : D.ValidAll r₃.store (r₃.store.items cell) :=
    validAll_items admits.sound (hcell ▸ D.valid_of_extends grown.store hv)
  refine (hedit _ r₃).bind fun edited r₄ grown' _ hedited => yields_pure fun _ => ?_
  exact stores_singleton ((hitems.subset hedited).mono grown'.store)

theorem stores_pathSet : Yields D scope r (pathSet g) D.Stores := by
  refine yields_value.bind fun v r₁ _ _ hv => ?_
  split
  · exact yields_pure fun _ => stores_singleton (validAll_singleton hv)
  · exact yields_pure fun _ => stores_singleton (validAll_singleton hv)

theorem stores_boundInFront : Yields D scope r (boundInFront g) D.Stores := by
  refine yields_value.bind fun v r₁ _ _ hv => ?_
  refine yields_namedCell_valid.bind fun cell r₂ grown _ hcell => ?_
  refine yields_refuseCycle_any.bind fun _ r₃ grown' admits _ => yields_store_bind ?_
  have hv₃ : D.valid r₃.store v := D.valid_of_extends (grown.store.trans grown'.store) hv
  have hcell₃ : D.valid r₃.store (.sequence cell) := D.valid_of_extends grown'.store hcell
  exact yields_pure fun _ => stores_singleton (.cons hv₃ (validAll_items admits.sound hcell₃))

theorem stores_firstPlucked : Yields D scope r (firstPlucked g) D.Stores := by
  refine yields_namedCell_valid.bind fun cell r₁ _ admits hcell => yields_store_bind ?_
  have hitems : D.ValidAll r₁.store (r₁.store.items cell) := validAll_items admits.sound hcell
  split
  · exact yields_pure fun _ => stores_singleton (validAll_singleton (D.valid_of_isScalar rfl))
  · next head rest hlist =>
    rw [hlist] at hitems
    obtain ⟨hhead, hrest⟩ := List.forall_mem_cons.1 hitems
    exact yields_pure fun _ => .cons hrest (stores_singleton (validAll_singleton hhead))

theorem stores_flooded : Yields D scope r (flooded g) D.Stores := by
  refine yields_value.bind fun v r₁ _ _ hv => ?_
  refine yields_namedCell_valid.bind fun cell r₂ grown _ _ => ?_
  refine yields_refuseCycle_any.bind fun _ r₃ grown' _ _ => yields_store_bind ?_
  refine yields_pure fun _ => stores_singleton fun w hw => ?_
  obtain ⟨-, -, rfl⟩ := List.mem_map.1 hw
  exact D.valid_of_extends (grown.store.trans grown'.store) hv

theorem stores_sorted : Yields D scope r (sorted g) D.Stores := by
  refine stores_editItems fun items r => yields_store_bind (yields_pure fun _ => ?_)
  exact (List.mergeSort_perm items _).subset

theorem stores_stirred : Yields D scope r
    (editItems user g fun items => Work.draw (Xorshift.shuffle items)) D.Stores := by
  refine stores_editItems fun items r => ?_
  intro admits
  exact .ok ⟨.refl _, rfl⟩ admits.sound (Xorshift.shuffle_perm items r.random).subset

theorem stores_reversed :
    Yields D scope r (editItems user g fun items => return items.reverse) D.Stores :=
  stores_editItems fun _ _ => yields_pure fun _ _ hw => List.mem_reverse.1 hw

theorem stores_keyPlucked : Yields D scope r (keyPlucked g) D.Stores := by
  refine yields_refuseSealed.bind fun _ r₁ _ _ _ => ?_
  refine yields_display.bind fun key r₂ _ _ _ => ?_
  refine yields_value.bind fun v r₃ _ _ hv => ?_
  refine yields_tomeCell.bind fun cell r₄ grown admits hcell => yields_store_bind ?_
  have hentries : D.ValidTable r₄.store (r₄.store.entries cell) :=
    validTable_entries admits.sound (hcell ▸ D.valid_of_extends grown.store hv)
  exact yields_pure fun _ => stores_singleton fun w hw => hentries w (Table.mem_values_erase hw)

theorem stores_rebranded : Yields D scope r (rebranded g) D.Stores := by
  refine yields_refuseSealed.bind fun _ r₁ _ _ _ => ?_
  refine yields_display.bind fun old r₂ _ _ _ => ?_
  refine yields_display.bind fun new r₃ _ _ _ => ?_
  refine yields_value.bind fun v r₄ _ _ hv => ?_
  refine yields_tomeCell.bind fun cell r₅ grown admits hcell => yields_store_bind ?_
  have hentries : D.ValidTable r₅.store (r₅.store.entries cell) :=
    validTable_entries admits.sound (hcell ▸ D.valid_of_extends grown.store hv)
  exact yields_pure fun _ => stores_singleton fun w hw => hentries w (Table.mem_values_rebrand hw)

theorem stores_melded : Yields D scope r (melded g) D.Stores := by
  refine yields_refuseSealed.bind fun _ r₁ _ _ _ => ?_
  refine yields_value.bind fun v r₂ _ _ hv => ?_
  refine yields_tomeCell.bind fun source r₃ grown _ hsource => ?_
  have hsource₃ : D.valid r₃.store (.tome source) := hsource ▸ D.valid_of_extends grown.store hv
  refine yields_value.bind fun w r₄ grown' _ hw => ?_
  have hsource₄ : D.valid r₄.store (.tome source) := D.valid_of_extends grown'.store hsource₃
  refine yields_tomeCell.bind fun cell r₅ grown'' _ hcell => ?_
  have hcell₅ : D.valid r₅.store (.tome cell) := hcell ▸ D.valid_of_extends grown''.store hw
  have hsource₅ : D.valid r₅.store (.tome source) := D.valid_of_extends grown''.store hsource₄
  split
  · exact yields_pure fun _ => stores_nil
  · refine yields_refuseCycle_any.bind fun _ r₆ grown₆ admits _ => yields_store_bind ?_
    have hfrom := validTable_entries admits.sound (D.valid_of_extends grown₆.store hsource₅)
    have hinto := validTable_entries admits.sound (D.valid_of_extends grown₆.store hcell₅)
    refine yields_pure fun _ => stores_singleton fun u hu => ?_
    exact (Table.mem_values_meld hu).elim (hfrom u) (hinto u)

/-- All values that a deed stores are valid. -/
theorem yields_stores (d : Deed) : Yields D scope r (d.effects g) D.Stores := by
  cases d with
  | setPath => exact stores_pathSet
  | sealName =>
    exact yields_value.bind fun _ _ _ _ hv =>
      yields_pure fun _ => stores_singleton (validAll_singleton hv)
  | reveal =>
    exact (yields_shownAll _ r).bind fun _ _ _ _ _ =>
      yields_pure fun _ => stores_singleton validAll_nil
  | summon => exact yields_pure fun _ => stores_singleton validAll_nil
  | stir => exact stores_stirred
  | bindFront => exact stores_boundInFront
  | pluckFirst => exact stores_firstPlucked
  | flood => exact stores_flooded
  | sort => exact stores_sorted
  | reverse => exact stores_reversed
  | pluckKey => exact stores_keyPlucked
  | rebrand => exact stores_rebranded
  | meld => exact stores_melded
  | scribe | imprint =>
    exact yields_display.bind fun _ _ _ _ _ =>
      yields_pure fun _ => stores_singleton validAll_nil

end Deed

/-- All values that a statement stores are valid. -/
theorem Form.yields_stores {D : Discipline} {scope : Scope} {r : Resources} {g : Groups}
    (form : Form) : Eval.Yields D scope r (form.effects g) D.Stores := by
  cases form with
  | computation c =>
    exact (c.yields_computed).bind fun _ _ _ _ hv => Eval.yields_pure fun _ =>
      Discipline.stores_singleton (Discipline.validAll_singleton hv)
  | deed d => exact d.yields_stores

end Grimoire
