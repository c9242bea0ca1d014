import Grimoire.Computation
import Grimoire.Proofs.Evaluation.Expressions

/-!
# What the computations of statements keep

Whatever a statement works out from its operands is a value of the scope, an element of one, or
fresh.
-/

namespace Grimoire

namespace Computation

open Discipline Eval Groups

variable {D : Discipline} {scope : Scope} {r : Resources} {g : Groups}

/-! ## Texts -/

theorem yields_onText {f : Text → Text} : Yields D scope r (onText f g) D.valid :=
  yields_display.bind fun _ _ _ _ _ => yields_pure_scalar rfl

theorem yields_replaced : Yields D scope r (replaced g) D.valid :=
  yields_display.bind fun _ _ _ _ _ => yields_display.bind fun _ _ _ _ _ =>
    yields_display.bind fun _ _ _ _ _ => yields_pure_scalar rfl

theorem yields_literalTest {test : Text → Text → Bool} :
    Yields D scope r (literalTest test g) D.valid :=
  yields_display.bind fun _ _ _ _ _ => yields_pure_scalar rfl

theorem yields_chanted : Yields D scope r (chanted g) D.valid :=
  yields_display.bind fun _ _ _ _ _ => yields_integer.bind fun _ _ _ _ _ =>
    (yields_lift Work.yields_ofRange).bind fun _ _ _ _ _ => yields_pure_scalar rfl

theorem yields_carved : Yields D scope r (carved g) D.valid :=
  yields_display.bind fun _ _ _ _ _ => yields_number.bind fun _ _ _ _ _ =>
    yields_integer.bind fun _ _ _ _ _ => yields_pure_scalar rfl

theorem yields_counted : Yields D scope r (counted g) D.valid :=
  yields_display.bind fun _ _ _ _ _ => yields_display.bind fun _ _ _ _ _ =>
    yields_pure_scalar rfl

theorem yields_linesOf : Yields D scope r (linesOf g) D.valid :=
  yields_display.bind fun _ _ _ _ _ => yields_newSequence (validAll_map fun _ => rfl)

theorem yields_joinedLines : Yields D scope r (joinedLines g) D.valid :=
  yields_items.bind fun _ _ _ _ _ => yields_store_bind (yields_pure_scalar rfl)

theorem yields_woven : Yields D scope r (woven g) D.valid := by
  refine yields_value.bind fun v r₁ _ _ hv => ?_
  refine yields_display.bind fun separator r₂ grown _ _ => ?_
  refine (yields_itemsOf (D.valid_of_extends grown.store hv)).bind fun _ _ _ _ _ => ?_
  exact yields_store_bind (yields_pure_scalar rfl)

theorem yields_containment : Yields D scope r (containment g) D.valid :=
  yields_value.bind fun _ _ _ _ _ => yields_value.bind fun _ _ _ _ _ =>
    yields_store_bind (yields_pure_scalar rfl)

theorem yields_padded {side : Side} : Yields D scope r (padded side g) D.valid :=
  yields_display.bind fun _ _ _ _ _ => yields_integer.bind fun _ _ _ _ _ =>
    (yields_ifPresent yields_display).bind fun _ _ _ _ _ =>
      (yields_lift Work.yields_ofRange).bind fun _ _ _ _ _ => yields_pure_scalar rfl

theorem yields_encoded : Yields D scope r (encoded g) D.valid :=
  yields_value.bind fun _ _ _ _ _ =>
    (yields_lift Work.yields_encode).bind fun _ _ _ _ _ => yields_pure_scalar rfl

theorem yields_decoded : Yields D scope r (decoded g) D.valid :=
  yields_display.bind fun _ _ _ _ _ => yields_lift Work.yields_decode

/-! ## Arrays -/

theorem yields_onItems {user : String} {f : Store → List Value → List Value}
    (hf : ∀ {s items}, D.sound s → D.ValidAll s items → D.ValidAll s (f s items)) :
    Yields D scope r (onItems user f g) D.valid :=
  yields_items.bind fun _ _ _ admits hitems =>
    yields_store_bind (yields_newSequence (hf admits.sound hitems))

theorem yields_drawn : Yields D scope r (drawn g) D.valid := by
  refine yields_items.bind fun items r₁ _ _ hitems => ?_
  refine yields_integer.bind fun count r₂ grown _ _ => ?_
  refine (yields_lift Work.yields_draw).bind fun shuffled r₃ grown' _ hshuffled => ?_
  obtain ⟨x, rfl⟩ := hshuffled
  refine yields_newSequence ((hitems.mono (grown.trans grown').store).subset fun v hv => ?_)
  exact (Xorshift.shuffle_perm items x).subset (List.mem_of_mem_take hv)

theorem yields_fused : Yields D scope r (fused g) D.valid := by
  refine yields_items.bind fun first r₁ _ _ hfirst => ?_
  refine yields_items.bind fun second r₂ grown _ hsecond => ?_
  exact yields_newSequence ((hfirst.mono grown.store).append hsecond)

theorem yields_bundled : Yields D scope r (bundled g) D.valid := by
  refine yields_items.bind fun items r₁ _ _ hitems => ?_
  refine yields_integer.bind fun size r₂ grown _ _ => ?_
  have hchunks : ∀ piece ∈ Collection.chunks size items, D.ValidAll r₂.store piece :=
    fun piece hpiece => (hitems.mono grown.store).subset (Collection.mem_of_mem_chunks hpiece)
  refine (yields_lift (Work.yields_build fun hs =>
    Collection.built_newSequences hs hchunks)).bind fun pieces r₃ _ _ hpieces => ?_
  exact yields_newSequence hpieces

theorem yields_spanned : Yields D scope r (spanned g) D.valid :=
  yields_number.bind fun _ _ _ _ _ => yields_number.bind fun _ _ _ _ _ =>
    (yields_ifPresent yields_number).bind fun _ _ _ _ _ =>
      (yields_lift Work.yields_ofRange).bind fun _ _ _ _ _ =>
        yields_newSequence (validAll_map fun _ => rfl)

theorem yields_summed : Yields D scope r (summed g) D.valid :=
  yields_items.bind fun _ _ _ _ _ => yields_store_bind (yields_pure_scalar rfl)

theorem yields_averaged : Yields D scope r (averaged g) D.valid := by
  refine yields_value.bind fun v r₁ _ _ _ => yields_store_bind ?_
  cases v <;> exact yields_pure_scalar rfl

theorem yields_extremeOf {largest : Bool} {user : String} :
    Yields D scope r (extremeOf largest user g) D.valid :=
  yields_items.bind fun _ _ _ _ _ => yields_store_bind
    ((yields_lift Work.yields_ofRange).bind fun _ _ _ _ _ => yields_pure_scalar rfl)

theorem yields_sought : Yields D scope r (sought g) D.valid := by
  refine yields_value.bind fun needle r₁ _ _ _ => ?_
  refine yields_value.bind fun haystack r₂ _ _ _ => yields_store_bind ?_
  cases haystack with
  | string text => exact yields_pure_scalar rfl
  | sequence cell => exact yields_pure_scalar rfl
  | _ => exact yields_failType

theorem yields_taken {user : String} {f : Nat → List Value → List Value}
    (hf : ∀ count items, f count items ⊆ items) : Yields D scope r (taken user f g) D.valid :=
  yields_integer.bind fun _ _ _ _ _ => yields_items.bind fun _ _ _ _ hitems =>
    yields_newSequence (hitems.subset (hf _ _))

/-! ## Shapes -/

theorem validAll_argumentsFor {s : Store} {shape : Shape} {room place : Nat} {args : List Value}
    (h : D.ValidAll s args) : D.ValidAll s (argumentsFor shape room args place) := by
  unfold argumentsFor
  split
  · exact h.append (.cons (D.valid_of_isScalar rfl) validAll_nil)
  · exact h

theorem yields_itemsAndShape {user : String} :
    Yields D scope r (itemsAndShape user g) fun s pair => D.ValidAll s pair.1 := by
  refine yields_items.bind fun items r₁ _ _ hitems => ?_
  refine yields_value.bind fun v r₂ grown _ _ => ?_
  refine yields_shapeOf.bind fun shape r₃ grown' _ _ => yields_pure fun _ => ?_
  exact hitems.mono (grown.trans grown').store

theorem yields_mapFrom {shape : Shape} {place : Nat} {items : List Value}
    (h : D.ValidAll r.store items) :
    Yields D scope r (mapFrom shape place items) D.ValidAll := by
  induction items generalizing place r with
  | nil => exact yields_pure fun _ => validAll_nil
  | cons v rest ih =>
    have hv : D.ValidAll r.store [v] := .cons (h v List.mem_cons_self) validAll_nil
    have hrest : D.ValidAll r.store rest := h.subset (List.subset_cons_self v rest)
    refine (yields_callShape (validAll_argumentsFor hv)).bind fun image r₁ grown _ himage => ?_
    refine (ih (hrest.mono grown.store)).bind fun images r₂ grown' _ himages => ?_
    exact yields_pure fun _ => .cons (D.valid_of_extends grown'.store himage) himages

theorem yields_filterFrom {shape : Shape} {place : Nat} {items : List Value}
    (h : D.ValidAll r.store items) :
    Yields D scope r (filterFrom shape place items) D.ValidAll := by
  induction items generalizing place r with
  | nil => exact yields_pure fun _ => validAll_nil
  | cons v rest ih =>
    have hv : D.ValidAll r.store [v] := .cons (h v List.mem_cons_self) validAll_nil
    have hrest : D.ValidAll r.store rest := h.subset (List.subset_cons_self v rest)
    refine (yields_callShape (validAll_argumentsFor hv)).bind fun verdict r₁ grown _ _ => ?_
    refine yields_store_bind ?_
    refine (ih (hrest.mono grown.store)).bind fun more r₂ grown' _ hmore => ?_
    refine yields_pure fun _ => ?_
    split
    · exact .cons (D.valid_of_extends (grown.trans grown').store (h v List.mem_cons_self)) hmore
    · exact hmore

theorem yields_foldFrom {shape : Shape} {place : Nat} {result : Value} {items : List Value}
    (hresult : D.valid r.store result) (h : D.ValidAll r.store items) :
    Yields D scope r (foldFrom shape place result items) D.valid := by
  induction items generalizing place result r with
  | nil => exact yields_pure fun _ => hresult
  | cons v rest ih =>
    have hargs : D.ValidAll r.store [result, v] :=
      .cons hresult (.cons (h v List.mem_cons_self) validAll_nil)
    have hrest : D.ValidAll r.store rest := h.subset (List.subset_cons_self v rest)
    refine (yields_callShape (validAll_argumentsFor hargs)).bind fun next r₁ grown _ hnext => ?_
    exact ih hnext (hrest.mono grown.store)

theorem yields_morphed : Yields D scope r (morphed g) D.valid :=
  yields_itemsAndShape.bind fun _ _ _ _ hitems =>
    (yields_mapFrom hitems).bind fun _ _ _ _ himages => yields_newSequence himages

theorem yields_sifted : Yields D scope r (sifted g) D.valid :=
  yields_itemsAndShape.bind fun _ _ _ _ hitems =>
    (yields_filterFrom hitems).bind fun _ _ _ _ hkept => yields_newSequence hkept

theorem yields_distilled : Yields D scope r (distilled g) D.valid :=
  yields_itemsAndShape.bind fun _ _ _ _ hitems =>
    yields_value.bind fun _ _ grown _ hresult =>
      yields_foldFrom hresult (hitems.mono grown.store)

/-! ## Chance -/

theorem yields_chosen : Yields D scope r (chosen g) D.valid :=
  yields_values.bind fun _ _ _ _ hoptions => yields_lift (Library.yields_pick hoptions)

theorem yields_flipped : Yields D scope r (flipped g) D.valid := by
  refine yields_number.bind fun p r₁ _ _ _ => ?_
  split
  · exact (yields_lift Work.yields_draw).bind fun _ _ _ _ _ => yields_pure_scalar rfl
  · exact yields_lift Work.yields_failRange

theorem yields_weighed : Yields D scope r (weighed g) D.valid := by
  refine yields_value.bind fun first r₁ _ _ hfirst => ?_
  refine yields_value.bind fun second r₂ grown _ hsecond => ?_
  refine (yields_itemsOf (D.valid_of_extends grown.store hfirst)).bind
    fun items r₃ grown' _ hitems => ?_
  refine (yields_itemsOf (D.valid_of_extends grown'.store hsecond)).bind
    fun weights r₄ grown'' _ _ => ?_
  split
  · exact yields_lift Work.yields_failRange
  · refine yields_store_bind ?_
    refine (yields_lift Work.yields_ofRange).bind fun total r₅ grown₃ _ _ => ?_
    refine (yields_lift Work.yields_draw).bind fun roll r₆ grown₄ _ _ => ?_
    have hall : r₃.store.Extends r₆.store := ((grown''.trans grown₃).trans grown₄).store
    exact yields_pure fun _ => (hitems.mono hall).getD _

/-! ## Tomes -/

theorem yields_keyHeld : Yields D scope r (keyHeld g) D.valid :=
  yields_value.bind fun _ _ _ _ _ => yields_value.bind fun _ _ _ _ _ =>
    yields_store_bind (yields_pure_scalar rfl)

theorem yields_keysOf : Yields D scope r (keysOf g) D.valid :=
  yields_entries.bind fun _ _ _ _ _ => yields_newSequence (validAll_map fun _ => rfl)

theorem yields_valuesOf : Yields D scope r (valuesOf g) D.valid :=
  yields_entries.bind fun _ _ _ _ hentries => yields_newSequence hentries

theorem yields_pairsOf : Yields D scope r (pairsOf g) D.valid := by
  refine yields_entries.bind fun entries r₁ _ _ hentries => ?_
  refine (yields_lift (Work.yields_build fun hs => Collection.built_pairs hs hentries)).bind
    fun pairs r₂ _ _ hpairs => ?_
  exact yields_newSequence hpairs

theorem yields_mirrored : Yields D scope r (mirrored g) D.valid :=
  yields_value.bind fun _ _ _ _ hv =>
    yields_lift (Work.yields_build fun hs => Store.built_mirrorWithin hs hv)

theorem yields_listedKeys {user : String} :
    Yields D scope r (listedKeys user g) fun _ _ => True :=
  yields_items.bind fun _ _ _ _ _ => yields_store_bind (yields_pure fun _ => True.intro)

theorem yields_entriesOrNone {slot : Nat} :
    Yields D scope r (entriesOrNone g slot) D.ValidTable := by
  refine yields_value.bind fun v r₁ _ _ hv => ?_
  cases v with
  | tome cell => exact yields_store_bind (yields_pure fun hs => validTable_entries hs.sound hv)
  | _ => exact yields_pure fun _ => validTable_empty

theorem yields_picked : Yields D scope r (picked g) D.valid := by
  refine yields_listedKeys.bind fun keys r₁ _ _ _ => ?_
  refine yields_entriesOrNone.bind fun entries r₂ _ _ hentries => ?_
  refine yields_newTome (validTable_ofList fun v hv => ?_)
  obtain ⟨entry, hentry, rfl⟩ := List.mem_map.1 hv
  obtain ⟨key, -, hfound⟩ := List.mem_filterMap.1 hentry
  obtain ⟨w, hw, rfl⟩ := Option.map_eq_some_iff.1 hfound
  exact hentries.get? hw

theorem yields_omitted : Yields D scope r (omitted g) D.valid := by
  refine yields_listedKeys.bind fun keys r₁ _ _ _ => ?_
  refine yields_entriesOrNone.bind fun entries r₂ _ _ hentries => ?_
  exact yields_newTome fun v hv => hentries v (Table.mem_values_filterKeys hv)

theorem yields_tallied : Yields D scope r (tallied g) D.valid :=
  yields_items.bind fun _ _ _ _ _ =>
    yields_store_bind (yields_newTome Collection.validTable_tally)

/-! ## Numbers and dates -/

theorem yields_onNumber {f : Number → Number} : Yields D scope r (onNumber f g) D.valid :=
  yields_number.bind fun _ _ _ _ _ => yields_pure_scalar rfl

theorem yields_onNumbers {f : Number → Number → Number} :
    Yields D scope r (onNumbers f g) D.valid :=
  yields_number.bind fun _ _ _ _ _ => yields_number.bind fun _ _ _ _ _ => yields_pure_scalar rfl

theorem yields_clamped : Yields D scope r (clamped g) D.valid :=
  yields_number.bind fun _ _ _ _ _ => yields_number.bind fun _ _ _ _ _ =>
    yields_number.bind fun _ _ _ _ _ => yields_pure_scalar rfl

theorem yields_remapped : Yields D scope r (remapped g) D.valid :=
  yields_number.bind fun _ _ _ _ _ => yields_number.bind fun _ _ _ _ _ =>
    yields_number.bind fun _ _ _ _ _ => yields_number.bind fun _ _ _ _ _ =>
      yields_number.bind fun _ _ _ _ _ => yields_pure_scalar rfl

theorem yields_floatDrawn : Yields D scope r (floatDrawn g) D.valid :=
  yields_number.bind fun _ _ _ _ _ => yields_number.bind fun _ _ _ _ _ =>
    (yields_lift Work.yields_draw).bind fun _ _ _ _ _ => yields_pure_scalar rfl

theorem yields_now : Yields D scope r now D.valid :=
  (yields_lift Work.yields_get).bind fun _ _ _ _ _ => yields_pure_scalar rfl

theorem yields_timeDecoded : Yields D scope r (timeDecoded g) D.valid :=
  (yields_lift Work.yields_parseTime).bind fun _ _ _ _ _ => yields_pure_scalar rfl

theorem yields_onDate {f : Timestamp → Timestamp} : Yields D scope r (onDate f g) D.valid :=
  yields_date.bind fun _ _ _ _ _ => yields_pure_scalar rfl

theorem yields_onDates {f : Timestamp → Timestamp → Number} :
    Yields D scope r (onDates f g) D.valid :=
  yields_date.bind fun _ _ _ _ _ => yields_date.bind fun _ _ _ _ _ => yields_pure_scalar rfl

theorem yields_formatted : Yields D scope r (formatted g) D.valid :=
  yields_date.bind fun _ _ _ _ _ => yields_pure_scalar rfl

/-! ## Every computation -/

theorem yields_essence : Yields D scope r (essence g) D.valid :=
  yields_value.bind fun _ _ _ _ _ => yields_pure_scalar rfl

theorem yields_emptiness : Yields D scope r (emptiness g) D.valid :=
  yields_value.bind fun _ _ _ _ _ => yields_store_bind (yields_pure_scalar rfl)

theorem yields_invoked : Yields D scope r (invoked g) D.valid :=
  yields_values.bind fun _ _ _ _ hargs => yields_callLibrary hargs

/-- Every computation keeps every discipline. -/
theorem yields_computed (c : Computation) : Yields D scope r (c.value g) D.valid := by
  cases c with
  | assign => exact yields_value
  | invokeInto => exact yields_invoked
  | transmute => exact yields_replaced
  | shear | shearLeft | shearRight | ascend | descend | crownTitle => exact yields_onText
  | beginsInto | endsInto => exact yields_literalTest
  | chant => exact yields_chanted
  | carve => exact yields_carved
  | countOf => exact yields_counted
  | fractureLines => exact yields_linesOf
  | bindLines => exact yields_joinedLines
  | weave => exact yields_woven
  | containsInto => exact yields_containment
  | padLeft | padRight | padCenter => exact yields_padded
  | drawFrom => exact yields_drawn
  | fuse => exact yields_fused
  | unfold => exact yields_onItems Collection.validAll_flattenOnce
  | bundle => exact yields_bundled
  | span => exact yields_spanned
  | sum => exact yields_summed
  | average => exact yields_averaged
  | min | max => exact yields_extremeOf
  | unique => exact yields_onItems fun _ hv => hv.subset (Collection.dedupe_subset _ _)
  | seek => exact yields_sought
  | takeFirst =>
    rw [value]
    exact yields_taken fun count items => List.take_subset count items
  | takeLast =>
    rw [value]
    exact yields_taken fun count items => List.drop_subset _ items
  | holdsKeyInto => exact yields_keyHeld
  | glyphs => exact yields_keysOf
  | essences => exact yields_valuesOf
  | pairs => exact yields_pairsOf
  | mirror => exact yields_mirrored
  | pickKeys => exact yields_picked
  | omitKeys => exact yields_omitted
  | tally => exact yields_tallied
  | morph => exact yields_morphed
  | sift => exact yields_sifted
  | distill => exact yields_distilled
  | remainder | raise => exact yields_onNumbers
  | clamp => exact yields_clamped
  | round | floor | ceil | abs => exact yields_onNumber
  | mapRange => exact yields_remapped
  | drawFloat => exact yields_floatDrawn
  | nowUtc => exact yields_now
  | decodeTime => exact yields_timeDecoded
  | dawnOf | duskOf => exact yields_onDate
  | gapDays | gapSeconds => exact yields_onDates
  | format => exact yields_formatted
  | encodeJson => exact yields_encoded
  | decodeJson => exact yields_decoded
  | essenceOf => exact yields_essence
  | isVoid => exact yields_emptiness
  | choose => exact yields_chosen
  | flip => exact yields_flipped
  | weightedDraw => exact yields_weighed

end Computation

end Grimoire
