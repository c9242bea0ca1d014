import Grimoire.Proofs.Blind.Expressions
import Grimoire.Proofs.Evaluation.Computations
import Grimoire.Statement

/-!
# Statements are blind

What a statement works out from its operands, and the effects that it comes to, do not depend on
the time patterns that have been prepared.
-/

namespace Grimoire

open Eval Groups

/-! ## Computations -/

namespace Computation

variable (g : Groups)

/-! ### Texts -/

theorem blind_onText (f : Text → Text) : Eval.Blind (onText f g) :=
  (g.blind_display 1).bind fun _ => blind_pure _

theorem blind_replaced : Eval.Blind (replaced g) := by
  apply (g.blind_display 1).bind
  intro old
  apply (g.blind_display 2).bind
  intro source
  exact (g.blind_display 3).bind fun _ => blind_pure _

theorem blind_literalTest (test : Text → Text → Bool) : Eval.Blind (literalTest test g) :=
  (g.blind_display 1).bind fun _ => blind_pure _

theorem blind_chanted : Eval.Blind (chanted g) := by
  apply (g.blind_display 1).bind
  intro text
  apply (g.blind_integer 2).bind
  intro times
  exact (blind_lift (Work.blind_ofRange _)).bind fun _ => blind_pure _

theorem blind_carved : Eval.Blind (carved g) := by
  apply (g.blind_display 1).bind
  intro text
  apply (g.blind_number 2).bind
  intro start
  exact (g.blind_integer 3).bind fun _ => blind_pure _

theorem blind_counted : Eval.Blind (counted g) := by
  apply (g.blind_display 1).bind
  intro needle
  exact (g.blind_display 2).bind fun _ => blind_pure _

theorem blind_linesOf : Eval.Blind (linesOf g) :=
  (g.blind_display 1).bind fun _ => blind_newSequence _

theorem blind_joinedLines : Eval.Blind (joinedLines g) := by
  apply (g.blind_items 1 _).bind
  intro items
  exact blind_store.bind fun _ => blind_pure _

theorem blind_woven : Eval.Blind (woven g) := by
  apply (g.blind_value 1).bind
  intro v
  apply (g.blind_display 2).bind
  intro separator
  apply (blind_itemsOf _ v).bind
  intro items
  exact blind_store.bind fun _ => blind_pure _

theorem blind_containment : Eval.Blind (containment g) := by
  apply (g.blind_value 1).bind
  intro needle
  apply (g.blind_value 2).bind
  intro haystack
  exact blind_store.bind fun _ => blind_pure _

theorem blind_padded (side : Side) : Eval.Blind (padded side g) := by
  apply (g.blind_display 1).bind
  intro text
  apply (g.blind_integer 2).bind
  intro width
  apply (g.blind_ifPresent 3 (g.blind_display 3)).bind
  intro fill
  exact (blind_lift (Work.blind_ofRange _)).bind fun _ => blind_pure _

theorem blind_encoded : Eval.Blind (encoded g) := by
  apply (g.blind_value 1).bind
  intro v
  exact (blind_lift (Work.blind_encode v)).bind fun _ => blind_pure _

theorem blind_decoded : Eval.Blind (decoded g) :=
  (g.blind_display 1).bind fun text => blind_lift (Work.blind_decode text)

/-! ### Arrays -/

theorem blind_onItems (user : String) (f : Store → List Value → List Value) :
    Eval.Blind (onItems user f g) := by
  apply (g.blind_items 1 user).bind
  intro items
  exact blind_store.bind fun _ => blind_newSequence _

theorem blind_drawn : Eval.Blind (drawn g) := by
  apply (g.blind_items 1 _).bind
  intro items
  apply (g.blind_integer 2).bind
  intro count
  exact (blind_lift (Work.blind_draw _)).bind fun _ => blind_newSequence _

theorem blind_fused : Eval.Blind (fused g) := by
  apply (g.blind_items 1 _).bind
  intro first
  exact (g.blind_items 2 _).bind fun _ => blind_newSequence _

theorem blind_bundled : Eval.Blind (bundled g) := by
  apply (g.blind_items 1 _).bind
  intro items
  apply (g.blind_integer 2).bind
  intro size
  exact (blind_lift (Work.blind_build _)).bind fun _ => blind_newSequence _

theorem blind_spanned : Eval.Blind (spanned g) := by
  apply (g.blind_number 1).bind
  intro first
  apply (g.blind_number 2).bind
  intro last
  apply (g.blind_ifPresent 3 (g.blind_number 3)).bind
  intro step
  exact (blind_lift (Work.blind_ofRange _)).bind fun _ => blind_newSequence _

theorem blind_summed : Eval.Blind (summed g) := by
  apply (g.blind_items 1 _).bind
  intro items
  exact blind_store.bind fun _ => blind_pure _

theorem blind_averaged : Eval.Blind (averaged g) := by
  apply (g.blind_value 1).bind
  intro v
  apply blind_store.bind
  intro s
  cases v <;> exact blind_pure _

theorem blind_extremeOf (largest : Bool) (user : String) :
    Eval.Blind (extremeOf largest user g) := by
  apply (g.blind_items 1 user).bind
  intro items
  apply blind_store.bind
  intro s
  exact (blind_lift (Work.blind_ofRange _)).bind fun _ => blind_pure _

theorem blind_sought : Eval.Blind (sought g) := by
  apply (g.blind_value 1).bind
  intro needle
  apply (g.blind_value 2).bind
  intro haystack
  apply blind_store.bind
  intro s
  cases haystack with
  | string text => exact (blind_pure _).bind fun _ => blind_pure _
  | sequence cell => exact (blind_pure _).bind fun _ => blind_pure _
  | _ => exact (blind_failType _).bind fun _ => blind_pure _

theorem blind_taken (user : String) (f : Nat → List Value → List Value) :
    Eval.Blind (taken user f g) := by
  apply (g.blind_integer 1).bind
  intro count
  exact (g.blind_items 2 user).bind fun _ => blind_newSequence _

/-! ### Shapes -/

theorem blind_itemsAndShape (user : String) : Eval.Blind (itemsAndShape user g) := by
  apply (g.blind_items 1 user).bind
  intro items
  apply (g.blind_value 2).bind
  intro v
  exact (blind_shapeOf user v).bind fun _ => blind_pure _

theorem blind_mapFrom (s : Shape) (place : Nat) (items : List Value) :
    Eval.Blind (mapFrom s place items) := by
  induction items generalizing place with
  | nil => exact blind_pure _
  | cons v rest ih =>
    apply (blind_callShape s _).bind
    intro image
    exact (ih (place + 1)).bind fun _ => blind_pure _

theorem blind_filterFrom (s : Shape) (place : Nat) (items : List Value) :
    Eval.Blind (filterFrom s place items) := by
  induction items generalizing place with
  | nil => exact blind_pure _
  | cons v rest ih =>
    apply (blind_callShape s _).bind
    intro verdict
    apply blind_store.bind
    intro store
    exact (ih (place + 1)).bind fun _ => blind_pure _

theorem blind_foldFrom (s : Shape) (place : Nat) (result : Value) (items : List Value) :
    Eval.Blind (foldFrom s place result items) := by
  induction items generalizing place result with
  | nil => exact blind_pure _
  | cons v rest ih =>
    apply (blind_callShape s _).bind
    intro next
    exact ih (place + 1) next

theorem blind_morphed : Eval.Blind (morphed g) := by
  apply (blind_itemsAndShape g _).bind
  rintro ⟨items, s⟩
  exact (blind_mapFrom s 0 items).bind fun _ => blind_newSequence _

theorem blind_sifted : Eval.Blind (sifted g) := by
  apply (blind_itemsAndShape g _).bind
  rintro ⟨items, s⟩
  exact (blind_filterFrom s 0 items).bind fun _ => blind_newSequence _

theorem blind_distilled : Eval.Blind (distilled g) := by
  apply (blind_itemsAndShape g _).bind
  rintro ⟨items, s⟩
  exact (g.blind_value 3).bind fun result => blind_foldFrom s 0 result items

/-! ### Chance -/

theorem blind_chosen : Eval.Blind (chosen g) :=
  (blind_values _).bind fun options => blind_lift (Library.blind_pick _ options)

theorem blind_flipped : Eval.Blind (flipped g) := by
  apply (g.blind_number 1).bind
  intro p
  split
  · exact (blind_lift (Work.blind_draw _)).bind fun _ => blind_pure _
  · exact blind_lift (Work.blind_failRange _)

theorem blind_weighed : Eval.Blind (weighed g) := by
  apply (g.blind_value 1).bind
  intro first
  apply (g.blind_value 2).bind
  intro second
  apply (blind_itemsOf _ first).bind
  intro items
  apply (blind_itemsOf _ second).bind
  intro weights
  split
  · exact blind_lift (Work.blind_failRange _)
  · apply blind_store.bind
    intro s
    apply (blind_lift (Work.blind_ofRange _)).bind
    intro total
    exact (blind_lift (Work.blind_draw _)).bind fun _ => blind_pure _

/-! ### Tomes -/

theorem blind_keyHeld : Eval.Blind (keyHeld g) := by
  apply (g.blind_value 1).bind
  intro key
  apply (g.blind_value 2).bind
  intro container
  exact blind_store.bind fun _ => blind_pure _

theorem blind_keysOf : Eval.Blind (keysOf g) :=
  (g.blind_entries 1 _).bind fun _ => blind_newSequence _

theorem blind_valuesOf : Eval.Blind (valuesOf g) :=
  (g.blind_entries 1 _).bind fun _ => blind_newSequence _

theorem blind_pairsOf : Eval.Blind (pairsOf g) := by
  apply (g.blind_entries 1 _).bind
  intro entries
  exact (blind_lift (Work.blind_build _)).bind fun _ => blind_newSequence _

theorem blind_mirrored : Eval.Blind (mirrored g) :=
  (g.blind_value 1).bind fun _ => blind_lift (Work.blind_build _)

theorem blind_listedKeys (user : String) : Eval.Blind (listedKeys user g) := by
  apply (g.blind_items 1 user).bind
  intro items
  exact blind_store.bind fun _ => blind_pure _

theorem blind_entriesOrNone (slot : Nat) : Eval.Blind (entriesOrNone g slot) := by
  apply (g.blind_value slot).bind
  intro v
  cases v with
  | tome cell => exact blind_store.bind fun _ => blind_pure _
  | _ => exact blind_pure _

theorem blind_picked : Eval.Blind (picked g) := by
  apply (blind_listedKeys g _).bind
  intro keys
  exact (blind_entriesOrNone g 2).bind fun _ => blind_newTome _

theorem blind_omitted : Eval.Blind (omitted g) := by
  apply (blind_listedKeys g _).bind
  intro keys
  exact (blind_entriesOrNone g 2).bind fun _ => blind_newTome _

theorem blind_tallied : Eval.Blind (tallied g) := by
  apply (g.blind_items 1 _).bind
  intro items
  exact blind_store.bind fun _ => blind_newTome _

/-! ### Numbers and dates -/

theorem blind_onNumber (f : Number → Number) : Eval.Blind (onNumber f g) :=
  (g.blind_number 1).bind fun _ => blind_pure _

theorem blind_onNumbers (f : Number → Number → Number) : Eval.Blind (onNumbers f g) := by
  apply (g.blind_number 1).bind
  intro x
  exact (g.blind_number 2).bind fun _ => blind_pure _

theorem blind_clamped : Eval.Blind (clamped g) := by
  apply (g.blind_number 1).bind
  intro x
  apply (g.blind_number 2).bind
  intro lo
  exact (g.blind_number 3).bind fun _ => blind_pure _

theorem blind_remapped : Eval.Blind (remapped g) := by
  apply (g.blind_number 1).bind
  intro x
  apply (g.blind_number 2).bind
  intro fromLo
  apply (g.blind_number 3).bind
  intro fromHi
  apply (g.blind_number 4).bind
  intro toLo
  exact (g.blind_number 5).bind fun _ => blind_pure _

theorem blind_floatDrawn : Eval.Blind (floatDrawn g) := by
  apply (g.blind_number 1).bind
  intro a
  apply (g.blind_number 2).bind
  intro b
  exact (blind_lift (Work.blind_draw _)).bind fun _ => blind_pure _

theorem blind_now : Eval.Blind now :=
  blind_lift (Work.blind_clock fun clock => Value.timestamp clock.utc)

theorem blind_timeDecoded : Eval.Blind (timeDecoded g) :=
  (blind_lift (Work.blind_parseTime _ _)).bind fun _ => blind_pure _

theorem blind_onDate (f : Timestamp → Timestamp) : Eval.Blind (onDate f g) :=
  (g.blind_date 1).bind fun _ => blind_pure _

theorem blind_onDates (f : Timestamp → Timestamp → Number) : Eval.Blind (onDates f g) := by
  apply (g.blind_date 1).bind
  intro a
  exact (g.blind_date 2).bind fun _ => blind_pure _

theorem blind_formatted : Eval.Blind (formatted g) :=
  (g.blind_date 1).bind fun _ => blind_pure _

/-! ### Every computation -/

theorem blind_essence : Eval.Blind (essence g) :=
  (g.blind_value 1).bind fun _ => blind_pure _

theorem blind_emptiness : Eval.Blind (emptiness g) := by
  apply (g.blind_value 1).bind
  intro v
  exact blind_store.bind fun _ => blind_pure _

theorem blind_invoked : Eval.Blind (invoked g) :=
  (blind_values _).bind fun args => blind_callLibrary _ _ args

theorem blind_computed (c : Computation) : Eval.Blind (c.value g) := by
  cases c with
  | assign => exact g.blind_value 2
  | invokeInto => exact blind_invoked g
  | transmute => exact blind_replaced g
  | shear | shearLeft | shearRight | ascend | descend | crownTitle => exact blind_onText g _
  | beginsInto | endsInto => exact blind_literalTest g _
  | chant => exact blind_chanted g
  | carve => exact blind_carved g
  | countOf => exact blind_counted g
  | fractureLines => exact blind_linesOf g
  | bindLines => exact blind_joinedLines g
  | weave => exact blind_woven g
  | containsInto => exact blind_containment g
  | padLeft | padRight | padCenter => exact blind_padded g _
  | drawFrom => exact blind_drawn g
  | fuse => exact blind_fused g
  | unfold | unique => exact blind_onItems g _ _
  | bundle => exact blind_bundled g
  | span => exact blind_spanned g
  | sum => exact blind_summed g
  | average => exact blind_averaged g
  | min | max => exact blind_extremeOf g _ _
  | seek => exact blind_sought g
  | takeFirst | takeLast =>
    rw [value]
    exact blind_taken g _ _
  | holdsKeyInto => exact blind_keyHeld g
  | glyphs => exact blind_keysOf g
  | essences => exact blind_valuesOf g
  | pairs => exact blind_pairsOf g
  | mirror => exact blind_mirrored g
  | pickKeys => exact blind_picked g
  | omitKeys => exact blind_omitted g
  | tally => exact blind_tallied g
  | morph => exact blind_morphed g
  | sift => exact blind_sifted g
  | distill => exact blind_distilled g
  | remainder | raise => exact blind_onNumbers g _
  | clamp => exact blind_clamped g
  | round | floor | ceil | abs => exact blind_onNumber g _
  | mapRange => exact blind_remapped g
  | drawFloat => exact blind_floatDrawn g
  | nowUtc => exact blind_now
  | decodeTime => exact blind_timeDecoded g
  | dawnOf | duskOf => exact blind_onDate g _
  | gapDays | gapSeconds => exact blind_onDates g _
  | format => exact blind_formatted g
  | encodeJson => exact blind_encoded g
  | decodeJson => exact blind_decoded g
  | essenceOf => exact blind_essence g
  | isVoid => exact blind_emptiness g
  | choose => exact blind_chosen g
  | flip => exact blind_flipped g
  | weightedDraw => exact blind_weighed g

end Computation

/-! ## Deeds -/

namespace Deed

variable (g : Groups)

theorem blind_refuseSealed (operand : Text) : Eval.Blind (refuseSealed operand) := by
  apply blind_read.bind
  intro scope
  split
  · exact blind_fail _
  · exact blind_pure _

theorem blind_arrayCell (user : String) (v : Value) : Eval.Blind (arrayCell user v) := by
  cases v with
  | sequence cell => exact blind_pure cell
  | _ => exact blind_failType _

theorem blind_tomeCell (user : String) (v : Value) : Eval.Blind (tomeCell user v) := by
  cases v with
  | tome cell => exact blind_pure cell
  | _ => exact blind_failType _

theorem blind_namedCell (user : String) (name : Text) : Eval.Blind (namedCell user name) := by
  apply blind_read.bind
  intro scope
  split
  · exact blind_fail _
  · split
    · exact blind_pure _
    · exact blind_failType _

theorem blind_refuseCycle (user : String) (v container : Value) :
    Eval.Blind (refuseCycle user v container) := by
  apply blind_store.bind
  intro s
  split
  · exact blind_failType _
  · exact blind_pure _

theorem blind_editItems (user : String) {edit : List Value → Eval (List Value)}
    (hedit : ∀ items, Eval.Blind (edit items)) : Eval.Blind (editItems user g edit) := by
  apply (blind_refuseSealed _).bind
  intro _
  apply (g.blind_value 1).bind
  intro v
  apply (blind_arrayCell user v).bind
  intro cell
  apply blind_store.bind
  intro s
  exact (hedit _).bind fun _ => blind_pure _

theorem blind_pathSet : Eval.Blind (pathSet g) := by
  apply (g.blind_value 2).bind
  intro v
  split
  · exact blind_pure _
  · exact blind_pure _

theorem blind_boundInFront : Eval.Blind (boundInFront g) := by
  apply (g.blind_value 1).bind
  intro v
  apply (blind_namedCell _ _).bind
  intro cell
  apply (blind_refuseCycle _ v _).bind
  intro _
  exact blind_store.bind fun _ => blind_pure _

theorem blind_firstPlucked : Eval.Blind (firstPlucked g) := by
  apply (blind_namedCell _ _).bind
  intro cell
  apply blind_store.bind
  intro s
  split
  · exact blind_pure _
  · exact blind_pure _

theorem blind_flooded : Eval.Blind (flooded g) := by
  apply (g.blind_value 2).bind
  intro v
  apply (blind_namedCell _ _).bind
  intro cell
  apply (blind_refuseCycle _ v _).bind
  intro _
  exact blind_store.bind fun _ => blind_pure _

theorem blind_keyPlucked : Eval.Blind (keyPlucked g) := by
  apply (blind_refuseSealed _).bind
  intro _
  apply (g.blind_display 1).bind
  intro key
  apply (g.blind_value 2).bind
  intro v
  apply (blind_tomeCell _ v).bind
  intro cell
  exact blind_store.bind fun _ => blind_pure _

theorem blind_rebranded : Eval.Blind (rebranded g) := by
  apply (blind_refuseSealed _).bind
  intro _
  apply (g.blind_display 1).bind
  intro old
  apply (g.blind_display 2).bind
  intro new
  apply (g.blind_value 3).bind
  intro v
  apply (blind_tomeCell _ v).bind
  intro cell
  exact blind_store.bind fun _ => blind_pure _

theorem blind_melded : Eval.Blind (melded g) := by
  apply (blind_refuseSealed _).bind
  intro _
  apply (g.blind_value 1).bind
  intro v
  apply (blind_tomeCell _ v).bind
  intro source
  apply (g.blind_value 2).bind
  intro w
  apply (blind_tomeCell _ w).bind
  intro cell
  split
  · exact blind_pure _
  · apply (blind_refuseCycle _ _ _).bind
    intro _
    exact blind_store.bind fun _ => blind_pure _

theorem blind_shownAll : ∀ pieces : List Ink, Eval.Blind (Ink.shownAll pieces)
  | [] => blind_pure _
  | piece :: rest => by
    have hpiece : Eval.Blind piece.shown := by
      cases piece with
      | plain text => exact blind_pure _
      | expr text => exact Eval.blind_display text
    apply hpiece.bind
    intro first
    exact (blind_shownAll rest).bind fun _ => blind_pure _

theorem blind_effects (d : Deed) : Eval.Blind (d.effects g) := by
  cases d with
  | setPath => exact blind_pathSet g
  | sealName => exact (g.blind_value 2).bind fun _ => blind_pure _
  | reveal => exact (blind_shownAll _).bind fun _ => blind_pure _
  | summon => exact blind_pure _
  | stir =>
    rw [effects]
    exact blind_editItems g _ fun items => blind_lift (Work.blind_draw _)
  | bindFront => exact blind_boundInFront g
  | pluckFirst => exact blind_firstPlucked g
  | flood => exact blind_flooded g
  | sort =>
    rw [effects, sorted]
    exact blind_editItems g _ fun items => blind_store.bind fun _ => blind_pure _
  | reverse =>
    rw [effects]
    exact blind_editItems g _ fun items => blind_pure _
  | pluckKey => exact blind_keyPlucked g
  | rebrand => exact blind_rebranded g
  | meld => exact blind_melded g
  | scribe | imprint => exact (g.blind_display 1).bind fun _ => blind_pure _

end Deed

/-- The effects of a statement do not depend on the time patterns that have been prepared. -/
theorem Form.blind_effects (form : Form) (g : Groups) : Eval.Blind (form.effects g) := by
  cases form with
  | computation c => exact (c.blind_computed g).bind fun _ => blind_pure _
  | deed d => exact d.blind_effects g

end Grimoire
