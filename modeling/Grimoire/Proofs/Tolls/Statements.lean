import Grimoire.Proofs.InPlace
import Grimoire.Proofs.Tolls.Expressions
import Grimoire.Statement

/-!
# What statements take of the random stream

A statement takes what its operands take. Four computations then run a library function or a shape
and take what that takes. Six statements draw themselves, so often as they rule on their arguments;
all others take nothing else.
-/

namespace Grimoire

open Eval

/-! ## Operands of statements -/

/-- The operands that a text lists. -/
def listed (s : Text) : List Input :=
  (Text.topLevelPieces s).map (⟨·, .any⟩)

/-- The operand between the markers of a piece. -/
def Ink.input? : Ink → Option Input
  | plain _ => none
  | expr text => some ⟨text, .any⟩

/-- The operands of a computation in the order of their evaluation. -/
def Computation.inputs : Computation → Groups → List Input
  | assign, g => [g.input .any 2]
  | invokeInto, g => listed (g.text 3)
  | choose, g => listed (g.text 1)
  | shear, g | shearLeft, g | shearRight, g | ascend, g | descend, g | crownTitle, g
  | beginsInto, g | endsInto, g | fractureLines, g | average, g | mirror, g | round, g | floor, g
  | ceil, g | abs, g | encodeJson, g | decodeJson, g | essenceOf, g | isVoid, g | flip, g =>
    [g.input .any 1]
  | chant, g | countOf, g | weave, g | containsInto, g | seek, g | holdsKeyInto, g | remainder, g
  | raise, g | drawFloat, g | weightedDraw, g => [g.input .any 1, g.input .any 2]
  | transmute, g | carve, g | clamp, g => [g.input .any 1, g.input .any 2, g.input .any 3]
  | padLeft, g | padRight, g | padCenter, g | span, g =>
    g.input .any 1 :: g.input .any 2 :: g.optional 3
  | mapRange, g => [g.input .any 1, g.input .any 2, g.input .any 3, g.input .any 4,
      g.input .any 5]
  | bindLines, g | unfold, g | sum, g | min, g | max, g | unique, g | tally, g =>
    [g.input .array 1]
  | drawFrom, g | bundle, g | pickKeys, g | omitKeys, g => [g.input .array 1, g.input .any 2]
  | takeFirst, g | takeLast, g => [g.input .any 1, g.input .array 2]
  | fuse, g => [g.input .array 1, g.input .array 2]
  | morph, g | sift, g => [g.input .array 1, g.input .shape 2]
  | distill, g => [g.input .array 1, g.input .shape 2, g.input .any 3]
  | glyphs, g | essences, g | pairs, g => [g.input .tome 1]
  | dawnOf, g | duskOf, g | format, g => [g.input .date 1]
  | gapDays, g | gapSeconds, g => [g.input .date 1, g.input .date 2]
  | nowUtc, _ | decodeTime, _ => []

/-- The operands of a deed in the order of their evaluation. -/
def Deed.inputs : Deed → Groups → List Input
  | setPath, g | sealName, g | flood, g => [g.input .any 2]
  | reveal, g => (Ink.pieces (g.text 1)).filterMap Ink.input?
  | bindFront, g | scribe, g | imprint, g => [g.input .any 1]
  | stir, g | sort, g | reverse, g => [g.input .array 1]
  | pluckKey, g => [g.input .any 1, g.input .tome 2]
  | rebrand, g => [g.input .any 1, g.input .any 2, g.input .tome 3]
  | meld, g => [g.input .tome 1, g.input .tome 2]
  | summon, _ | pluckFirst, _ => []

/-! ## Draws, library functions and shapes -/

/-- On the items to draw from and their weights. -/
def Ruling.onWeights (s : Store) : Value → Value → Ruling
  | .sequence items, .sequence weights =>
    if (s.items items).length ≠ (s.items weights).length then
      outOfRange (.weightCount (s.items items).length (s.items weights).length)
    else match Collection.totalWeight ((s.items weights).map s.toNumber) with
      | .ok _ => granted 1
      | .error fault => outOfRange fault
  | .sequence _, w => wrongType (.expectedArray "WeightedDraw".toList w.essence)
  | v, _ => wrongType (.expectedArray "WeightedDraw".toList v.essence)

/-- An argument as a value. -/
def Argument.value? : Argument → Option Value
  | value v => some v
  | _ => none

namespace Tariff

/-- What is due for the calls of a shape for one element after the other. -/
def callEach (s : Shape) (place : Nat) : List Value → Tariff
  | [] => free
  | v :: rest =>
    (callShape s (Computation.argumentsFor s 2 [v] place)).andThen
      (Eval.callShape s (Computation.argumentsFor s 2 [v] place))
      fun _ => callEach s (place + 1) rest

/-- What is due for the calls of a shape for the result so far and one element after the other. -/
def fold (s : Shape) (place : Nat) (result : Value) : List Value → Tariff
  | [] => free
  | v :: rest =>
    (callShape s (Computation.argumentsFor s 3 [result, v] place)).andThen
      (Eval.callShape s (Computation.argumentsFor s 3 [result, v] place))
      fun result => fold s (place + 1) result rest

/-- What is due for an operation of chance. -/
def ruled (rule : Store → Ruling) : Tariff :=
  fun _ r => (rule r.store).tolls

end Tariff

/-- What is due for a computation after its operands, by what is taken of their values. -/
def Computation.following : Computation → Groups → List Argument → Tariff
  | invokeInto, g, args => .callLibrary (g.text 1) (g.text 2) (args.filterMap Argument.value?)
  | morph, _, [.items items, .shape s] | sift, _, [.items items, .shape s] =>
    .callEach s 0 items
  | distill, _, [.items items, .shape s, .value start] => .fold s 0 start items
  | choose, _, args => .ruled fun _ => .onPool .noOptions (args.filterMap Argument.value?)
  | flip, _, [.value v] => .ruled fun s => .onProbability .flipProbability (s.toNumber v)
  | weightedDraw, _, [.value v, .value w] => .ruled fun s => .onWeights s v w
  | drawFloat, _, _ => .ruled fun _ => .granted 1
  | drawFrom, _, .items items :: _ => .ruled fun _ => .granted (items.length - 1)
  | _, _, _ => .free

/-- What is due for a deed after its operands. -/
def Deed.following : Deed → List Argument → Tariff
  | stir, [.items items] => .ruled fun _ => .granted (items.length - 1)
  | _, _ => .free

namespace Tariff

/-- What is due for a deed. A path from a sealed name is refused before anything is evaluated. -/
def deed (d : Deed) (g : Groups) : Tariff := fun scope r =>
  if (d.edited? g).any fun edited => scope.guards edited.1 then []
  else inputs (d.inputs g) d.following scope r

/-- What is due for the effects of a statement. -/
def effects : Form → Groups → Tariff
  | .computation c, g => inputs (c.inputs g) (c.following g)
  | .deed d, g => deed d g

end Tariff

/-! ## Computations -/

namespace Eval

variable {α : Type} {following : List Argument → Tariff}

/-- The computation takes what its operands take and nothing else. -/
abbrev PaysOnly (e : Eval α) (inputs : List Input) : Prop :=
  Pays e (.inputs inputs fun _ => .free)

/-- The computation rules on its arguments and does so. -/
def Heeds (e : Eval α) (rule : Store → Ruling) : Prop :=
  ∀ scope r, Work.Heeds r (e.run scope) (rule r.store)

theorem Heeds.pays {e : Eval α} {rule : Store → Ruling} (h : Heeds e rule) :
    Pays e (.ruled rule) :=
  fun scope _ r => (h scope r).pays

section

variable {scope : Scope} {r : Resources} {ruling : Ruling}

theorem heeds_store_bind {f : Store → Eval α} (h : Work.Heeds r ((f r.store).run scope) ruling) :
    Work.Heeds r ((liftM Work.store >>= f : Eval α).run scope) ruling :=
  h.of_run_eq rfl

theorem heeds_toNumber_bind {v : Value} {f : Number → Eval α}
    (h : Work.Heeds r ((f (r.store.toNumber v)).run scope) ruling) :
    Work.Heeds r ((liftM (Work.toNumber v) >>= f : Eval α).run scope) ruling :=
  h.of_run_eq rfl

theorem heeds_itemsOf_bind {user : String} {cell : Nat} {f : List Value → Eval α}
    (h : Work.Heeds r ((f (r.store.items cell)).run scope) ruling) :
    Work.Heeds r ((itemsOf user (.sequence cell) >>= f).run scope) ruling :=
  h.of_run_eq rfl

end

theorem filterMap_value? (values : List Value) :
    (values.map Argument.value).filterMap Argument.value? = values := by
  rw [List.filterMap_map]
  exact List.filterMap_some

theorem pays_values_bind {s : Text} {f : List Value → Eval α}
    (hf : ∀ values, Pays (f values) (following (values.map .value))) :
    Pays (values s >>= f) (.inputs (listed s) following) := by
  unfold values Expr.listOfText listed
  induction Text.topLevelPieces s generalizing f following with
  | nil => exact hf []
  | cons piece rest ih =>
    show Pays (Expr.evalAll (Expr.ofText piece :: rest.map Expr.ofText) >>= f) _
    rw [Expr.evalAll, bind_assoc]
    apply pays_value_bind
    intro v
    rw [bind_assoc]
    exact ih fun values => hf (v :: values)

theorem pays_value_only (text : Text) : PaysOnly (value text) [⟨text, .any⟩] := by
  have hpays : PaysOnly (value text >>= pure) [⟨text, .any⟩] :=
    pays_value_bind fun v => (still_pure v).pays
  rwa [bind_pure] at hpays

/-- What is drawn takes the draws that it makes of any stream. -/
theorem pays_draw {take : Xorshift → α × Xorshift} {draws : Nat}
    (htake : ∀ x, (take x).2 = Xorshift.step^[draws] x) :
    Pays (liftM (Work.draw take)) (.ruled fun _ => .granted draws) :=
  fun _ _ r => htake r.random

theorem pays_draw_bind {β : Type} {take : Xorshift → β × Xorshift} {draws : Nat}
    (htake : ∀ x, (take x).2 = Xorshift.step^[draws] x) {f : β → Eval α} (hf : ∀ b, Still (f b)) :
    Pays (liftM (Work.draw take) >>= f) (.ruled fun _ => .granted draws) :=
  (pays_draw htake).bind_still hf

theorem pays_shownAll_bind {pieces : List Ink} {f : Text → Eval α}
    (hf : ∀ text args, Pays (f text) (following args)) :
    Pays (Ink.shownAll pieces >>= f) (.inputs (pieces.filterMap Ink.input?) following) := by
  induction pieces generalizing f following with
  | nil => exact hf [] []
  | cons piece rest ih =>
    rw [Ink.shownAll, bind_assoc]
    cases piece with
    | plain text =>
      rw [Ink.shown, pure_bind, bind_assoc]
      exact ih fun more args => hf (text ++ more) args
    | expr text =>
      apply Reads.pays_value_bind reads_display
      intro first v
      rw [bind_assoc]
      exact ih fun more args => hf (first ++ more) (.value v :: args)

theorem still_ofRange (result : Except RangeFault α) : Still (liftM (Work.ofRange result)) :=
  still_lift (Work.still_ofRange result)

theorem still_newSequence (items : List Value) : Still (liftM (Work.newSequence items)) :=
  still_lift (Work.still_newSequence items)

theorem still_newTome (entries : Table Value) : Still (liftM (Work.newTome entries)) :=
  still_lift (Work.still_newTome entries)

theorem still_itemsOf (user : String) (v : Value) : Still (itemsOf user v) :=
  still_lift (Work.still_elements user.toList v)

end Eval

namespace Computation

variable (g : Groups)

/-! ### Texts -/

theorem pays_onText (f : Text → Text) : PaysOnly (onText f g) [g.input .any 1] :=
  g.pays_display 1 fun _ _ => (still_pure _).pays

theorem pays_replaced :
    PaysOnly (replaced g) [g.input .any 1, g.input .any 2, g.input .any 3] := by
  apply g.pays_display 1
  intro old _
  apply g.pays_display 2
  intro source _
  exact g.pays_display 3 fun _ _ => (still_pure _).pays

theorem pays_literalTest (test : Text → Text → Bool) :
    PaysOnly (literalTest test g) [g.input .any 1] :=
  g.pays_display 1 fun _ _ => (still_pure _).pays

theorem pays_chanted : PaysOnly (chanted g) [g.input .any 1, g.input .any 2] := by
  apply g.pays_display 1
  intro text _
  apply g.pays_integer 2
  intro times _
  exact ((still_ofRange _).bind fun _ => still_pure _).pays

theorem pays_carved :
    PaysOnly (carved g) [g.input .any 1, g.input .any 2, g.input .any 3] := by
  apply g.pays_display 1
  intro text _
  apply g.pays_number 2
  intro start _
  exact g.pays_integer 3 fun _ _ => (still_pure _).pays

theorem pays_counted : PaysOnly (counted g) [g.input .any 1, g.input .any 2] := by
  apply g.pays_display 1
  intro needle _
  exact g.pays_display 2 fun _ _ => (still_pure _).pays

theorem pays_linesOf : PaysOnly (linesOf g) [g.input .any 1] :=
  g.pays_display 1 fun _ _ => (still_newSequence _).pays

theorem pays_joinedLines : PaysOnly (joinedLines g) [g.input .array 1] :=
  g.pays_items 1 fun _ => (still_store.bind fun _ => still_pure _).pays

theorem pays_woven : PaysOnly (woven g) [g.input .any 1, g.input .any 2] := by
  apply g.pays_value 1
  intro v
  -- the first operand need not be an array for the separator to be evaluated
  apply g.pays_display 2
  intro separator _
  exact ((still_itemsOf _ v).bind fun _ => still_store.bind fun _ => still_pure _).pays

theorem pays_containment : PaysOnly (containment g) [g.input .any 1, g.input .any 2] := by
  apply g.pays_value 1
  intro needle
  exact g.pays_value 2 fun _ => (still_store.bind fun _ => still_pure _).pays

theorem pays_padded (side : Side) :
    PaysOnly (padded side g) (g.input .any 1 :: g.input .any 2 :: g.optional 3) := by
  apply g.pays_display 1
  intro text _
  apply g.pays_integer 2
  intro width _
  exact g.pays_ifPresent 3 reads_display fun fill _ =>
    ((still_ofRange _).bind fun _ => still_pure _).pays

theorem pays_encoded : PaysOnly (encoded g) [g.input .any 1] :=
  g.pays_value 1 fun v => ((still_lift (Work.still_encode v)).bind fun _ => still_pure _).pays

theorem pays_decoded : PaysOnly (decoded g) [g.input .any 1] :=
  g.pays_display 1 fun text _ => (still_lift (Work.still_decode text)).pays

/-! ### Arrays -/

theorem pays_onItems (user : String) (f : Store → List Value → List Value) :
    PaysOnly (onItems user f g) [g.input .array 1] :=
  g.pays_items 1 fun _ => (still_store.bind fun _ => still_newSequence _).pays

theorem pays_fused : PaysOnly (fused g) [g.input .array 1, g.input .array 2] := by
  apply g.pays_items 1
  intro first
  exact g.pays_items 2 fun _ => (still_newSequence _).pays

theorem pays_bundled : PaysOnly (bundled g) [g.input .array 1, g.input .any 2] := by
  apply g.pays_items 1
  intro items
  apply g.pays_integer 2
  intro size _
  exact ((still_lift (Work.still_build _)).bind fun _ => still_newSequence _).pays

theorem pays_spanned :
    PaysOnly (spanned g) (g.input .any 1 :: g.input .any 2 :: g.optional 3) := by
  apply g.pays_number 1
  intro first _
  apply g.pays_number 2
  intro last _
  exact g.pays_ifPresent 3 reads_toNumber fun step _ =>
    ((still_ofRange _).bind fun _ => still_newSequence _).pays

theorem pays_summed : PaysOnly (summed g) [g.input .array 1] :=
  g.pays_items 1 fun _ => (still_store.bind fun _ => still_pure _).pays

theorem pays_averaged : PaysOnly (averaged g) [g.input .any 1] := by
  apply g.pays_value 1
  intro v
  cases v <;> exact (still_store.bind fun _ => still_pure _).pays

theorem pays_extremeOf (largest : Bool) (user : String) :
    PaysOnly (extremeOf largest user g) [g.input .array 1] :=
  g.pays_items 1 fun _ =>
    (still_store.bind fun _ => (still_ofRange _).bind fun _ => still_pure _).pays

theorem pays_sought : PaysOnly (sought g) [g.input .any 1, g.input .any 2] := by
  apply g.pays_value 1
  intro needle
  apply g.pays_value 2
  intro haystack
  apply Still.pays
  apply still_store.bind
  intro s
  cases haystack with
  | string text | sequence cell => exact (still_pure _).bind fun _ => still_pure _
  | _ => exact (still_fail _).bind fun _ => still_pure _

theorem pays_taken (user : String) (f : Nat → List Value → List Value) :
    PaysOnly (taken user f g) [g.input .any 1, g.input .array 2] := by
  apply g.pays_integer 1
  intro count _
  exact g.pays_items 2 fun _ => (still_newSequence _).pays

/-! ### Tomes -/

theorem pays_keyHeld : PaysOnly (keyHeld g) [g.input .any 1, g.input .any 2] := by
  apply g.pays_value 1
  intro key
  exact g.pays_value 2 fun _ => (still_store.bind fun _ => still_pure _).pays

theorem pays_keysOf : PaysOnly (keysOf g) [g.input .tome 1] :=
  g.pays_entries 1 fun _ => (still_newSequence _).pays

theorem pays_valuesOf : PaysOnly (valuesOf g) [g.input .tome 1] :=
  g.pays_entries 1 fun _ => (still_newSequence _).pays

theorem pays_pairsOf : PaysOnly (pairsOf g) [g.input .tome 1] :=
  g.pays_entries 1 fun _ =>
    ((still_lift (Work.still_build _)).bind fun _ => still_newSequence _).pays

theorem pays_mirrored : PaysOnly (mirrored g) [g.input .any 1] :=
  g.pays_value 1 fun _ => (still_lift (Work.still_build _)).pays

/-- A computation with the keys that are listed and the entries of an operand, if it is a tome. -/
theorem pays_listedKeys {α : Type} {user : String} {f : List Text → Table Value → Eval α}
    (hf : ∀ keys entries, Still (f keys entries)) :
    PaysOnly (do
      let keys ← listedKeys user g
      let entries ← entriesOrNone g 2
      f keys entries) [g.input .array 1, g.input .any 2] := by
  unfold listedKeys entriesOrNone
  simp only [bind_assoc]
  apply g.pays_items 1
  intro items
  apply reads_store.pays_bind
  intro s
  rw [pure_bind]
  apply g.pays_value 2
  intro v
  -- what is no tome has no entries, so it is not refused
  cases v with
  | tome cell => exact (still_store.bind fun _ => (still_pure _).bind fun _ => hf _ _).pays
  | _ => exact ((still_pure _).bind fun _ => hf _ _).pays

theorem pays_picked : PaysOnly (picked g) [g.input .array 1, g.input .any 2] :=
  pays_listedKeys g fun _ _ => still_newTome _

theorem pays_omitted : PaysOnly (omitted g) [g.input .array 1, g.input .any 2] :=
  pays_listedKeys g fun _ _ => still_newTome _

theorem pays_tallied : PaysOnly (tallied g) [g.input .array 1] :=
  g.pays_items 1 fun _ => (still_store.bind fun _ => still_newTome _).pays

/-! ### Numbers and dates -/

theorem pays_onNumber (f : Number → Number) : PaysOnly (onNumber f g) [g.input .any 1] :=
  g.pays_number 1 fun _ _ => (still_pure _).pays

theorem pays_onNumbers (f : Number → Number → Number) :
    PaysOnly (onNumbers f g) [g.input .any 1, g.input .any 2] := by
  apply g.pays_number 1
  intro x _
  exact g.pays_number 2 fun _ _ => (still_pure _).pays

theorem pays_clamped :
    PaysOnly (clamped g) [g.input .any 1, g.input .any 2, g.input .any 3] := by
  apply g.pays_number 1
  intro x _
  apply g.pays_number 2
  intro lo _
  exact g.pays_number 3 fun _ _ => (still_pure _).pays

theorem pays_remapped : PaysOnly (remapped g) [g.input .any 1, g.input .any 2,
    g.input .any 3, g.input .any 4, g.input .any 5] := by
  apply g.pays_number 1
  intro x _
  apply g.pays_number 2
  intro fromLo _
  apply g.pays_number 3
  intro fromHi _
  apply g.pays_number 4
  intro toLo _
  exact g.pays_number 5 fun _ _ => (still_pure _).pays

theorem still_now : Still now :=
  fun _ => Work.still_clock fun clock => Value.timestamp clock.utc

theorem still_timeDecoded : Still (timeDecoded g) :=
  (still_lift (Work.still_parseTime _ _)).bind fun _ => still_pure _

theorem pays_onDate (f : Timestamp → Timestamp) : PaysOnly (onDate f g) [g.input .date 1] :=
  g.pays_date 1 fun _ => (still_pure _).pays

theorem pays_onDates (f : Timestamp → Timestamp → Number) :
    PaysOnly (onDates f g) [g.input .date 1, g.input .date 2] := by
  apply g.pays_date 1
  intro a
  exact g.pays_date 2 fun _ => (still_pure _).pays

theorem pays_formatted : PaysOnly (formatted g) [g.input .date 1] :=
  g.pays_date 1 fun _ => (still_pure _).pays

theorem pays_essence : PaysOnly (essence g) [g.input .any 1] :=
  g.pays_value 1 fun _ => (still_pure _).pays

theorem pays_emptiness : PaysOnly (emptiness g) [g.input .any 1] :=
  g.pays_value 1 fun _ => (still_store.bind fun _ => still_pure _).pays

/-! ### Shapes -/

theorem pays_mapFrom (s : Shape) (place : Nat) (items : List Value) :
    Pays (mapFrom s place items) (.callEach s place items) := by
  induction items generalizing place with
  | nil => exact (still_pure _).pays
  | cons v rest ih =>
    apply (pays_callShape s _).bind
    intro image
    exact (ih (place + 1)).bind_still fun _ => still_pure _

theorem pays_filterFrom (s : Shape) (place : Nat) (items : List Value) :
    Pays (filterFrom s place items) (.callEach s place items) := by
  induction items generalizing place with
  | nil => exact (still_pure _).pays
  | cons v rest ih =>
    apply (pays_callShape s _).bind
    intro verdict
    apply reads_store.pays_bind
    intro store
    exact (ih (place + 1)).bind_still fun _ => still_pure _

theorem pays_foldFrom (s : Shape) (place : Nat) (result : Value) (items : List Value) :
    Pays (foldFrom s place result items) (.fold s place result items) := by
  induction items generalizing place result with
  | nil => exact (still_pure _).pays
  | cons v rest ih =>
    apply (pays_callShape s _).bind
    intro next
    exact ih (place + 1) next

theorem pays_itemsAndShape_bind {α : Type} {user : String} {f : List Value × Shape → Eval α}
    {rest : List Input} {following : List Argument → Tariff}
    (hf : ∀ items s, Pays (f (items, s))
      (.inputs rest fun args => following (.items items :: .shape s :: args))) :
    Pays (itemsAndShape user g >>= f)
      (.inputs (g.input .array 1 :: g.input .shape 2 :: rest) following) := by
  unfold itemsAndShape
  simp only [bind_assoc]
  apply g.pays_items 1
  intro items
  apply (takes_shapeOf user).pays_bind
  rintro s _ rfl
  exact hf items s

theorem pays_morphed :
    Pays (morphed g) (.inputs (inputs .morph g) (following .morph g)) := by
  apply pays_itemsAndShape_bind
  intro items s
  exact (pays_mapFrom s 0 items).bind_still fun _ => still_newSequence _

theorem pays_sifted :
    Pays (sifted g) (.inputs (inputs .sift g) (following .sift g)) := by
  apply pays_itemsAndShape_bind
  intro items s
  exact (pays_filterFrom s 0 items).bind_still fun _ => still_newSequence _

theorem pays_distilled :
    Pays (distilled g) (.inputs (inputs .distill g) (following .distill g)) := by
  apply pays_itemsAndShape_bind
  intro items s
  exact g.pays_value 3 fun start => pays_foldFrom s 0 start items

theorem pays_invoked :
    Pays (invoked g) (.inputs (inputs .invokeInto g) (following .invokeInto g)) := by
  apply pays_values_bind
  intro values
  rw [following, filterMap_value?]
  exact pays_callLibrary (g.text 1) (g.text 2) values

/-! ### Chance -/

theorem pays_chosen : Pays (chosen g) (.inputs (inputs .choose g) (following .choose g)) := by
  apply pays_values_bind
  intro values
  rw [following, filterMap_value?]
  exact Heeds.pays fun _ _ => Work.heeds_pick .noOptions values

theorem heeds_flip (v : Value) :
    Heeds (do
      let p ← Work.toNumber v
      if 0 ≤ p ∧ p ≤ 1 then return .boolean ((← Work.draw Xorshift.nextUnit) < p)
      else Work.failRange (.flipProbability p) : Eval Value)
      fun s => .onProbability .flipProbability (s.toNumber v) := by
  intro scope r
  apply heeds_toNumber_bind
  dsimp only [Ruling.onProbability]
  split
  · exact ⟨_, _, rfl, rfl⟩
  · rfl

theorem pays_flipped : Pays (flipped g) (.inputs (inputs .flip g) (following .flip g)) := by
  unfold flipped Groups.number Eval.number
  rw [bind_assoc]
  apply g.pays_value 1
  intro v
  exact (heeds_flip v).pays

/-- What a draw by weight does once its operands are evaluated. -/
theorem heeds_weigh (v w : Value) :
    Heeds (do
      let items ← itemsOf "WeightedDraw" v
      let weights ← itemsOf "WeightedDraw" w
      if items.length ≠ weights.length then
        Work.failRange (.weightCount items.length weights.length)
      else
        let s ← Work.store
        let weights := weights.map s.toNumber
        let total ← Work.ofRange (Collection.totalWeight weights)
        let roll ← Work.draw Xorshift.nextUnit
        return items.getD (Collection.weightedIndex weights total roll) .undefined : Eval Value)
      fun s => .onWeights s v w := by
  intro scope r
  cases v with
  | sequence items =>
    cases w with
    | sequence weights =>
      -- the numbers of items and weights are compared first, and the roll comes last
      apply heeds_itemsOf_bind
      apply heeds_itemsOf_bind
      dsimp only [Ruling.onWeights]
      split
      · rfl
      · apply heeds_store_bind
        cases Collection.totalWeight ((r.store.items weights).map r.store.toNumber) with
        | error fault => rfl
        | ok total => exact ⟨_, _, rfl, rfl⟩
    | _ => rfl
  | _ => rfl

theorem pays_weighed :
    Pays (weighed g) (.inputs (inputs .weightedDraw g) (following .weightedDraw g)) := by
  apply g.pays_value 1
  intro v
  apply g.pays_value 2
  intro w
  exact (heeds_weigh v w).pays

theorem pays_floatDrawn :
    Pays (floatDrawn g) (.inputs (inputs .drawFloat g) (following .drawFloat g)) := by
  apply g.pays_number 1
  intro a _
  apply g.pays_number 2
  intro b _
  exact pays_draw_bind (fun _ => rfl) fun _ => still_pure _

theorem pays_drawn :
    Pays (drawn g) (.inputs (inputs .drawFrom g) (following .drawFrom g)) := by
  apply g.pays_items 1
  intro items
  apply g.pays_integer 2
  intro count _
  exact pays_draw_bind (Xorshift.shuffle_snd items) fun _ => still_newSequence _

/-- A computation takes what its operands take and then what is due. -/
theorem pays_computed (c : Computation) :
    Pays (c.value g) (.inputs (c.inputs g) (c.following g)) := by
  cases c with
  | assign => exact pays_value_only (g.text 2)
  | invokeInto => exact pays_invoked g
  | transmute => exact pays_replaced g
  | shear | shearLeft | shearRight | ascend | descend | crownTitle => exact pays_onText g _
  | beginsInto | endsInto => exact pays_literalTest g _
  | chant => exact pays_chanted g
  | carve => exact pays_carved g
  | countOf => exact pays_counted g
  | fractureLines => exact pays_linesOf g
  | bindLines => exact pays_joinedLines g
  | weave => exact pays_woven g
  | containsInto => exact pays_containment g
  | padLeft | padRight | padCenter => exact pays_padded g _
  | drawFrom => exact pays_drawn g
  | fuse => exact pays_fused g
  | unfold | unique => exact pays_onItems g _ _
  | bundle => exact pays_bundled g
  | span => exact pays_spanned g
  | sum => exact pays_summed g
  | average => exact pays_averaged g
  | min | max => exact pays_extremeOf g _ _
  | seek => exact pays_sought g
  | takeFirst | takeLast =>
    rw [value]
    exact pays_taken g _ _
  | holdsKeyInto => exact pays_keyHeld g
  | glyphs => exact pays_keysOf g
  | essences => exact pays_valuesOf g
  | pairs => exact pays_pairsOf g
  | mirror => exact pays_mirrored g
  | pickKeys => exact pays_picked g
  | omitKeys => exact pays_omitted g
  | tally => exact pays_tallied g
  | morph => exact pays_morphed g
  | sift => exact pays_sifted g
  | distill => exact pays_distilled g
  | remainder | raise => exact pays_onNumbers g _
  | clamp => exact pays_clamped g
  | round | floor | ceil | abs => exact pays_onNumber g _
  | mapRange => exact pays_remapped g
  | drawFloat => exact pays_floatDrawn g
  | nowUtc => exact still_now.pays
  | decodeTime => exact (still_timeDecoded g).pays
  | dawnOf | duskOf => exact pays_onDate g _
  | gapDays | gapSeconds => exact pays_onDates g _
  | format => exact pays_formatted g
  | encodeJson => exact pays_encoded g
  | decodeJson => exact pays_decoded g
  | essenceOf => exact pays_essence g
  | isVoid => exact pays_emptiness g
  | choose => exact pays_chosen g
  | flip => exact pays_flipped g
  | weightedDraw => exact pays_weighed g

end Computation

/-! ## Deeds -/

namespace Deed

variable {α : Type} {t : Tariff} (g : Groups)

/-- Nothing is due where a path from a sealed name is refused. -/
theorem pays_refuseSealed_bind {operand : Text} {f : Unit → Eval α} (h : Pays (f ()) t) :
    Pays (refuseSealed operand >>= f)
      fun scope r => if scope.guards operand then [] else t scope r := by
  intro scope hscope r
  have hcheck : (refuseSealed operand).run scope = (if scope.guards operand then
      Eval.fail (.sealedVariable operand.trim.pathRoot) else pure () : Eval Unit).run scope := rfl
  have hrun : ((refuseSealed operand >>= f).run scope).run.run r = _ :=
    run_bind ((refuseSealed operand).run scope) (fun a => (f a).run scope) r
  unfold Work.Pays
  rw [hrun, hcheck]
  dsimp only
  cases scope.guards operand with
  | true => rfl
  | false => exact h scope hscope r

theorem takes_tomeCell (user : String) : Takes (tomeCell user) .tome fun _ _ => True := by
  intro v scope r
  cases v with
  | tome cell => exact ⟨cell, rfl, trivial⟩
  | _ => exact ⟨_, rfl⟩

theorem still_namedCell (user : String) (name : Text) : Still (namedCell user name) := by
  apply still_read.bind
  intro scope
  split
  · exact still_fail _
  · split
    · exact still_pure _
    · exact still_fail _

theorem still_refuseCycle (user : String) (v container : Value) :
    Still (refuseCycle user v container) := by
  apply still_store.bind
  intro s
  split
  · exact still_fail _
  · exact still_pure _

/-- A deed that edits an array takes what its edit takes. -/
theorem pays_editItems {d : Deed} (hedited : d.edited? g = some (g.text 1, g.value 1))
    (hinputs : d.inputs g = [g.input .array 1]) (user : String)
    {edit : List Value → Eval (List Value)}
    (hedit : ∀ items, Pays (edit items) (d.following [.items items])) :
    Pays (editItems user g edit) (.deed d g) := by
  unfold Tariff.deed
  rw [hedited, hinputs]
  apply pays_refuseSealed_bind
  have htakes : Takes (fun v => do
      let cell ← arrayCell user v
      return (cell, (← Work.store).items cell)) .array fun edited argument =>
        argument = .items edited.2 := by
    intro v scope r
    cases v with
    | sequence cell => exact ⟨(cell, r.store.items cell), rfl, rfl⟩
    | _ => exact ⟨_, rfl⟩
  have hpays : Pays (value (g.text 1) >>= fun v => (do
      let cell ← arrayCell user v
      return (cell, (← Work.store).items cell)) >>= fun edited => do
        return [Effect.setItems edited.1 (← edit edited.2)])
      (.inputs [g.input .array 1] d.following) := by
    apply htakes.pays_bind
    rintro ⟨cell, items⟩ _ rfl
    exact (hedit items).bind_still fun _ => still_pure _
  simp only [bind_assoc, pure_bind] at hpays
  exact hpays

theorem pays_boundInFront : PaysOnly (boundInFront g) [g.input .any 1] := by
  apply g.pays_value 1
  intro v
  apply Still.pays
  apply (still_namedCell _ _).bind
  intro cell
  exact (still_refuseCycle _ v _).bind fun _ => still_store.bind fun _ => still_pure _

theorem still_firstPlucked : Still (firstPlucked g) := by
  apply (still_namedCell _ _).bind
  intro cell
  apply still_store.bind
  intro s
  split
  · exact still_pure _
  · exact still_pure _

theorem pays_flooded : PaysOnly (flooded g) [g.input .any 2] := by
  apply g.pays_value 2
  intro v
  apply Still.pays
  apply (still_namedCell _ _).bind
  intro cell
  exact (still_refuseCycle _ v _).bind fun _ => still_store.bind fun _ => still_pure _

theorem pays_pathSet : PaysOnly (pathSet g) [g.input .any 2] := by
  apply g.pays_value 2
  intro v
  apply Still.pays
  split
  · exact still_pure _
  · exact still_pure _

theorem pays_keyPlucked : Pays (keyPlucked g) (.deed .pluckKey g) := by
  apply pays_refuseSealed_bind
  apply g.pays_display 1
  intro key v
  apply (takes_tomeCell _).pays_bind
  intro cell _ _
  exact (still_store.bind fun _ => still_pure _).pays

theorem pays_rebranded : Pays (rebranded g) (.deed .rebrand g) := by
  apply pays_refuseSealed_bind
  apply g.pays_display 1
  intro old _
  apply g.pays_display 2
  intro new _
  apply (takes_tomeCell _).pays_bind
  intro cell _ _
  exact (still_store.bind fun _ => still_pure _).pays

theorem pays_melded : Pays (melded g) (.deed .meld g) := by
  apply pays_refuseSealed_bind
  apply (takes_tomeCell _).pays_bind
  intro source _ _
  apply (takes_tomeCell _).pays_bind
  intro cell _ _
  apply Still.pays
  split
  · exact still_pure _
  · apply (still_refuseCycle _ _ _).bind
    intro _
    exact still_store.bind fun _ => still_pure _

/-- A deed takes what is due. -/
theorem pays_effects (d : Deed) : Pays (d.effects g) (.deed d g) := by
  cases d with
  | setPath => exact pays_pathSet g
  | sealName => exact g.pays_value 2 fun _ => (still_pure _).pays
  | reveal => exact pays_shownAll_bind fun _ _ => (still_pure _).pays
  | summon => exact (still_pure _).pays
  | stir =>
    rw [effects]
    apply pays_editItems g rfl rfl
    intro items
    exact pays_draw (Xorshift.shuffle_snd items)
  | bindFront => exact pays_boundInFront g
  | pluckFirst => exact (still_firstPlucked g).pays
  | flood => exact pays_flooded g
  | sort =>
    rw [effects, sorted]
    apply pays_editItems g rfl rfl
    intro items
    exact (still_store.bind fun _ => still_pure _).pays
  | reverse =>
    rw [effects]
    apply pays_editItems g rfl rfl
    intro items
    exact (still_pure _).pays
  | pluckKey => exact pays_keyPlucked g
  | rebrand => exact pays_rebranded g
  | meld => exact pays_melded g
  | scribe | imprint => exact g.pays_display 1 fun _ _ => (still_pure _).pays

end Deed

/-- The effects of a statement take what is due. -/
theorem Form.pays_effects (form : Form) (g : Groups) :
    Pays (form.effects g) (.effects form g) := by
  cases form with
  | computation c => exact (c.pays_computed g).bind_still fun _ => still_pure _
  | deed d => exact d.pays_effects g

end Grimoire
