import Grimoire.Library.Standard
import Grimoire.Proofs.Evaluation.Resources

/-!
# What library functions keep

Each function of the standard libraries takes its results from its arguments and from fresh cells.
-/

namespace Grimoire

open Work Discipline

variable {D : Discipline} {r : Resources}

/-! ## Lists of values -/

namespace Collection

theorem dedupe_subset (s : Store) (items : List Value) : dedupe s items ⊆ items := by
  have kept : ∀ (rest done : List Value),
      rest.foldl (fun kept v => if kept.any fun w => s.equal w v then kept else v :: kept) done
        ⊆ done ++ rest := by
    intro rest
    induction rest with
    | nil => intro done; simp
    | cons v rest ih =>
      intro done w hw
      rw [List.foldl_cons] at hw
      have hmem := ih _ hw
      rw [List.mem_append] at hmem ⊢
      rcases hmem with hmem | hmem
      · split at hmem
        · exact Or.inl hmem
        · rcases List.mem_cons.1 hmem with rfl | hmem
          · exact Or.inr List.mem_cons_self
          · exact Or.inl hmem
      · exact Or.inr (List.mem_cons_of_mem _ hmem)
  intro w hw
  simpa using kept items [] (List.mem_reverse.1 hw)

/-- Splicing in the elements of valid sequences gives valid values. -/
theorem validAll_flattenOnce {s : Store} {items : List Value} (hs : D.sound s)
    (h : D.ValidAll s items) : D.ValidAll s (flattenOnce s items) := by
  intro w hw
  obtain ⟨v, hv, hwv⟩ := List.mem_flatMap.1 hw
  cases v with
  | sequence cell => exact validAll_items hs (h _ hv) w hwv
  | _ =>
    obtain rfl := List.mem_singleton.1 hwv
    exact h _ hv

/-- The pieces of a list hold elements of the list. -/
theorem mem_of_mem_chunks {α : Type} {size : Int} {items piece : List α}
    (h : piece ∈ chunks size items) : piece ⊆ items := by
  have pieces : ∀ (n : Nat) (done : List (List α)) (rest : List α),
      rest ⊆ items → (∀ p ∈ done, p ⊆ items) → ∀ p ∈ chunksFrom n done rest, p ⊆ items := by
    intro n done rest
    fun_induction chunksFrom n done rest with
    | case1 done rest =>
      intro _ hdone p hp
      exact hdone p (List.mem_reverse.1 hp)
    | case2 done rest _ ih =>
      intro hrest hdone
      refine ih (fun _ hv => hrest (List.mem_of_mem_drop hv)) (fun p hp => ?_)
      rcases List.mem_cons.1 hp with rfl | hp
      · exact fun _ hv => hrest (List.mem_of_mem_take hv)
      · exact hdone p hp
  exact pieces _ [] items (List.Subset.refl items) (fun p hp => absurd hp List.not_mem_nil) piece h

/-- The counts of a tally are numbers. -/
theorem validTable_tally {s : Store} {items : List Value} : D.ValidTable s (tally s items) := by
  have counts : ∀ (rest : List Value) (t : Table Value), D.ValidTable s t →
      D.ValidTable s (rest.foldl (fun counts v =>
        let key := s.display v
        let seen := (counts.get? key).elim 0 s.toNumber
        counts.insert key (.number (seen + 1))) t) := by
    intro rest
    -- whatever was counted before, an insertion brings in a number only
    induction rest with
    | nil => exact fun t ht => ht
    | cons v rest ih =>
      intro t ht
      refine ih _ fun w hw => ?_
      rcases Table.mem_values_insert hw with rfl | hw
      · exact D.valid_of_isScalar rfl
      · exact ht w hw
  exact counts items .empty validTable_empty

end Collection

/-! ## Shuffles -/

namespace Xorshift

theorem shuffleFrom_perm {α : Type} (count : Nat) (items : Array α) (x : Xorshift) :
    (shuffleFrom count items x).1.Perm items := by
  induction count generalizing items x with
  | zero => exact .rfl
  | succ place ih =>
    refine (ih _ _).trans ?_
    unfold Array.swapIfInBounds
    split
    · split
      · exact Array.swap_perm _ _
      · exact .rfl
    · exact .rfl

/-- A shuffle gives a permutation. -/
theorem shuffle_perm {α : Type} (items : List α) (x : Xorshift) : (x.shuffle items).1.Perm items :=
  (shuffleFrom_perm (items.length - 1) items.toArray x).toList

end Xorshift

/-! ## Functions of the standard libraries -/

/-- Under a discipline, valid arguments give a valid result. -/
def NativeFunction.Keeps (D : Discipline) (f : NativeFunction) : Prop :=
  ∀ r args, D.ValidAll r.store args → Yields D r (f.run args) D.valid

namespace Library

/-- Every function of the library keeps the discipline. -/
def Keeps (D : Discipline) (l : Library) : Prop :=
  ∀ f ∈ l.functions, f.Keeps D

/-- A call by name keeps what the functions of the library keep. -/
theorem Keeps.yields_call {l : Library} (h : l.Keeps D) {name : Text} {args : List Value}
    (hargs : D.ValidAll r.store args) : Yields D r (l.call name args) D.valid := by
  unfold call
  split
  · exact yields_throw rfl
  · next f hf =>
    exact yields_ite (fun _ => h f (List.mem_of_find?_eq_some hf) r args hargs)
      fun _ => yields_throw rfl

variable {args : List Value}

/-- A scalar result is valid. -/
theorem yields_pure_scalar {v : Value} (hv : v.isScalar = true) :
    Yields D r (pure v) D.valid :=
  yields_pure fun _ => D.valid_of_isScalar hv

theorem valid_argument (h : D.ValidAll r.store args) (place : Nat) :
    D.valid r.store (argument args place) :=
  h.getD place

/-! ### Clock and calendar -/

theorem yields_onTimestamp {f : Timestamp → Timestamp} :
    Yields D r (onTimestamp f args) D.valid :=
  yields_toTimestamp.bind fun _ _ _ _ _ => yields_pure_scalar rfl

theorem yields_onTimestamps {f : Timestamp → Timestamp → Number} :
    Yields D r (onTimestamps f args) D.valid :=
  yields_toTimestamp.bind fun _ _ _ _ _ =>
    yields_toTimestamp.bind fun _ _ _ _ _ => yields_pure_scalar rfl

theorem yields_shifting {f : Timestamp → Number → Work Timestamp}
    (hf : ∀ t x r, Yields D r (f t x) fun _ _ => True) : Yields D r (shifting f args) D.valid :=
  yields_toTimestamp.bind fun t _ _ _ _ =>
    yields_toNumber.bind fun x r' _ _ _ =>
      (hf t x r').bind fun _ _ _ _ _ => yields_pure_scalar rfl

theorem yields_timeFormat : Yields D r (timeFormat args) D.valid :=
  yields_toTimestamp.bind fun _ _ _ _ _ =>
    yields_display.bind fun _ _ _ _ _ => yields_pure_scalar rfl

theorem yields_timeParse : Yields D r (timeParse args) D.valid :=
  yields_display.bind fun _ _ _ _ _ =>
    yields_display.bind fun _ _ _ _ _ =>
      yields_parseTime.bind fun _ _ _ _ _ => yields_pure_scalar rfl

theorem keeps_time : time.Keeps D := by
  unfold Keeps time
  simp only [List.forall_mem_cons]
  refine ⟨fun r args _ => ?_, fun r args _ => yields_timeFormat, fun r args _ => yields_timeParse,
    fun r args _ => yields_shifting fun _ _ _ => yields_shift,
    fun r args _ => yields_shifting fun _ _ _ => yields_shift,
    fun r args _ => yields_onTimestamps, fun r args _ => yields_onTimestamps,
    fun r args _ => yields_onTimestamp, fun r args _ => yields_onTimestamp,
    List.forall_mem_nil _⟩
  exact yields_get_bind (yields_pure_scalar rfl)

/-! ### JSON -/

theorem keeps_json : json.Keeps D := by
  unfold Keeps json
  simp only [List.forall_mem_cons]
  refine ⟨fun r args _ => ?_, fun r args _ => ?_, List.forall_mem_nil _⟩
  · exact yields_encode.bind fun _ _ _ _ _ => yields_pure_scalar rfl
  · exact yields_display.bind fun _ _ _ _ _ => yields_decode

/-! ### Chance -/

theorem yields_bounds : Yields D r (bounds args) fun _ _ => True :=
  yields_toNumber.bind fun _ _ _ _ _ =>
    yields_toNumber.bind fun _ _ _ _ _ => yields_pure fun _ => True.intro

theorem yields_randomSeed : Yields D r (randomSeed args) D.valid :=
  yields_toNumber.bind fun _ _ _ _ _ =>
    yields_reseed.bind fun _ _ _ _ _ => yields_pure_scalar rfl

theorem yields_randomFloat : Yields D r (randomFloat args) D.valid :=
  yields_bounds.bind fun _ _ _ _ _ =>
    yields_draw.bind fun _ _ _ _ _ => yields_pure_scalar rfl

theorem yields_randomInt : Yields D r (randomInt args) D.valid :=
  yields_bounds.bind fun _ _ _ _ _ =>
    yields_draw.bind fun _ _ _ _ _ => yields_pure_scalar rfl

theorem yields_randomBernoulli : Yields D r (randomBernoulli args) D.valid :=
  yields_toNumber.bind fun _ _ _ _ _ =>
    yields_ite (fun _ => yields_draw.bind fun _ _ _ _ _ => yields_pure_scalar rfl)
      fun _ => yields_failRange

/-- A pick is one of the pool. -/
theorem yields_pick {refusal : RangeFault} {pool : List Value} (h : D.ValidAll r.store pool) :
    Yields D r (pick refusal pool) D.valid := by
  refine yields_ite (fun _ => yields_failRange) fun _ => ?_
  refine yields_draw.bind fun place r' grown _ _ => yields_pure fun _ => ?_
  exact D.valid_of_extends grown.store (h.getD place)

theorem yields_randomChoice (h : D.ValidAll r.store args) :
    Yields D r (randomChoice args) D.valid := by
  unfold randomChoice
  split
  · next cell =>
    refine yields_store_bind ?_
    intro hs
    exact yields_pick (validAll_items hs (h _ List.mem_cons_self)) hs
  · exact yields_pick h

theorem yields_randomShuffle (h : D.ValidAll r.store args) :
    Yields D r (randomShuffle args) D.valid := by
  refine (yields_elements (valid_argument h 0)).bind fun items r₁ _ _ hitems => ?_
  refine yields_draw.bind fun shuffled r₂ grown _ hshuffled => yields_newSequence ?_
  obtain ⟨x, rfl⟩ := hshuffled
  exact (hitems.mono grown.store).subset (Xorshift.shuffle_perm items x).subset

theorem yields_randomSample (h : D.ValidAll r.store args) :
    Yields D r (randomSample args) D.valid := by
  refine (yields_elements (valid_argument h 0)).bind fun items r₁ _ _ hitems => ?_
  refine yields_draw.bind fun shuffled r₂ grown _ hshuffled => ?_
  refine yields_toInt.bind fun count r₃ grown' _ _ => yields_newSequence ?_
  obtain ⟨x, rfl⟩ := hshuffled
  refine (hitems.mono (grown.trans grown').store).subset fun v hv => ?_
  exact (Xorshift.shuffle_perm items x).subset (List.mem_of_mem_take hv)

theorem keeps_random : random.Keeps D := by
  unfold Keeps random
  simp only [List.forall_mem_cons]
  exact ⟨fun r args _ => yields_randomSeed, fun r args _ => yields_randomFloat,
    fun r args _ => yields_randomInt, fun r args _ => yields_randomBernoulli,
    fun r args h => yields_randomChoice h, fun r args h => yields_randomShuffle h,
    fun r args h => yields_randomSample h, List.forall_mem_nil _⟩

/-! ### Arrays -/

theorem yields_onArray {user : Text} {f : Store → List Value → List Value}
    (hf : ∀ {s items}, D.sound s → D.ValidAll s items → D.ValidAll s (f s items))
    (h : D.ValidAll r.store args) : Yields D r (onArray user f args) D.valid := by
  refine (yields_elements (valid_argument h 0)).bind fun items r₁ _ sound hitems => ?_
  exact yields_store_bind (yields_newSequence (hf sound hitems))

theorem yields_measuring {user : Text} {f : Store → List Value → Except RangeFault Number}
    (h : D.ValidAll r.store args) : Yields D r (measuring user f args) D.valid := by
  refine (yields_elements (valid_argument h 0)).bind fun items r₁ _ _ _ => ?_
  exact yields_store_bind (yields_ofRange.bind fun _ _ _ _ _ => yields_pure_scalar rfl)

theorem yields_arrayChunk (h : D.ValidAll r.store args) :
    Yields D r (arrayChunk args) D.valid := by
  refine (yields_elements (valid_argument h 0)).bind fun items r₁ _ _ hitems => ?_
  refine yields_toInt.bind fun size r₂ grown sound _ => ?_
  have hchunks : ∀ piece ∈ Collection.chunks size items, D.ValidAll r₂.store piece :=
    fun piece hpiece => (hitems.mono grown.store).subset (Collection.mem_of_mem_chunks hpiece)
  refine (yields_build fun hs => Collection.built_newSequences hs hchunks).bind
    fun pieces r₃ _ _ hpieces => ?_
  exact yields_newSequence hpieces

theorem yields_arrayConcat (h : D.ValidAll r.store args) :
    Yields D r (arrayConcat args) D.valid := by
  refine (yields_elements (valid_argument h 0)).bind fun first r₁ grown _ hfirst => ?_
  have hsecond := D.valid_of_extends grown.store (valid_argument h 1)
  refine (yields_elements hsecond).bind fun second r₂ grown' _ hsecond => ?_
  exact yields_newSequence ((hfirst.mono grown'.store).append hsecond)

theorem keeps_array : array.Keeps D := by
  unfold Keeps array
  simp only [List.forall_mem_cons]
  exact ⟨fun r args h => yields_arrayChunk h,
    fun r args h => yields_onArray Collection.validAll_flattenOnce h,
    fun r args h => yields_measuring h, fun r args h => yields_measuring h,
    fun r args h => yields_measuring h, fun r args h => yields_measuring h,
    fun r args h => yields_onArray (fun _ hv => hv.subset (Collection.dedupe_subset _ _)) h,
    fun r args h => yields_arrayConcat h, List.forall_mem_nil _⟩

/-! ### Tomes -/

theorem yields_entriesOf {v : Value} (h : D.valid r.store v) :
    Yields D r (entriesOf v) D.ValidTable := by
  cases v with
  | tome cell => exact yields_store_bind (yields_pure fun hs => validTable_entries hs h)
  | _ => exact yields_pure fun _ => validTable_empty

theorem yields_tomeKeys (h : D.ValidAll r.store args) : Yields D r (tomeKeys args) D.valid := by
  refine (yields_entriesOf (valid_argument h 0)).bind fun entries r₁ _ _ _ => ?_
  exact yields_newSequence (validAll_map fun _ => rfl)

theorem yields_tomeValues (h : D.ValidAll r.store args) :
    Yields D r (tomeValues args) D.valid := by
  refine (yields_entriesOf (valid_argument h 0)).bind fun entries r₁ _ _ hentries => ?_
  exact yields_newSequence hentries

theorem yields_tomePairs (h : D.ValidAll r.store args) : Yields D r (tomePairs args) D.valid := by
  refine (yields_entriesOf (valid_argument h 0)).bind fun entries r₁ _ _ hentries => ?_
  refine (yields_build fun hs => Collection.built_pairs hs hentries).bind
    fun pairs r₂ _ _ hpairs => ?_
  exact yields_newSequence hpairs

theorem yields_tomeMerge (h : D.ValidAll r.store args) : Yields D r (tomeMerge args) D.valid := by
  refine (yields_entriesOf (valid_argument h 0)).bind fun first r₁ grown _ hfirst => ?_
  have hsecond := D.valid_of_extends grown.store (valid_argument h 1)
  refine (yields_entriesOf hsecond).bind fun second r₂ grown' _ hsecond => ?_
  refine yields_newTome fun v hv => ?_
  rcases Table.mem_values_meld hv with hv | hv
  · exact hfirst.mono grown'.store v hv
  · exact hsecond v hv

theorem yields_tomeTally (h : D.ValidAll r.store args) : Yields D r (tomeTally args) D.valid := by
  unfold tomeTally
  split
  · exact yields_newTome validTable_empty
  · refine (yields_elements (valid_argument h 0)).bind fun items r₁ _ _ _ => ?_
    exact yields_store_bind (yields_newTome Collection.validTable_tally)

theorem keeps_tome : tome.Keeps D := by
  unfold Keeps tome
  simp only [List.forall_mem_cons]
  exact ⟨fun r args h => yields_tomeKeys h, fun r args h => yields_tomeValues h,
    fun r args h => yields_tomePairs h, fun r args h => yields_tomeMerge h,
    fun r args h => yields_tomeTally h, List.forall_mem_nil _⟩

/-- The standard libraries keep every discipline. -/
theorem keeps_of_mem_standard {l : Library} (h : l ∈ standard) : l.Keeps D := by
  simp only [standard, List.mem_cons, List.not_mem_nil, or_false] at h
  rcases h with rfl | rfl | rfl | rfl | rfl
  · exact keeps_time
  · exact keeps_json
  · exact keeps_random
  · exact keeps_array
  · exact keeps_tome

end Library

end Grimoire
