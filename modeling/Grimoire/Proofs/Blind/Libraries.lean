import Grimoire.Library.Standard
import Grimoire.Proofs.Blind.Resources

/-!
# Library functions are blind

No function of the standard libraries can tell which time patterns have been prepared.
-/

namespace Grimoire

/-- No function of the library can tell which time patterns have been prepared. -/
def Library.Blind (l : Library) : Prop :=
  ∀ f ∈ l.functions, ∀ args, Work.Blind (f.run args)

namespace Library

open Work

/-- A call by name is as blind as the functions of the library. -/
theorem Blind.call {l : Library} (h : l.Blind) (name : Text) (args : List Value) :
    Work.Blind (l.call name args) := by
  unfold Library.call
  split
  · exact blind_throw _
  · next f hf =>
    apply blind_ite
    · exact h f (List.mem_of_find?_eq_some hf) args
    · exact blind_throw _

variable (args : List Value)

/-! ## Clock and calendar -/

theorem blind_onTimestamp (f : Timestamp → Timestamp) : Work.Blind (onTimestamp f args) :=
  (blind_toTimestamp _).bind fun _ => blind_pure _

theorem blind_onTimestamps (f : Timestamp → Timestamp → Number) :
    Work.Blind (onTimestamps f args) := by
  apply (blind_toTimestamp _).bind
  intro a
  exact (blind_toTimestamp _).bind fun _ => blind_pure _

theorem blind_shifting {f : Timestamp → Number → Work Timestamp}
    (hf : ∀ t x, Work.Blind (f t x)) : Work.Blind (shifting f args) := by
  apply (blind_toTimestamp _).bind
  intro t
  apply (blind_toNumber _).bind
  intro x
  exact (hf t x).bind fun _ => blind_pure _

theorem blind_timeFormat : Work.Blind (timeFormat args) := by
  apply (blind_toTimestamp _).bind
  intro t
  exact (blind_display _).bind fun _ => blind_pure _

theorem blind_timeParse : Work.Blind (timeParse args) := by
  apply (blind_display _).bind
  intro text
  apply (blind_display _).bind
  intro pattern
  exact (blind_parseTime text pattern).bind fun _ => blind_pure _

theorem blind_time : time.Blind := by
  unfold Blind time
  simp only [List.forall_mem_cons]
  exact ⟨fun args => blind_clock fun clock => Value.timestamp clock.localTime, blind_timeFormat,
    blind_timeParse,
    fun args => blind_shifting args fun t x => blind_shift t x 86400,
    fun args => blind_shifting args fun t x => blind_shift t x 3600,
    fun args => blind_onTimestamps args _, fun args => blind_onTimestamps args _,
    fun args => blind_onTimestamp args _, fun args => blind_onTimestamp args _,
    List.forall_mem_nil _⟩

/-! ## JSON -/

theorem blind_json : json.Blind := by
  unfold Blind json
  simp only [List.forall_mem_cons]
  refine ⟨?_, ?_, List.forall_mem_nil _⟩
  · intro args
    exact (blind_encode _).bind fun _ => blind_pure _
  · intro args
    exact (blind_display _).bind fun text => blind_decode text

/-! ## Chance -/

theorem blind_bounds : Work.Blind (bounds args) := by
  apply (blind_toNumber _).bind
  intro a
  exact (blind_toNumber _).bind fun _ => blind_pure _

theorem blind_randomSeed : Work.Blind (randomSeed args) := by
  apply (blind_toNumber _).bind
  intro x
  exact (blind_reseed _).bind fun _ => blind_pure _

theorem blind_randomFloat : Work.Blind (randomFloat args) := by
  apply (blind_bounds args).bind
  intro bounds
  exact (blind_draw _).bind fun _ => blind_pure _

theorem blind_randomInt : Work.Blind (randomInt args) := by
  apply (blind_bounds args).bind
  intro bounds
  exact (blind_draw _).bind fun _ => blind_pure _

theorem blind_randomBernoulli : Work.Blind (randomBernoulli args) := by
  apply (blind_toNumber _).bind
  intro p
  apply blind_ite
  · exact (blind_draw _).bind fun _ => blind_pure _
  · exact blind_failRange _

theorem blind_pick (refusal : RangeFault) (pool : List Value) : Work.Blind (pick refusal pool) := by
  apply blind_ite
  · exact blind_failRange _
  · exact (blind_draw _).bind fun _ => blind_pure _

theorem blind_randomChoice : Work.Blind (randomChoice args) := by
  unfold randomChoice
  split
  · exact blind_store.bind fun s => blind_pick _ _
  · exact blind_pick _ _

theorem blind_randomShuffle : Work.Blind (randomShuffle args) := by
  apply (blind_elements _ _).bind
  intro items
  exact (blind_draw _).bind fun _ => blind_newSequence _

theorem blind_randomSample : Work.Blind (randomSample args) := by
  apply (blind_elements _ _).bind
  intro items
  apply (blind_draw _).bind
  intro shuffled
  exact (blind_toInt _).bind fun _ => blind_newSequence _

theorem blind_random : random.Blind := by
  unfold Blind random
  simp only [List.forall_mem_cons]
  exact ⟨blind_randomSeed, blind_randomFloat, blind_randomInt, blind_randomBernoulli,
    blind_randomChoice, blind_randomShuffle, blind_randomSample, List.forall_mem_nil _⟩

/-! ## Arrays -/

theorem blind_onArray (user : Text) (f : Store → List Value → List Value) :
    Work.Blind (onArray user f args) := by
  apply (blind_elements _ _).bind
  intro items
  exact blind_store.bind fun _ => blind_newSequence _

theorem blind_measuring (user : Text) (f : Store → List Value → Except RangeFault Number) :
    Work.Blind (measuring user f args) := by
  apply (blind_elements _ _).bind
  intro items
  apply blind_store.bind
  intro s
  exact (blind_ofRange _).bind fun _ => blind_pure _

theorem blind_arrayChunk : Work.Blind (arrayChunk args) := by
  apply (blind_elements _ _).bind
  intro items
  apply (blind_toInt _).bind
  intro size
  exact (blind_build _).bind fun _ => blind_newSequence _

theorem blind_arrayConcat : Work.Blind (arrayConcat args) := by
  apply (blind_elements _ _).bind
  intro first
  exact (blind_elements _ _).bind fun _ => blind_newSequence _

theorem blind_array : array.Blind := by
  unfold Blind array
  simp only [List.forall_mem_cons]
  exact ⟨blind_arrayChunk, fun args => blind_onArray args _ _,
    fun args => blind_measuring args _ _, fun args => blind_measuring args _ _,
    fun args => blind_measuring args _ _, fun args => blind_measuring args _ _,
    fun args => blind_onArray args _ _, blind_arrayConcat, List.forall_mem_nil _⟩

/-! ## Tomes -/

theorem blind_entriesOf (v : Value) : Work.Blind (entriesOf v) := by
  cases v with
  | tome cell => exact blind_store.bind fun _ => blind_pure _
  | _ => exact blind_pure _

theorem blind_tomeKeys : Work.Blind (tomeKeys args) :=
  (blind_entriesOf _).bind fun _ => blind_newSequence _

theorem blind_tomeValues : Work.Blind (tomeValues args) :=
  (blind_entriesOf _).bind fun _ => blind_newSequence _

theorem blind_tomePairs : Work.Blind (tomePairs args) := by
  apply (blind_entriesOf _).bind
  intro entries
  exact (blind_build _).bind fun _ => blind_newSequence _

theorem blind_tomeMerge : Work.Blind (tomeMerge args) := by
  apply (blind_entriesOf _).bind
  intro first
  exact (blind_entriesOf _).bind fun _ => blind_newTome _

theorem blind_tomeTally : Work.Blind (tomeTally args) := by
  unfold tomeTally
  split
  · exact blind_newTome _
  · apply (blind_elements _ _).bind
    intro items
    exact blind_store.bind fun _ => blind_newTome _

theorem blind_tome : tome.Blind := by
  unfold Blind tome
  simp only [List.forall_mem_cons]
  exact ⟨blind_tomeKeys, blind_tomeValues, blind_tomePairs, blind_tomeMerge, blind_tomeTally,
    List.forall_mem_nil _⟩

/-- The standard libraries are blind. -/
theorem blind_of_mem_standard {l : Library} (h : l ∈ standard) : l.Blind := by
  simp only [standard, List.mem_cons, List.not_mem_nil, or_false] at h
  rcases h with rfl | rfl | rfl | rfl | rfl
  · exact blind_time
  · exact blind_json
  · exact blind_random
  · exact blind_array
  · exact blind_tome

end Library

end Grimoire
