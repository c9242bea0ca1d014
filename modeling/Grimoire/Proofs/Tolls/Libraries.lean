import Grimoire.Library.Standard
import Grimoire.Proofs.Tolls.Resources

/-!
# What libraries take of the random stream

The functions of chance rule on their arguments, and what they take is what they rule; one of them
puts in a seed. The functions of the other standard libraries take nothing.
-/

namespace Grimoire

/-! ## Rulings -/

namespace Ruling

/-- On a probability. -/
def onProbability (refusal : Number → RangeFault) (p : Number) : Ruling :=
  if 0 ≤ p ∧ p ≤ 1 then granted 1 else outOfRange (refusal p)

/-- On a pool to pick from. -/
def onPool (refusal : RangeFault) (pool : List Value) : Ruling :=
  if pool.isEmpty then outOfRange refusal else granted 1

/-- On an array to shuffle. -/
def onShuffle (user : String) (s : Store) : Value → Ruling
  | .sequence cell => granted ((s.items cell).length - 1)
  | v => wrongType (.expectedArray user.toList v.essence)

end Ruling

namespace Work

variable {r : Resources}

theorem heeds_probability (refusal : Number → RangeFault) (p : Number) :
    Heeds r (if 0 ≤ p ∧ p ≤ 1 then do return .boolean ((← draw Xorshift.nextUnit) < p)
      else failRange (refusal p) : Work Value) (.onProbability refusal p) := by
  unfold Ruling.onProbability
  split
  · exact ⟨_, _, rfl, rfl⟩
  · rfl

theorem heeds_pick (refusal : RangeFault) (pool : List Value) :
    Heeds r (Library.pick refusal pool) (.onPool refusal pool) := by
  unfold Library.pick Ruling.onPool
  split
  · rfl
  · exact ⟨_, _, rfl, rfl⟩

end Work

namespace Library

open Work

/-! ## Chance -/

/-- What one of the arguments is picked from: the elements of a lone array, or else all of them. -/
def poolOf (s : Store) : List Value → List Value
  | [.sequence cell] => s.items cell
  | args => args

/-- How the functions of chance that draw rule on their arguments. -/
def rulings : List (Text × (List Value → Store → Ruling)) :=
  [("float".toList, fun _ _ => .granted 1),
    ("int".toList, fun _ _ => .granted 1),
    ("bernoulli".toList, fun args s =>
      .onProbability .bernoulliProbability (s.toNumber (argument args 0))),
    ("choice".toList, fun args s => .onPool .emptyPool (poolOf s args)),
    ("shuffle".toList, fun args s => .onShuffle "random.shuffle" s (argument args 0)),
    ("sample".toList, fun args s => .onShuffle "random.sample" s (argument args 0))]

variable {r : Resources} {f : NativeFunction} {rule : List Value → Store → Ruling} {name : Text}

theorem heeds_randomBernoulli (args : List Value) :
    Heeds r (randomBernoulli args)
      (.onProbability .bernoulliProbability (r.store.toNumber (argument args 0))) :=
  heeds_toNumber_bind (heeds_probability .bernoulliProbability _)

theorem heeds_randomChoice (args : List Value) :
    Heeds r (randomChoice args) (.onPool .emptyPool (poolOf r.store args)) := by
  match args with
  | [] => exact heeds_pick _ _
  | [v] | v :: _ :: _ => cases v <;> exact heeds_pick _ _

/-- What is drawn between two bounds takes one draw, whatever it is made into. -/
theorem heeds_bounds (args : List Value) (make : Number × Number → Number → Value) :
    Heeds r (do return make (← bounds args) (← draw Xorshift.nextUnit)) (.granted 1) :=
  ⟨_, _, rfl, rfl⟩

theorem heeds_randomFloat (args : List Value) : Heeds r (randomFloat args) (.granted 1) :=
  heeds_bounds args fun b u => .number (u * (b.2 - b.1) + b.1)

theorem heeds_randomInt (args : List Value) : Heeds r (randomInt args) (.granted 1) :=
  heeds_bounds args fun b u => .number ((u * (b.2 - b.1 + 1)).floor + b.1)

theorem heeds_randomShuffle (args : List Value) :
    Heeds r (randomShuffle args) (.onShuffle "random.shuffle" r.store (argument args 0)) := by
  unfold randomShuffle
  cases argument args 0 with
  | sequence cell => exact ⟨_, _, rfl, Xorshift.shuffle_snd (r.store.items cell) r.random⟩
  | _ => rfl

theorem heeds_randomSample (args : List Value) :
    Heeds r (randomSample args) (.onShuffle "random.sample" r.store (argument args 0)) := by
  unfold randomSample
  cases argument args 0 with
  | sequence cell => exact ⟨_, _, rfl, Xorshift.shuffle_snd (r.store.items cell) r.random⟩
  | _ => rfl

/-- A function of chance puts in a seed or heeds its ruling. -/
theorem exists_ruling : ∀ f ∈ random.functions,
    (f.name = "seed".toList ∧ f.run = randomSeed) ∨
      ∃ rule, rulings.lookup f.name = some rule ∧
        ∀ args r, Heeds r (f.run args) (rule args r.store) := by
  unfold random
  simp only [List.forall_mem_cons]
  refine ⟨.inl ⟨trivial, trivial⟩, ?_, ?_, ?_, ?_, ?_, ?_, List.forall_mem_nil _⟩
  · exact .inr ⟨_, rfl, fun args r => heeds_randomFloat args⟩
  · exact .inr ⟨_, rfl, fun args r => heeds_randomInt args⟩
  · exact .inr ⟨_, rfl, fun args r => heeds_randomBernoulli args⟩
  · exact .inr ⟨_, rfl, fun args r => heeds_randomChoice args⟩
  · exact .inr ⟨_, rfl, fun args r => heeds_randomShuffle args⟩
  · exact .inr ⟨_, rfl, fun args r => heeds_randomSample args⟩

theorem call_of_function? {l : Library} (hf : l.function? name = some f) (args : List Value) :
    l.call name args = if f.arity.accepts args.length then f.run args
      else Work.fail (.wrongArity (l.path ++ '.' :: name) f.arity.describe args.length) := by
  rw [call, hf]

/-- A function of chance that is called with so many arguments as it takes does what it rules. -/
theorem heeds_call (hrule : rulings.lookup name = some rule)
    (hf : random.function? name = some f) {args : List Value}
    (harity : f.arity.accepts args.length = true) :
    Heeds r (random.call name args) (rule args r.store) := by
  have hname : f.name = name := by
    simpa using List.find?_some hf
  rw [call_of_function? hf, if_pos harity]
  rcases exists_ruling f (List.mem_of_find?_eq_some hf) with ⟨hseed, -⟩ | ⟨rule', hrule', hheeds⟩
  · rw [← hname, hseed] at hrule
    cases hrule
  · rw [hname, hrule] at hrule'
    cases hrule'
    exact hheeds args r

/-- What a function of chance takes if it comes to a result. -/
def chanceTolls (name : Text) (args : List Value) (s : Store) : List Toll :=
  if name = "seed".toList then [.seed (Xorshift.seedOfNumber (s.toNumber (argument args 0)))]
  else (rulings.lookup name).elim [] fun rule => (rule args s).tolls

/-- What is due for a call of a library function. A call that fails takes nothing. -/
def due (l : Library) (name : Text) (args : List Value) (r : Resources) : List Toll :=
  dueAfter (l.call name args)
    (fun _ _ => if l.path = random.path then chanceTolls name args r.store else []) r

theorem pays_of_mem_random (hf : f ∈ random.functions) (args : List Value) :
    Pays r (f.run args) (dueAfter (f.run args) (fun _ _ => chanceTolls f.name args r.store) r) := by
  rcases exists_ruling f hf with ⟨hname, hrun⟩ | ⟨rule, hrule, hheeds⟩
  · rw [hname, hrun]
    rfl
  · -- the name decides between a seed and a ruling, and it has a ruling
    have hseed : f.name ≠ "seed".toList := by
      intro hseed
      rw [hseed] at hrule
      cases hrule
    have htolls : chanceTolls f.name args r.store = (rule args r.store).tolls := by
      rw [chanceTolls, if_neg hseed, hrule]
      rfl
    rw [htolls, (hheeds args r).dueAfter_eq]
    exact (hheeds args r).pays

theorem pays_call_random (name : Text) (args : List Value) (r : Resources) :
    Pays r (random.call name args) (random.due name args r) := by
  unfold due
  rw [if_pos rfl]
  cases hf : random.function? name with
  | none =>
    rw [call, hf]
    rfl
  | some f =>
    have hname : f.name = name := by simpa using List.find?_some hf
    rw [call_of_function? hf]
    split
    · rw [← hname]
      exact pays_of_mem_random (List.mem_of_find?_eq_some hf) args
    · rfl

/-! ## The other libraries -/

/-- No function of the library moves the random stream. -/
def Still (l : Library) : Prop :=
  ∀ f ∈ l.functions, ∀ args, Work.Still (f.run args)

theorem Still.call {l : Library} (h : l.Still) (name : Text) (args : List Value) :
    Work.Still (l.call name args) := by
  unfold Library.call
  split
  · exact still_throw _
  · next f hf =>
    apply still_ite
    · exact h f (List.mem_of_find?_eq_some hf) args
    · exact still_throw _

/-- Nothing is due for the functions of a library of another path than that of chance. -/
theorem due_of_path_ne {l : Library} (hpath : l.path ≠ random.path) {name : Text}
    {args : List Value} : l.due name args r = [] := by
  unfold due
  rw [if_neg hpath]
  exact dueAfter_nothing _ r

theorem Still.pays_call {l : Library} (h : l.Still) (hpath : l.path ≠ random.path) (name : Text)
    (args : List Value) (r : Resources) : Pays r (l.call name args) (l.due name args r) := by
  rw [due_of_path_ne hpath]
  exact (h.call name args).pays r

variable (args : List Value)

theorem still_onTimestamp (g : Timestamp → Timestamp) : Work.Still (onTimestamp g args) :=
  (still_toTimestamp _).bind fun _ => still_pure _

theorem still_onTimestamps (g : Timestamp → Timestamp → Number) :
    Work.Still (onTimestamps g args) := by
  apply (still_toTimestamp _).bind
  intro a
  exact (still_toTimestamp _).bind fun _ => still_pure _

theorem still_shifting (unit : Int) :
    Work.Still (shifting (fun t x => Work.shift t x unit) args) := by
  apply (still_toTimestamp _).bind
  intro t
  apply (still_toNumber _).bind
  intro x
  exact (still_shift t x unit).bind fun _ => still_pure _

theorem still_timeFormat : Work.Still (timeFormat args) := by
  apply (still_toTimestamp _).bind
  intro t
  exact (still_display _).bind fun _ => still_pure _

theorem still_timeParse : Work.Still (timeParse args) := by
  apply (still_display _).bind
  intro text
  apply (still_display _).bind
  intro pattern
  exact (still_parseTime text pattern).bind fun _ => still_pure _

theorem still_time : time.Still := by
  unfold Still time
  simp only [List.forall_mem_cons]
  exact ⟨fun args => still_clock fun clock => Value.timestamp clock.localTime, still_timeFormat,
    still_timeParse, fun args => still_shifting args 86400, fun args => still_shifting args 3600,
    fun args => still_onTimestamps args _, fun args => still_onTimestamps args _,
    fun args => still_onTimestamp args _, fun args => still_onTimestamp args _,
    List.forall_mem_nil _⟩

theorem still_json : json.Still := by
  unfold Still json
  simp only [List.forall_mem_cons]
  refine ⟨?_, ?_, List.forall_mem_nil _⟩
  · intro args
    exact (still_encode _).bind fun _ => still_pure _
  · intro args
    exact (still_display _).bind fun text => still_decode text

theorem still_onArray (user : Text) (g : Store → List Value → List Value) :
    Work.Still (onArray user g args) := by
  apply (still_elements _ _).bind
  intro items
  exact still_store.bind fun _ => still_newSequence _

theorem still_measuring (user : Text) (g : Store → List Value → Except RangeFault Number) :
    Work.Still (measuring user g args) := by
  apply (still_elements _ _).bind
  intro items
  apply still_store.bind
  intro s
  exact (still_ofRange _).bind fun _ => still_pure _

theorem still_arrayChunk : Work.Still (arrayChunk args) := by
  apply (still_elements _ _).bind
  intro items
  apply (still_toInt _).bind
  intro size
  exact (still_build _).bind fun _ => still_newSequence _

theorem still_arrayConcat : Work.Still (arrayConcat args) := by
  apply (still_elements _ _).bind
  intro first
  exact (still_elements _ _).bind fun _ => still_newSequence _

theorem still_array : array.Still := by
  unfold Still array
  simp only [List.forall_mem_cons]
  exact ⟨still_arrayChunk, fun args => still_onArray args _ _,
    fun args => still_measuring args _ _, fun args => still_measuring args _ _,
    fun args => still_measuring args _ _, fun args => still_measuring args _ _,
    fun args => still_onArray args _ _, still_arrayConcat, List.forall_mem_nil _⟩

theorem still_entriesOf (v : Value) : Work.Still (entriesOf v) := by
  cases v with
  | tome cell => exact still_store.bind fun _ => still_pure _
  | _ => exact still_pure _

theorem still_tomePairs : Work.Still (tomePairs args) := by
  apply (still_entriesOf _).bind
  intro entries
  exact (still_build _).bind fun _ => still_newSequence _

theorem still_tomeMerge : Work.Still (tomeMerge args) := by
  apply (still_entriesOf _).bind
  intro first
  exact (still_entriesOf _).bind fun _ => still_newTome _

theorem still_tomeTally : Work.Still (tomeTally args) := by
  unfold tomeTally
  split
  · exact still_newTome _
  · apply (still_elements _ _).bind
    intro items
    exact still_store.bind fun _ => still_newTome _

theorem still_tome : tome.Still := by
  unfold Still tome
  simp only [List.forall_mem_cons]
  exact ⟨fun args => (still_entriesOf _).bind fun _ => still_newSequence _,
    fun args => (still_entriesOf _).bind fun _ => still_newSequence _, still_tomePairs,
    still_tomeMerge, still_tomeTally, List.forall_mem_nil _⟩

/-- A call of a standard library takes what is due. -/
theorem pays_call {l : Library} (h : l ∈ standard) (name : Text) (r : Resources) :
    Pays r (l.call name args) (l.due name args r) := by
  simp only [standard, List.mem_cons, List.not_mem_nil, or_false] at h
  rcases h with rfl | rfl | rfl | rfl | rfl
  · exact still_time.pays_call (by decide) name args r
  · exact still_json.pays_call (by decide) name args r
  · exact pays_call_random name args r
  · exact still_array.pays_call (by decide) name args r
  · exact still_tome.pays_call (by decide) name args r

end Library

end Grimoire
