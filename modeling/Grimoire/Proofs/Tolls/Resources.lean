import Grimoire.Proofs.Blind.Resources
import Grimoire.Proofs.Streams

/-!
# Tolls

What a computation takes of the random stream is put down as a list of tolls, each so many draws or
a new seed. However long the list, the stream that it leaves is the seed put in last, stepped as
often as draws were made since. Most steps of computations take nothing. An operation of chance
rules on its arguments before it draws, so that it either fails and has taken nothing or makes a
number of draws that the arguments decide.
-/

namespace Grimoire

/-! ## Tolls -/

/-- What is taken of the random stream at a time. -/
inductive Toll where
  | draws (count : Nat)
  /-- The stream starts anew. -/
  | seed (word : UInt32)
  deriving DecidableEq, Repr

namespace Toll

/-- What a toll leaves of the random stream. -/
def leaves : Toll → Xorshift → Xorshift
  | draws count, x => Xorshift.step^[count] x
  | seed word, _ => ⟨word⟩

/-- What tolls that are taken one after the other leave of the random stream. -/
def settle (tolls : List Toll) (x : Xorshift) : Xorshift :=
  tolls.foldl (fun x toll => toll.leaves x) x

theorem settle_cons (toll : Toll) (tolls : List Toll) (x : Xorshift) :
    settle (toll :: tolls) x = settle tolls (toll.leaves x) := rfl

theorem settle_append (tolls more : List Toll) (x : Xorshift) :
    settle (tolls ++ more) x = settle more (settle tolls x) :=
  List.foldl_append

/-- The seed put in last. -/
def lastSeed? : List Toll → Option UInt32
  | [] => none
  | draws _ :: rest => lastSeed? rest
  | seed word :: rest => (lastSeed? rest).or (some word)

/-- The number of draws since a seed was put in. -/
def drawsSince : List Toll → Nat
  | [] => 0
  | draws count :: rest =>
    if (lastSeed? rest).isSome then drawsSince rest else drawsSince rest + count
  | seed _ :: rest => drawsSince rest

/-- Tolls leave the seed put in last, or else the stream as it was, stepped as often as draws were
made since. -/
theorem settle_eq_iterate (tolls : List Toll) (x : Xorshift) :
    settle tolls x = Xorshift.step^[drawsSince tolls] ((lastSeed? tolls).elim x Xorshift.mk) := by
  induction tolls generalizing x with
  | nil => rfl
  | cons toll rest ih =>
    rw [settle_cons, ih]
    cases toll with
    | draws count =>
      rw [lastSeed?, drawsSince]
      -- a seed that comes later undoes these draws
      cases lastSeed? rest with
      | none => exact (Function.iterate_add_apply Xorshift.step (drawsSince rest) count x).symm
      | some word => rfl
    | seed word =>
      rw [lastSeed?, drawsSince]
      cases lastSeed? rest <;> rfl

example : drawsSince [.draws 2, .seed 7, .draws 3, .draws 1] = 4 := rfl

end Toll

/-- What becomes of an operation of chance, as its arguments decide. -/
inductive Ruling where
  | wrongType (fault : TypeFault)
  | outOfRange (fault : RangeFault)
  | granted (draws : Nat)

/-- The tolls of an operation with a ruling. Only one that is granted takes any. -/
def Ruling.tolls : Ruling → List Toll
  | wrongType _ | outOfRange _ => []
  | granted draws => [.draws draws]

/-- What is due after a computation: nothing if it fails. -/
def dueAfter {ε τ α : Type} (x : ExceptT ε (StateM τ) α) (due : α → τ → List Toll) (t : τ) :
    List Toll :=
  match x.run.run t with
  | (.ok a, t') => due a t'
  | (.error _, _) => []

theorem dueAfter_of_ok {ε τ α : Type} {x : ExceptT ε (StateM τ) α} {due : α → τ → List Toll}
    {t t' : τ} {a : α} (h : x.run.run t = (.ok a, t')) : dueAfter x due t = due a t' := by
  rw [dueAfter, h]

theorem dueAfter_of_error {ε τ α : Type} {x : ExceptT ε (StateM τ) α} {due : α → τ → List Toll}
    {t t' : τ} {e : ε} (h : x.run.run t = (.error e, t')) : dueAfter x due t = [] := by
  rw [dueAfter, h]

theorem dueAfter_nothing {ε τ α : Type} (x : ExceptT ε (StateM τ) α) (t : τ) :
    dueAfter x (fun _ _ => []) t = [] := by
  unfold dueAfter
  rcases x.run.run t with ⟨_ | _, _⟩ <;> rfl

namespace Work

variable {α β : Type} {r : Resources} {tolls : List Toll}

/-! ## What computations take -/

/-- From the random stream of the resources, the computation takes the tolls. -/
def Pays (r : Resources) (w : Work α) (tolls : List Toll) : Prop :=
  (w.run.run r).2.random = Toll.settle tolls r.random

theorem Pays.bind {w : Work α} {f : α → Work β} {due : α → Resources → List Toll}
    (h : Pays r w tolls) (hf : ∀ a r', Pays r' (f a) (due a r')) :
    Pays r (w >>= f) (tolls ++ dueAfter w due r) := by
  unfold Pays at h ⊢
  rw [run_bind, Toll.settle_append, ← h]
  rcases hrun : w.run.run r with ⟨fault | a, r'⟩
  · rw [dueAfter_of_error hrun]
    rfl
  · rw [dueAfter_of_ok hrun]
    exact hf a r'

/-- The operation does what is ruled: it fails before it changes anything, or it comes to a result
and has made so many draws. -/
def Heeds (r : Resources) (w : Work α) : Ruling → Prop
  | .wrongType fault => w.run.run r = (.error (.wrongType fault), r)
  | .outOfRange fault => w.run.run r = (.error (.outOfRange fault), r)
  | .granted draws => ∃ a r', w.run.run r = (.ok a, r') ∧
      r'.random = Xorshift.step^[draws] r.random

theorem Heeds.pays {w : Work α} {ruling : Ruling} (h : Heeds r w ruling) :
    Pays r w ruling.tolls := by
  unfold Pays
  cases ruling with
  | wrongType fault | outOfRange fault => rw [show w.run.run r = _ from h]; rfl
  | granted draws =>
    obtain ⟨a, r', hrun, hrandom⟩ := h
    rw [hrun]
    exact hrandom

/-- What a ruling takes is due after a computation that heeds it. -/
theorem Heeds.dueAfter_eq {w : Work α} {ruling : Ruling} (h : Heeds r w ruling) :
    dueAfter w (fun _ _ => ruling.tolls) r = ruling.tolls := by
  cases ruling with
  | wrongType fault | outOfRange fault => exact dueAfter_of_error h
  | granted draws =>
    obtain ⟨a, r', hrun, -⟩ := h
    exact dueAfter_of_ok hrun

/-- Only what the computation does with these resources counts. -/
theorem Heeds.of_run_eq {w w' : Work α} {ruling : Ruling} (h : Heeds r w ruling)
    (hrun : w'.run.run r = w.run.run r) : Heeds r w' ruling := by
  cases ruling with
  | wrongType fault | outOfRange fault => exact hrun.trans h
  | granted draws =>
    obtain ⟨a, r', hok, hrandom⟩ := h
    exact ⟨a, r', hrun.trans hok, hrandom⟩

theorem heeds_toNumber_bind {v : Value} {f : Number → Work α} {ruling : Ruling}
    (h : Heeds r (f (r.store.toNumber v)) ruling) : Heeds r (toNumber v >>= f) ruling :=
  h.of_run_eq rfl

/-! ## Computations that take nothing -/

/-- The computation leaves the random stream where it is. -/
def Still (w : Work α) : Prop :=
  ∀ r : Resources, (w.run.run r).2.random = r.random

theorem Still.pays {w : Work α} (h : Still w) (r : Resources) : Pays r w [] :=
  h r

theorem still_pure (a : α) : Still (pure a) :=
  fun _ => rfl

theorem still_throw (fault : Fault) : Still (throw fault : Work α) :=
  fun _ => rfl

theorem Still.bind {w : Work α} {f : α → Work β} (h : Still w) (hf : ∀ a, Still (f a)) :
    Still (w >>= f) := by
  intro r
  have hr := h r
  rw [run_bind]
  rcases hrun : w.run.run r with ⟨fault | a, r'⟩
  · rw [hrun] at hr
    exact hr
  · rw [hrun] at hr
    exact (hf a r').trans hr

theorem still_ite {c : Prop} [Decidable c] {w w' : Work α} (h : Still w) (h' : Still w') :
    Still (if c then w else w') := by
  split
  · exact h
  · exact h'

theorem still_ofRange (result : Except RangeFault α) : Still (ofRange result) := by
  cases result with
  | error fault => exact still_throw _
  | ok a => exact still_pure a

theorem still_store : Still store :=
  fun _ => rfl

theorem still_clock (read : Clock → α) : Still (do return read (← get).clock) :=
  fun _ => rfl

theorem still_build (make : Store → α × Store) : Still (build make) :=
  fun _ => rfl

theorem still_newSequence (items : List Value) : Still (newSequence items) :=
  still_build _

theorem still_newTome (entries : Table Value) : Still (newTome entries) :=
  still_build _

theorem still_display (v : Value) : Still (display v) :=
  fun _ => rfl

theorem still_toNumber (v : Value) : Still (toNumber v) :=
  fun _ => rfl

theorem still_toInt (v : Value) : Still (toInt v) :=
  fun _ => rfl

theorem still_elements (user : Text) (v : Value) : Still (elements user v) := by
  cases v with
  | sequence cell => exact still_store.bind fun _ => still_pure _
  | _ => exact still_throw _

theorem still_toTimestamp (v : Value) : Still (toTimestamp v) := by
  cases v with
  | timestamp t => exact still_pure t
  | number x =>
    apply still_ite
    · exact still_throw _
    · split
      · exact still_pure _
      · exact still_throw _
  | string text =>
    rw [toTimestamp]
    split
    · exact still_pure _
    · exact still_throw _
  | _ => exact still_throw _

theorem still_shift (t : Timestamp) (amount : Number) (unit : Int) :
    Still (shift t amount unit) := by
  apply still_ite
  · exact still_throw _
  · split
    · exact still_pure _
    · exact still_throw _

theorem still_parseTime (text pattern : Text) : Still (parseTime text pattern) := by
  have hpattern : Still (timePattern pattern) := by
    intro r
    rw [timePattern_eq]
    cases r.timePatterns.get? pattern <;> rfl
  apply hpattern.bind
  intro compiled
  split
  · exact still_pure _
  · exact still_throw _

theorem still_encode (v : Value) : Still (encode v) := by
  apply still_store.bind
  intro s
  split
  · exact still_pure _
  · exact still_throw _

theorem still_decode (text : Text) : Still (decode text) := by
  intro r
  rw [decode_eq]
  cases r.store.decode text <;> rfl

end Work

end Grimoire
