import Grimoire.Proofs.Related
import Grimoire.Proofs.Tables

/-!
# Prepared time patterns cannot be told

Resources match if they differ at most in the time patterns that have been prepared, and every
pattern that has been prepared is what preparing it again would give. A computation is blind if from
resources that match it comes to the same result and to resources that match: it cannot tell which
patterns were prepared before. The steps of computations are blind, and so is what is made of blind
steps.
-/

namespace Grimoire

/-! ## Resources that match -/

/-- Every pattern of the table is found as it would be prepared. -/
def TimePattern.Prepared (patterns : Table TimePattern) : Prop :=
  ∀ text compiled, patterns.get? text = some compiled → compiled = .compile text

theorem TimePattern.prepared_empty : Prepared .empty := by
  intro text compiled h
  cases h

theorem TimePattern.Prepared.insert {patterns : Table TimePattern} (h : Prepared patterns)
    (text : Text) : Prepared (patterns.insert text (.compile text)) := by
  intro text' compiled hfound
  rw [Table.get?_insert] at hfound
  by_cases hsame : text' = text
  · rw [if_pos hsame] at hfound
    rw [hsame]
    exact (Option.some.inj hfound).symm
  · rw [if_neg hsame] at hfound
    exact h text' compiled hfound

/-- Resources that differ at most in the time patterns that have been prepared. -/
structure Resources.Matches (r r' : Resources) : Prop where
  store : r.store = r'.store
  random : r.random = r'.random
  clock : r.clock = r'.clock
  left : TimePattern.Prepared r.timePatterns
  right : TimePattern.Prepared r'.timePatterns

namespace Work

variable {α β : Type}

/-- A computation that cannot tell which time patterns have been prepared. -/
def Blind (w : Work α) : Prop :=
  Related Resources.Matches w w

/-! ## Steps -/

theorem blind_pure (a : α) : Blind (pure a) :=
  related_pure a

theorem blind_throw (fault : Fault) : Blind (throw fault : Work α) :=
  related_throw fault

theorem blind_failType (fault : TypeFault) : Blind (failType fault : Work α) :=
  blind_throw _

theorem blind_failRange (fault : RangeFault) : Blind (failRange fault : Work α) :=
  blind_throw _

theorem Blind.bind {w : Work α} {f : α → Work β} (h : Blind w) (hf : ∀ a, Blind (f a)) :
    Blind (w >>= f) :=
  Related.bind h hf

theorem blind_ite {c : Prop} [Decidable c] {w w' : Work α} (h : Blind w) (h' : Blind w') :
    Blind (if c then w else w') := by
  split
  · exact h
  · exact h'

theorem blind_ofRange (result : Except RangeFault α) : Blind (ofRange result) := by
  cases result with
  | error fault => exact blind_failRange fault
  | ok a => exact blind_pure a

theorem blind_store : Blind store := by
  intro r r' h
  constructor
  · show Except.ok r.store = Except.ok r'.store
    rw [h.store]
  · exact h

/-- What is read off the clock. -/
theorem blind_clock (read : Clock → α) : Blind (do return read (← get).clock) := by
  intro r r' h
  constructor
  · show Except.ok (read r.clock) = Except.ok (read r'.clock)
    rw [h.clock]
  · exact h

/-- What is built in the store is the same in the same store. -/
theorem blind_build (make : Store → α × Store) : Blind (build make) := by
  intro r r' h
  constructor
  · show Except.ok (make r.store).1 = Except.ok (make r'.store).1
    rw [h.store]
  · constructor
    · show (make r.store).2 = (make r'.store).2
      rw [h.store]
    · exact h.random
    · exact h.clock
    · exact h.left
    · exact h.right

theorem blind_newSequence (items : List Value) : Blind (newSequence items) :=
  blind_build _

theorem blind_newTome (entries : Table Value) : Blind (newTome entries) :=
  blind_build _

/-- The same numbers are drawn from the same place of the stream. -/
theorem blind_draw (take : Xorshift → α × Xorshift) : Blind (draw take) := by
  intro r r' h
  constructor
  · show Except.ok (take r.random).1 = Except.ok (take r'.random).1
    rw [h.random]
  · constructor
    · exact h.store
    · show (take r.random).2 = (take r'.random).2
      rw [h.random]
    · exact h.clock
    · exact h.left
    · exact h.right

theorem blind_reseed (seed : UInt32) : Blind (reseed seed) :=
  fun _ _ h => ⟨rfl, h.store, rfl, h.clock, h.left, h.right⟩

theorem blind_display (v : Value) : Blind (display v) :=
  blind_store.bind fun _ => blind_pure _

theorem blind_toNumber (v : Value) : Blind (toNumber v) :=
  blind_store.bind fun _ => blind_pure _

theorem blind_toInt (v : Value) : Blind (toInt v) :=
  blind_store.bind fun _ => blind_pure _

theorem blind_elements (user : Text) (v : Value) : Blind (elements user v) := by
  cases v with
  | sequence cell => exact blind_store.bind fun _ => blind_pure _
  | _ => exact blind_failType _

/-! ## Dates -/

theorem blind_toTimestamp (v : Value) : Blind (toTimestamp v) := by
  cases v with
  | timestamp t => exact blind_pure t
  | number x =>
    apply blind_ite
    · exact blind_failRange _
    · split
      · exact blind_pure _
      · exact blind_failRange _
  | string text =>
    rw [toTimestamp]
    split
    · exact blind_pure _
    · exact blind_throw _
  | _ => exact blind_failType _

theorem blind_shift (t : Timestamp) (amount : Number) (unit : Int) :
    Blind (shift t amount unit) := by
  apply blind_ite
  · exact blind_failRange _
  · split
    · exact blind_pure _
    · exact blind_failRange _

theorem timePattern_eq (text : Text) (r : Resources) :
    (timePattern text).run.run r = match r.timePatterns.get? text with
      | some compiled => (.ok compiled, r)
      | none => (.ok (.compile text),
          { r with timePatterns := r.timePatterns.insert text (.compile text) }) := by
  show (match r.timePatterns.get? text with
    | some compiled => return compiled
    | none => do
      set { r with timePatterns := r.timePatterns.insert text (.compile text) }
      return .compile text : Work TimePattern).run.run r = _
  cases r.timePatterns.get? text <;> rfl

theorem run_timePattern {r : Resources} (h : TimePattern.Prepared r.timePatterns) (text : Text) :
    ((timePattern text).run.run r).1 = .ok (.compile text) ∧
      ((timePattern text).run.run r).2.store = r.store ∧
      ((timePattern text).run.run r).2.random = r.random ∧
      ((timePattern text).run.run r).2.clock = r.clock ∧
      TimePattern.Prepared ((timePattern text).run.run r).2.timePatterns := by
  rw [timePattern_eq]
  cases hfound : r.timePatterns.get? text with
  | some compiled =>
    rw [h text compiled hfound]
    exact ⟨rfl, rfl, rfl, rfl, h⟩
  | none => exact ⟨rfl, rfl, rfl, rfl, h.insert text⟩

/-- A pattern that is wanted is the same whether it is found or prepared. -/
theorem blind_timePattern (text : Text) : Blind (timePattern text) := by
  intro r r' h
  obtain ⟨hresult, hstore, hrandom, hclock, hprepared⟩ := run_timePattern h.left text
  obtain ⟨hresult', hstore', hrandom', hclock', hprepared'⟩ := run_timePattern h.right text
  constructor
  · rw [hresult, hresult']
  · constructor
    · rw [hstore, hstore', h.store]
    · rw [hrandom, hrandom', h.random]
    · rw [hclock, hclock', h.clock]
    · exact hprepared
    · exact hprepared'

theorem blind_parseTime (text pattern : Text) : Blind (parseTime text pattern) := by
  apply (blind_timePattern pattern).bind
  intro compiled
  split
  · exact blind_pure _
  · exact blind_throw _

/-! ## JSON -/

theorem blind_encode (v : Value) : Blind (encode v) := by
  apply blind_store.bind
  intro s
  split
  · exact blind_pure _
  · exact blind_failType _

theorem decode_eq (text : Text) (r : Resources) :
    (decode text).run.run r = match r.store.decode text with
      | .ok (v, store) => (.ok v, { r with store })
      | .error fault => (.error (.unreadable fault), r) := by
  show (match r.store.decode text with
    | .ok (v, store) => do
      set { r with store }
      return v
    | .error fault => throw (.unreadable fault) : Work Value).run.run r = _
  cases r.store.decode text <;> rfl

theorem blind_decode (text : Text) : Blind (decode text) := by
  intro r r' h
  rw [decode_eq, decode_eq, h.store]
  cases r'.store.decode text with
  | error fault => exact ⟨rfl, h⟩
  | ok made => exact ⟨rfl, rfl, h.random, h.clock, h.left, h.right⟩

end Work

end Grimoire
