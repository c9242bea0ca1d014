import Grimoire.Proofs.Tolls.Programs
import Mathlib.Data.FinEnum

/-!
# The random stream never collapses

A step of the random stream mixes a word three times with a copy of itself, shifted. A bit of the
mixed word is the bit of the word at the same place and one that was shifted there, so the word is
found again bit by bit, from the end at which the shift brings zeros in. Hence a step loses nothing,
and neither do any number of draws: streams that differ keep apart, and the stream of zeros is
entered from no other.
-/

namespace Grimoire

namespace Xorshift

/-! ## Mixing -/

section Mixing

variable {width shift : Nat}

/-- A word mixed with itself shifted to the left. -/
def mixLeft (shift : Nat) (x : BitVec width) : BitVec width :=
  x ^^^ x <<< shift

/-- A word mixed with itself shifted to the right. -/
def mixRight (shift : Nat) (x : BitVec width) : BitVec width :=
  x ^^^ x >>> shift

theorem getLsbD_mixLeft (x : BitVec width) (i : Nat) :
    (mixLeft shift x).getLsbD i =
      (x.getLsbD i ^^ (decide (i < width) && !decide (i < shift) && x.getLsbD (i - shift))) := by
  rw [mixLeft, BitVec.getLsbD_xor, BitVec.getLsbD_shiftLeft]

theorem getLsbD_mixRight (x : BitVec width) (i : Nat) :
    (mixRight shift x).getLsbD i = (x.getLsbD i ^^ x.getLsbD (shift + i)) := by
  rw [mixRight, BitVec.getLsbD_xor, BitVec.getLsbD_ushiftRight]

/-- The bits of a word are found again from the lowest on. -/
theorem mixLeft_injective (hshift : 0 < shift) :
    Function.Injective (mixLeft shift : BitVec width → BitVec width) := by
  intro x y hxy
  have hbit : ∀ i, x.getLsbD i = y.getLsbD i := by
    intro i
    induction i using Nat.strongRecOn with
    | ind i ih =>
      have hi := congrArg (BitVec.getLsbD · i) hxy
      simp only [getLsbD_mixLeft] at hi
      by_cases hlow : i < shift
      · simpa [hlow] using hi
      · rw [ih (i - shift) (by omega)] at hi
        exact Bool.xor_left_inj.1 hi
  exact BitVec.eq_of_getLsbD_eq fun i _ => hbit i

/-- The bits of a word are found again from the highest on. -/
theorem mixRight_injective (hshift : 0 < shift) :
    Function.Injective (mixRight shift : BitVec width → BitVec width) := by
  intro x y hxy
  have hbit : ∀ above i, width - i = above → x.getLsbD i = y.getLsbD i := by
    intro above
    induction above using Nat.strongRecOn with
    | ind above ih =>
      intro i habove
      by_cases hhigh : width ≤ i
      · rw [BitVec.getLsbD_of_ge x i hhigh, BitVec.getLsbD_of_ge y i hhigh]
      · have hi := congrArg (BitVec.getLsbD · i) hxy
        simp only [getLsbD_mixRight] at hi
        rw [ih (width - (shift + i)) (by omega) (shift + i) rfl] at hi
        exact Bool.xor_left_inj.1 hi
  exact BitVec.eq_of_getLsbD_eq fun i _ => hbit _ i rfl

end Mixing

/-! ## Steps -/

theorem toBitVec_stepWord (x : UInt32) :
    (stepWord x).toBitVec = mixLeft 5 (mixRight 17 (mixLeft 13 x.toBitVec)) := rfl

theorem stepWord_injective : Function.Injective stepWord := by
  intro x y hxy
  have hmixed := congrArg UInt32.toBitVec hxy
  rw [toBitVec_stepWord, toBitVec_stepWord] at hmixed
  refine UInt32.toBitVec_inj.1 ?_
  exact mixLeft_injective (by decide)
    (mixRight_injective (by decide) (mixLeft_injective (by decide) hmixed))

theorem stepWord_bijective : Function.Bijective stepWord :=
  Finite.injective_iff_bijective.1 stepWord_injective

theorem step_injective : Function.Injective step := by
  intro x y hxy
  have hstate : stepWord x.state = stepWord y.state := congrArg state hxy
  cases x
  cases y
  exact congrArg mk (stepWord_injective hstate)

/-! ## Draws -/

/-- So many draws lead from one place of the random stream to another. They are made one at a time,
for a number or for an index, or together, for a shuffle. -/
inductive Draws : Nat → Xorshift → Xorshift → Prop
  | none (x : Xorshift) : Draws 0 x x
  | unit {n : Nat} {x y : Xorshift} (h : Draws n x y) : Draws (n + 1) x y.nextUnit.2
  | index {n : Nat} {x y : Xorshift} (bound : Nat) (h : Draws n x y) :
      Draws (n + 1) x (y.nextIndex bound).2
  | shuffle {α : Type} {n : Nat} {x y : Xorshift} (items : List α) (h : Draws n x y) :
      Draws (n + (items.length - 1)) x (y.shuffle items).2

theorem Draws.eq_iterate {n : Nat} {x y : Xorshift} (h : Draws n x y) : y = step^[n] x := by
  induction h with
  | none x => rfl
  | unit h ih | index bound h ih =>
    rw [Function.iterate_succ_apply', ← ih]
    rfl
  | shuffle items h ih => rw [shuffle_snd, Nat.add_comm, Function.iterate_add_apply, ← ih]

theorem draws_iterate (n : Nat) (x : Xorshift) : Draws n x (step^[n] x) := by
  induction n with
  | zero => exact .none x
  | succ n ih =>
    rw [Function.iterate_succ_apply']
    exact .unit ih

theorem state_iterate_eq_zero_iff (n : Nat) (x : Xorshift) :
    (step^[n] x).state = 0 ↔ x.state = 0 := by
  have hzero : ∀ y : Xorshift, y.state = 0 ↔ y = ⟨0⟩ := by
    rintro ⟨word⟩
    exact ⟨congrArg mk, congrArg state⟩
  have hfixed : step^[n] ⟨0⟩ = ⟨0⟩ := Function.iterate_fixed rfl n
  calc (step^[n] x).state = 0 ↔ step^[n] x = step^[n] ⟨0⟩ := by rw [hzero, hfixed]
    _ ↔ x = ⟨0⟩ := (step_injective.iterate n).eq_iff
    _ ↔ x.state = 0 := (hzero x).symm

end Xorshift

namespace Machine

variable {σ : Type} [Host σ]

/-- The step of the random stream is a bijection of the words. Draws, of whatever kind, come to as
many steps. So after any number of draws the stream is at zero exactly if its seed is zero, and
streams that differ still do after equally many draws. Whatever calls are made, the stream of a
machine is at zero exactly if the seed put in last is. -/
theorem stream_never_collapses :
    Function.Bijective Xorshift.stepWord ∧
    (∀ n x y, Xorshift.Draws n x y ↔ y = Xorshift.step^[n] x) ∧
    (∀ n seed x, Xorshift.Draws n ⟨seed⟩ x → (x.state = 0 ↔ seed = 0)) ∧
    (∀ n x y x' y', Xorshift.Draws n x x' → Xorshift.Draws n y y' → x.state ≠ y.state →
      x'.state ≠ y'.state) ∧
    ∀ config clock (host : σ) calls,
      (afterCalls config clock host calls).stream.state = 0 ↔
        (Toll.lastSeed? (Levy.calls calls (fresh config .standard clock host))).getD
          config.seed = 0 := by
  refine ⟨Xorshift.stepWord_bijective, ?_, ?_, ?_, ?_⟩
  · intro n x y
    constructor
    · exact Xorshift.Draws.eq_iterate
    · rintro rfl
      exact Xorshift.draws_iterate n x
  · intro n seed x hdraws
    rw [hdraws.eq_iterate]
    exact Xorshift.state_iterate_eq_zero_iff n ⟨seed⟩
  · intro n x y x' y' hx hy hne heq
    have hsame : Xorshift.step^[n] x = Xorshift.step^[n] y := by
      rw [← hx.eq_iterate, ← hy.eq_iterate]
      exact congrArg Xorshift.mk heq
    exact hne (congrArg Xorshift.state (Xorshift.step_injective.iterate n hsame))
  · intro config clock host calls
    obtain ⟨-, hstream⟩ := (standard_fresh config clock host).calls calls
    have hplace : (afterCalls config clock host calls).stream = _ :=
      hstream.trans (Toll.settle_eq_iterate _ _)
    rw [hplace, Xorshift.state_iterate_eq_zero_iff]
    cases Toll.lastSeed? (Levy.calls calls (fresh config .standard clock host)) <;> rfl

/-- A source that puts in a seed that is wrapped to zero, and draws. -/
def stilling : Text :=
  "Summon \"std/random\" as dice ok\nseed is invoke dice.seed with 4294967296 ok
DrawFrom [1, 2, 3] count 2 into hand ok".toList

theorem stream_never_collapses_stilling :
    ((((Xorshift.mk 7).nextIndex 6).2.shuffle [true, false, true]).2.state = 0 ↔ (7 : UInt32) = 0) ∧
    (((Xorshift.mk 7).nextIndex 6).2.shuffle [true, false, true]).2.state ≠
      (Xorshift.mk 8).step.step.step.state ∧
    (afterCalls {} default ({} : Transcript) [.interpret stilling]).stream.state = 0 := by
  obtain ⟨-, hdraws, hzero, hapart, hcalls⟩ := stream_never_collapses (σ := Transcript)
  have hseven : Xorshift.Draws 3 ⟨7⟩ (((Xorshift.mk 7).nextIndex 6).2.shuffle
      [true, false, true]).2 := .shuffle [true, false, true] (.index 6 (.none ⟨7⟩))
  refine ⟨hzero 3 7 _ hseven, ?_, ?_⟩
  · exact hapart 3 ⟨7⟩ ⟨8⟩ _ _ hseven ((hdraws 3 ⟨8⟩ _).2 rfl) (by decide)
  · have hseed : Toll.lastSeed?
        (Levy.calls [.interpret stilling] (fresh {} .standard default ({} : Transcript))) =
          some 0 := by decide +kernel
    rw [hcalls, hseed]
    rfl

end Machine

end Grimoire
