import Grimoire.Machine
import Mathlib.Logic.Function.Iterate

/-!
# The random stream, draw by draw

Every draw of a number or of an index is one step of the stream. A shuffle draws the places of the
exchanges that it makes, one for each place of the array but the first, and every place that it
draws is one of the array.
-/

namespace Grimoire

namespace Xorshift

variable {α : Type}

theorem nextIndex_lt {bound : Nat} (h : 0 < bound) (x : Xorshift) :
    (x.nextIndex bound).1 < bound := by
  show min _ (bound - 1) < bound
  omega

/-! ## Shuffles -/

/-- The exchanges that a shuffle makes of the last `count` places, in their order: the place, and
the one drawn for it. -/
def exchanges : Nat → Xorshift → List (Nat × Nat)
  | 0, _ => []
  | place + 1, x => (place + 1, (x.nextIndex (place + 2)).1) :: exchanges place x.step

theorem length_exchanges (count : Nat) (x : Xorshift) : (exchanges count x).length = count := by
  induction count generalizing x with
  | zero => rfl
  | succ place ih => rw [exchanges, List.length_cons, ih]

/-- No place is exchanged with a later one. -/
theorem le_of_mem_exchanges {count : Nat} {x : Xorshift} {exchange : Nat × Nat}
    (h : exchange ∈ exchanges count x) : exchange.2 ≤ exchange.1 ∧ exchange.1 ≤ count := by
  induction count generalizing x with
  | zero => simp [exchanges] at h
  | succ place ih =>
    rw [exchanges, List.mem_cons] at h
    rcases h with rfl | h
    · have hdrawn := nextIndex_lt (show 0 < place + 2 by omega) x
      constructor
      · show (x.nextIndex (place + 2)).1 ≤ place + 1
        omega
      · exact Nat.le_refl _
    · have hearlier := ih h
      omega

/-- A shuffle is its exchanges one after the other. -/
theorem shuffleFrom_fst (count : Nat) (items : Array α) (x : Xorshift) :
    (shuffleFrom count items x).1 =
      (exchanges count x).foldl (fun items e => items.swapIfInBounds e.1 e.2) items := by
  induction count generalizing items x with
  | zero => rfl
  | succ place ih =>
    rw [exchanges, List.foldl_cons]
    exact ih _ _

theorem shuffleFrom_snd (count : Nat) (items : Array α) (x : Xorshift) :
    (shuffleFrom count items x).2 = step^[count] x := by
  induction count generalizing items x with
  | zero => rfl
  | succ place ih =>
    rw [Function.iterate_succ_apply]
    exact ih _ _

/-- A shuffle of `n` elements draws once for each but one. -/
theorem shuffle_snd (items : List α) (x : Xorshift) :
    (x.shuffle items).2 = step^[items.length - 1] x :=
  shuffleFrom_snd (items.length - 1) items.toArray x

end Xorshift

namespace Machine

variable {σ : Type}

/-- The random stream of a machine. -/
def stream (m : Machine σ) : Xorshift :=
  m.resources.random

/-- The machine with another random stream. -/
def withStream (m : Machine σ) (random : Xorshift) : Machine σ :=
  { m with resources := { m.resources with random } }

end Machine

end Grimoire
