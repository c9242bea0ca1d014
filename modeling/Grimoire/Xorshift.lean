import Grimoire.Number.Basic

/-!
# The random stream

All chance in a run comes from one 32-bit word that is stepped by Marsaglia's xorshift with the
shifts 13, 17 and 5. Equal seeds give equal runs. The word zero stays zero.
-/

namespace Grimoire

/-- The state of the random stream. -/
structure Xorshift where
  state : UInt32
  deriving DecidableEq, Repr

namespace Xorshift

/-- The seed of a run that sets none. -/
def defaultSeed : UInt32 := 123456789

/-- The next word. -/
def stepWord (x : UInt32) : UInt32 :=
  let x := x ^^^ (x <<< 13)
  let x := x ^^^ (x >>> 17)
  x ^^^ (x <<< 5)

/-- The stream after one draw. -/
def step (r : Xorshift) : Xorshift :=
  ⟨stepWord r.state⟩

/-- Draws a number that is at least zero and less than one. -/
def nextUnit (r : Xorshift) : Number × Xorshift :=
  let r := r.step
  (Number.ofNat r.state.toNat / 4294967296.0, r)

/-- Draws an index below `bound`. -/
def nextIndex (bound : Nat) (r : Xorshift) : Nat × Xorshift :=
  let (u, r) := r.nextUnit
  (min (Number.floorInt (u * Number.ofNat bound)).toNat (bound - 1), r)

/-- Exchanges each of the last `count` places of an array, from the back, with one drawn among
those before and itself. -/
def shuffleFrom {α : Type} : Nat → Array α → Xorshift → Array α × Xorshift
  | 0, items, r => (items, r)
  | place + 1, items, r =>
    let (other, r) := r.nextIndex (place + 2)
    shuffleFrom place (items.swapIfInBounds (place + 1) other) r

/-- Shuffles a list; a list of `n` elements takes `n - 1` draws. -/
def shuffle {α : Type} (items : List α) (r : Xorshift) : List α × Xorshift :=
  let (items, r) := shuffleFrom (items.length - 1) items.toArray r
  (items.toList, r)

/-- The seed that a number stands for: rounded down and wrapped into 32 bits. Numbers that are not
finite stand for zero. -/
def seedOfNumber (x : Number) : UInt32 :=
  UInt32.ofNat (Number.floorInt x % 4294967296).toNat

end Xorshift

end Grimoire
