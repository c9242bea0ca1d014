import Grimoire.Proofs.Digits
import Grimoire.Proofs.Documents
import Mathlib.Data.List.TakeWhile
import Mathlib.Data.Nat.Bitwise

/-!
# Whole numbers

A whole number below `2 ^ 53` is a double, with one pattern of bits for each sign. So the double
nearest to a count that a double has is that double again. It is read as the count it is nearest to,
and no count is near to a negative number.
-/

namespace Grimoire

open Float.Model (Format UnpackedFloat)
open Float.Model.UnpackedFloat

namespace Dyadic

/-! ## The parts of a word -/

section Words

variable (w : BitVec 64)

theorem toNat_unpackMantissa :
    (@unpackMantissa Format.binary64 w).toNat = w.toNat % leadingBit := by
  simp [unpackMantissa, BitVec.extractLsb, leadingBit]

theorem toNat_unpackExponent :
    (@unpackExponent Format.binary64 w).toNat = w.toNat / leadingBit % 2048 := by
  simp [unpackExponent, BitVec.extractLsb, leadingBit, Nat.shiftRight_eq_div_pow]

theorem toNat_unpackSign :
    (@unpackSign Format.binary64 w).toNat = w.toNat / signUnit % 2 := by
  show (w.toNat >>> 63) % 2 ^ 1 = _
  rw [Nat.shiftRight_eq_div_pow]
  rfl

theorem toNat_packComponents (s : Sign) (e : BitVec 11) (m : BitVec 52) :
    (packComponents Format.binary64 s e m).toNat
      = s.toBitVec.toNat * signUnit + e.toNat * leadingBit + m.toNat := by
  have he := e.isLt
  have hm := m.isLt
  rw [packComponents, BitVec.toNat_append, BitVec.toNat_append,
    ← Nat.shiftLeft_add_eq_or_of_lt e.isLt, ← Nat.shiftLeft_add_eq_or_of_lt m.isLt]
  simp only [Nat.shiftLeft_eq, signUnit, leadingBit]
  omega

theorem log2_eq_of_leadingBit_le {m : Nat} (hlow : leadingBit ≤ m) (hhigh : m < 2 * leadingBit) :
    m.log2 = 52 := by
  have hm : m ≠ 0 := by rw [leadingBit] at hlow; omega
  exact (Nat.log2_eq_iff hm).2 ⟨hlow, hhigh⟩

/-- The word of a mantissa with its leading bit. -/
theorem toNat_pack {s : Sign} {m : Nat} {e : Int} (hm : 0 < m) (hlow : leadingBit ≤ m)
    (hhigh : m < 2 * leadingBit) {b : Nat} (hb : e = (b : Int) - 1075) (hle : b < 2047) :
    (UnpackedFloat.pack Format.binary64 (.finite s m e hm)).toNat
      = s.toBitVec.toNat * signUnit + b * leadingBit + (m - leadingBit) := by
  have hbias : (e + (1023 : Nat) + (52 : Nat)).toNat = b := by omega
  have hfits : ¬ 2 ^ 11 ≤ b + 1 := by omega
  -- the exponent is in range and the mantissa has its leading bit, so only one branch is left
  show BitVec.toNat (if 2 ^ 11 ≤ (e + (1023 : Nat) + (52 : Nat)).toNat + 1 then _
    else if m.log2 + 1 = 53 then packComponents Format.binary64 s
      (BitVec.ofNat 11 (e + (1023 : Nat) + (52 : Nat)).toNat) (BitVec.ofNat 52 m) else _) = _
  rw [hbias, if_neg hfits, log2_eq_of_leadingBit_le hlow hhigh, if_pos rfl,
    toNat_packComponents, BitVec.toNat_ofNat, BitVec.toNat_ofNat]
  rw [leadingBit] at *
  omega

theorem toNat_toBitVec_ofBitVec (b : BitVec 1) : (Sign.ofBitVec b).toBitVec.toNat = b.toNat := by
  revert b
  decide

theorem toNat_implicit_append (m : BitVec 52) : (1#1 ++ m).toNat = leadingBit + m.toNat := by
  rw [BitVec.toNat_append, ← Nat.shiftLeft_add_eq_or_of_lt m.isLt]
  rfl

/-- Only words with the greatest exponent are infinite or NaN. -/
theorem unpackExponent_ne_allOnes {w : BitVec 64} (h : w.toNat / leadingBit % 2048 ≠ 2047) :
    @unpackExponent Format.binary64 w ≠ -1#_ := by
  intro heq
  rw [← toNat_unpackExponent, heq] at h
  exact h rfl

/-- A word with an exponent between the least and the greatest has a mantissa with its leading
bit. -/
theorem unpack_eq_finite (hlow : 0 < w.toNat / leadingBit % 2048)
    (hhigh : w.toNat / leadingBit % 2048 < 2047) :
    ∃ h, UnpackedFloat.unpack Format.binary64 w
      = .finite (Sign.ofBitVec (@unpackSign Format.binary64 w))
        (1#1 ++ @unpackMantissa Format.binary64 w).toNat
        ((@unpackExponent Format.binary64 w).toNat - ((1023 : Nat) + (52 : Nat) : Int)) h := by
  have hones := unpackExponent_ne_allOnes (Nat.ne_of_lt hhigh)
  have hzero : @unpackExponent Format.binary64 w ≠ 0#_ := by
    intro h
    rw [← toNat_unpackExponent, h] at hlow
    exact absurd hlow (by decide)
  exact ⟨_, (if_neg hones).trans (if_neg hzero)⟩

/-- A word with an exponent between the least and the greatest is found again. -/
theorem pack_unpack (hlow : 0 < w.toNat / leadingBit % 2048)
    (hhigh : w.toNat / leadingBit % 2048 < 2047) :
    UnpackedFloat.pack Format.binary64 (UnpackedFloat.unpack Format.binary64 w) = w := by
  have hw := w.isLt
  have hmantissa : (@unpackMantissa Format.binary64 w).toNat < leadingBit :=
    (@unpackMantissa Format.binary64 w).isLt
  have hword := toNat_implicit_append (@unpackMantissa Format.binary64 w)
  obtain ⟨h, hfinite⟩ := unpack_eq_finite w hlow hhigh
  refine BitVec.eq_of_toNat_eq ?_
  rw [hfinite, toNat_pack (b := (@unpackExponent Format.binary64 w).toNat) h (by omega) (by omega)
    (by omega) (by rwa [toNat_unpackExponent]), toNat_toBitVec_ofBitVec, hword, toNat_unpackSign,
    toNat_unpackExponent, toNat_unpackMantissa, signUnit, leadingBit]
  omega

/-- A mantissa with its leading bit is not moved. -/
theorem shiftToTargetExponent_of_leadingBit_le {m : Nat} {e : Int} (hlow : leadingBit ≤ m)
    (hhigh : m < 2 * leadingBit) (he : -1074 ≤ e) :
    shiftToTargetExponent Format.binary64 m e .exact = (⟨m, false, false⟩, e) := by
  have htarget : Format.binary64.targetExponent (Float.Model.totalExponent m e) = e := by
    rw [Float.Model.totalExponent, log2_eq_of_leadingBit_le hlow hhigh]
    show max ((52 : Nat) + 1 + e - (53 : Nat)) (3 - 2 ^ (11 - 1) - (53 : Nat)) = e
    omega
  rw [shiftToTargetExponent, htarget, shiftToExponent, Int.sub_self]
  simp only [Int.toNat_zero, Int.natCast_zero, Int.add_zero]
  rfl

theorem round_of_leadingBit_le {s : Sign} {m : Nat} {e : Int} (hlow : leadingBit ≤ m)
    (hhigh : m < 2 * leadingBit) (he : -1074 ≤ e) :
    ∃ h, roundWithAccuracy Format.binary64 s m e .exact = .finite s m e h := by
  have hm : m ≠ 0 := by rw [leadingBit] at hlow; omega
  have hrounded : (ExtendedMantissa.mk m false false).roundedMantissa = m := rfl
  refine ⟨Nat.pos_of_ne_zero hm, ?_⟩
  have hshift := shiftToTargetExponent_of_leadingBit_le hlow hhigh he
  rw [roundWithAccuracy, hshift]
  dsimp only
  rw [hrounded, hshift]
  exact dif_neg hm

theorem log2_mul_two_pow {n : Nat} (hn : n ≠ 0) (k : Nat) : (n * 2 ^ k).log2 = n.log2 + k := by
  induction k with
  | zero => rw [Nat.pow_zero, Nat.mul_one, Nat.add_zero]
  | succ k ih =>
    have hk : n * 2 ^ k ≠ 0 := Nat.mul_ne_zero hn (Nat.ne_of_gt (Nat.two_pow_pos k))
    rw [Nat.pow_succ', Nat.mul_left_comm, Nat.log2_two_mul hk, ih, Nat.add_assoc]

/-- The bits of a count are moved up until the leading one is in its place. -/
theorem leadingBit_le_shiftLeft {n : Nat} (hpos : 0 < n) (hlog : n.log2 ≤ 52) :
    leadingBit ≤ n <<< (52 - n.log2) ∧ n <<< (52 - n.log2) < 2 * leadingBit := by
  have hlog2 : (n <<< (52 - n.log2)).log2 = 52 := by
    rw [Nat.shiftLeft_eq, log2_mul_two_pow (Nat.ne_of_gt hpos)]
    omega
  have hne : n <<< (52 - n.log2) ≠ 0 := by
    intro hzero
    rw [hzero] at hlog2
    exact absurd hlog2 (by decide)
  exact (Nat.log2_eq_iff hne).1 hlog2

/-- A count below `2 ^ 53` is rounded to itself, with its bits moved up to the leading one. -/
theorem ofNat_eq_finite {n : Nat} (hpos : 0 < n) (hlog : n.log2 ≤ 52) :
    ∃ h, UnpackedFloat.ofNat Format.binary64 n
      = .finite .positive (n <<< (52 - n.log2)) ((n.log2 : Int) - 52) h := by
  obtain ⟨hlow, hhigh⟩ := leadingBit_le_shiftLeft hpos hlog
  have hcompare : compare (n : Int) 0 = .gt := Int.compare_eq_gt.2 (by omega)
  have htarget : Format.binary64.targetExponent (Float.Model.totalExponent n 0)
      = (n.log2 : Int) - 52 := by
    show max ((n.log2 : Int) + 1 + 0 - (53 : Nat)) (3 - 2 ^ (11 - 1) - (53 : Nat)) = _
    omega
  -- the bits are only moved up, so that rounding has nothing to drop
  have hplaces : (0 - ((n.log2 : Int) - 52)).toNat = 52 - n.log2 := by omega
  have hexponent : (0 : Int) - ((52 - n.log2 : Nat) : Int) = (n.log2 : Int) - 52 := by omega
  have hround : UnpackedFloat.round Format.binary64 .positive n 0
      = roundWithAccuracy Format.binary64 .positive (n <<< (52 - n.log2)) ((n.log2 : Int) - 52)
        .exact := by
    simp only [UnpackedFloat.round, htarget, decreaseExponent, hplaces, hexponent]
  rw [UnpackedFloat.ofNat, UnpackedFloat.ofInt, UnpackedFloat.normalize, hcompare]
  dsimp only
  rw [Int.toNat_natCast, hround]
  exact round_of_leadingBit_le hlow hhigh (by omega)

end Words

/-! ## The bits of a count -/

/-- The bits of a positive count below `2 ^ 53`. -/
def wholeBits (n : Nat) : Nat :=
  (n.log2 + 1023) * leadingBit + (n <<< (52 - n.log2) - leadingBit)

theorem log2_le_of_lt {n : Nat} (hpos : 0 < n) (hn : n < 2 * leadingBit) : n.log2 ≤ 52 :=
  Nat.le_of_lt_succ ((Nat.log2_lt (Nat.ne_of_gt hpos)).2 hn)

theorem bits_ofNat {n : Nat} (hpos : 0 < n) (hn : n < 2 * leadingBit) :
    bits (Number.ofNat n) = wholeBits n := by
  have hlog := log2_le_of_lt hpos hn
  obtain ⟨hlow, hhigh⟩ := leadingBit_le_shiftLeft hpos hlog
  obtain ⟨h, hfinite⟩ := ofNat_eq_finite hpos hlog
  have hsize : n < UInt64.size := Nat.lt_trans hn (by decide)
  have hbits : bits (Number.ofNat n)
      = (UnpackedFloat.pack Format.binary64
        (UnpackedFloat.ofNat Format.binary64 (UInt64.ofNat n).toNat)).toNat := by
    rw [Number.ofNat, if_pos hn]
    rfl
  rw [hbits, UInt64.toNat_ofNat_of_lt' hsize, hfinite,
    toNat_pack (b := n.log2 + 1023) h hlow hhigh (by omega) (by omega), wholeBits]
  show 0 * signUnit + _ + _ = _
  omega

/-- A whole mantissa scaled down is the whole part scaled up. -/
theorem mantissa_eq_of_isWhole {d : Dyadic} (h : d.isWhole = true) (he : d.exponent < 0) :
    d.mantissa = d.wholePart * 2 ^ (-d.exponent).toNat := by
  have hneg : ¬ 0 ≤ d.exponent := by omega
  rw [isWhole, decide_eq_false hneg, Bool.false_or, beq_iff_eq, Nat.one_shiftLeft] at h
  rw [wholePart, if_neg hneg, Nat.shiftRight_eq_div_pow,
    Nat.div_mul_cancel (Nat.dvd_of_mod_eq_zero h)]

/-- The double with the leading bit in its mantissa, or with the least exponent. -/
theorem ofFloat?_cases {x : Float} {d : Dyadic} (h : ofFloat? x = some d) :
    d.negative = signBit x ∧ d.mantissa < 2 * leadingBit ∧
      ((d.mantissa < leadingBit ∧ d.exponent = leastExponent ∧ bits x % signUnit = d.mantissa) ∨
        (leadingBit ≤ d.mantissa ∧ ∃ b : Nat, b < 2047 ∧ d.exponent = (b : Int) - 1075 ∧
          bits x % signUnit = b * leadingBit + (d.mantissa - leadingBit))) := by
  have hfraction := Nat.mod_lt (bits x) (show 0 < leadingBit by decide)
  unfold ofFloat? at h
  dsimp only at h
  split at h
  · cases h
  next hfinite =>
  split at h
  · next hzero =>
    -- with the exponent zero there is no leading bit
    cases h
    refine ⟨rfl, by dsimp only; omega, .inl ⟨hfraction, rfl, ?_⟩⟩
    dsimp only
    rw [signUnit]
    rw [leadingBit] at *
    omega
  · next hzero =>
    cases h
    refine ⟨rfl, by dsimp only; omega, .inr
      ⟨Nat.le_add_left _ _, bits x / leadingBit % 2048, ?_, ?_, ?_⟩⟩
    · omega
    · dsimp only
      rw [leastExponent]
      omega
    · dsimp only
      rw [signUnit]
      rw [leadingBit] at *
      omega

theorem wholePart_eq_mul {d : Dyadic} (h : 0 ≤ d.exponent) :
    d.wholePart = d.mantissa * 2 ^ d.exponent.toNat := by
  rw [wholePart, if_pos h, Nat.shiftLeft_eq]

/-- The bits of a double that is a positive count below `2 ^ 53`. -/
theorem bits_mod_signUnit_of_wholePart {x : Float} {d : Dyadic} (hd : ofFloat? x = some d)
    (hwhole : d.isWhole = true) (hpos : 0 < d.wholePart) (hn : d.wholePart < 2 * leadingBit) :
    bits x % signUnit = wholeBits d.wholePart := by
  obtain ⟨-, hmantissa, ⟨hlow, he, hbits⟩ | ⟨hlow, b, hb, he, hbits⟩⟩ := ofFloat?_cases hd
  · -- a whole number with the least exponent is zero
    have hneg : d.exponent < 0 := by rw [he]; decide
    have hplaces : 52 ≤ (-d.exponent).toNat := by rw [he]; decide
    have hscaled := mantissa_eq_of_isWhole hwhole hneg
    have hunit : leadingBit ≤ 2 ^ (-d.exponent).toNat :=
      Nat.pow_le_pow_right (n := 2) (by decide) hplaces
    have hle := Nat.le_mul_of_pos_left (2 ^ (-d.exponent).toNat) hpos
    omega
  · obtain ⟨k, hk, hscaled⟩ : ∃ k, b + k = 1075 ∧ d.mantissa = d.wholePart * 2 ^ k := by
      by_cases hneg : d.exponent < 0
      · exact ⟨(-d.exponent).toNat, by omega, mantissa_eq_of_isWhole hwhole hneg⟩
      · -- the leading bit cannot be moved further up
        have hnonneg : 0 ≤ d.exponent := by omega
        have hpart := wholePart_eq_mul hnonneg
        have hzero : d.exponent.toNat = 0 := by
          by_contra hne
          have htwo : 2 ≤ 2 ^ d.exponent.toNat := Nat.le_self_pow hne 2
          have hdouble := Nat.mul_le_mul hlow htwo
          omega
        exact ⟨0, by omega, by rw [hpart, hzero, Nat.pow_zero, Nat.mul_one, Nat.mul_one]⟩
    have hlog : d.wholePart.log2 + k = 52 := by
      rw [← log2_mul_two_pow (Nat.ne_of_gt hpos), ← hscaled,
        log2_eq_of_leadingBit_le hlow hmantissa]
    rw [wholeBits, show 52 - d.wholePart.log2 = k by omega, Nat.shiftLeft_eq, ← hscaled, hbits,
      show d.wholePart.log2 + 1023 = b by omega]

/-- The bits of a double that is zero. -/
theorem bits_mod_signUnit_of_wholePart_eq_zero {x : Float} {d : Dyadic} (hd : ofFloat? x = some d)
    (hwhole : d.isWhole = true) (hzero : d.wholePart = 0) : bits x % signUnit = 0 := by
  have hmantissa : d.mantissa = 0 := by
    by_cases hneg : d.exponent < 0
    · rw [mantissa_eq_of_isWhole hwhole hneg, hzero, Nat.zero_mul]
    · have hpart := wholePart_eq_mul (Int.not_lt.1 hneg)
      rw [hzero, eq_comm, Nat.mul_eq_zero] at hpart
      exact hpart.resolve_right (Nat.ne_of_gt (Nat.two_pow_pos _))
  obtain ⟨-, -, ⟨-, -, hbits⟩ | ⟨hlow, -⟩⟩ := ofFloat?_cases hd
  · rw [hbits, hmantissa]
  · rw [hmantissa, leadingBit] at hlow
    omega

/-- The bits of a double are those of its magnitude and its sign. -/
theorem bits_eq (x : Float) : bits x = bits x % signUnit + if signBit x then signUnit else 0 := by
  have hlt : bits x < 2 * signUnit := x.toBits.toNat_lt
  by_cases h : signUnit ≤ bits x
  · rw [signBit, decide_eq_true h, if_pos rfl, Nat.mod_eq_sub_mod h, Nat.mod_eq_of_lt (by omega)]
    omega
  · rw [signBit, decide_eq_false h, if_neg Bool.false_ne_true, Nat.mod_eq_of_lt (by omega)]
    rfl

/-! ## Equal doubles -/

theorem eq_of_bits_eq {x y : Float} (h : bits x = bits y) : x = y := by
  obtain ⟨⟨w, hw⟩⟩ := x
  obtain ⟨⟨w', hw'⟩⟩ := y
  have hword : w = w' := UInt64.toNat_inj.1 h
  subst hword
  rfl

theorem compare_self {u : UnpackedFloat} (h : u ≠ .notANumber) :
    UnpackedFloat.compare u u = some .eq := by
  cases u with
  | infinity s => cases s <;> rfl
  | notANumber => exact absurd rfl h
  | zero s => rfl
  | finite s m e hm =>
    have he : compare e e = .eq := Int.compare_eq_eq.2 rfl
    have hmantissa : compare m m = .eq := Nat.compare_eq_eq.2 rfl
    cases s with
    | negative =>
      show some ((compare e e).then (compare m m)).swap = some .eq
      rw [he, hmantissa]
      rfl
    | positive =>
      show some ((compare e e).then (compare m m)) = some .eq
      rw [he, hmantissa]
      rfl

theorem unpack_ne_notANumber {w : BitVec 64} (h : w.toNat / leadingBit % 2048 ≠ 2047) :
    UnpackedFloat.unpack Format.binary64 w ≠ .notANumber := by
  intro hnan
  have hones := unpackExponent_ne_allOnes h
  by_cases hexponent : @unpackExponent Format.binary64 w = 0#_
  · by_cases hmantissa : @unpackMantissa Format.binary64 w = 0#_
    · have hzero : UnpackedFloat.unpack Format.binary64 w = _ :=
        (if_neg hones).trans ((if_pos hexponent).trans (dif_pos hmantissa))
      cases hzero.symm.trans hnan
    · have hfinite : UnpackedFloat.unpack Format.binary64 w = _ :=
        (if_neg hones).trans ((if_pos hexponent).trans (dif_neg hmantissa))
      cases hfinite.symm.trans hnan
  · have hfinite : UnpackedFloat.unpack Format.binary64 w = _ :=
      (if_neg hones).trans (if_neg hexponent)
    cases hfinite.symm.trans hnan

/-- A word without bits but the sign is a zero. -/
theorem exists_unpack_eq_zero {w : BitVec 64} (h : w.toNat % signUnit = 0) :
    ∃ s, UnpackedFloat.unpack Format.binary64 w = .zero s := by
  have hexponent : @unpackExponent Format.binary64 w = 0#_ := by
    refine BitVec.eq_of_toNat_eq ?_
    rw [toNat_unpackExponent]
    show w.toNat / leadingBit % 2048 = 0
    rw [signUnit] at h
    rw [leadingBit]
    omega
  have hmantissa : @unpackMantissa Format.binary64 w = 0#_ := by
    refine BitVec.eq_of_toNat_eq ?_
    rw [toNat_unpackMantissa]
    show w.toNat % leadingBit = 0
    rw [signUnit] at h
    rw [leadingBit]
    omega
  have hones : @unpackExponent Format.binary64 w ≠ -1#_ := by
    rw [hexponent]
    decide
  exact ⟨_, (if_neg hones).trans ((if_pos hexponent).trans (dif_pos hmantissa))⟩

/-- A finite double is equal to itself. -/
theorem beq_self_of_ofFloat? {x : Float} {d : Dyadic} (h : ofFloat? x = some d) :
    (x == x) = true := by
  have hfinite : bits x / leadingBit % 2048 ≠ 2047 := by
    intro hbits
    rw [ofFloat?] at h
    simp only [if_pos hbits] at h
    cases h
  have hcompare := compare_self (unpack_ne_notANumber (w := x.toModel.toBits.toBitVec) hfinite)
  show (UnpackedFloat.compare x.toModel.unpack x.toModel.unpack == some .eq) = true
  rw [Float.Model.unpack, hcompare]
  rfl

/-- The two zeros are equal to the count zero. -/
theorem beq_of_bits_mod_signUnit_eq_zero {x : Float} (h : bits x % signUnit = 0) :
    (Number.ofNat 0 == x) = true := by
  obtain ⟨s, hs⟩ := exists_unpack_eq_zero (w := x.toModel.toBits.toBitVec) h
  obtain ⟨s', hs'⟩ := exists_unpack_eq_zero (w := (Number.ofNat 0).toModel.toBits.toBitVec)
    (by decide)
  show (UnpackedFloat.compare (Number.ofNat 0).toModel.unpack x.toModel.unpack == some .eq) = true
  rw [Float.Model.unpack, Float.Model.unpack, hs, hs']
  rfl

/-- The bits of a word with an exponent between the least and the greatest. -/
theorem bits_ofBits {n : Nat} (hn : n < 2 * signUnit) (hlow : 0 < n / leadingBit % 2048)
    (hhigh : n / leadingBit % 2048 < 2047) : bits (Float.ofBits (UInt64.ofNat n)) = n := by
  have hsize : n < UInt64.size := hn
  have hword : (UInt64.ofNat n).toBitVec.toNat = n := UInt64.toNat_ofNat_of_lt' hsize
  have hpack := pack_unpack (UInt64.ofNat n).toBitVec (by rwa [hword]) (by rwa [hword])
  show (UnpackedFloat.pack Format.binary64
    (UnpackedFloat.unpack Format.binary64 (UInt64.ofNat n).toBitVec)).toNat = n
  rw [hpack, hword]

/-! ## The signs of counts -/

/-- The bits of the double nearest to a count that has more bits than a mantissa. -/
theorem nearestBits_bounds {n : Nat} (hn : 2 * leadingBit ≤ n) :
    leadingBit ≤ nearestBits n 1 ∧ nearestBits n 1 ≤ infinityBits := by
  have hpos : n ≠ 0 := by rw [leadingBit] at hn; omega
  have hlog : 53 ≤ n.log2 := (Nat.le_log2 hpos).2 hn
  have hfloor : 52 ≤ floorLog2 n 1 := by
    have hone : Nat.log2 1 = 0 := by decide
    rw [floorLog2, hone]
    split <;> omega
  rw [nearestBits, if_neg hpos]
  dsimp only
  refine ⟨Nat.le_min.2 ⟨by decide, ?_⟩, Nat.min_le_left _ _⟩
  refine Nat.le_trans (Nat.le_mul_of_pos_left _ ?_) (Nat.le_add_right _ _)
  rw [leastExponent]
  omega

/-- The double nearest to a count is not signed. -/
theorem signBit_ofNat (n : Nat) : signBit (Number.ofNat n) = false := by
  rw [signBit, decide_eq_false_iff_not, Nat.not_le]
  rcases Nat.eq_zero_or_pos n with rfl | hpos
  · decide
  · by_cases hn : n < 2 * leadingBit
    · obtain ⟨hlow, hhigh⟩ := leadingBit_le_shiftLeft hpos (log2_le_of_lt hpos hn)
      have hlog := log2_le_of_lt hpos hn
      rw [bits_ofNat hpos hn, wholeBits, signUnit]
      rw [leadingBit] at *
      omega
    · obtain ⟨hlow, hhigh⟩ := nearestBits_bounds (Nat.not_lt.1 hn)
      rw [Number.ofNat, if_neg hn, nearest, floatOfBits, if_neg Bool.false_ne_true]
      rcases Nat.lt_or_eq_of_le hhigh with hfinite | hinfinite
      · have hsmall : nearestBits n 1 < signUnit := Nat.lt_trans hfinite (by decide)
        rw [infinityBits] at hfinite
        rw [leadingBit] at hlow hfinite
        rwa [bits_ofBits (by omega) (by rw [leadingBit]; omega) (by rw [leadingBit]; omega)]
      · rw [hinfinite]
        decide

theorem unpackSign_eq_zero {x : Float} (h : signBit x = false) :
    @unpackSign Format.binary64 x.toModel.toBits.toBitVec = 0#1 := by
  rw [signBit, decide_eq_false_iff_not, Nat.not_le] at h
  have hbits : x.toModel.toBits.toBitVec.toNat < signUnit := h
  apply BitVec.eq_of_toNat_eq
  rw [toNat_unpackSign, Nat.div_eq_of_lt hbits]
  rfl

/-- What a word without the sign bit may stand for. -/
theorem unpack_of_unpackSign_eq_zero {w : BitVec 64}
    (h : @unpackSign Format.binary64 w = 0#1) :
    UnpackedFloat.unpack Format.binary64 w = .notANumber ∨
      UnpackedFloat.unpack Format.binary64 w = .infinity .positive ∨
      UnpackedFloat.unpack Format.binary64 w = .zero .positive ∨
      ∃ m e hm, UnpackedFloat.unpack Format.binary64 w = .finite .positive m e hm := by
  have hsign : Sign.ofBitVec (@unpackSign Format.binary64 w) = .positive := by
    rw [h]
    rfl
  rw [← hsign]
  by_cases hones : @unpackExponent Format.binary64 w = -1#_
  · by_cases hmantissa : @unpackMantissa Format.binary64 w = 0#_
    · exact .inr (.inl ((if_pos hones).trans (if_pos hmantissa)))
    · exact .inl ((if_pos hones).trans (if_neg hmantissa))
  · by_cases hexponent : @unpackExponent Format.binary64 w = 0#_
    · by_cases hmantissa : @unpackMantissa Format.binary64 w = 0#_
      · exact .inr (.inr (.inl
          ((if_neg hones).trans ((if_pos hexponent).trans (dif_pos hmantissa)))))
      · exact .inr (.inr (.inr ⟨_, _, _,
          (if_neg hones).trans ((if_pos hexponent).trans (dif_neg hmantissa))⟩))
    · exact .inr (.inr (.inr ⟨_, _, _, (if_neg hones).trans (if_neg hexponent)⟩))

/-- A double without the sign bit is not equal to minus one. -/
theorem beq_neg_one {x : Number} (h : signBit x = false) : (x == -1) = false := by
  obtain ⟨mantissa, exponent, hmantissa, hone⟩ : ∃ mantissa exponent hmantissa,
      UnpackedFloat.unpack Format.binary64 (-1 : Number).toModel.toBits.toBitVec =
        .finite .negative mantissa exponent hmantissa := ⟨_, _, _, rfl⟩
  show (UnpackedFloat.compare x.toModel.unpack (-1 : Number).toModel.unpack == some .eq) = false
  rw [Float.Model.unpack, Float.Model.unpack, hone]
  rcases unpack_of_unpackSign_eq_zero (unpackSign_eq_zero h) with
    hx | hx | hx | ⟨m, e, hm, hx⟩
  all_goals
    rw [hx]
    rfl

end Dyadic

namespace Number

open Grimoire.Dyadic

theorem bits_negate {x : Number} (hlow : 0 < bits x / leadingBit)
    (hhigh : bits x / leadingBit < 2047) : bits (negate x) = bits x + signUnit := by
  have hsigned : isSigned x = false := by
    rw [isSigned, signBit, decide_eq_false_iff_not, signUnit]
    rw [leadingBit] at hhigh
    omega
  have hmagnitude : bits x % signUnit = bits x := by
    refine Nat.mod_eq_of_lt ?_
    rw [leadingBit] at hhigh
    rw [signUnit]
    omega
  rw [negate, withSign, floatOfBits, hsigned, hmagnitude, Bool.not_false, if_pos rfl]
  rw [leadingBit] at hlow hhigh
  refine bits_ofBits ?_ ?_ ?_
  all_goals
    rw [signUnit]
    try rw [leadingBit]
    omega

/-- A count below `2 ^ 53` and the double that is nearest to it. -/
theorem ofNat_beq {x : Number} {d : Dyadic} (hd : ofFloat? x = some d) (hwhole : d.isWhole = true)
    (hn : d.wholePart < 2 * leadingBit) (hsign : d.wholePart = 0 ∨ d.negative = false) :
    (ofNat d.wholePart == x) = true := by
  rcases Nat.eq_zero_or_pos d.wholePart with hzero | hpos
  · rw [hzero]
    exact beq_of_bits_mod_signUnit_eq_zero (bits_mod_signUnit_of_wholePart_eq_zero hd hwhole hzero)
  · have hnegative := hsign.resolve_left (Nat.ne_of_gt hpos)
    have hsigned : signBit x = false := (ofFloat?_cases hd).1 ▸ hnegative
    have hx := bits_eq x
    rw [hsigned, bits_mod_signUnit_of_wholePart hd hwhole hpos hn, if_neg Bool.false_ne_true,
      Nat.add_zero] at hx
    have hbits : bits (ofNat d.wholePart) = bits x := (bits_ofNat hpos hn).trans hx.symm
    rw [eq_of_bits_eq hbits]
    exact beq_self_of_ofFloat? hd

theorem negate_ofNat_beq {x : Number} {d : Dyadic} (hd : ofFloat? x = some d)
    (hwhole : d.isWhole = true) (hpos : 0 < d.wholePart) (hn : d.wholePart < 2 * leadingBit)
    (hnegative : d.negative = true) : (negate (ofNat d.wholePart) == x) = true := by
  have hsigned : signBit x = true := (ofFloat?_cases hd).1 ▸ hnegative
  have hcount := bits_ofNat hpos hn
  obtain ⟨hlow, hhigh⟩ := leadingBit_le_shiftLeft hpos (log2_le_of_lt hpos hn)
  have hlog := log2_le_of_lt hpos hn
  have hquotient : bits (ofNat d.wholePart) / leadingBit = d.wholePart.log2 + 1023 := by
    rw [hcount, wholeBits]
    rw [leadingBit] at *
    omega
  have hx := bits_eq x
  rw [hsigned, bits_mod_signUnit_of_wholePart hd hwhole hpos hn, if_pos rfl] at hx
  have hbits : bits (negate (ofNat d.wholePart)) = bits x := by
    rw [bits_negate (by omega) (by omega), hcount, hx]
  rw [eq_of_bits_eq hbits]
  exact beq_self_of_ofFloat? hd

/-- A count below `2 ^ 53` is read off the double nearest to it. -/
theorem truncate_ofNat {n : Nat} (hn : n < 2 * leadingBit) : truncate (ofNat n) = n := by
  rcases Nat.eq_zero_or_pos n with rfl | hpos
  · decide
  · have hlog := log2_le_of_lt hpos hn
    obtain ⟨hlow, hhigh⟩ := leadingBit_le_shiftLeft hpos hlog
    have hbiased : bits (ofNat n) / leadingBit % 2048 = n.log2 + 1023 := by
      rw [bits_ofNat hpos hn, wholeBits]
      rw [leadingBit] at *
      omega
    have hfraction : bits (ofNat n) % leadingBit + leadingBit = n <<< (52 - n.log2) := by
      rw [bits_ofNat hpos hn, wholeBits]
      rw [leadingBit] at *
      omega
    have hdyadic : ofFloat? (ofNat n) =
        some ⟨false, n <<< (52 - n.log2), (n.log2 : Int) - 52⟩ := by
      have hexponent : leastExponent + ((n.log2 + 1023 - 1 : Nat) : Int) = (n.log2 : Int) - 52 := by
        rw [leastExponent]
        omega
      simp only [ofFloat?, hbiased, hfraction, hexponent, signBit_ofNat]
      rw [if_neg (by omega), if_neg (by omega)]
    have hwhole : wholePart ⟨false, n <<< (52 - n.log2), (n.log2 : Int) - 52⟩ = n := by
      rw [wholePart]
      dsimp only
      split
      · have hplaces : 52 - n.log2 = 0 := by omega
        have hexponent : ((n.log2 : Int) - 52).toNat = 0 := by omega
        rw [hplaces, hexponent]
        rfl
      · rw [show (-((n.log2 : Int) - 52)).toNat = 52 - n.log2 by omega, Nat.shiftLeft_shiftRight]
    rw [truncate, hdyadic]
    show ((wholePart _ : Nat) : Int) = n
    rw [hwhole]

end Number

namespace Json

open Grimoire.Dyadic

/-! ## Reading digits -/

theorem gather_append {k m : Nat} {s : Text} (h : gather k s = (m, [])) (t : Text) :
    gather k (s ++ t) = gather m t := by
  induction s generalizing k with
  | nil =>
    cases h
    rfl
  | cons c s ih =>
    rw [gather] at h
    rw [List.cons_append, gather]
    split at h
    · next hfits => rw [if_pos hfits, ih h]
    · cases h

theorem gather_digitChar {k d : Nat} (hd : d < 10) (hfits : k * 10 + d ≤ maxSignificand) :
    gather k [Nat.digitChar d] = (k * 10 + d, []) := by
  have hvalue : Number.digitsValue [Nat.digitChar d] = d := by
    show 0 * 10 + ((Nat.digitChar d).toNat - 48) = d
    rw [Nat.toNat_digitChar_sub_48_of_lt_ten hd, Nat.zero_mul, Nat.zero_add]
  rw [gather, hvalue, if_pos hfits, gather]

/-- The digits of a count that fits give the count. -/
theorem gather_ofNat {n : Nat} (hn : n ≤ maxSignificand) : gather 0 (Text.ofNat n) = (n, []) := by
  induction n using Nat.strongRecOn with
  | ind n ih =>
    by_cases hsmall : n < 10
    · rw [Text.ofNat_of_lt_ten hsmall, gather_digitChar hsmall (by omega), Nat.zero_mul,
        Nat.zero_add]
    · have hfront := ih (n / 10) (by omega) (by omega)
      rw [Text.ofNat_of_ten_le (by omega), gather_append hfront,
        gather_digitChar (by omega) (by omega), Nat.div_add_mod' n 10]

/-- The digits of a count that fits are read as the double nearest to it. -/
theorem takeMagnitude?_ofNat (negative : Bool) {n : Nat} (hn : n ≤ maxSignificand) :
    takeMagnitude? negative (Text.ofNat n)
      = some (if negative then (Number.ofNat n).negate else Number.ofNat n, []) := by
  have htake : (Text.ofNat n).takeWhile Char.isDigit = Text.ofNat n :=
    List.takeWhile_eq_self_iff.2 fun c hc => Text.isDigit_of_mem_ofNat hc
  have hdrop : (Text.ofNat n).dropWhile Char.isDigit = [] :=
    List.dropWhile_eq_nil_iff.2 fun c hc => Text.isDigit_of_mem_ofNat hc
  have hmagnitude : magnitude? (Text.ofNat n) none none = some (Number.ofNat n) := by
    rw [magnitude?, gather_ofNat hn]
    rfl
  -- the reader refuses a zero before other digits, and no count is written with one
  have hlead : ((Text.ofNat n).isEmpty
      || (1 < (Text.ofNat n).length && (Text.ofNat n).head? == some '0')) = false := by
    rcases Nat.eq_zero_or_pos n with rfl | hpos
    · decide
    · rw [List.isEmpty_eq_false_iff.2 (Text.ofNat_ne_nil n),
        beq_eq_false_iff_ne.2 (Text.head?_ofNat_ne hpos), Bool.and_false, Bool.or_false]
  rw [takeMagnitude?, htake, hdrop, if_neg (by rw [hlead]; decide)]
  show (magnitude? (Text.ofNat n) none none).bind _ = _
  rw [hmagnitude]
  rfl

theorem takeNumber?_ofNat {n : Nat} (hn : n ≤ maxSignificand) :
    takeNumber? (Text.ofNat n) = some (Number.ofNat n, []) := by
  have hhead : ∀ c ∈ (Text.ofNat n).head?, c ≠ '-' := by
    intro c hc heq
    have hdigit := Text.isDigit_of_mem_ofNat (List.mem_of_mem_head? hc)
    rw [heq] at hdigit
    exact absurd hdigit (by decide)
  rw [takeNumber?_of_head hhead, takeMagnitude?_ofNat false hn]
  rfl

theorem takeNumber?_minus_ofNat {n : Nat} (hn : n ≤ maxSignificand) :
    takeNumber? ('-' :: Text.ofNat n) = some ((Number.ofNat n).negate, []) := by
  rw [takeNumber?_minus, takeMagnitude?_ofNat true hn]
  rfl

theorem ofInt_neg {n : Nat} (hn : 0 < n) : Text.ofInt (-(n : Int)) = '-' :: Text.ofNat n := by
  obtain ⟨m, rfl⟩ : ∃ m, n = m + 1 := ⟨n - 1, by omega⟩
  rfl

/-- Whole numbers that are written as integers are read back. -/
theorem exists_takeNumber?_ofInt {x : Number} (hwhole : x.isWhole = true)
    (hlow : -maxSafeInteger ≤ x.truncate) (hhigh : x.truncate ≤ maxSafeInteger) :
    ∃ y, takeNumber? (Text.ofInt x.truncate) = some (y, []) ∧ (y == x) = true := by
  obtain ⟨d, hd, hwhole⟩ := (Option.any_eq_true _ _).1 hwhole
  have htruncate : x.truncate = if d.negative then -(d.wholePart : Int) else d.wholePart := by
    rw [Number.truncate, hd]
    rfl
  rw [htruncate, maxSafeInteger] at hlow hhigh
  have hn : d.wholePart < 2 * leadingBit := by
    rw [leadingBit]
    by_cases hnegative : d.negative = true
    · rw [if_pos hnegative] at hlow
      omega
    · rw [if_neg hnegative] at hhigh
      omega
  have hfits : d.wholePart ≤ maxSignificand := Nat.le_trans (Nat.le_of_lt hn) (by decide)
  -- the negative zero is written without its sign, and the two zeros are equal
  by_cases hsign : d.wholePart = 0 ∨ d.negative = false
  · have hcount : x.truncate = (d.wholePart : Int) := by
      rw [htruncate]
      rcases hsign with hzero | hpositive
      · rw [hzero]
        split <;> rfl
      · rw [hpositive]
        rfl
    rw [hcount]
    exact ⟨_, takeNumber?_ofNat hfits, Number.ofNat_beq hd hwhole hn hsign⟩
  · rw [not_or, Bool.not_eq_false] at hsign
    have hpos := Nat.pos_of_ne_zero hsign.1
    rw [htruncate, if_pos hsign.2, ofInt_neg hpos]
    exact ⟨_, takeNumber?_minus_ofNat hfits, Number.negate_ofNat_beq hd hwhole hpos hn hsign.2⟩

end Json

end Grimoire
