import Mathlib

/-!
# Single-precision floats by their significands

A positive normal `Float32` is `m * 2 ^ e` with a significand `m` of 24 bits (`IsNormal`). Dividing
one by a power of two only moves its exponent (`IsNormal.div_pow`), and whether one is below a power
of two, or truncates to zero, is read off the exponent (`IsNormal.lt_pow_iff`,
`IsNormal.toUInt64_eq_zero`). A finite float that is not below a power of two is normal
(`isNormal_of_not_lt`).

The facts are about the logical model of `Float32`: the operations unpack their arguments, compute
on sign, significand and exponent, round, and pack the result again.

Two things are proved about `IsNormal`, and the rest follows. One is that it survives packing and
unpacking, so that an operation can be followed on significand and exponent and never on bits. The
other is that a power of two divides without rounding: the quotient has one bit too many, and that
bit is zero.

That is all the arithmetic there is here. A law about sums or products would need rounding, and none
of the results that use this module rests on one.
-/

set_option autoImplicit false

namespace EngineKit
namespace Lib

open Float.Model UnpackedFloat

/-! ## Binary32 -/

/-- The bits of a number, from its bounds. -/
theorem log2_of_bounds {m n : Nat} (hlo : 2 ^ n ≤ m) (hhi : m < 2 ^ (n + 1)) : m.log2 = n := by
  have hne : m ≠ 0 := by
    have := Nat.two_pow_pos n
    omega
  exact (Nat.log2_eq_iff hne).mpr ⟨hlo, hhi⟩

/-- The bias of the exponent. -/
theorem exponentBias_binary32 : Format.binary32.exponentBias = 127 := by decide

/-- Above the subnormal floor the target exponent leaves 24 bits. -/
theorem targetExponent_binary32 {t : Int} (h : -125 ≤ t) :
    Format.binary32.targetExponent t = t - 24 := by
  have hmin : Format.binary32.minExponent = -149 := by decide
  have hbits : (Format.binary32.mantissaBits : Int) = 24 := by decide
  rw [Format.targetExponent, hmin, hbits]
  omega

/-- The implicit bit. -/
theorem toNat_one_append (v : BitVec 23) : (1#1 ++ v).toNat = 2 ^ 23 + v.toNat := by
  have hone : (1#1).toNat = 1 := rfl
  rw [BitVec.toNat_append, hone, ← Nat.shiftLeft_add_eq_or_of_lt v.isLt, Nat.shiftLeft_eq]
  omega

/-- What an unpacked float is: its significand has 24 bits, or it is subnormal. -/
def Binary32 : UnpackedFloat → Prop
  | .finite _ m e _ => m < 2 ^ 24 ∧ -149 ≤ e ∧ e ≤ 104 ∧ (2 ^ 23 ≤ m ∨ e = -149)
  | _ => True

/-- **What is unpacked** is a float of the format. -/
theorem binary32_unpack (x : Float32) : Binary32 x.toModel.unpack := by
  unfold Float32.Model.unpack UnpackedFloat.unpack
  dsimp only
  -- By the exponent's bits: all set, none set, or neither.
  generalize hexp : @unpackExponent .binary32 x.toModel.toBits.toBitVec = b
  have hb : b.toNat < 2 ^ 8 := b.isLt
  have hv : (@unpackMantissa .binary32 x.toModel.toBits.toBitVec).toNat < 2 ^ 23 :=
    (@unpackMantissa .binary32 x.toModel.toBits.toBitVec).isLt
  have hmant := toNat_one_append (@unpackMantissa .binary32 x.toModel.toBits.toBitVec)
  split
  · split <;> trivial
  · next hones =>
    have hlt : b.toNat < 255 := by
      have hne : b.toNat ≠ 255 := fun h => hones (BitVec.eq_of_toNat_eq h)
      omega
    split
    · next hzeros =>
      have hzero : b.toNat = 0 := by rw [hzeros]; rfl
      split
      · trivial
      · refine ⟨by omega, ?_, ?_, .inr ?_⟩ <;> rw [exponentBias_binary32, hzero] <;> omega
    · next hzeros =>
      have hpos : b.toNat ≠ 0 := fun h => hzeros (BitVec.eq_of_toNat_eq h)
      refine ⟨by omega, ?_, ?_, .inl (by omega)⟩ <;> rw [exponentBias_binary32] <;> omega

/-! ## Normal floats -/

/-- `x` is the positive normal `m * 2 ^ e`. -/
structure IsNormal (x : Float32) (m : Nat) (e : Int) : Prop where
  lo : 2 ^ 23 ≤ m
  hi : m < 2 ^ 24
  min : -149 ≤ e
  max : e ≤ 104
  unpack : ∃ h, x.toModel.unpack = .finite .positive m e h

theorem unpackSign_packComponents {spec : Format} {sign : Sign}
    {exponent : BitVec spec.exponentBits} {mantissa : BitVec spec.mantissaBitsWithoutImplicit} :
    unpackSign (packComponents spec sign exponent mantissa) = sign.toBitVec := by
  ext i hi
  obtain rfl : i = 0 := by omega
  simp [unpackSign, packComponents, BitVec.getLsbD_eq_getElem, BitVec.getElem_append,
    BitVec.getLsbD_append]

/-- A normal float survives its bits. -/
theorem unpack_pack {m : Nat} {e : Int} (hlo : 2 ^ 23 ≤ m) (hhi : m < 2 ^ 24) (hmin : -149 ≤ e)
    (hmax : e ≤ 104) (hpos : 0 < m) :
    UnpackedFloat.unpack .binary32 (UnpackedFloat.pack .binary32 (.finite .positive m e hpos)) =
      .finite .positive m e hpos := by
  obtain ⟨b, hb⟩ : ∃ b : Nat, e = b - 150 := ⟨(e + 150).toNat, by omega⟩
  have hbiased : (e + (Format.binary32.exponentBias : Nat) + (23 : Nat)).toNat = b := by
    rw [exponentBias_binary32]
    omega
  have hexponent : (BitVec.ofNat 8 b).toNat = b := by
    rw [BitVec.toNat_ofNat]
    omega
  have hones : BitVec.ofNat 8 b ≠ -1#8 := by
    intro h
    have heq : b = 255 := hexponent.symm.trans (congrArg BitVec.toNat h)
    omega
  have hzeros : BitVec.ofNat 8 b ≠ 0#8 := by
    intro h
    have heq : b = 0 := hexponent.symm.trans (congrArg BitVec.toNat h)
    omega
  have hmantissa : (1#1 ++ BitVec.ofNat 23 m).toNat = m := by
    rw [toNat_one_append, BitVec.toNat_ofNat]
    omega
  have hsign : Sign.ofBitVec Sign.positive.toBitVec = .positive := rfl
  have he : (b : Int) - ((127 : Nat) + (23 : Nat)) = e := by omega
  simp only [UnpackedFloat.pack, log2_of_bounds hlo hhi, hbiased]
  rw [if_neg (by omega), if_pos (by decide)]
  simp only [UnpackedFloat.unpack, unpackMantissa_packComponents, unpackExponent_packComponents,
    unpackSign_packComponents, exponentBias_binary32]
  rw [if_neg hones, if_neg hzeros]
  simp only [hmantissa, hexponent, hsign, he]

/-! ## Division by a power of two -/

/-- The quotient is exact, with one bit more than the significand has. -/
theorem divCore_pow {m : Nat} {e k : Int} (hlo : 2 ^ 23 ≤ m) (hhi : m < 2 ^ 24)
    (h : -125 ≤ e - k) :
    divCore .binary32 m e (2 ^ 23) k = (2 * m, e - k - 24, .exact) := by
  have hpow : Nat.log2 (2 ^ 23) = 23 := by decide
  have htotal : totalExponent m e - totalExponent (2 ^ 23) k = e - k := by
    rw [totalExponent, totalExponent, log2_of_bounds hlo hhi, hpow]
    omega
  have hmin : min (e - k) (e - k - 24) = e - k - 24 := by omega
  have hshift : (e - k - (e - k - 24)).toNat = 24 := by omega
  have hleft : m <<< 24 = 2 * m * 2 ^ 23 := by
    rw [Nat.shiftLeft_eq]
    omega
  simp only [divCore, htotal, targetExponent_binary32 h, hmin, hshift, hleft]
  rw [Nat.mul_div_cancel _ (by decide), Nat.mul_mod_left]
  rfl

/-- Bringing it back to 24 bits drops that bit, which is not set. -/
theorem shiftToTargetExponent_double {m : Nat} {e : Int} (hlo : 2 ^ 23 ≤ m) (hhi : m < 2 ^ 24)
    (h : -149 ≤ e) :
    shiftToTargetExponent .binary32 (2 * m) e .exact = (⟨m, false, false⟩, e + 1) := by
  have hlog : (2 * m).log2 = 24 := log2_of_bounds (by omega) (by omega)
  have htarget : Format.binary32.targetExponent (totalExponent (2 * m) e) = e + 1 := by
    rw [totalExponent, hlog, targetExponent_binary32 (by omega)]
    omega
  have hone : (e + 1 - e).toNat = 1 := by omega
  have hdrop : ExtendedMantissa.ofMantissaAndAccuracy (2 * m) .exact >>> 1 = ⟨m, false, false⟩ := by
    change ExtendedMantissa.shiftRightOne ⟨2 * m, false, false⟩ = _
    simp [ExtendedMantissa.shiftRightOne]
  rw [shiftToTargetExponent, htarget, shiftToExponent, hone, hdrop]
  rfl

/-- What has 24 bits stays. -/
theorem shiftToTargetExponent_self {m : Nat} {e : Int} (hlo : 2 ^ 23 ≤ m) (hhi : m < 2 ^ 24)
    (h : -149 ≤ e) :
    shiftToTargetExponent .binary32 m e .exact = (⟨m, false, false⟩, e) := by
  have htarget : Format.binary32.targetExponent (totalExponent m e) = e := by
    rw [totalExponent, log2_of_bounds hlo hhi, targetExponent_binary32 (by omega)]
    omega
  have hnone : (e - e).toNat = 0 := by omega
  rw [shiftToTargetExponent, htarget, shiftToExponent, hnone]
  exact Prod.ext rfl (by simp)

/-- So rounding the quotient changes its form and not its value. -/
theorem roundWithAccuracy_double {s : Sign} {m : Nat} {e : Int} (hlo : 2 ^ 23 ≤ m)
    (hhi : m < 2 ^ 24) (h : -149 ≤ e) (hpos : 0 < m) :
    roundWithAccuracy .binary32 s (2 * m) e .exact = .finite s m (e + 1) hpos := by
  have hround : (ExtendedMantissa.mk m false false).roundedMantissa = m := rfl
  simp only [roundWithAccuracy, shiftToTargetExponent_double hlo hhi h, hround,
    shiftToTargetExponent_self hlo hhi (show -149 ≤ e + 1 by omega)]
  rw [dif_neg (by omega)]

/-- **Division by a power of two** moves the exponent. -/
theorem IsNormal.div_pow {x y : Float32} {m : Nat} {e k : Int} (hx : IsNormal x m e)
    (hy : IsNormal y (2 ^ 23) k) (hmin : -125 ≤ e - k) (hmax : e - k ≤ 127) :
    IsNormal (x / y) m (e - k - 23) := by
  obtain ⟨hpos, hux⟩ := hx.unpack
  obtain ⟨hpow, huy⟩ := hy.unpack
  have hdiv : UnpackedFloat.div .binary32 (.finite .positive m e hpos)
      (.finite .positive (2 ^ 23) k hpow) = .finite .positive m (e - k - 23) hpos := by
    have hsign : Sign.positive / Sign.positive = Sign.positive := rfl
    have hexponent : e - k - 24 + 1 = e - k - 23 := by omega
    simp only [UnpackedFloat.div, divCore_pow hx.lo hx.hi hmin, hsign]
    rw [roundWithAccuracy_double hx.lo hx.hi (by omega) hpos]
    simp only [hexponent]
  refine ⟨hx.lo, hx.hi, by omega, by omega, hpos, ?_⟩
  change UnpackedFloat.unpack _
    (UnpackedFloat.pack _ (UnpackedFloat.div _ x.toModel.unpack y.toModel.unpack)) = _
  rw [hux, huy, hdiv]
  exact unpack_pack hx.lo hx.hi (by omega) (by omega) hpos

/-! ## Truncation -/

/-- Shifting by so many bits is dividing by a power of two. -/
theorem repeat_shiftRightOne (n m : Nat) (r s : Bool) :
    ∃ r' s', n.repeat ExtendedMantissa.shiftRightOne ⟨m, r, s⟩ = ⟨m / 2 ^ n, r', s'⟩ := by
  induction n with
  | zero => exact ⟨r, s, by simp [Nat.repeat]⟩
  | succ n ih =>
    obtain ⟨r', s', h⟩ := ih
    refine ⟨m / 2 ^ n % 2 != 0, r' || s', ?_⟩
    rw [Nat.repeat, h, ExtendedMantissa.shiftRightOne, Nat.div_div_eq_div_mul, pow_succ]

/-- A float is truncated to an integer by shifting its significand. -/
theorem roundToInt_positive (m : Nat) (e : Int) :
    roundToInt .positive m e = ((m * 2 ^ e.toNat / 2 ^ (-e).toNat : Nat) : Int) := by
  have hshift : (0 - (e - (e.toNat : Int))).toNat = (-e).toNat := by omega
  obtain ⟨r, s, hrepeat⟩ := repeat_shiftRightOne (-e).toNat (m * 2 ^ e.toNat) false false
  have hdrop : ExtendedMantissa.ofMantissaAndAccuracy (m * 2 ^ e.toNat) .exact >>> (-e).toNat =
      ⟨m * 2 ^ e.toNat / 2 ^ (-e).toNat, r, s⟩ := hrepeat
  simp only [roundToInt, decreaseExponent, shiftToExponent, Int.sub_zero, hshift, Nat.shiftLeft_eq,
    hdrop]
  rfl

theorem toNat_ofNatClamp_eq_zero (n : Nat) : (UInt64.ofNatClamp n).toNat = 0 ↔ n = 0 := by
  unfold UInt64.ofNatClamp
  split
  · rw [UInt64.toNat_ofNatLT]
  · next hlarge =>
    have hne : n ≠ 0 := by
      rintro rfl
      exact hlarge (by decide)
    simp [hne]

/-- **Truncation to zero**: of what is below one. -/
theorem IsNormal.toUInt64_eq_zero {x : Float32} {m : Nat} {e : Int} (hx : IsNormal x m e) :
    x.toUInt64.toNat = 0 ↔ e < -23 := by
  obtain ⟨hpos, hux⟩ := hx.unpack
  have hlo := hx.lo
  have hhi := hx.hi
  change (UnpackedFloat.toUInt64 x.toModel.unpack).toNat = 0 ↔ _
  rw [hux, UnpackedFloat.toUInt64, toNat_ofNatClamp_eq_zero, toInt, roundToInt_positive,
    Int.toNat_natCast, Nat.div_eq_zero_iff_lt (Nat.two_pow_pos _)]
  -- The significand is shifted up, or down by the exponent.
  rcases Int.le_total 0 e with he | he
  · have hnone : (-e).toNat = 0 := by omega
    have hmul := Nat.mul_pos hpos (Nat.two_pow_pos e.toNat)
    rw [hnone, pow_zero]
    omega
  · have hnone : e.toNat = 0 := by omega
    rw [hnone, pow_zero, Nat.mul_one]
    constructor
    · intro hlt
      by_contra hge
      have hpow : 2 ^ (-e).toNat ≤ 2 ^ 23 := Nat.pow_le_pow_right (by decide) (by omega)
      omega
    · intro hlt
      have hpow : 2 ^ 24 ≤ 2 ^ (-e).toNat := Nat.pow_le_pow_right (by decide) (by omega)
      omega

/-! ## Order -/

/-- The order, on what is unpacked. -/
theorem lt_iff_compare {x y : Float32} :
    x < y ↔ x.toModel.unpack.compare y.toModel.unpack = some .lt := by
  change decide (x.toModel < y.toModel) = true ↔ _
  rw [decide_eq_true_iff]
  change UnpackedFloat.lt x.toModel.unpack y.toModel.unpack = true ↔ _
  rw [UnpackedFloat.lt, beq_iff_eq]

theorem le_iff_compare {x y : Float32} :
    x ≤ y ↔ (x.toModel.unpack.compare y.toModel.unpack).any Ordering.isLE = true := by
  change decide (x.toModel ≤ y.toModel) = true ↔ _
  rw [decide_eq_true_iff]
  rfl

/-- The order of two positive floats. -/
theorem compare_positive {m n : Nat} {e k : Int} {hm : 0 < m} {hn : 0 < n} :
    UnpackedFloat.compare (.finite .positive m e hm) (.finite .positive n k hn) = some .lt ↔
      e < k ∨ e = k ∧ m < n := by
  simp only [UnpackedFloat.compare, Option.some.injEq, Ordering.then_eq_lt, compare_lt_iff_lt,
    compare_eq_iff_eq]

/-- **Below a power of two** is read off the exponent. -/
theorem IsNormal.lt_pow_iff {x y : Float32} {m : Nat} {e k : Int} (hx : IsNormal x m e)
    (hy : IsNormal y (2 ^ 23) k) : x < y ↔ e < k := by
  obtain ⟨hpos, hux⟩ := hx.unpack
  obtain ⟨hpow, huy⟩ := hy.unpack
  have hlo := hx.lo
  rw [lt_iff_compare, hux, huy, compare_positive]
  omega

/-- What is below a power of two is below a higher one. -/
theorem lt_pow_mono {x y z : Float32} {j k : Int} (hy : IsNormal y (2 ^ 23) j)
    (hz : IsNormal z (2 ^ 23) k) (hle : j ≤ k) (h : x < y) : x < z := by
  obtain ⟨hpow, huy⟩ := hy.unpack
  obtain ⟨hpow', huz⟩ := hz.unpack
  rw [lt_iff_compare, huy] at h
  rw [lt_iff_compare, huz]
  -- What is below a power of two is negative, zero, or positive with a smaller exponent.
  cases hux : x.toModel.unpack with
  | notANumber => rw [hux] at h; cases h
  | infinity s =>
    rw [hux] at h
    cases s with
    | positive => cases h
    | negative => rfl
  | zero s => rfl
  | finite s m e hm =>
    rw [hux] at h
    cases s with
    | negative => rfl
    | positive =>
      rw [compare_positive] at h ⊢
      omega

/-- **A finite float that is not below a power of two** is normal, with at least its exponent. -/
theorem isNormal_of_not_lt {x y : Float32} {k : Int} (hfinite : x.isFinite = true)
    (hy : IsNormal y (2 ^ 23) k) (hk : -149 < k) (h : ¬ x < y) :
    ∃ m e, IsNormal x m e ∧ k ≤ e := by
  obtain ⟨hpow, huy⟩ := hy.unpack
  have hbinary := binary32_unpack x
  change UnpackedFloat.isFinite x.toModel.unpack = true at hfinite
  rw [lt_iff_compare, huy] at h
  -- The class of the float: a positive one has its significand's 24 bits, because it is not
  -- subnormal.
  cases hux : x.toModel.unpack with
  | notANumber => rw [hux] at hfinite; cases hfinite
  | infinity s => rw [hux] at hfinite; cases hfinite
  | zero s =>
    rw [hux] at h
    exact absurd rfl h
  | finite s m e hm =>
    rw [hux] at h hbinary
    cases s with
    | negative => exact absurd rfl h
    | positive =>
      rw [compare_positive] at h
      obtain ⟨hhi, hmin, hmax, hlo⟩ := hbinary
      exact ⟨m, e, ⟨by omega, hhi, hmin, hmax, hm, hux⟩, by omega⟩

/-- A normal float is finite. -/
theorem IsNormal.isFinite {x : Float32} {m : Nat} {e : Int} (hx : IsNormal x m e) :
    x.isFinite = true := by
  obtain ⟨hpos, hux⟩ := hx.unpack
  change UnpackedFloat.isFinite x.toModel.unpack = true
  rw [hux]
  rfl

/-- A normal float is positive. -/
theorem IsNormal.not_le_zero {x : Float32} {m : Nat} {e : Int} (hx : IsNormal x m e) : ¬ x ≤ 0 := by
  obtain ⟨hpos, hux⟩ := hx.unpack
  have hzero : (0 : Float32).toModel.unpack = .zero .positive := rfl
  rw [le_iff_compare, hux, hzero]
  simp [UnpackedFloat.compare, Ordering.isLE]

end Lib
end EngineKit
