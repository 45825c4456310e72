import Mathlib.Data.Nat.ModEq
import EngineKit.Lib.LittleEndian

/-!
# Rounding up with a mask

To round up to a multiple of a power of two, machine code adds one less than it and clears the low
bits. On the words where the sum does not wrap this is `roundUp`, the least multiple that is not
smaller.
-/

set_option autoImplicit false

namespace EngineKit
namespace Lib

/-! ## The mask -/

/-- The bits from `k` on are a quotient. -/
theorem and_two_pow_sub {x w k : Nat} (hx : x < 2 ^ w) (hk : k ≤ w) :
    x &&& (2 ^ w - 2 ^ k) = x / 2 ^ k * 2 ^ k := by
  have hmask : 2 ^ w - 2 ^ k = (2 ^ (w - k) - 1) <<< k := by
    rw [Nat.shiftLeft_eq, Nat.sub_mul, ← Nat.pow_add, Nat.sub_add_cancel hk, Nat.one_mul]
  have hquot : x / 2 ^ k * 2 ^ k = (x >>> k) <<< k := by
    rw [Nat.shiftLeft_eq, Nat.shiftRight_eq_div_pow]
  rw [hmask, hquot]
  refine Nat.eq_of_testBit_eq ?_
  intro i
  rw [Nat.testBit_and, Nat.testBit_shiftLeft, Nat.testBit_shiftLeft, Nat.testBit_two_pow_sub_one,
    Nat.testBit_shiftRight]
  by_cases hi : k ≤ i
  · rw [decide_eq_true hi, Bool.true_and, Bool.true_and, Nat.add_sub_cancel' hi]
    by_cases hw : i < w
    · rw [decide_eq_true (by omega), Bool.and_true]
    · have hhigh : x.testBit i = false :=
        Nat.testBit_lt_two_pow (Nat.lt_of_lt_of_le hx (Nat.pow_le_pow_right (by decide) (by omega)))
      rw [hhigh, Bool.false_and]
  · rw [decide_eq_false (by omega), Bool.false_and, Bool.false_and, Bool.and_false]

/-- `x & !(align - 1)`. -/
theorem toNat_and_not_mask (x : UInt64) {align : UInt64} (h : align.toNat.isPowerOfTwo) :
    (x &&& ~~~(align - 1)).toNat = x.toNat / align.toNat * align.toNat := by
  obtain ⟨k, hk⟩ := h
  have hlt : align.toNat < 2 ^ 64 := align.toNat_lt
  have hkw : k ≤ 64 := by
    by_contra hlarge
    have hpow : 2 ^ 64 ≤ 2 ^ k := Nat.pow_le_pow_right (by decide) (by omega)
    omega
  have hpos : 0 < align.toNat := by rw [hk]; exact Nat.two_pow_pos k
  have hone : (1 : UInt64) ≤ align := UInt64.le_iff_toNat_le.mpr hpos
  have hmask : (~~~(align - 1)).toNat = 2 ^ 64 - 2 ^ k := by
    rw [UInt64.toNat_not, UInt64.toNat_sub_of_le _ _ hone, ← hk]
    show 2 ^ 64 - 1 - (align.toNat - 1) = _
    omega
  rw [UInt64.toNat_and, hmask, and_two_pow_sub x.toNat_lt hkw, hk]

/-! ## Rounding up -/

def roundUp (n a : Nat) : Nat := (n + (a - 1)) / a * a

theorem dvd_roundUp (n a : Nat) : a ∣ roundUp n a := Nat.dvd_mul_left a _

theorem le_roundUp (n : Nat) {a : Nat} (ha : 0 < a) : n ≤ roundUp n a := by
  have hdiv := Nat.div_add_mod (n + (a - 1)) a
  have hmod := Nat.mod_lt (n + (a - 1)) ha
  rw [roundUp, Nat.mul_comm]
  omega

/-- A multiple is not rounded. -/
theorem roundUp_eq_self_iff (n : Nat) {a : Nat} (ha : 0 < a) : roundUp n a = n ↔ a ∣ n := by
  constructor
  · intro h
    rw [← h]
    exact dvd_roundUp n a
  · intro h
    obtain ⟨k, rfl⟩ := h
    rw [roundUp, Nat.mul_add_div ha, Nat.div_eq_of_lt (Nat.sub_one_lt (Nat.ne_of_gt ha)),
      Nat.add_zero, Nat.mul_comm]

/-- `x.saturating_add(align.saturating_sub(1)) & !(align.saturating_sub(1))`, where the sum does
    not saturate. -/
theorem toNat_roundUp_mask {x align : UInt64} (h : align.toNat.isPowerOfTwo)
    (hsum : x.toNat + (align.toNat - 1) < 2 ^ 64) :
    (saturatingAdd x (saturatingSub align 1) &&& ~~~(saturatingSub align 1)).toNat
      = roundUp x.toNat align.toNat := by
  have hone : (1 : UInt64) ≤ align := UInt64.le_iff_toNat_le.mpr (Nat.pos_of_isPowerOfTwo h)
  have hpred : saturatingSub align 1 = align - 1 := if_pos hone
  have hpredNat : (align - 1).toNat = align.toNat - 1 := UInt64.toNat_sub_of_le _ _ hone
  rw [hpred, toNat_and_not_mask _ h, toNat_saturatingAdd, hpredNat, Nat.min_eq_left (by omega),
    roundUp]

end Lib
end EngineKit
