import Mathlib.Data.Rat.Floor
import Mathlib.Tactic.FieldSimp
import Mathlib.Tactic.Linarith
import Mathlib.Tactic.Ring

/-!
# Steps that truncate

Signed words whose operations clamp, as `i64::saturating_add` does, and a quantity that is taken
in whole units, a step at a time. Each step loses what its division leaves over, and it is the
same rest every time: after `n` steps `n` rests are missing. So the whole units stay within one of
the exact quantity as long as these rests do not make up more than one unit (`near_iff`).
-/

set_option autoImplicit false

namespace EngineKit
namespace Lib

/-! ## Clamping -/

/-- What an `i64` can hold. -/
def InI64 (x : Int) : Prop := Int64.minValue.toInt ≤ x ∧ x ≤ Int64.maxValue.toInt

instance (x : Int) : Decidable (InI64 x) := inferInstanceAs (Decidable (_ ∧ _))

def i64SaturatingAdd (a b : Int64) : Int64 := Int64.ofIntClamp (a.toInt + b.toInt)

def i64SaturatingMul (a b : Int64) : Int64 := Int64.ofIntClamp (a.toInt * b.toInt)

theorem toInt_i64SaturatingAdd {a b : Int64} (h : InI64 (a.toInt + b.toInt)) :
    (i64SaturatingAdd a b).toInt = a.toInt + b.toInt := Int64.toInt_ofIntClamp h.1 h.2

theorem toInt_i64SaturatingMul {a b : Int64} (h : InI64 (a.toInt * b.toInt)) :
    (i64SaturatingMul a b).toInt = a.toInt * b.toInt := Int64.toInt_ofIntClamp h.1 h.2

/-! ## Truncated steps -/

/-- What `n` truncated steps miss. -/
theorem truncated_sub (n : Nat) (a : Int) {b : Int} (hb : b ≠ 0) :
    ((n * a.tdiv b : Int) : ℚ) - n * a / b = -(n * a.tmod b : Int) / b := by
  have hsplit : ((b * a.tdiv b + a.tmod b : Int) : ℚ) = a := by rw [Int.mul_tdiv_add_tmod]
  have hne : (b : ℚ) ≠ 0 := Int.cast_ne_zero.mpr hb
  push_cast at hsplit ⊢
  field_simp
  rw [← hsplit]
  ring

/-- **How long whole units stay near.** -/
theorem near_iff (n : Nat) (a : Int) {b : Nat} (hb : 0 < b) :
    |((n * a.tdiv b : Int) : ℚ) - n * a / b| ≤ 1 ↔ n * (a.natAbs % b) ≤ b := by
  have hpos : (0 : ℚ) < b := Nat.cast_pos.mpr hb
  have hmissing := truncated_sub n a (Int.natCast_ne_zero.mpr hb.ne')
  have hrest : |((n * a.tmod b : Int) : ℚ)| = ((n * (a.natAbs % b) : Nat) : ℚ) := by
    rw [← Int.cast_abs, Int.abs_eq_natAbs, Int.natAbs_mul, Int.natAbs_tmod, Int.natAbs_natCast,
      Int.natAbs_natCast, Int.cast_natCast]
  rw [Int.cast_natCast] at hmissing
  rw [hmissing, abs_div, abs_neg, abs_of_pos hpos, div_le_one hpos, hrest, Nat.cast_le]

end Lib
end EngineKit
