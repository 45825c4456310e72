import Mathlib.Data.BitVec
import Mathlib.Data.List.Sort

/-!
# Scanning bits

`eachBit` is the loop that visits the set bits of a word by taking the lowest and clearing it with
`x &&& (x - 1)`, until none is left. It visits each of them once, in ascending order
(`eachBit_eq`). `eachIndex` does so over words in a row, where bit `b` of word `k` has the index
`k * w + b`; what it visits is `indices`, in ascending order (`indices_sorted`).
-/

set_option autoImplicit false

namespace EngineKit
namespace Lib

variable {σ : Type} {w : Nat}

def clearLowest (x : BitVec w) : BitVec w := x &&& (x - 1#w)

/-- Below its lowest set bit a word has none, so it is that bit and a multiple of the next. -/
theorem toNat_eq_of_ctz {x : BitVec w} (hx : x ≠ 0#w) :
    x.toNat = 2 ^ (x.ctz.toNat + 1) * (x.toNat / 2 ^ (x.ctz.toNat + 1)) + 2 ^ x.ctz.toNat := by
  have hmod : x.toNat % 2 ^ (x.ctz.toNat + 1) = 2 ^ x.ctz.toNat := by
    refine Nat.eq_of_testBit_eq ?_
    intro i
    rw [Nat.testBit_mod_two_pow, Nat.testBit_two_pow]
    rcases Nat.lt_trichotomy i x.ctz.toNat with hlt | rfl | hgt
    · have hbelow : x.toNat.testBit i = false := BitVec.getLsbD_false_of_lt_ctz hlt
      rw [hbelow, Bool.and_false]
      exact (decide_eq_false (by omega)).symm
    · have hset : x.toNat.testBit x.ctz.toNat = true := BitVec.getLsbD_true_ctz_of_ne_zero hx
      rw [hset]
      simp
    · rw [decide_eq_false (by omega), decide_eq_false (by omega), Bool.false_and]
  conv_lhs => rw [← Nat.div_add_mod x.toNat (2 ^ (x.ctz.toNat + 1)), hmod]

theorem toNat_clearLowest {x : BitVec w} (hx : x ≠ 0#w) :
    (clearLowest x).toNat = x.toNat &&& (x.toNat - 1) := by
  have hpos : 0 < x.toNat := Nat.pos_of_ne_zero fun hzero => hx (BitVec.eq_of_toNat_eq hzero)
  have hone : (1#w).toNat = 1 := by
    rw [BitVec.toNat_ofNat]
    exact Nat.mod_eq_of_lt (Nat.lt_of_le_of_lt hpos x.isLt)
  have hle : 1#w ≤ x := by
    rw [BitVec.le_def, hone]
    exact hpos
  rw [clearLowest, BitVec.toNat_and, BitVec.toNat_sub_of_le hle, hone]

/-- Only the lowest set bit is cleared. -/
theorem getLsbD_clearLowest {x : BitVec w} (hx : x ≠ 0#w) (i : Nat) :
    (clearLowest x).getLsbD i = (x.getLsbD i && decide (i ≠ x.ctz.toNat)) := by
  -- With `k` the lowest set bit, `x = 2 ^ (k + 1) * q + 2 ^ k`, and below `k + 1` the bits of
  -- `x - 1` are those of `2 ^ k - 1`.
  have hx' := toNat_eq_of_ctz hx
  set k := x.ctz.toNat
  set q := x.toNat / 2 ^ (k + 1)
  have hpow : 2 ^ k < 2 ^ (k + 1) := Nat.pow_lt_pow_right (by decide) (Nat.lt_succ_self k)
  have hpos : 0 < 2 ^ k := Nat.two_pow_pos k
  have hpred : x.toNat - 1 = 2 ^ (k + 1) * q + (2 ^ k - 1) := by omega
  show (clearLowest x).toNat.testBit i = (x.toNat.testBit i && _)
  rw [toNat_clearLowest hx, Nat.testBit_and, hpred, hx', Nat.testBit_two_pow_mul_add q hpow,
    Nat.testBit_two_pow_mul_add q (show 2 ^ k - 1 < 2 ^ (k + 1) by omega)]
  by_cases hi : i < k + 1
  · rw [if_pos hi, if_pos hi, Nat.testBit_two_pow, Nat.testBit_two_pow_sub_one]
    by_cases hk : k = i
    · simp [hk]
    · simp [hk]
  · have hne : i ≠ k := by omega
    simp [hi, hne]

theorem clearLowest_lt {x : BitVec w} (hx : x ≠ 0#w) : (clearLowest x).toNat < x.toNat := by
  have hpos : 0 < x.toNat := Nat.pos_of_ne_zero fun hzero => hx (BitVec.eq_of_toNat_eq hzero)
  rw [toNat_clearLowest hx]
  exact Nat.lt_of_le_of_lt Nat.and_le_right (by omega)

def eachBit (mask : BitVec w) (f : σ → Nat → σ) (st : σ) : σ :=
  if _h : mask = 0#w then st else eachBit (clearLowest mask) f (f st mask.ctz.toNat)
termination_by mask.toNat
decreasing_by exact clearLowest_lt _h

/-- The set bits, in ascending order. -/
def bits (mask : BitVec w) : List Nat := (List.range w).filter mask.getLsbD

theorem bits_sorted (mask : BitVec w) : (bits mask).Pairwise (· < ·) :=
  List.pairwise_lt_range.filter _

theorem mem_bits {mask : BitVec w} {i : Nat} : i ∈ bits mask ↔ mask.getLsbD i = true := by
  rw [bits, List.mem_filter, List.mem_range, and_iff_right_of_imp]
  intro hi
  by_contra hout
  rw [mask.getLsbD_of_ge i (Nat.not_lt.mp hout)] at hi
  exact absurd hi (by simp)

theorem bits_zero : bits 0#w = [] := by
  rw [bits, List.filter_eq_nil_iff]
  simp

/-- The lowest set bit comes first, and the others are left when it is cleared. -/
theorem bits_eq_cons {mask : BitVec w} (h : mask ≠ 0#w) :
    bits mask = mask.ctz.toNat :: bits (clearLowest mask) := by
  have hrest : ∀ i ∈ bits (clearLowest mask), mask.ctz.toNat < i := by
    intro i hi
    rw [mem_bits, getLsbD_clearLowest h, Bool.and_eq_true, decide_eq_true_eq] at hi
    by_contra hle
    have hbelow := BitVec.getLsbD_false_of_lt_ctz (x := mask) (i := i) (by omega)
    rw [hbelow] at hi
    exact absurd hi.1 (by simp)
  refine (bits_sorted mask).eq_of_mem_iff (List.pairwise_cons.mpr ⟨hrest, bits_sorted _⟩) ?_
  intro i
  rw [List.mem_cons, mem_bits, mem_bits, getLsbD_clearLowest h, Bool.and_eq_true,
    decide_eq_true_eq]
  by_cases hi : i = mask.ctz.toNat
  · rw [hi]
    exact iff_of_true (BitVec.getLsbD_true_ctz_of_ne_zero h) (.inl rfl)
  · simp [hi]

/-- **The loop visits the set bits**, each once and in ascending order. -/
theorem eachBit_eq (mask : BitVec w) (f : σ → Nat → σ) (st : σ) :
    eachBit mask f st = (bits mask).foldl f st := by
  induction mask, st using eachBit.induct f with
  | case1 st =>
    rw [eachBit, dif_pos rfl, bits_zero]
    rfl
  | case2 mask st h ih =>
    rw [eachBit, dif_neg h, bits_eq_cons h, ih]
    rfl

/-! ## Words in a row -/

def eachIndex (words : List (BitVec w)) (f : σ → Nat → σ) (st : σ) : σ :=
  words.zipIdx.foldl (fun st (word, k) => eachBit word (fun st bit => f st (k * w + bit)) st) st

/-- The indices of the set bits, in ascending order. -/
def indices (words : List (BitVec w)) : List Nat :=
  words.zipIdx.flatMap fun (word, k) => (bits word).map (k * w + ·)

theorem eachIndex_eq (words : List (BitVec w)) (f : σ → Nat → σ) (st : σ) :
    eachIndex words f st = (indices words).foldl f st := by
  simp only [eachIndex, indices, eachBit_eq, List.foldl_flatMap, List.foldl_map]

theorem lt_of_mem_bits {mask : BitVec w} {i : Nat} (h : i ∈ bits mask) : i < w :=
  List.mem_range.mp (List.mem_filter.mp h).1

theorem mem_indices {words : List (BitVec w)} {i : Nat} :
    i ∈ indices words ↔ ∃ word, words[i / w]? = some word ∧ word.getLsbD (i % w) = true := by
  rw [indices, List.mem_flatMap]
  constructor
  · intro hex
    obtain ⟨⟨word, k⟩, hword, hi⟩ := hex
    obtain ⟨bit, hbit, rfl⟩ := List.mem_map.mp hi
    have hlt := lt_of_mem_bits hbit
    have hrow : (k * w + bit) / w = k := by
      rw [Nat.mul_comm, Nat.mul_add_div (by omega), Nat.div_eq_of_lt hlt, Nat.add_zero]
    have hcolumn : (k * w + bit) % w = bit := by
      rw [Nat.mul_add_mod_of_lt hlt]
    rw [hrow, hcolumn]
    exact ⟨word, List.mem_zipIdx_iff_getElem?.mp hword, mem_bits.mp hbit⟩
  · intro hex
    obtain ⟨word, hword, hbit⟩ := hex
    refine ⟨(word, i / w), List.mem_zipIdx_iff_getElem?.mpr hword, List.mem_map.mpr ?_⟩
    exact ⟨i % w, mem_bits.mpr hbit, Nat.div_add_mod' i w⟩

theorem indices_sorted (words : List (BitVec w)) : (indices words).Pairwise (· < ·) := by
  have hwords : words.zipIdx.Pairwise fun p q => p.2 < q.2 := by
    rw [← List.pairwise_map (f := Prod.snd) (R := (· < ·)), List.zipIdx_map_snd]
    exact List.pairwise_lt_range'
  rw [indices, List.pairwise_flatMap]
  refine ⟨?_, hwords.imp ?_⟩
  · rintro ⟨word, k⟩ -
    rw [List.pairwise_map]
    exact (bits_sorted word).imp fun hlt => Nat.add_lt_add_left hlt _
  · rintro ⟨word, k⟩ ⟨word', k'⟩ hlt i hi i' hi'
    obtain ⟨bit, hbit, rfl⟩ := List.mem_map.mp hi
    obtain ⟨bit', -, rfl⟩ := List.mem_map.mp hi'
    have hrow : (k + 1) * w ≤ k' * w := Nat.mul_le_mul_right w hlt
    have hbelow := lt_of_mem_bits hbit
    rw [Nat.succ_mul] at hrow
    omega

end Lib
end EngineKit
