import Mathlib.Data.BitVec
import Mathlib.Data.List.Basic

/-!
# Rings of cells with wrapping counters

A bounded queue in a ring of `2 ^ k` cells counts what was ever appended and what was ever taken
in two machine words that wrap, and finds a cell by masking a counter. `Cells` says what the cells
hold, in terms of the counters' true values; `toNat_sub_counter` and `toNat_and_counter` are why
the words are as good: their difference is the number of items, and their low bits are the cell.

The words are `w.Usize`, the unsigned integers of a target's pointer width.
-/

set_option autoImplicit false

namespace EngineKit
namespace Lib

/-- The width of `usize`, which is at least 16 bits on every target. -/
structure PointerWidth where
  bits : Nat
  sixteen_le : 16 ≤ bits

abbrev PointerWidth.sixtyFour : PointerWidth := ⟨64, by decide⟩

abbrev PointerWidth.Usize (w : PointerWidth) : Type := BitVec w.bits

/-! ## Powers of two -/

/-- `next_power_of_two`, without the bound of a machine word. -/
def nextPowerOfTwo (n : Nat) : Nat := if n ≤ 1 then 1 else 2 ^ (Nat.log2 (n - 1) + 1)

theorem nextPowerOfTwo_spec (n : Nat) :
    ∃ k, nextPowerOfTwo n = 2 ^ k ∧ n ≤ 2 ^ k ∧ ∀ j, n ≤ 2 ^ j → k ≤ j := by
  unfold nextPowerOfTwo
  split
  · next h => exact ⟨0, rfl, h, fun _ _ => Nat.zero_le _⟩
  · next h =>
    have hne : n - 1 ≠ 0 := by omega
    refine ⟨_, rfl, ?_, ?_⟩
    · have hlt := Nat.lt_log2_self (n := n - 1)
      omega
    · intro j hj
      exact (Nat.log2_lt hne).mpr (by omega)

/-- `usize::checked_next_power_of_two`. -/
def checkedNextPowerOfTwo {w : PointerWidth} (n : w.Usize) : Option w.Usize :=
  if nextPowerOfTwo n.toNat < 2 ^ w.bits then some (BitVec.ofNat w.bits (nextPowerOfTwo n.toNat))
  else none

theorem eq_of_checkedNextPowerOfTwo {w : PointerWidth} {n c : w.Usize}
    (h : checkedNextPowerOfTwo n = some c) :
    ∃ k < w.bits, nextPowerOfTwo n.toNat = 2 ^ k ∧ c = BitVec.ofNat w.bits (2 ^ k) := by
  unfold checkedNextPowerOfTwo at h
  split at h
  · next hlt =>
    obtain ⟨k, hk, -⟩ := nextPowerOfTwo_spec n.toNat
    rw [hk] at h hlt
    exact ⟨k, (Nat.pow_lt_pow_iff_right (by decide)).mp hlt, hk, (Option.some.inj h).symm⟩
  · exact absurd h (by simp)

/-! ## Counters that wrap -/

section Counters

variable {w k : Nat}

theorem toNat_sub_counter {taken put : Nat} (hle : taken ≤ put) (hlt : put - taken < 2 ^ w) :
    (BitVec.ofNat w put - BitVec.ofNat w taken).toNat = put - taken := by
  have hsub : BitVec.ofNat w put - BitVec.ofNat w taken = BitVec.ofNat w (put - taken) := by
    rw [sub_eq_iff_eq_add, ← BitVec.ofNat_add, Nat.sub_add_cancel hle]
  rw [hsub, BitVec.toNat_ofNat, Nat.mod_eq_of_lt hlt]

theorem counter_eq_iff {taken put : Nat} (hle : taken ≤ put) (hlt : put - taken < 2 ^ w) :
    BitVec.ofNat w taken = BitVec.ofNat w put ↔ taken = put := by
  constructor
  · intro heq
    have hsub := toNat_sub_counter hle hlt
    rw [heq, BitVec.sub_self, BitVec.toNat_zero] at hsub
    omega
  · exact congrArg _

theorem toNat_and_counter (hk : k ≤ w) (n : Nat) :
    (BitVec.ofNat w n &&& BitVec.ofNat w (2 ^ k - 1)).toNat = n % 2 ^ k := by
  have hpow : 2 ^ k ≤ 2 ^ w := Nat.pow_le_pow_right (by decide) hk
  have hpos := Nat.two_pow_pos k
  rw [BitVec.toNat_and, BitVec.toNat_ofNat, BitVec.toNat_ofNat,
    Nat.mod_eq_of_lt (by omega : 2 ^ k - 1 < 2 ^ w), Nat.and_two_pow_sub_one_eq_mod,
    Nat.mod_mod_of_dvd _ (Nat.pow_dvd_pow 2 hk)]

end Counters

/-! ## Cells -/

section Cells

variable {α : Type} {cells : List (Option α)} {start : Nat} {xs : List α} {x : α}

theorem filterMap_range_getElem? (xs : List α) :
    (List.range xs.length).filterMap (fun j => xs[j]?) = xs := by
  induction xs with
  | nil => rfl
  | cons x xs ih =>
    rw [List.length_cons, List.range_succ_eq_map, List.filterMap_cons, List.filterMap_map]
    exact congrArg (x :: ·) ih

theorem prefix_concat {xs ys : List α} (h : ys <+: xs) (hnext : xs[ys.length]? = some x) :
    ys ++ [x] <+: xs := by
  obtain ⟨rest, rfl⟩ := h
  rw [List.getElem?_append_right (Nat.le_refl _), Nat.sub_self] at hnext
  cases rest with
  | nil => exact absurd hnext (by simp)
  | cons x' rest =>
    obtain rfl : x' = x := Option.some.inj hnext
    exact ⟨rest, by simp⟩

/-- The cells from the one of counter `start` on, once around, hold `xs` and then nothing. -/
structure Cells (cells : List (Option α)) (start : Nat) (xs : List α) : Prop where
  fits : xs.length ≤ cells.length
  holds (j : Nat) : j < cells.length → cells[(start + j) % cells.length]? = some xs[j]?

theorem Cells.empty (size start : Nat) :
    Cells (List.replicate size (none : Option α)) start [] where
  fits := Nat.zero_le _
  holds j hj := by
    rw [List.length_replicate] at hj ⊢
    rw [List.getElem?_replicate, if_pos (Nat.mod_lt _ (by omega))]
    rfl

/-- Two counters less than a round apart have different cells. -/
theorem cell_inj {size i j : Nat} (hi : i < size) (hj : j < size)
    (h : (start + i) % size = (start + j) % size) : i = j := by
  have hmod : i % size = j % size := Nat.ModEq.add_left_cancel' start h
  rwa [Nat.mod_eq_of_lt hi, Nat.mod_eq_of_lt hj] at hmod

theorem Cells.free (h : Cells cells start xs) (hroom : xs.length < cells.length) :
    cells[(start + xs.length) % cells.length]? = some none := by
  rw [h.holds _ hroom, List.getElem?_eq_none (Nat.le_refl _)]

theorem Cells.front (h : Cells cells start (x :: xs)) :
    cells[start % cells.length]? = some (some x) := by
  have hfits := h.fits
  rw [List.length_cons] at hfits
  have hhead := h.holds 0 (by omega)
  rwa [Nat.add_zero] at hhead

/-- Filling the first free cell appends. -/
theorem Cells.put (h : Cells cells start xs) (hroom : xs.length < cells.length) (x : α) :
    Cells (cells.set ((start + xs.length) % cells.length) (some x)) start (xs ++ [x]) := by
  refine ⟨?_, ?_⟩
  · rw [List.length_append, List.length_singleton, List.length_set]
    exact hroom
  · intro j hj
    rw [List.length_set] at hj ⊢
    rw [List.getElem?_set]
    by_cases hcell : (start + xs.length) % cells.length = (start + j) % cells.length
    · rw [if_pos hcell, if_pos (Nat.mod_lt _ (by omega)), ← cell_inj hroom hj hcell]
      exact congrArg some List.getElem?_concat_length.symm
    · rw [if_neg hcell, h.holds j hj, List.getElem?_append]
      have hne : j ≠ xs.length := fun heq => hcell (heq ▸ rfl)
      split
      · rfl
      · rw [List.getElem?_eq_none (by omega), List.getElem?_eq_none (by simp; omega)]

/-- Emptying the first cell takes the oldest item. -/
theorem Cells.take (h : Cells cells start (x :: xs)) :
    Cells (cells.set (start % cells.length) none) (start + 1) xs := by
  have hfits := h.fits
  rw [List.length_cons] at hfits
  refine ⟨by rw [List.length_set]; omega, ?_⟩
  intro j hj
  rw [List.length_set] at hj ⊢
  rw [List.getElem?_set, Nat.add_assoc, Nat.add_comm 1 j]
  by_cases hlast : j + 1 = cells.length
  · -- once around: the cell just emptied
    rw [hlast, Nat.add_mod_right, if_pos rfl, if_pos (Nat.mod_lt _ (by omega)),
      List.getElem?_eq_none (by omega)]
  · have hcell : ¬ start % cells.length = (start + (j + 1)) % cells.length := by
      intro heq
      have hzero : 0 = j + 1 :=
        cell_inj (show 0 < cells.length by omega) (show j + 1 < cells.length by omega) heq
      omega
    rw [if_neg hcell, h.holds (j + 1) (by omega), List.getElem?_cons_succ]

end Cells

end Lib
end EngineKit
