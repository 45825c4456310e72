import Mathlib.Data.List.Nodup
import Mathlib.Data.List.Perm.Subperm
import Mathlib.Data.List.Range
import Mathlib.Logic.Function.Basic
import EngineKit.Lib.Patch

/-!
# Sparse sets

A sparse set keeps its values packed in one vector and, for each key, the position of the key's
value in it. Removing a value moves the last one into the gap (`swapRemove`), so the moved
value's key has to be pointed at its new position.

What ties the two sides together is a list nobody stores: the key that owns each position.
`Inverse pos owners` says the positions and that list are inverse to each other, and the two
updates of a sparse set keep it: a push gives a new key the next position
(`Inverse.push`), a swap-remove takes one key out and moves at most one other
(`Inverse.swapRemove`). Keys are of any type.
-/

set_option autoImplicit false

namespace EngineKit
namespace Lib

/-! ## Vectors -/

section Vectors

variable {α : Type}

/-- A vector that only grows keeps its entries and is padded with the filler. -/
theorem getElem?_resize_of_le {xs : List α} {n : Nat} (h : xs.length ≤ n) (x : α) (i : Nat) :
    (resize xs n x)[i]? = if i < n then some (xs[i]?.getD x) else none := by
  rw [resize, List.take_of_length_le h, List.getElem?_append]
  split
  · next hi =>
    rw [if_pos (by omega), List.getElem?_eq_getElem hi]
    rfl
  · next hi =>
    have hout : xs[i]? = none := List.getElem?_eq_none (by omega)
    rw [List.getElem?_replicate, hout, Option.getD_none]
    exact ite_congr (propext (by omega)) (fun _ => rfl) fun _ => rfl

theorem getElem?_push {α : Type} (xs : List α) (x : α) (j : Nat) :
    (xs ++ [x])[j]? = if j = xs.length then some x else xs[j]? := by
  rw [List.getElem?_append]
  by_cases hlt : j < xs.length
  · rw [if_pos hlt, if_neg (by omega)]
  · rw [if_neg hlt, List.getElem?_singleton, List.getElem?_eq_none (Nat.not_lt.mp hlt)]
    exact ite_congr (propext (by omega)) (fun _ => rfl) fun _ => rfl

/-- `Vec::swap_remove`, without the value it returns: the last value fills the gap. -/
def swapRemove (xs : List α) (k : Nat) : List α :=
  match xs.getLast? with
  | none => xs
  | some last => (xs.set k last).dropLast

theorem getElem?_swapRemove {xs : List α} {k : Nat} (hk : k < xs.length) (j : Nat) :
    (swapRemove xs k)[j]? =
      if j < xs.length - 1 then (if j = k then xs[xs.length - 1]? else xs[j]?) else none := by
  have hpos : xs.length - 1 < xs.length := by omega
  have hlast : xs[xs.length - 1]? = some xs[xs.length - 1] := List.getElem?_eq_getElem hpos
  rw [swapRemove, List.getLast?_eq_getElem?, hlast]
  simp only [List.getElem?_dropLast, List.length_set, List.getElem?_set, if_pos hk]
  exact ite_congr rfl (fun _ => ite_congr (propext eq_comm) (fun _ => rfl) fun _ => rfl)
    fun _ => rfl

theorem length_swapRemove {xs : List α} {k : Nat} (hk : k < xs.length) :
    (swapRemove xs k).length = xs.length - 1 := by
  have hpos : xs.length - 1 < xs.length := by omega
  have hlast : xs[xs.length - 1]? = some xs[xs.length - 1] := List.getElem?_eq_getElem hpos
  rw [swapRemove, List.getLast?_eq_getElem?, hlast]
  simp only [List.length_dropLast, List.length_set]

/-- What is left is the rest. -/
theorem perm_swapRemove {xs : List α} {k : Nat} {x : α} (hk : xs[k]? = some x) :
    (x :: swapRemove xs k).Perm xs := by
  rcases List.eq_nil_or_concat xs with rfl | ⟨front, last, rfl⟩
  · simp at hk
  have hremove : swapRemove (front.concat last) k = ((front ++ [last]).set k last).dropLast := by
    rw [List.concat_eq_append, swapRemove, List.getLast?_concat]
  rw [hremove, List.concat_eq_append]
  rw [List.concat_eq_append] at hk
  by_cases hlt : k < front.length
  · -- the last one fills the gap
    have hx : front[k] = x := by
      rw [List.getElem?_append_left hlt, List.getElem?_eq_getElem hlt] at hk
      exact Option.some.inj hk
    rw [List.set_append_left _ _ hlt, List.dropLast_concat]
    have hset : (front.set k last).Perm (last :: front.eraseIdx k) :=
      List.set_perm_cons_eraseIdx hlt last
    have hfront : (x :: front.eraseIdx k).Perm front := by
      rw [← hx]
      exact List.getElem_cons_eraseIdx_perm hlt
    exact ((hset.cons x).trans (.swap _ _ _)).trans
      ((hfront.cons last).trans (List.perm_append_singleton _ _).symm)
  · have hk' : k = front.length := by
      have hlen := (List.getElem?_eq_some_iff.mp hk).1
      rw [List.length_append, List.length_singleton] at hlen
      omega
    subst hk'
    obtain rfl : last = x := by simpa using hk
    rw [List.set_append_right _ _ (Nat.le_refl _), Nat.sub_self, List.set_cons_zero,
      List.dropLast_concat]
    exact (List.perm_append_singleton _ _).symm

/-- Distinct numbers below `n` are at most `n`. -/
theorem length_le_of_nodup {xs : List Nat} {n : Nat} (hnd : xs.Nodup) (h : ∀ x ∈ xs, x < n) :
    xs.length ≤ n :=
  (hnd.subperm fun x hx => List.mem_range.mpr (h x hx)).length_le.trans_eq List.length_range

end Vectors

/-! ## Positions and owners -/

section Owners

variable {ι : Type}

/-- Position `k` is key `i`'s exactly when `i` owns position `k`. -/
structure Inverse (pos : ι → Option Nat) (owners : List ι) : Prop where
  iff (i : ι) (k : Nat) : pos i = some k ↔ owners[k]? = some i

variable {pos : ι → Option Nat} {owners : List ι}

theorem Inverse.empty : Inverse (fun _ : ι => none) [] where
  iff := by simp

theorem Inverse.lt (h : Inverse pos owners) {i : ι} {k : Nat} (hk : pos i = some k) :
    k < owners.length :=
  (List.getElem?_eq_some_iff.mp ((h.iff i k).mp hk)).1

theorem Inverse.eq_of_pos (h : Inverse pos owners) {i j : ι} {k : Nat} (hi : pos i = some k)
    (hj : pos j = some k) : i = j :=
  Option.some.inj (((h.iff i k).mp hi).symm.trans ((h.iff j k).mp hj))

theorem Inverse.mem_iff (h : Inverse pos owners) {i : ι} : i ∈ owners ↔ (pos i).isSome := by
  rw [List.mem_iff_getElem?, Option.isSome_iff_exists]
  exact exists_congr fun k => (h.iff i k).symm

theorem Inverse.nodup (h : Inverse pos owners) : owners.Nodup := by
  rw [List.nodup_iff_getElem?_ne_getElem?]
  intro j k hjk hk heq
  obtain ⟨i, hi⟩ : ∃ i, owners[k]? = some i := ⟨_, List.getElem?_eq_getElem hk⟩
  have hpos : some j = some k := ((h.iff i j).mpr (heq.trans hi)).symm.trans ((h.iff i k).mpr hi)
  exact absurd (Option.some.inj hpos) (Nat.ne_of_lt hjk)

variable [DecidableEq ι]

/-- **A push** gives a new key the position after the last. -/
theorem Inverse.push (h : Inverse pos owners) {i : ι} (hi : pos i = none) :
    Inverse (Function.update pos i (some owners.length)) (owners ++ [i]) where
  iff j k := by
    rw [List.getElem?_append]
    by_cases hji : j = i
    · subst hji
      have hnot (m : Nat) : owners[m]? ≠ some j := by
        intro hm
        exact absurd ((h.iff j m).mpr hm) (by rw [hi]; simp)
      rw [Function.update_self]
      split
      · next hk => exact iff_of_false (by simp; omega) (hnot k)
      · next hk => grind
    · rw [Function.update_of_ne hji, h.iff]
      split
      · exact Iff.rfl
      · next hk =>
        have hout : owners[k]? = none := List.getElem?_eq_none (by omega)
        grind

/-- **A swap-remove** takes one key out and gives its position to the owner of the last. -/
theorem Inverse.swapRemove (h : Inverse pos owners) {i : ι} {k : Nat} (hi : pos i = some k) :
    Inverse (fun j => if j = i then none
      else if pos j = some (owners.length - 1) then some k else pos j)
      (Lib.swapRemove owners k) where
  iff j m := by
    have hk := h.lt hi
    -- what the owner of position `m` after the removal was before it
    have hafter : (Lib.swapRemove owners k)[m]? = some j ↔
        m < owners.length - 1 ∧ pos j = some (if m = k then owners.length - 1 else m) := by
      rw [getElem?_swapRemove hk, h.iff]
      by_cases hm : m < owners.length - 1
      · by_cases hmk : m = k
        · simp [if_pos hmk, hm]
        · simp [if_neg hmk, hm]
      · simp [hm]
    rw [hafter]
    by_cases hji : j = i
    · subst hji
      rw [if_pos rfl, hi, Option.some.injEq]
      refine iff_of_false (by simp) ?_
      intro ⟨hm, heq⟩
      split at heq <;> omega
    · rw [if_neg hji]
      have hne : pos j ≠ some k := fun hj => hji (h.eq_of_pos hj hi)
      by_cases hmoved : pos j = some (owners.length - 1)
      · -- `j` owned the last position, which was not `i`'s
        have hlt : k ≠ owners.length - 1 := fun heq => hne (heq ▸ hmoved)
        rw [if_pos hmoved, hmoved, Option.some.injEq, Option.some.injEq]
        split <;> omega
      · rw [if_neg hmoved]
        constructor
        · intro hj
          have hm := h.lt hj
          have hmk : m ≠ k := fun heq => hne (heq ▸ hj)
          have hml : m ≠ owners.length - 1 := fun heq => hmoved (heq ▸ hj)
          exact ⟨by omega, by rw [if_neg hmk, hj]⟩
        · intro ⟨_, hj⟩
          split at hj
          · exact absurd hj hmoved
          · exact hj

end Owners

end Lib
end EngineKit
