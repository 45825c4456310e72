import Mathlib.Data.List.Basic

/-!
# Collecting into an array of fixed size

A loop that copies the items it wants into an array, as long as there is room, and counts them.
What it has copied at the end are the first wanted items, as many as the array holds
(`collected_foldl`); what came later is dropped without a word.
-/

set_option autoImplicit false

namespace EngineKit
namespace Lib

variable {α : Type} {n : Nat}

/-- One round. -/
def collect (wanted : α → Bool) (acc : Vector α n × Nat) (x : α) : Vector α n × Nat :=
  if h : wanted x = true ∧ acc.2 < n then (acc.1.set acc.2 x h.2, acc.2 + 1) else acc

/-- The part of the array that is filled. -/
def collected (acc : Vector α n × Nat) : List α := acc.1.toList.take acc.2

theorem length_collected {acc : Vector α n × Nat} (h : acc.2 ≤ n) :
    (collected acc).length = acc.2 := by
  rw [collected, List.length_take, Vector.length_toList, Nat.min_eq_left h]

theorem collect_le {wanted : α → Bool} {acc : Vector α n × Nat} (h : acc.2 ≤ n) (x : α) :
    (collect wanted acc x).2 ≤ n := by
  unfold collect
  by_cases hx : wanted x = true ∧ acc.2 < n
  · rw [dif_pos hx]
    exact hx.2
  · rw [dif_neg hx]
    exact h

/-- **One round**: a wanted item joins the collected ones, if there is room. -/
theorem collected_collect {wanted : α → Bool} {acc : Vector α n × Nat} (h : acc.2 ≤ n) (x : α) :
    collected (collect wanted acc x) = (collected acc ++ [x].filter wanted).take n := by
  have hlen := length_collected h
  by_cases hw : wanted x = true
  · rw [List.filter_cons_of_pos hw, List.filter_nil]
    by_cases hroom : acc.2 < n
    · have hall : (collected acc ++ [x]).length ≤ n := by
        rw [List.length_append, hlen, List.length_singleton]
        exact hroom
      have hlt : acc.2 < acc.1.toList.length := by rwa [Vector.length_toList]
      rw [List.take_of_length_le hall, collect, dif_pos ⟨hw, hroom⟩, collected, collected]
      simp only [Vector.toList_set]
      rw [List.take_add_one, List.take_set_of_le (Nat.le_refl _), List.getElem?_set_self hlt]
      rfl
    · have hfull : (collected acc).length = n := by
        rw [hlen]
        exact Nat.le_antisymm h (Nat.not_lt.mp hroom)
      rw [List.take_left' hfull, collect, dif_neg fun hx => hroom hx.2]
  · have hall : (collected acc).length ≤ n := by
      rw [hlen]
      exact h
    rw [List.filter_cons_of_neg hw, List.filter_nil, List.append_nil, List.take_of_length_le hall,
      collect, dif_neg fun hx => hw hx.1]

/-- What was cut off stays cut off. -/
theorem take_take_append (xs ys : List α) (n : Nat) :
    (xs.take n ++ ys).take n = (xs ++ ys).take n := by
  by_cases h : xs.length ≤ n
  · rw [List.take_of_length_le h]
  · have hle : n ≤ xs.length := Nat.le_of_not_le h
    have hcut : (xs.take n).length = n := by rw [List.length_take, Nat.min_eq_left hle]
    rw [List.take_left' hcut, List.take_append_of_le_length hle]

/-- **The whole loop.** -/
theorem collected_foldl {wanted : α → Bool} {acc : Vector α n × Nat} (h : acc.2 ≤ n)
    (xs : List α) :
    (xs.foldl (collect wanted) acc).2 ≤ n ∧
      collected (xs.foldl (collect wanted) acc) = (collected acc ++ xs.filter wanted).take n := by
  induction xs generalizing acc with
  | nil =>
    have hall : (collected acc).length ≤ n := by
      rw [length_collected h]
      exact h
    exact ⟨h, by simp [List.take_of_length_le hall]⟩
  | cons x xs ih =>
    obtain ⟨hle, hrest⟩ := ih (collect_le h x)
    refine ⟨hle, ?_⟩
    have hsplit : (x :: xs).filter wanted = [x].filter wanted ++ xs.filter wanted := by
      rw [← List.filter_append, List.singleton_append]
    rw [List.foldl_cons, hrest, collected_collect h, hsplit, ← List.append_assoc]
    exact take_take_append _ _ n

end Lib
end EngineKit
