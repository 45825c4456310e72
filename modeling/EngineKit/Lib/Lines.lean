import Mathlib.Data.List.Basic
import Mathlib.Data.Nat.ModEq
import Mathlib.Tactic.Linarith

/-!
# Lines

A list cut into lines: at every separator, and again where a piece between two separators is longer
than a line. `linesOf` says it in two steps, splitting first and cutting each paragraph into
`pieces`, where an empty paragraph is one empty line. `fill` is the loop that does both at once with
the line it is on, and it gives the same lines (`fill_nil`).

The line that is being filled is never longer than a line may be, so it breaks before an element
that finds it full and not behind the one that fills it. That is why a separator right behind a full
line adds no empty line.
-/

set_option autoImplicit false

namespace EngineKit
namespace Lib

variable {α : Type}

/-! ## Pieces -/

/-- A list cut into pieces of `k`, the last one what is left. The empty list is one piece. -/
def pieces (k : Nat) (xs : List α) : List (List α) :=
  (List.range (max 1 ((xs.length + k - 1) / k))).map fun i => (xs.drop (i * k)).take k

theorem pieces_of_le {k : Nat} {xs : List α} (h : xs.length ≤ k) : pieces k xs = [xs] := by
  have hcount : max 1 ((xs.length + k - 1) / k) = 1 := by
    rcases Nat.eq_zero_or_pos k with hk | hk
    · rw [hk, Nat.div_zero]
      rfl
    · have hlt : (xs.length + k - 1) / k < 2 := by
        rw [Nat.div_lt_iff_lt_mul hk]
        omega
      omega
  rw [pieces, hcount, List.range_one, List.map_singleton, Nat.zero_mul, List.drop_zero,
    List.take_of_length_le h]

/-- A full piece before the rest. -/
theorem pieces_append {k : Nat} {xs ys : List α} (hk : 0 < k) (hxs : xs.length = k)
    (hys : ys ≠ []) : pieces k (xs ++ ys) = xs :: pieces k ys := by
  have hlength : 0 < ys.length := List.length_pos_iff.mpr hys
  have hmore : (k + ys.length + k - 1) / k = (ys.length + k - 1) / k + 1 := by
    have hsum : k + ys.length + k - 1 = ys.length + k - 1 + k := by omega
    rw [hsum, Nat.add_div_right _ hk]
  have hone : 1 ≤ (ys.length + k - 1) / k := by
    rw [Nat.le_div_iff_mul_le hk]
    omega
  have hcount : max 1 (((xs ++ ys).length + k - 1) / k) =
      max 1 ((ys.length + k - 1) / k) + 1 := by
    rw [List.length_append, hxs, hmore]
    omega
  rw [pieces, hcount, List.range_succ_eq_map, List.map_cons, List.map_map, pieces]
  refine congrArg₂ List.cons ?_ (List.map_congr_left fun i _ => ?_)
  · rw [Nat.zero_mul, List.drop_zero, ← hxs, List.take_left]
  · have hskip : (i + 1) * k = xs.length + i * k := by
      rw [hxs, Nat.add_mul, Nat.one_mul, Nat.add_comm]
    simp only [Function.comp_apply, Nat.succ_eq_add_one]
    rw [hskip, ← List.drop_drop, List.drop_left]

theorem length_le_of_mem_pieces {k : Nat} {xs line : List α} (h : line ∈ pieces k xs) :
    line.length ≤ k := by
  obtain ⟨i, -, rfl⟩ := List.mem_map.mp h
  exact List.length_take_le _ _

/-! ## Lines -/

/-- Paragraphs at the separators, and each of them in pieces. -/
def linesOf (separates : α → Bool) (k : Nat) (xs : List α) : List (List α) :=
  (xs.splitOnP separates).flatMap (pieces k)

theorem length_le_of_mem_linesOf {separates : α → Bool} {k : Nat} {xs line : List α}
    (h : line ∈ linesOf separates k xs) : line.length ≤ k := by
  obtain ⟨paragraph, -, hline⟩ := List.mem_flatMap.mp h
  exact length_le_of_mem_pieces hline

/-- The loop that fills lines one by one, with the line it is on. -/
def fill (separates : α → Bool) (k : Nat) : List α → List α → List (List α)
  | line, [] => [line]
  | line, x :: xs =>
    if separates x then line :: fill separates k [] xs
    else if k ≤ line.length then line :: fill separates k [x] xs
    else fill separates k (line ++ [x]) xs

section Step

variable (separates : α → Bool) {k : Nat} {line xs : List α} {x : α}

/-- A separator ends the line. -/
theorem fill_separator (hx : separates x = true) :
    fill separates k line (x :: xs) = line :: fill separates k [] xs := by
  rw [fill, if_pos hx]

/-- An element that finds the line full is the first of the next. -/
theorem fill_full (hx : separates x = false) (hfull : k ≤ line.length) :
    fill separates k line (x :: xs) = line :: fill separates k [x] xs := by
  rw [fill, if_neg (by simp [hx]), if_pos hfull]

/-- Any other goes on the line. -/
theorem fill_next (hx : separates x = false) (hroom : ¬ k ≤ line.length) :
    fill separates k line (x :: xs) = fill separates k (line ++ [x]) xs := by
  rw [fill, if_neg (by simp [hx]), if_neg hroom]

end Step

/-- **Filling is cutting**: what the loop gives for the rest, from the line it is on. -/
theorem fill_eq {separates : α → Bool} {k : Nat} (hk : 0 < k) {line xs : List α}
    (hline : line.length ≤ k) :
    ∃ paragraph rest, xs.splitOnP separates = paragraph :: rest ∧
      fill separates k line xs = pieces k (line ++ paragraph) ++ rest.flatMap (pieces k) := by
  induction xs generalizing line with
  | nil =>
    refine ⟨[], [], List.splitOnP_nil, ?_⟩
    rw [List.append_nil, pieces_of_le hline]
    rfl
  | cons x xs ih =>
    rw [List.splitOnP_cons_eq_if_modifyHead]
    cases hx : separates x with
    | true =>
      obtain ⟨paragraph, rest, hsplit, hfill⟩ := @ih [] (Nat.zero_le k)
      refine ⟨[], paragraph :: rest, by rw [if_pos rfl, hsplit], ?_⟩
      rw [fill_separator separates hx, hfill, List.append_nil, pieces_of_le hline, List.nil_append,
        List.flatMap_cons]
      rfl
    | false =>
      by_cases hfull : k ≤ line.length
      · obtain ⟨paragraph, rest, hsplit, hfill⟩ := @ih [x] hk
        refine ⟨x :: paragraph, rest, by rw [hsplit]; rfl, ?_⟩
        rw [fill_full separates hx hfull, hfill,
          pieces_append hk (Nat.le_antisymm hline hfull) (List.cons_ne_nil x paragraph)]
        rfl
      · obtain ⟨paragraph, rest, hsplit, hfill⟩ := @ih (line ++ [x])
          (by rw [List.length_append, List.length_singleton]; omega)
        refine ⟨x :: paragraph, rest, by rw [hsplit]; rfl, ?_⟩
        rw [fill_next separates hx hfull, hfill, List.append_assoc]
        rfl

theorem fill_nil {separates : α → Bool} {k : Nat} (hk : 0 < k) (xs : List α) :
    fill separates k [] xs = linesOf separates k xs := by
  obtain ⟨paragraph, rest, hsplit, hfill⟩ :=
    @fill_eq α separates k hk [] xs (Nat.zero_le k)
  rw [hfill, linesOf, hsplit, List.flatMap_cons]
  rfl

theorem length_fill_le (separates : α → Bool) (k : Nat) (line xs : List α) :
    (fill separates k line xs).length ≤ xs.length + 1 := by
  induction xs generalizing line with
  | nil => exact Nat.le_refl 1
  | cons x xs ih =>
    unfold fill
    split
    · exact Nat.succ_le_succ (ih [])
    · split
      · exact Nat.succ_le_succ (ih [x])
      · exact Nat.le_succ_of_le (ih (line ++ [x]))

/-- Lines longer than the whole list do not matter. -/
theorem fill_of_long (separates : α → Bool) {k k' : Nat} {line xs : List α}
    (h : line.length + xs.length ≤ k) (h' : line.length + xs.length ≤ k') :
    fill separates k line xs = fill separates k' line xs := by
  induction xs generalizing line with
  | nil => rfl
  | cons x xs ih =>
    rw [List.length_cons] at h h'
    unfold fill
    split
    · rw [@ih [] (by simp only [List.length_nil]; omega)
        (by simp only [List.length_nil]; omega)]
    · rw [if_neg (by omega), if_neg (by omega)]
      refine ih ?_ ?_
      · rw [List.length_append, List.length_singleton]
        omega
      · rw [List.length_append, List.length_singleton]
        omega

/-- The length of the longest line. -/
def longest (lines : List (List α)) : Nat := (lines.map List.length).foldr max 0

theorem longest_cons (line : List α) (lines : List (List α)) :
    longest (line :: lines) = max line.length (longest lines) := rfl

theorem longest_le {k : Nat} {lines : List (List α)} (h : ∀ line ∈ lines, line.length ≤ k) :
    longest lines ≤ k := by
  induction lines with
  | nil => exact Nat.zero_le k
  | cons line lines ih =>
    rw [longest_cons]
    exact max_le (h line List.mem_cons_self) (ih fun l hl => h l (List.mem_cons_of_mem line hl))

/-- The line the loop is on is part of what it gives. -/
theorem length_le_longest_fill (separates : α → Bool) (k : Nat) (line xs : List α) :
    line.length ≤ longest (fill separates k line xs) := by
  induction xs generalizing line with
  | nil => exact Nat.le_max_left _ _
  | cons x xs ih =>
    unfold fill
    split
    · exact Nat.le_max_left _ _
    · split
      · exact Nat.le_max_left _ _
      · refine Nat.le_trans ?_ (ih (line ++ [x]))
        rw [List.length_append]
        exact Nat.le_add_right _ _

example : linesOf (· == 0) 2 [1, 2, 0, 3, 4, 5, 0] = [[1, 2], [3, 4], [5], []] := by decide

end Lib
end EngineKit
