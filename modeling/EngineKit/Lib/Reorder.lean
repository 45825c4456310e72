import Mathlib.Data.List.Nodup
import Mathlib.Data.List.Perm.Basic

/-!
# Reordering steps that commute

Two lists of the same steps lead to the same state when they disagree only about the order of
steps that commute (`foldl_eq_of_order`). "`u` before `v` in `xs`" is `[u, v].Sublist xs`; in a
list without repetitions it says what it seems to, and it passes to the parts of a list.
-/

set_option autoImplicit false

namespace EngineKit
namespace Lib

variable {α σ : Type} {step : α → σ → σ}

/-- The order of the two steps does not matter, wherever they are taken. -/
def Commutes (step : α → σ → σ) (u v : α) : Prop := ∀ s, step u (step v s) = step v (step u s)

/-- Taking the steps of a list one after the other. -/
def runSteps (step : α → σ → σ) (xs : List α) (s : σ) : σ := xs.foldl (fun s v => step v s) s

theorem runSteps_append (step : α → σ → σ) (xs ys : List α) (s : σ) :
    runSteps step (xs ++ ys) s = runSteps step ys (runSteps step xs s) := List.foldl_append

/-- A step that commutes with all of a list may be taken before it. -/
theorem runSteps_commutes {xs : List α} {v : α} (h : ∀ u ∈ xs, Commutes step u v) (s : σ) :
    step v (runSteps step xs s) = runSteps step xs (step v s) := by
  induction xs generalizing s with
  | nil => rfl
  | cons u xs ih =>
    obtain ⟨hu, hrest⟩ := List.forall_mem_cons.mp h
    show step v (runSteps step xs (step u s)) = runSteps step xs (step u (step v s))
    rw [ih hrest, hu s]

theorem pair_sublist_append {before after : List α} {u v : α} (hu : u ∈ before) :
    [u, v].Sublist (before ++ v :: after) :=
  (List.singleton_sublist.mpr hu).append (List.singleton_sublist.mpr List.mem_cons_self)

theorem pair_sublist_of_idxOf_lt [DecidableEq α] {xs : List α} {u v : α} (hv : v ∈ xs)
    (h : xs.idxOf u < xs.idxOf v) : [u, v].Sublist xs := by
  obtain ⟨before, after, hsplit, hfresh⟩ := List.eq_append_cons_of_mem hv
  rw [hsplit]
  refine pair_sublist_append ?_
  by_contra hu
  rw [hsplit, List.idxOf_append_of_notMem hu, List.idxOf_append_of_notMem hfresh,
    List.idxOf_cons_self] at h
  omega

/-- Of two elements of a flattened list, the earlier is in the same part or an earlier one. -/
theorem parts_of_pair_sublist {xss : List (List α)} {u v : α} (h : [u, v].Sublist xss.flatten) :
    ∃ i j : Nat, i ≤ j ∧ (∃ xs, xss[i]? = some xs ∧ u ∈ xs) ∧ ∃ xs, xss[j]? = some xs ∧ v ∈ xs := by
  induction xss with
  | nil => exact absurd (h.subset List.mem_cons_self) (by simp)
  | cons xs xss ih =>
    obtain ⟨front, back, hsplit, hfront, hback⟩ := List.sublist_append_iff.mp h
    match front, hsplit with
    | [], hsplit =>
      rw [List.nil_append] at hsplit
      obtain ⟨i, j, hij, hu, hv⟩ := ih (hsplit ▸ hback)
      exact ⟨i + 1, j + 1, Nat.succ_le_succ hij, hu, hv⟩
    | [w], hsplit =>
      obtain ⟨rfl, rfl⟩ : u = w ∧ [v] = back := by simpa using hsplit
      obtain ⟨ys, hys, hv⟩ := List.mem_flatten.mp (List.singleton_sublist.mp hback)
      obtain ⟨j, hj⟩ := List.mem_iff_getElem?.mp hys
      exact ⟨0, j + 1, Nat.zero_le _, ⟨xs, rfl, List.singleton_sublist.mp hfront⟩, ys, hj, hv⟩
    | w :: x :: front, hsplit =>
      obtain ⟨rfl, rfl, -⟩ : u = w ∧ v = x ∧ [] = front ++ back := by simpa using hsplit
      exact ⟨0, 0, Nat.le_refl _, ⟨xs, rfl, hfront.subset (by simp)⟩, xs, rfl,
        hfront.subset (by simp)⟩

/-- **Reordering.** Where one list has `u` before `v`, the other has too or the two commute: then
    both lists lead to the same state. -/
theorem runSteps_eq_of_order {xs ys : List α} (hperm : ys.Perm xs) (hnd : xs.Nodup)
    (h : ∀ u v, [u, v].Sublist ys → Commutes step u v ∨ [u, v].Sublist xs) (s : σ) :
    runSteps step ys s = runSteps step xs s := by
  induction xs generalizing ys s with
  | nil => rw [hperm.eq_nil]
  | cons v xs ih =>
    obtain ⟨hv, hxs⟩ := List.nodup_cons.mp hnd
    obtain ⟨before, after, rfl⟩ := List.append_of_mem (hperm.mem_iff.mpr List.mem_cons_self)
    have hrest : (before ++ after).Perm xs := (List.perm_middle.symm.trans hperm).cons_inv
    -- what `ys` has before `v` is behind it in `v :: xs`, so it commutes with `v`
    have hcommutes : ∀ u ∈ before, Commutes step u v := by
      intro u hu
      cases h u v (pair_sublist_append hu) with
      | inl hcomm => exact hcomm
      | inr hsub =>
        cases hsub with
        | cons _ hsub => exact absurd (hsub.subset (by simp)) hv
        | cons_cons _ hsub => exact absurd (List.singleton_sublist.mp hsub) hv
    have horder : ∀ u w, [u, w].Sublist (before ++ after) →
        Commutes step u w ∨ [u, w].Sublist xs := by
      intro u w hsub
      have hys : [u, w].Sublist (before ++ v :: after) :=
        hsub.trans ((List.Sublist.refl before).append (List.sublist_cons_self v after))
      refine (h u w hys).imp_right ?_
      intro hcons
      cases hcons with
      | cons _ hsub => exact hsub
      | cons_cons _ _ => exact absurd (hrest.mem_iff.mp (hsub.subset (by simp))) hv
    show runSteps step (before ++ v :: after) s = runSteps step xs (step v s)
    rw [← ih hrest hxs horder, runSteps_append, runSteps_append]
    show runSteps step after (step v (runSteps step before s)) = _
    rw [runSteps_commutes hcommutes]

end Lib
end EngineKit
