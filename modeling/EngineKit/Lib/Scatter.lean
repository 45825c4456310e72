import Mathlib.Data.List.Nodup
import Mathlib.Data.List.Perm.Subperm
import Mathlib.Data.List.Range

/-!
# Writes to places

A list of writes `(place, value)`, done in order on a list of values. Where the places are those of
the list, each of them once, nothing of what was there before is left and nothing that was written
is lost: the outcome is a rearrangement of the values written (`scatter_perm`).
-/

set_option autoImplicit false

namespace EngineKit
namespace Lib

variable {α : Type}

def scatter (xs : List α) (ws : List (Nat × α)) : List α :=
  ws.foldl (fun xs w => xs.set w.1 w.2) xs

@[simp]
theorem length_scatter (xs : List α) (ws : List (Nat × α)) :
    (scatter xs ws).length = xs.length := by
  induction ws generalizing xs with
  | nil => rfl
  | cons w ws ih => exact (ih (xs.set w.1 w.2)).trans List.length_set

theorem scatter_cons (xs : List α) (w : Nat × α) (ws : List (Nat × α)) :
    scatter xs (w :: ws) = scatter (xs.set w.1 w.2) ws := rfl

/-- A place that is not written. -/
theorem getElem?_scatter_of_notMem {xs : List α} {ws : List (Nat × α)} {i : Nat}
    (h : i ∉ ws.map Prod.fst) : (scatter xs ws)[i]? = xs[i]? := by
  induction ws generalizing xs with
  | nil => rfl
  | cons w ws ih =>
    rw [List.map_cons, List.mem_cons, not_or] at h
    rw [scatter_cons, ih h.2, List.getElem?_set_ne (Ne.symm h.1)]

/-- A place that is written once. -/
theorem getElem?_scatter_of_mem {xs : List α} {ws : List (Nat × α)} {w : Nat × α}
    (hnodup : (ws.map Prod.fst).Nodup) (hw : w ∈ ws) (hlt : w.1 < xs.length) :
    (scatter xs ws)[w.1]? = some w.2 := by
  induction ws generalizing xs with
  | nil => exact absurd hw List.not_mem_nil
  | cons v ws ih =>
    rw [List.map_cons, List.nodup_cons] at hnodup
    rw [scatter_cons]
    obtain rfl | hw := List.mem_cons.mp hw
    · rw [getElem?_scatter_of_notMem hnodup.1, List.getElem?_set_self hlt]
    · exact ih hnodup.2 hw (by rwa [List.length_set])

/-- **Every place written once.** -/
theorem scatter_perm {xs : List α} {ws : List (Nat × α)}
    (hplaces : (ws.map Prod.fst).Perm (List.range xs.length)) :
    (scatter xs ws).Perm (ws.map Prod.snd) := by
  have hnodup : (ws.map Prod.fst).Nodup := hplaces.nodup_iff.mpr List.nodup_range
  have hlt : ∀ w ∈ ws, w.1 < xs.length := by
    intro w hw
    exact List.mem_range.mp (hplaces.mem_iff.mp (List.mem_map_of_mem hw))
  -- as reads of the places, in the order they were written and in their own
  have hreads : (ws.map Prod.snd).map some = (ws.map Prod.fst).map ((scatter xs ws)[·]?) := by
    rw [List.map_map, List.map_map]
    apply List.map_congr_left
    intro w hw
    exact (getElem?_scatter_of_mem hnodup hw (hlt w hw)).symm
  have hall : (scatter xs ws).map some = (List.range xs.length).map ((scatter xs ws)[·]?) := by
    apply List.ext_getElem
    · simp
    · intro i hi _
      have hin : i < (scatter xs ws).length := by simpa using hi
      simp [List.getElem?_eq_getElem hin]
  have hperm : ((scatter xs ws).map some).Perm ((ws.map Prod.snd).map some) := by
    rw [hall, hreads]
    exact (hplaces.map _).symm
  exact (List.map_perm_map_iff fun _ _ => Option.some.inj).mp hperm

end Lib
end EngineKit
