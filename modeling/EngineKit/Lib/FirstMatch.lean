import EngineKit.Lib.SparseSet

/-!
# Updating the first match of a list

`iter_mut().find(p)` followed by a write through the reference: the first element satisfying
`p` is replaced, in its own position, and the answer says whether there was one.
`updateFirst_eq_some_iff` is the whole specification — everything else a caller wants to know
about the update (what it keeps, what it does to a projection of the elements) is read off the
split it names.

`iter().position(p)` followed by `swap_remove` takes the first match out. The order of the rest is
not kept, so its specification (`swapTakeFirst_cases`) is a permutation.
-/

set_option autoImplicit false

namespace EngineKit
namespace Lib

variable {α : Type}

/-- Replaces the first element satisfying `p` by its image under `f`; `none` when no element
    does. -/
def updateFirst (p : α → Bool) (f : α → α) : List α → Option (List α)
  | [] => none
  | x :: xs => if p x then some (f x :: xs) else (updateFirst p f xs).map (x :: ·)

/-- **The specification of `updateFirst`.** A successful update splits the list at the first
    match and touches nothing else. -/
theorem updateFirst_eq_some_iff {p : α → Bool} {f : α → α} {l l' : List α} :
    updateFirst p f l = some l' ↔
      ∃ pre x post, l = pre ++ x :: post ∧ (∀ y ∈ pre, p y = false) ∧ p x = true ∧
        l' = pre ++ f x :: post := by
  induction l generalizing l' with
  | nil => simp [updateFirst]
  | cons x xs ih =>
    unfold updateFirst
    by_cases hx : p x = true
    · rw [if_pos hx]
      constructor
      · intro h
        exact ⟨[], x, xs, rfl, by simp, hx, (Option.some.inj h).symm⟩
      · intro hex
        obtain ⟨pre, y, post, hl, hpre, hy, rfl⟩ := hex
        cases pre with
        | nil =>
          obtain ⟨rfl, rfl⟩ := List.cons.inj hl
          rfl
        | cons z pre =>
          obtain ⟨rfl, -⟩ := List.cons.inj hl
          exact absurd hx (by simp [hpre x List.mem_cons_self])
    · rw [if_neg hx]
      constructor
      · intro h
        obtain ⟨l₁, h₁, rfl⟩ := Option.map_eq_some_iff.mp h
        obtain ⟨pre, y, post, rfl, hpre, hy, rfl⟩ := ih.mp h₁
        refine ⟨x :: pre, y, post, rfl, ?_, hy, rfl⟩
        intro z hz
        rcases List.mem_cons.mp hz with rfl | hz
        · simpa using hx
        · exact hpre z hz
      · intro hex
        obtain ⟨pre, y, post, hl, hpre, hy, rfl⟩ := hex
        cases pre with
        | nil =>
          obtain ⟨rfl, -⟩ := List.cons.inj hl
          exact absurd hy hx
        | cons z pre =>
          obtain ⟨rfl, rfl⟩ := List.cons.inj hl
          have hmem : ∀ w ∈ pre, p w = false := fun w hw => hpre w (List.mem_cons_of_mem _ hw)
          exact Option.map_eq_some_iff.mpr ⟨_, ih.mpr ⟨pre, y, post, rfl, hmem, hy, rfl⟩, rfl⟩

theorem updateFirst_eq_none_iff {p : α → Bool} {f : α → α} {l : List α} :
    updateFirst p f l = none ↔ ∀ x ∈ l, p x = false := by
  induction l with
  | nil => simp [updateFirst]
  | cons x xs ih =>
    unfold updateFirst
    by_cases hx : p x = true
    · simp [hx]
    · simp [hx, ih]

/-! ## Taking it out -/

/-- The first element satisfying `p` and the rest, in which the last one fills its gap. -/
def swapTakeFirst (p : α → Bool) (l : List α) : Option (α × List α) :=
  match l.findIdx? p with
  | none => none
  | some k => l[k]?.map fun x => (x, swapRemove l k)

theorem swapTakeFirst_cases (p : α → Bool) (l : List α) :
    swapTakeFirst p l = none ∧ l.find? p = none ∨
      ∃ x rest, swapTakeFirst p l = some (x, rest) ∧ l.find? p = some x ∧ (x :: rest).Perm l := by
  rw [swapTakeFirst, List.find?_eq_bind_findIdx?_getElem?]
  cases hfind : l.findIdx? p with
  | none => exact .inl ⟨rfl, rfl⟩
  | some k =>
    obtain ⟨hk, -, -⟩ := List.findIdx?_eq_some_iff_getElem.mp hfind
    have hget : l[k]? = some l[k] := List.getElem?_eq_getElem hk
    refine .inr ⟨l[k], swapRemove l k, ?_, ?_, perm_swapRemove hget⟩
    · simp only [hget, Option.map_some]
    · exact hget

end Lib
end EngineKit
