import Mathlib.Data.List.Basic
import Mathlib.Order.Basic

/-!
# The topmost of a list

Some elements of a list are marked, and each has a rank. The topmost is the marked one of the
highest rank, and among these the last (`Topmost`). With one rank for all it is the last that is
marked. There is at most one (`Top.unique`), whichever way it is found: by a scan that keeps the
best so far (`Top.snoc`), or from the end (`Top.cons`).
-/

set_option autoImplicit false

namespace EngineKit
namespace Lib

variable {K R : Type}

/-- `k` is the topmost of the marked elements. -/
def Topmost [LE R] [LT R] (marked : K → Prop) (rank : K → R) (order : List K) (k : K) : Prop :=
  ∃ front back, order = front ++ k :: back ∧ marked k ∧
    (∀ q ∈ front, marked q → rank q ≤ rank k) ∧ ∀ q ∈ back, marked q → rank q < rank k

/-- The topmost of the marked elements, or none if none is marked. -/
def Top [LE R] [LT R] (marked : K → Prop) (rank : K → R) (order : List K) : Option K → Prop
  | none => ∀ q ∈ order, ¬ marked q
  | some k => Topmost marked rank order k

variable {marked : K → Prop} {rank : K → R} {order : List K} {k : K} {r r' : Option K}

theorem Topmost.mem [LE R] [LT R] (h : Topmost marked rank order k) : k ∈ order := by
  obtain ⟨front, back, rfl, -, -, -⟩ := h
  simp

theorem Topmost.is_marked [LE R] [LT R] (h : Topmost marked rank order k) : marked k := by
  obtain ⟨_, _, -, hk, -, -⟩ := h
  exact hk

theorem Topmost.unique [PartialOrder R] {k' : K} (h : Topmost marked rank order k)
    (h' : Topmost marked rank order k') : k = k' := by
  obtain ⟨front, back, rfl, hk, hfront, hback⟩ := h
  obtain ⟨front', back', heq, hk', hfront', hback'⟩ := h'
  -- of two places, the later is above the earlier and at most as high
  rcases List.append_eq_append_iff.mp heq with ⟨as, rfl, has⟩ | ⟨as, rfl, has⟩
  · cases as with
    | nil => exact (List.cons.inj has).1
    | cons a as =>
      obtain ⟨rfl, rfl⟩ := List.cons.inj has
      exact absurd (hback k' (by simp) hk') (not_lt_of_ge (hfront' k (by simp) hk))
  · cases as with
    | nil => exact (List.cons.inj has).1.symm
    | cons a as =>
      obtain ⟨rfl, rfl⟩ := List.cons.inj has
      exact absurd (hback' k (by simp) hk) (not_lt_of_ge (hfront k' (by simp) hk'))

theorem Top.unique [PartialOrder R] (h : Top marked rank order r) (h' : Top marked rank order r') :
    r = r' := by
  cases r with
  | none =>
    cases r' with
    | none => rfl
    | some k' => exact absurd h'.is_marked (h k' h'.mem)
  | some k =>
    cases r' with
    | none => exact absurd h.is_marked (h' k h.mem)
    | some k' => exact congrArg some (h.unique h')

/-! ## From the left -/

/-- An element more that is not marked. -/
theorem Top.snoc_unmarked [LE R] [LT R] (h : Top marked rank order r) (hk : ¬ marked k) :
    Top marked rank (order ++ [k]) r := by
  cases r with
  | none =>
    intro q hq
    rcases List.mem_append.mp hq with hq | hq
    · exact h q hq
    · exact List.mem_singleton.mp hq ▸ hk
  | some top =>
    obtain ⟨front, back, rfl, htop, hfront, hback⟩ := h
    refine ⟨front, back ++ [k], by simp, htop, hfront, ?_⟩
    intro q hq hm
    rcases List.mem_append.mp hq with hq | hq
    · exact hback q hq hm
    · exact absurd (List.mem_singleton.mp hq ▸ hm) hk

/-- A marked element that is lower than the topmost so far. -/
theorem Topmost.snoc_lower [LE R] [LT R] {top : K} (h : Topmost marked rank order top)
    (hlow : rank k < rank top) : Topmost marked rank (order ++ [k]) top := by
  obtain ⟨front, back, rfl, htop, hfront, hback⟩ := h
  refine ⟨front, back ++ [k], by simp, htop, hfront, ?_⟩
  intro q hq hm
  rcases List.mem_append.mp hq with hq | hq
  · exact hback q hq hm
  · exact List.mem_singleton.mp hq ▸ hlow

/-- A marked element at least as high as the topmost so far. -/
theorem Top.snoc_higher [PartialOrder R] (h : Top marked rank order r) (hk : marked k)
    (hhigh : ∀ top ∈ r, rank top ≤ rank k) : Top marked rank (order ++ [k]) (some k) := by
  refine ⟨order, [], rfl, hk, fun q hq hm => ?_, fun q hq => absurd hq List.not_mem_nil⟩
  cases r with
  | none => exact absurd hm (h q hq)
  | some top =>
    refine le_trans ?_ (hhigh top rfl)
    obtain ⟨front, back, rfl, -, hfront, hback⟩ := h
    rcases List.mem_append.mp hq with hq | hq
    · exact hfront q hq hm
    · rcases List.mem_cons.mp hq with rfl | hq
      · exact le_refl _
      · exact le_of_lt (hback q hq hm)

/-! ## The last -/

/-- The last that is marked stays so with an element more in front. -/
theorem Topmost.cons_last {top : K} (h : Topmost marked (fun _ => (0 : Nat)) order top) :
    Topmost marked (fun _ => (0 : Nat)) (k :: order) top := by
  obtain ⟨front, back, rfl, htop, -, hback⟩ := h
  exact ⟨k :: front, back, rfl, htop, fun _ _ _ => Nat.le_refl _, hback⟩

theorem Topmost.cons_only (hk : marked k) (h : ∀ q ∈ order, ¬ marked q) :
    Topmost marked (fun _ => (0 : Nat)) (k :: order) k :=
  ⟨[], order, rfl, hk, fun _ hq => absurd hq List.not_mem_nil, fun q hq hm => absurd hm (h q hq)⟩

/-- **The last of the groups.** Each key of the list has a group of its own elements, some of them
    picked if and only if the key is marked. The last element picked is of the last key marked. -/
theorem top_of_groups {A : Type} {pick : A → Bool} {key : A → K} {groups : List (List A)}
    (h : List.Forall₂ (fun k group => (∀ a ∈ group, key a = k) ∧
      ((∃ a ∈ group, pick a = true) ↔ marked k)) order groups) :
    Top marked (fun _ => (0 : Nat)) order ((groups.flatten.filter pick).getLast?.map key) := by
  induction h with
  | nil => exact fun q hq => absurd hq List.not_mem_nil
  | @cons k group order groups hgroup _ ih =>
    obtain ⟨hkey, hpick⟩ := hgroup
    rw [List.flatten_cons, List.filter_append, List.getLast?_append]
    cases hrest : (groups.flatten.filter pick).getLast? with
    | some a =>
      rw [hrest] at ih
      exact Topmost.cons_last ih
    | none =>
      rw [hrest] at ih
      rw [Option.none_or]
      cases hlast : (group.filter pick).getLast? with
      | none =>
        intro q hq
        rcases List.mem_cons.mp hq with rfl | hq
        · intro hm
          obtain ⟨a, ha, hpicked⟩ := hpick.mpr hm
          have hnil := List.getLast?_eq_none_iff.mp hlast
          exact absurd (List.mem_filter.mpr ⟨ha, hpicked⟩) (by simp [hnil])
        · exact ih q hq
      | some a =>
        obtain ⟨ha, hpicked⟩ := List.mem_filter.mp (List.mem_of_getLast? hlast)
        have hm : marked k := hpick.mp ⟨a, ha, hpicked⟩
        rw [Option.map_some, hkey a ha]
        exact Topmost.cons_only hm ih

end Lib
end EngineKit
