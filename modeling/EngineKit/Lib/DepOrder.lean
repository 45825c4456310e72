import Mathlib.Data.List.Chain
import Mathlib.Data.List.Nodup
import Mathlib.Logic.Relation

/-!
# Dependencies-first orders

`deps v` lists what `v` depends on. An order is *dependencies first* when everything in it comes
after all it depends on (`DepsFirst`); such an order is built by appending a node whose
dependencies are all there. An order of that kind over every node rules out cycles
(`DepsFirst.acyclic`), and a closed walk along dependencies is one (`ClosedWalk.cyclic`), so a
search that ends with either has decided whether there is a cycle.
-/

set_option autoImplicit false

namespace EngineKit
namespace Lib

variable {α : Type} {deps : α → List α}

/-- `a` depends on `b`. -/
def DependsOn (deps : α → List α) (a b : α) : Prop := b ∈ deps a

/-- Some node depends on itself, directly or through others. -/
def Cyclic (deps : α → List α) : Prop := ∃ v, Relation.TransGen (DependsOn deps) v v

def DepsFirst (deps : α → List α) (order : List α) : Prop :=
  ∀ before v after, order = before ++ v :: after → ∀ d ∈ deps v, d ∈ before

/-! ## Building an order -/

theorem DepsFirst.nil : DepsFirst deps [] := by
  intro before v after h
  exact absurd h (by simp)

theorem DepsFirst.concat {order : List α} (h : DepsFirst deps order) {v : α}
    (hv : ∀ d ∈ deps v, d ∈ order) : DepsFirst deps (order ++ [v]) := by
  intro before w after hsplit d hd
  cases List.eq_nil_or_concat after with
  | inl hnil =>
    subst hnil
    obtain ⟨rfl, hw⟩ := List.append_inj' hsplit rfl
    obtain rfl : v = w := by simpa using hw
    exact hv d hd
  | inr hlast =>
    obtain ⟨rest, x, rfl⟩ := hlast
    have hassoc : before ++ w :: rest.concat x = (before ++ w :: rest) ++ [x] := by simp
    obtain ⟨horder, -⟩ := List.append_inj' (hsplit.trans hassoc) rfl
    exact h before w rest horder d hd

/-! ## Positions -/

section Positions

variable [DecidableEq α] {order : List α}

theorem DepsFirst.idxOf_lt (h : DepsFirst deps order) {v d : α} (hv : v ∈ order)
    (hd : d ∈ deps v) : order.idxOf d < order.idxOf v := by
  obtain ⟨before, after, hsplit, hfresh⟩ := List.eq_append_cons_of_mem hv
  have hmem := h before v after hsplit d hd
  rw [hsplit, List.idxOf_append_of_mem hmem, List.idxOf_append_of_notMem hfresh,
    List.idxOf_cons_self]
  exact Nat.lt_of_lt_of_le (List.idxOf_lt_length_of_mem hmem) (Nat.le_add_right _ _)

/-- What stands before the first `v` is what has a lower position. -/
theorem mem_takeWhile_ne_iff {u v : α} (hv : v ∈ order) :
    u ∈ order.takeWhile (fun w => w != v) ↔ order.idxOf u < order.idxOf v := by
  obtain ⟨before, after, hsplit, hfresh⟩ := List.eq_append_cons_of_mem hv
  have hskip : ∀ w ∈ before, (w != v) = true := by
    intro w hw
    simpa using fun heq : w = v => hfresh (heq ▸ hw)
  have htake : order.takeWhile (fun w => w != v) = before := by
    rw [hsplit, List.takeWhile_append_of_pos hskip, List.takeWhile_cons_of_neg (by simp),
      List.append_nil]
  have hidx : order.idxOf v = before.length := by
    rw [hsplit, List.idxOf_append_of_notMem hfresh, List.idxOf_cons_self, Nat.add_zero]
  rw [htake, hidx]
  constructor
  · intro hu
    rw [hsplit, List.idxOf_append_of_mem hu]
    exact List.idxOf_lt_length_of_mem hu
  · intro hlt
    by_contra hu
    rw [hsplit, List.idxOf_append_of_notMem hu] at hlt
    omega

theorem DepsFirst.acyclic (h : DepsFirst deps order) (hall : ∀ v, v ∈ order) : ¬ Cyclic deps := by
  intro ⟨v, hcycle⟩
  have hlt {a b : α} (hab : Relation.TransGen (DependsOn deps) a b) :
      order.idxOf b < order.idxOf a := by
    induction hab with
    | single hd => exact h.idxOf_lt (hall a) hd
    | tail _ hd ih => exact (h.idxOf_lt (hall _) hd).trans ih
  exact Nat.lt_irrefl _ (hlt hcycle)

end Positions

/-! ## Closed walks -/

/-- A walk along dependencies, of at least one edge, that ends where it starts. -/
structure ClosedWalk (deps : α → List α) (walk : List α) : Prop where
  edges : walk.IsChain (DependsOn deps)
  closed : walk.head? = walk.getLast?
  two_le : 2 ≤ walk.length

theorem transGen_of_isChain {a : α} {walk : List α} (h : (a :: walk).IsChain (DependsOn deps))
    {b : α} (hb : walk.getLast? = some b) : Relation.TransGen (DependsOn deps) a b := by
  induction walk generalizing a with
  | nil => exact absurd hb (by simp)
  | cons c walk ih =>
    obtain ⟨hac, hrest⟩ := List.isChain_cons_cons.mp h
    cases walk with
    | nil =>
      obtain rfl : c = b := by simpa using hb
      exact .single hac
    | cons d walk => exact .head hac (ih hrest (by simpa using hb))

theorem ClosedWalk.cyclic {walk : List α} (h : ClosedWalk deps walk) : Cyclic deps := by
  obtain ⟨hedges, hclosed, hlen⟩ := h
  cases walk with
  | nil => exact absurd hlen (by simp)
  | cons a walk =>
    cases walk with
    | nil => exact absurd hlen (by simp)
    | cons b walk =>
      refine ⟨a, transGen_of_isChain hedges ?_⟩
      rw [List.getLast?_cons_cons] at hclosed
      exact hclosed.symm

end Lib
end EngineKit
