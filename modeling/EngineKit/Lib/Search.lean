import Mathlib.Data.Set.Card

/-!
# Counting by search

A search goes from a node to its children until it reaches one that is a solution: `children` has
none for a solution, and the nodes to look at for any other. `count` visits the tree depth first and
adds up what it finds in numbers that saturate at `top`, and it turns back from a node as soon as it
has counted `limit` solutions below it.

Such a count says nothing beyond the limit, and everything below it (`count_agrees`): it agrees with
the number of solutions as far as `limit`, whatever those below a child were counted as.
-/

set_option autoImplicit false

namespace EngineKit
namespace Lib

/-- The same number, as far as `limit`. -/
def Agrees (limit n m : Nat) : Prop := min n limit = min m limit

namespace Agrees

variable {limit n m : Nat}

theorem eq_iff (h : Agrees limit n m) {k : Nat} (hk : k < limit) : n = k ↔ m = k := by
  rw [Agrees] at h
  omega

/-- One more saturating addition. -/
theorem add {found found' top : Nat} (h : Agrees limit n m) (hfound : Agrees limit found found')
    (htop : limit ≤ top) : Agrees limit (min (found + n) top) (found' + m) := by
  rw [Agrees] at h hfound ⊢
  omega

/-- Once the limit is reached, it stays so. -/
theorem of_le {k : Nat} (h : Agrees limit n m) (hlimit : limit ≤ n) : Agrees limit n (m + k) := by
  rw [Agrees] at h ⊢
  omega

end Agrees

namespace Search

variable {σ : Type}

/-- The children in turn, each counted by `below`. -/
def countEach (below : σ → Nat) (top limit : Nat) : List σ → Nat → Nat
  | [], count => count
  | c :: cs, count =>
    let count := min (count + below c) top
    if limit ≤ count then count else countEach below top limit cs count

/-- The tree down to a depth. -/
def count (children : σ → Option (List σ)) (top limit : Nat) (depth : Nat) (s : σ) : Nat :=
  match children s with
  | none => 1
  | some cs =>
    match depth with
    | 0 => 0
    | depth + 1 => countEach (count children top limit depth) top limit cs 0

/-- What there is to be found. -/
def solutions (children : σ → Option (List σ)) (depth : Nat) (s : σ) : List σ :=
  match children s with
  | none => [s]
  | some cs =>
    match depth with
    | 0 => []
    | depth + 1 => cs.flatMap (solutions children depth)

theorem countEach_agrees {below below' : σ → Nat} {top limit : Nat} (htop : limit ≤ top)
    {cs : List σ} (h : ∀ c ∈ cs, Agrees limit (below c) (below' c)) {found found' : Nat}
    (hfound : Agrees limit found found') :
    Agrees limit (countEach below top limit cs found) (found' + (cs.map below').sum) := by
  induction cs generalizing found found' with
  | nil => exact hfound
  | cons c cs ih =>
    obtain ⟨hc, hcs⟩ := List.forall_mem_cons.mp h
    have hnext := hc.add hfound htop
    rw [countEach, List.map_cons, List.sum_cons, ← Nat.add_assoc]
    by_cases hlimit : limit ≤ min (found + below c) top
    · rw [if_pos hlimit]
      exact hnext.of_le hlimit
    · rw [if_neg hlimit]
      exact ih hcs hnext

/-- **The count agrees with what there is.** -/
theorem count_agrees (children : σ → Option (List σ)) {top limit : Nat} (htop : limit ≤ top)
    (depth : Nat) (s : σ) :
    Agrees limit (count children top limit depth s) (solutions children depth s).length := by
  induction depth generalizing s with
  | zero =>
    rw [count, solutions]
    cases children s <;> rfl
  | succ depth ih =>
    rw [count, solutions]
    cases children s with
    | none => rfl
    | some cs =>
      have hbelow : ∀ c ∈ cs, Agrees limit (count children top limit depth c)
          (solutions children depth c).length := fun c _ => ih c
      have hall := countEach_agrees htop hbelow (rfl : Agrees limit 0 0)
      rw [Nat.zero_add] at hall
      simpa only [List.length_flatMap] using hall

/-- What the solutions below a node are, by the children of the node. `rank` is a bound for the
    depth of the tree. -/
structure Tree (children : σ → Option (List σ)) (Sol : σ → σ → Prop) (rank : σ → Nat) : Prop where
  leaf : ∀ s t, children s = none → (Sol s t ↔ t = s)
  node : ∀ s t cs, children s = some cs → (Sol s t ↔ ∃ c ∈ cs, Sol c t)
  rank : ∀ s cs, children s = some cs → ∀ c ∈ cs, rank c < rank s
  apart : ∀ s cs, children s = some cs → cs.Pairwise fun c c' => ∀ t, Sol c t → ¬ Sol c' t

variable {children : σ → Option (List σ)} {Sol : σ → σ → Prop} {rank : σ → Nat}

theorem Tree.mem_solutions (h : Tree children Sol rank) {depth : Nat} {s : σ}
    (hdepth : rank s ≤ depth) (t : σ) : t ∈ solutions children depth s ↔ Sol s t := by
  induction depth generalizing s with
  | zero =>
    rw [solutions]
    cases hs : children s with
    | none =>
      rw [h.leaf s t hs]
      exact List.mem_singleton
    | some cs =>
      -- a node that has a child has a rank above it
      rw [h.node s t cs hs]
      have hnone : ∀ c ∈ cs, False := fun c hc => by
        have hlt := h.rank s cs hs c hc
        omega
      simp only [List.not_mem_nil, false_iff]
      intro hfound
      obtain ⟨c, hc, -⟩ := hfound
      exact hnone c hc
  | succ depth ih =>
    rw [solutions]
    cases hs : children s with
    | none =>
      rw [h.leaf s t hs]
      exact List.mem_singleton
    | some cs =>
      rw [h.node s t cs hs]
      simp only [List.mem_flatMap]
      have hbelow : ∀ c ∈ cs, (t ∈ solutions children depth c ↔ Sol c t) := fun c hc => by
        have hlt := h.rank s cs hs c hc
        exact ih (by omega)
      constructor
      · intro hfound
        obtain ⟨c, hc, ht⟩ := hfound
        exact ⟨c, hc, (hbelow c hc).mp ht⟩
      · intro hfound
        obtain ⟨c, hc, ht⟩ := hfound
        exact ⟨c, hc, (hbelow c hc).mpr ht⟩

theorem Tree.nodup_solutions (h : Tree children Sol rank) {depth : Nat} {s : σ}
    (hdepth : rank s ≤ depth) : (solutions children depth s).Nodup := by
  induction depth generalizing s with
  | zero =>
    rw [solutions]
    cases children s <;> simp
  | succ depth ih =>
    rw [solutions]
    cases hs : children s with
    | none => simp
    | some cs =>
      have hrank : ∀ c ∈ cs, rank c ≤ depth := fun c hc => by
        have hlt := h.rank s cs hs c hc
        omega
      rw [List.nodup_flatMap]
      refine ⟨fun c hc => ih (hrank c hc), ?_⟩
      refine (h.apart s cs hs).imp_of_mem ?_
      intro c c' hc hc' hapart t ht ht'
      exact hapart t ((h.mem_solutions (hrank c hc) t).mp ht)
        ((h.mem_solutions (hrank c' hc') t).mp ht')

/-- **The number of solutions, as far as the limit.** -/
theorem Tree.count_spec (h : Tree children Sol rank) {top limit depth : Nat} (htop : limit ≤ top)
    {s : σ} (hdepth : rank s ≤ depth) :
    Agrees limit (count children top limit depth s) {t | Sol s t}.ncard := by
  classical
  have hset : {t | Sol s t} = ↑(solutions children depth s).toFinset := by
    ext t
    simp [h.mem_solutions hdepth]
  rw [hset, Set.ncard_coe_finset, List.toFinset_card_of_nodup (h.nodup_solutions hdepth)]
  exact count_agrees children htop depth s

end Search

end Lib
end EngineKit
