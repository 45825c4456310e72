import Mathlib.Data.List.Basic
import Mathlib.Data.List.Pairwise
import Mathlib.Order.Basic

/-!
# Runs of equal keys

`Cut a keys runs` says that `runs` cuts the list `keys`, whose first element has the index `a`,
into contiguous, non-empty and maximal runs of equal keys. There is one such cut for a list
(`Cut.unique`), and its ranges are the indices of the list, in order (`Cut.indices`). A list is
cut from the left as it grows (`Cut.grow`, `Cut.start`); a list that is sorted has no two runs of
one key (`Cut.nodup_keys`).

Maximality is a condition on the neighbours (`maximal`), and with it the cut is a function of the
list: so whoever builds runs in some other way needs to show no more than that they are a cut. Lists
are cut from the left and grow at the right, which is why growing is an induction over the whole
cut, though it touches the last run only.
-/

set_option autoImplicit false

namespace EngineKit
namespace Lib

variable {K : Type}

structure Run (K : Type) where
  key : K
  first : Nat
  count : Nat

inductive Cut : Nat → List K → List (Run K) → Prop where
  | nil (a : Nat) : Cut a [] []
  | cons {a n : Nat} {k : K} {keys : List K} {runs : List (Run K)} (nonempty : 0 < n)
      (maximal : ∀ r ∈ runs.head?, r.key ≠ k) (rest : Cut (a + n) keys runs) :
      Cut a (List.replicate n k ++ keys) (⟨k, a, n⟩ :: runs)

/-- The first run has the first key. -/
theorem Cut.head_key {a : Nat} {keys : List K} {runs : List (Run K)} (h : Cut a keys runs) :
    keys.head? = runs.head?.map Run.key := by
  cases h with
  | nil => rfl
  | cons nonempty _ _ => rw [List.head?_append_of_ne_nil _ (by simp; omega), List.head?_replicate,
      if_neg (by omega)]; rfl

/-- Two maximal runs at the start of one list are the same. -/
theorem replicate_append_inj {m n : Nat} {k : K} {xs ys : List K}
    (h : List.replicate m k ++ xs = List.replicate n k ++ ys) (hxs : xs.head? ≠ some k)
    (hys : ys.head? ≠ some k) : m = n ∧ xs = ys := by
  -- On the shorter of the two runs.
  induction m generalizing n with
  | zero =>
    cases n with
    | zero => exact ⟨rfl, h⟩
    | succ n =>
      rw [List.replicate_zero, List.nil_append] at h
      rw [h] at hxs
      exact absurd rfl hxs
  | succ m ih =>
    cases n with
    | zero =>
      rw [List.replicate_zero, List.nil_append] at h
      rw [← h] at hys
      exact absurd rfl hys
    | succ n =>
      rw [List.replicate_succ, List.replicate_succ, List.cons_append, List.cons_append] at h
      obtain ⟨rfl, rfl⟩ := ih (List.cons.inj h).2
      exact ⟨rfl, rfl⟩

/-- **A list has one cut.** -/
theorem Cut.unique {a : Nat} {keys : List K} {runs runs' : List (Run K)} (h : Cut a keys runs)
    (h' : Cut a keys runs') : runs = runs' := by
  induction h generalizing runs' with
  | nil a =>
    generalize hkeys : ([] : List K) = keys at h'
    cases h' with
    | nil => rfl
    | cons nonempty _ _ =>
      have := congrArg List.length hkeys
      rw [List.length_append, List.length_replicate, List.length_nil] at this
      omega
  | @cons a n k keys runs nonempty maximal rest ih =>
    generalize hkeys : List.replicate n k ++ keys = all at h'
    cases h' with
    | nil =>
      have := congrArg List.length hkeys
      rw [List.length_append, List.length_replicate, List.length_nil] at this
      omega
    | @cons _ n' k' keys' runs' nonempty' maximal' rest' =>
      obtain ⟨n, rfl⟩ := Nat.exists_eq_succ_of_ne_zero (by omega : n ≠ 0)
      obtain ⟨n', rfl⟩ := Nat.exists_eq_succ_of_ne_zero (by omega : n' ≠ 0)
      obtain rfl : k = k' := by
        rw [List.replicate_succ, List.replicate_succ] at hkeys
        exact (List.cons.inj hkeys).1
      have hnext {keys : List K} {b : Nat} {runs : List (Run K)} (hcut : Cut b keys runs)
          (hmax : ∀ r ∈ runs.head?, r.key ≠ k) : keys.head? ≠ some k := by
        rw [hcut.head_key]
        intro hk
        obtain ⟨r, hr, hrk⟩ := Option.map_eq_some_iff.mp hk
        exact hmax r hr hrk
      obtain ⟨hn, rfl⟩ := replicate_append_inj hkeys (hnext rest maximal) (hnext rest' maximal')
      obtain rfl := Nat.succ.inj hn
      rw [ih rest']

/-- **The ranges of a cut** are the indices of its list, once each and in order. -/
theorem Cut.indices {a : Nat} {keys : List K} {runs : List (Run K)} (h : Cut a keys runs) :
    runs.flatMap (fun r => List.range' r.first r.count) = List.range' a keys.length := by
  induction h with
  | nil => rfl
  | cons _ _ _ ih =>
    rw [List.flatMap_cons, ih, List.length_append, List.length_replicate, List.range'_append_1]

/-- Every index of a run has the run's key. -/
theorem Cut.getElem? {a : Nat} {keys : List K} {runs : List (Run K)} (h : Cut a keys runs)
    {r : Run K} (hr : r ∈ runs) :
    a ≤ r.first ∧ ∀ j < r.count, keys[r.first - a + j]? = some r.key := by
  -- The key is in the first run or in the rest.
  induction h with
  | nil => exact absurd hr List.not_mem_nil
  | @cons a n k keys runs nonempty maximal rest ih =>
    cases List.mem_cons.mp hr with
    | inl hhead =>
      subst hhead
      refine ⟨Nat.le_refl _, ?_⟩
      intro j hj
      rw [Nat.sub_self, Nat.zero_add, List.getElem?_append_left (by simpa using hj),
        List.getElem?_replicate, if_pos hj]
    | inr htail =>
      obtain ⟨hle, hkeys⟩ := ih htail
      refine ⟨by omega, ?_⟩
      intro j hj
      rw [List.getElem?_append_right (by rw [List.length_replicate]; omega), List.length_replicate,
        ← hkeys j hj]
      congr 1
      omega

/-- No run is empty. -/
theorem Cut.pos {a : Nat} {keys : List K} {runs : List (Run K)} (h : Cut a keys runs) {r : Run K}
    (hr : r ∈ runs) : 0 < r.count := by
  induction h with
  | nil => exact absurd hr List.not_mem_nil
  | cons nonempty _ _ ih =>
    cases List.mem_cons.mp hr with
    | inl hhead => exact hhead ▸ nonempty
    | inr htail => exact ih htail

/-- A run has a key of the list. -/
theorem Cut.key_mem {a : Nat} {keys : List K} {runs : List (Run K)} (h : Cut a keys runs)
    {r : Run K} (hr : r ∈ runs) : r.key ∈ keys :=
  List.mem_of_getElem? ((h.getElem? hr).2 0 (h.pos hr))

/-- The last run ends with the list. -/
theorem Cut.last {a : Nat} {keys : List K} {runs : List (Run K)} {r : Run K}
    (h : Cut a keys (runs ++ [r])) : r.first + r.count = a + keys.length := by
  generalize hall : runs ++ [r] = all at h
  induction h generalizing runs with
  | nil => exact absurd hall (by simp)
  | @cons a n k keys tail nonempty maximal rest ih =>
    rw [List.length_append, List.length_replicate]
    cases runs with
    | nil =>
      obtain ⟨rfl, rfl⟩ := List.cons.inj hall
      cases rest with
      | nil => rfl
    | cons _ runs =>
      rw [ih (List.cons.inj hall).2, Nat.add_assoc]

/-- A list that goes on as it ended grows its last run. -/
theorem Cut.grow {a f n : Nat} {k : K} {keys : List K} {runs : List (Run K)}
    (h : Cut a keys (runs ++ [⟨k, f, n⟩])) :
    Cut a (keys ++ [k]) (runs ++ [⟨k, f, n + 1⟩]) := by
  generalize hall : runs ++ [⟨k, f, n⟩] = all at h
  induction h generalizing runs with
  | nil => exact absurd hall (by simp)
  | @cons a m k' keys tail nonempty maximal rest ih =>
    cases runs with
    | nil =>
      obtain ⟨hhead, rfl⟩ := List.cons.inj hall
      obtain ⟨rfl, rfl, rfl⟩ := Run.mk.inj hhead
      cases rest with
      | nil =>
        rw [List.append_nil, ← List.replicate_succ', ← List.append_nil (List.replicate (n + 1) k)]
        exact .cons (Nat.succ_pos n) (fun r hr => absurd hr (by simp)) (.nil _)
    | cons r runs =>
      obtain ⟨rfl, htail⟩ := List.cons.inj hall
      rw [List.append_assoc, List.cons_append]
      refine .cons nonempty ?_ (ih htail)
      -- the run after it is the same, or has grown and kept its key
      cases runs with
      | nil =>
        rw [← htail] at maximal
        intro r hr
        obtain rfl := Option.some.inj hr
        exact maximal ⟨k, f, n⟩ rfl
      | cons r runs =>
        rw [← htail] at maximal
        exact maximal

/-- A list that goes on with another key starts a run. -/
theorem Cut.start {a : Nat} {k : K} {keys : List K} {runs : List (Run K)} (h : Cut a keys runs)
    (hlast : ∀ r ∈ runs.getLast?, r.key ≠ k) :
    Cut a (keys ++ [k]) (runs ++ [⟨k, a + keys.length, 1⟩]) := by
  -- On the cut; the new run stands behind the last.
  induction h with
  | nil a => exact .cons Nat.one_pos (fun r hr => absurd hr (by simp)) (.nil _)
  | @cons a n k' keys runs nonempty maximal rest ih =>
    have hrest : ∀ r ∈ runs.getLast?, r.key ≠ k := by
      intro r hr
      refine hlast r ?_
      rw [List.getLast?_cons, Option.mem_def.mp hr]
      rfl
    rw [List.append_assoc, List.cons_append, List.length_append, List.length_replicate,
      ← Nat.add_assoc]
    refine .cons nonempty ?_ (ih hrest)
    cases runs with
    | nil =>
      intro r hr
      obtain rfl := Option.some.inj hr
      exact (hlast ⟨k', a, n⟩ rfl).symm
    | cons r runs => exact maximal

/-- **A sorted list** has no two runs of one key. -/
theorem Cut.nodup_keys [PartialOrder K] {a : Nat} {keys : List K} {runs : List (Run K)}
    (h : Cut a keys runs) (hsorted : keys.Pairwise (· ≤ ·)) : (runs.map Run.key).Nodup := by
  induction h with
  | nil => exact List.nodup_nil
  | @cons a n k keys runs nonempty maximal rest ih =>
    obtain ⟨-, hkeys, hle⟩ := List.pairwise_append.mp hsorted
    rw [List.map_cons, List.nodup_cons]
    refine ⟨?_, ih hkeys⟩
    intro hmem
    obtain ⟨r, hr, hrk⟩ := List.mem_map.mp hmem
    -- a later run of this key would keep the next key between the two
    cases rest with
    | nil => exact absurd hr List.not_mem_nil
    | @cons _ n' k' keys' runs' nonempty' maximal' rest' =>
      have hne : k' ≠ k := maximal ⟨k', a + n, n'⟩ rfl
      cases List.mem_cons.mp hr with
      | inl hhead => exact hne (by rw [hhead] at hrk; exact hrk)
      | inr htail =>
        refine hne (le_antisymm ?_ ?_)
        · obtain ⟨-, -, hle'⟩ := List.pairwise_append.mp hkeys
          have hk := hle' k' (by simp; omega) r.key (rest'.key_mem htail)
          rwa [hrk] at hk
        · refine hle k (by simp; omega) k' ?_
          simp
          omega

end Lib
end EngineKit
