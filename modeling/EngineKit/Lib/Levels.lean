import EngineKit.Lib.DepOrder

/-!
# Levels

`prec v` lists what has to come strictly before `v`. The least levels that respect it put `v` one
above the highest of them, or at zero (`IsLevels`). Walking an order that has everything after
what precedes it computes them in one pass (`isLevels_levelsAlong`): when `v`'s turn comes, the
levels it reads are final.

Three facts make levels useful as stages. What precedes `v` is on a lower level (`IsLevels.lt`),
any other assignment with that property is nowhere lower (`IsLevels.le`), and below an occupied
level every level is occupied (`IsLevels.occupied`). `byLevel` is the table of stages itself.
-/

set_option autoImplicit false

namespace EngineKit
namespace Lib

variable {α : Type}

/-- The least number above the levels of all of `us`. -/
def nextLevel (level : α → Nat) (us : List α) : Nat :=
  us.foldr (fun u next => max (level u + 1) next) 0

theorem nextLevel_le_iff {level : α → Nat} {us : List α} {m : Nat} :
    nextLevel level us ≤ m ↔ ∀ u ∈ us, level u < m := by
  induction us with
  | nil => simp [nextLevel]
  | cons u us ih =>
    show max (level u + 1) (nextLevel level us) ≤ m ↔ _
    rw [Nat.max_le, ih, List.forall_mem_cons]
    exact Iff.rfl

/-- Some level is reached, unless there is nothing to be above. -/
theorem nextLevel_cases (level : α → Nat) (us : List α) :
    nextLevel level us = 0 ∨ ∃ u ∈ us, nextLevel level us = level u + 1 := by
  induction us with
  | nil => exact .inl rfl
  | cons u us ih =>
    have hcons : nextLevel level (u :: us) = max (level u + 1) (nextLevel level us) := rfl
    by_cases hle : nextLevel level us ≤ level u + 1
    · exact .inr ⟨u, List.mem_cons_self, by rw [hcons]; omega⟩
    · cases ih with
      | inl hzero => omega
      | inr hreached =>
        obtain ⟨w, hw, heq⟩ := hreached
        exact .inr ⟨w, List.mem_cons_of_mem u hw, by rw [hcons]; omega⟩

theorem nextLevel_congr {level level' : α → Nat} {us : List α}
    (h : ∀ u ∈ us, level u = level' u) : nextLevel level us = nextLevel level' us := by
  induction us with
  | nil => rfl
  | cons u us ih =>
    show max (level u + 1) (nextLevel level us) = max (level' u + 1) (nextLevel level' us)
    rw [h u List.mem_cons_self, ih fun w hw => h w (List.mem_cons_of_mem u hw)]

theorem nextLevel_append (level : α → Nat) (us ws : List α) :
    nextLevel level (us ++ ws) = max (nextLevel level us) (nextLevel level ws) := by
  refine Nat.le_antisymm (nextLevel_le_iff.mpr ?_) (Nat.max_le.mpr ⟨?_, ?_⟩)
  · intro u hu
    cases List.mem_append.mp hu with
    | inl hu => exact (nextLevel_le_iff.mp (Nat.le_refl _) u hu).trans_le (Nat.le_max_left _ _)
    | inr hu => exact (nextLevel_le_iff.mp (Nat.le_refl _) u hu).trans_le (Nat.le_max_right _ _)
  · exact nextLevel_le_iff.mpr fun u hu =>
      nextLevel_le_iff.mp (Nat.le_refl _) u (List.mem_append_left ws hu)
  · exact nextLevel_le_iff.mpr fun u hu =>
      nextLevel_le_iff.mp (Nat.le_refl _) u (List.mem_append_right us hu)

/-- The maximum of a list of successors, with zero for none. -/
theorem max?_getD_succ (level : α → Nat) (us : List α) :
    ((us.map fun u => level u + 1).max?).getD 0 = nextLevel level us := by
  induction us with
  | nil => rfl
  | cons u us ih =>
    show _ = max (level u + 1) (nextLevel level us)
    rw [List.map_cons, List.max?_cons, Option.getD_some, ← ih]
    cases (us.map fun u => level u + 1).max? with
    | none => exact (Nat.max_zero _).symm
    | some highest => rfl

/-- The successor of a maximum, with zero for none. -/
theorem max?_elim_succ (level : α → Nat) (us : List α) :
    (us.map level).max?.elim 0 (fun highest => highest + 1) = nextLevel level us := by
  induction us with
  | nil => rfl
  | cons u us ih =>
    show _ = max (level u + 1) (nextLevel level us)
    rw [List.map_cons, List.max?_cons, Option.elim_some, ← ih]
    cases (us.map level).max? with
    | none => exact (Nat.max_zero _).symm
    | some highest => exact (Nat.add_max_add_right _ _ _).symm

/-- Raising a level past each element of a list that meets a test. -/
theorem foldl_max_filter (level : α → Nat) (test : α → Bool) (us : List α) (start : Nat) :
    us.foldl (fun next u => if test u then max next (level u + 1) else next) start
      = max start (nextLevel level (us.filter test)) := by
  induction us generalizing start with
  | nil => exact (Nat.max_zero start).symm
  | cons u us ih =>
    rw [List.foldl_cons, ih]
    cases htest : test u with
    | false => simp [htest]
    | true =>
      rw [List.filter_cons_of_pos htest, if_pos rfl, Nat.max_assoc]
      rfl

/-! ## The least levels -/

def IsLevels (prec : α → List α) (level : α → Nat) : Prop := ∀ v, level v = nextLevel level (prec v)

section IsLevels

variable {prec : α → List α} {level : α → Nat}

theorem IsLevels.lt (h : IsLevels prec level) {u v : α} (hu : u ∈ prec v) :
    level u < level v := by
  rw [h v]
  exact nextLevel_le_iff.mp (Nat.le_refl _) u hu

/-- The levels are pointwise least. -/
theorem IsLevels.le (h : IsLevels prec level) {f : α → Nat}
    (hf : ∀ v, ∀ u ∈ prec v, f u < f v) (v : α) : level v ≤ f v := by
  -- what precedes `v` is lower under `f`, so the induction is on `f v`
  induction hm : f v using Nat.strongRecOn generalizing v with
  | ind m ih =>
    rw [h v, nextLevel_le_iff]
    intro u hu
    have hlt : f u < m := hm ▸ hf v u hu
    exact Nat.lt_of_le_of_lt (ih (f u) hlt u rfl) hlt

theorem IsLevels.occupied (h : IsLevels prec level) {k : Nat} {v : α} (hk : k ≤ level v) :
    ∃ u, level u = k := by
  induction hm : level v using Nat.strongRecOn generalizing v with
  | ind m ih =>
    by_cases heq : k = m
    · exact ⟨v, by rw [hm, heq]⟩
    · cases nextLevel_cases level (prec v) with
      | inl hzero =>
        rw [← h v] at hzero
        omega
      | inr hreached =>
        obtain ⟨u, -, hu⟩ := hreached
        rw [← h v] at hu
        exact ih (level u) (by omega) (by omega) rfl

end IsLevels

/-! ## One pass along an order -/

section Along

variable [DecidableEq α]

/-- Each node's level in turn, from the levels so far. -/
def levelsAlong (next : (α → Nat) → α → Nat) (order : List α) (level : α → Nat) : α → Nat :=
  order.foldl (fun level v => Function.update level v (next level v)) level

theorem levelsAlong_of_notMem {next : (α → Nat) → α → Nat} {order : List α} {level : α → Nat}
    {v : α} (hv : v ∉ order) : levelsAlong next order level v = level v := by
  induction order generalizing level with
  | nil => rfl
  | cons w order ih =>
    have hne : v ≠ w := List.ne_of_not_mem_cons hv
    rw [levelsAlong, List.foldl_cons, ← levelsAlong, ih (List.not_mem_of_not_mem_cons hv),
      Function.update_of_ne hne]

theorem isLevels_levelsAlong {next : (α → Nat) → α → Nat} {prec : α → List α} {order : List α}
    (hnext : ∀ level v, next level v = nextLevel level (prec v)) (hfirst : DepsFirst prec order)
    (hnd : order.Nodup) (hall : ∀ v, v ∈ order) (level : α → Nat) :
    IsLevels prec (levelsAlong next order level) := by
  intro v
  obtain ⟨before, after, hsplit, -⟩ := List.eq_append_cons_of_mem (hall v)
  have hrun (u : α) (hu : u ∉ after) : levelsAlong next order level u
      = Function.update (levelsAlong next before level) v
          (next (levelsAlong next before level) v) u := by
    rw [hsplit, levelsAlong, List.foldl_append, List.foldl_cons, ← levelsAlong, ← levelsAlong,
      levelsAlong_of_notMem hu]
  rw [hsplit, List.nodup_append] at hnd
  obtain ⟨hbefore, hcons, hdisjoint⟩ := hnd
  obtain ⟨hv, -⟩ := List.nodup_cons.mp hcons
  rw [hrun v hv, Function.update_self, hnext]
  refine nextLevel_congr ?_
  intro u hu
  -- what precedes `v` has had its turn, and gets no other
  have hmem := hfirst before v after hsplit u hu
  have hne : u ≠ v := hdisjoint u hmem v List.mem_cons_self
  rw [hrun u fun hafter => hdisjoint u hmem u (List.mem_cons_of_mem v hafter) rfl,
    Function.update_of_ne hne]

end Along

/-! ## Stages -/

/-- The order cut into stages, one for each level below `count`. -/
def byLevel (count : Nat) (level : α → Nat) (order : List α) : List (List α) :=
  order.foldl (fun stages v => stages.modify (level v) fun stage => stage ++ [v])
    (List.replicate count [])

theorem getElem?_byLevel (count : Nat) (level : α → Nat) (order : List α) (k : Nat) :
    (byLevel count level order)[k]?
      = if k < count then some (order.filter fun v => level v == k) else none := by
  unfold byLevel
  induction order using List.reverseRecOn with
  | nil => rw [List.foldl_nil, List.getElem?_replicate, List.filter_nil]
  | append_singleton order v ih =>
    rw [List.foldl_concat, List.getElem?_modify, ih, List.filter_append]
    by_cases hk : k < count
    · by_cases hv : level v = k
      · simp [hk, hv]
      · simp [hk, hv]
    · simp [hk]

theorem length_byLevel (count : Nat) (level : α → Nat) (order : List α) :
    (byLevel count level order).length = count := by
  unfold byLevel
  induction order using List.reverseRecOn with
  | nil => exact List.length_replicate
  | append_singleton order v ih => rw [List.foldl_concat, List.length_modify, ih]

theorem flatten_modify_perm {stages : List (List α)} {k : Nat} (hk : k < stages.length) (v : α) :
    (stages.modify k fun stage => stage ++ [v]).flatten.Perm (stages.flatten ++ [v]) := by
  induction stages generalizing k with
  | nil => exact absurd hk (by simp)
  | cons stage stages ih =>
    cases k with
    | zero =>
      rw [List.modify_zero_cons, List.flatten_cons, List.flatten_cons, List.append_assoc,
        List.append_assoc]
      exact List.perm_append_comm.append_left stage
    | succ k =>
      rw [List.modify_succ_cons, List.flatten_cons, List.flatten_cons, List.append_assoc]
      exact (ih (Nat.lt_of_succ_lt_succ hk)).append_left stage

/-- The stages hold what the order holds, as long as no level is past the last stage. -/
theorem flatten_byLevel_perm {count : Nat} {level : α → Nat} {order : List α}
    (h : ∀ v ∈ order, level v < count) : (byLevel count level order).flatten.Perm order := by
  induction order using List.reverseRecOn with
  | nil => simp [byLevel]
  | append_singleton order v ih =>
    obtain ⟨horder, hv⟩ := List.forall_mem_append.mp h
    have hk : level v < (byLevel count level order).length := by
      rw [length_byLevel]
      exact hv v (List.mem_singleton_self v)
    rw [byLevel, List.foldl_concat, ← byLevel]
    exact (flatten_modify_perm hk v).trans ((ih horder).append_right [v])

end Lib
end EngineKit
