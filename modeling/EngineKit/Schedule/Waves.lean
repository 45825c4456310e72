import EngineKit.Lib.Levels
import EngineKit.Schedule.Toposort

/-!
# Waves

A plan cuts the topological order into waves. A system's wave is one past the latest wave of what
it depends on and of the earlier systems its declared accesses conflict with, so the systems of
one wave may run in any order.

Both constraints say which systems come strictly before which (`mustPrecede`), and the one pass
of `access_waves` computes the least levels for that (`isLevels_accessLevels`). What
`SchedulePlan.build_spec` says of the waves are the general facts about least levels.

`mustPrecede` puts the two constraints in one list, and after that the pass is the general one over
levels: it has no clause about conflicts. The order matters to it twice. A conflict has no direction
of its own and takes the one of the order; and the order has dependencies first, so that the levels
a system looks at are final when it does.
-/

set_option autoImplicit false

namespace EngineKit
namespace Schedule

open Lib

structure SystemAccess where
  reads : List String
  writes : List String
  exclusive : Bool
deriving DecidableEq

def SystemAccess.conflicts (self other : SystemAccess) : Bool :=
  if self.exclusive || other.exclusive then true
  else
    (self.writes.any fun key => other.reads.contains key || other.writes.contains key) ||
      other.writes.any fun key => self.reads.contains key

/-- One writes what the other reads or writes, or one wants to be alone. -/
theorem SystemAccess.conflicts_iff (self other : SystemAccess) :
    self.conflicts other = true ↔ self.exclusive = true ∨ other.exclusive = true ∨
      ∃ key, key ∈ self.writes ∧ (key ∈ other.reads ∨ key ∈ other.writes) ∨
        key ∈ other.writes ∧ key ∈ self.reads := by
  unfold conflicts
  cases self.exclusive with
  | true => simp
  | false =>
    cases other.exclusive with
    | true => simp
    | false => simp [exists_or]

/-- A conflict has no direction. -/
theorem SystemAccess.conflicts_comm (self other : SystemAccess) :
    self.conflicts other = other.conflicts self := by
  rw [Bool.eq_iff_iff, conflicts_iff, conflicts_iff]
  grind

variable {n : Nat}

/-- The level of `node` from the levels so far. The additions saturate in the source; a level
    never exceeds the number of nodes. -/
def accessLevel (deps : Fin n → List (Fin n)) (accesses : Fin n → SystemAccess)
    (order : List (Fin n)) (level : Fin n → Nat) (node : Fin n) : Nat :=
  (order.takeWhile fun candidate => candidate != node).foldl
    (fun nodeLevel prior =>
      if (accesses node).conflicts (accesses prior) then max nodeLevel (level prior + 1)
      else nodeLevel)
    (((deps node).map fun dependency => level dependency + 1).max?.getD 0)

/-- The levels once every node of the order has had its turn. -/
def accessLevels (deps : Fin n → List (Fin n)) (accesses : Fin n → SystemAccess)
    (order : List (Fin n)) : Fin n → Nat :=
  levelsAlong (accessLevel deps accesses order) order fun _ => 0

/-- One past the highest level there is. -/
def waveCount (level : Fin n → Nat) : Nat :=
  ((List.finRange n).map level).max?.elim 0 fun highest => highest + 1

def accessWaves (order : List (Fin n)) (deps : Fin n → List (Fin n))
    (accesses : Fin n → SystemAccess) : List (List (Fin n)) :=
  let level := accessLevels deps accesses order
  byLevel (waveCount level) level order

structure SchedulePlan (n : Nat) where
  order : List (Fin n)
  waves : List (List (Fin n))

def SchedulePlan.build (deps : Fin n → List (Fin n)) (names : Fin n → String)
    (accesses : Fin n → SystemAccess) : Option (Except KernelError (SchedulePlan n)) :=
  (toposort deps names).map fun result =>
    result.map fun order => ⟨order, accessWaves order deps accesses⟩

/-! ## The levels are the least -/

/-- What has to be in an earlier wave than `node`: its dependencies, and the systems before it in
    the order that it conflicts with. -/
def mustPrecede (deps : Fin n → List (Fin n)) (accesses : Fin n → SystemAccess)
    (order : List (Fin n)) (node : Fin n) : List (Fin n) :=
  deps node ++ (order.takeWhile fun candidate => candidate != node).filter fun prior =>
    (accesses node).conflicts (accesses prior)

/-- The level the pass computes is the next one of the general pass. -/
theorem accessLevel_eq (deps : Fin n → List (Fin n)) (accesses : Fin n → SystemAccess)
    (order : List (Fin n)) (level : Fin n → Nat) (node : Fin n) :
    accessLevel deps accesses order level node
      = nextLevel level (mustPrecede deps accesses order node) := by
  rw [accessLevel, foldl_max_filter, max?_getD_succ, mustPrecede, nextLevel_append]

section Order

variable {deps : Fin n → List (Fin n)} {accesses : Fin n → SystemAccess} {order : List (Fin n)}

theorem mem_mustPrecede_iff {u v : Fin n} (hv : v ∈ order) :
    u ∈ mustPrecede deps accesses order v ↔ u ∈ deps v ∨
      order.idxOf u < order.idxOf v ∧ (accesses v).conflicts (accesses u) = true := by
  rw [mustPrecede, List.mem_append, List.mem_filter, mem_takeWhile_ne_iff hv]

/-- What has to precede a system is before it in the order. -/
theorem mustPrecede_first (hfirst : DepsFirst deps order) (hnd : order.Nodup) :
    DepsFirst (mustPrecede deps accesses order) order := by
  intro before v after hsplit u hu
  cases List.mem_append.mp hu with
  | inl hdep => exact hfirst before v after hsplit u hdep
  | inr hconflict =>
    have hfresh : ∀ w ∈ before, (w != v) = true := by
      intro w hw
      rw [hsplit, List.nodup_append] at hnd
      simpa using hnd.2.2 w hw v List.mem_cons_self
    have hmem := (List.mem_filter.mp hconflict).1
    rwa [hsplit, List.takeWhile_append_of_pos hfresh, List.takeWhile_cons_of_neg (by simp),
      List.append_nil] at hmem

/-- **So the pass computes levels**, and they are the least. -/
theorem isLevels_accessLevels (hfirst : DepsFirst deps order) (hnd : order.Nodup)
    (hall : ∀ v, v ∈ order) :
    IsLevels (mustPrecede deps accesses order) (accessLevels deps accesses order) :=
  isLevels_levelsAlong (accessLevel_eq deps accesses order) (mustPrecede_first hfirst hnd) hnd
    hall _

/-! ## The plan -/

/-- System `v` is in wave number `i`. -/
def SchedulePlan.InWave (plan : SchedulePlan n) (v : Fin n) (i : Nat) : Prop :=
  ∃ wave, plan.waves[i]? = some wave ∧ v ∈ wave

/-- Numbers of waves that put every system after its dependencies and after the earlier systems
    it conflicts with. -/
structure Compatible (deps : Fin n → List (Fin n)) (accesses : Fin n → SystemAccess)
    (order : List (Fin n)) (wave : Fin n → Nat) : Prop where
  deps : ∀ v, ∀ d ∈ deps v, wave d < wave v
  conflicts (u v : Fin n) : order.idxOf u < order.idxOf v →
    (accesses u).conflicts (accesses v) = true → wave u < wave v

theorem level_lt_waveCount (level : Fin n → Nat) (v : Fin n) : level v < waveCount level := by
  rw [waveCount, max?_elim_succ]
  exact nextLevel_le_iff.mp (Nat.le_refl _) v (List.mem_finRange v)

/-- The wave of a system is its level. -/
theorem inWave_iff (hall : ∀ v, v ∈ order) {v : Fin n} {i : Nat} :
    SchedulePlan.InWave ⟨order, accessWaves order deps accesses⟩ v i ↔
      accessLevels deps accesses order v = i := by
  have hlt := level_lt_waveCount (accessLevels deps accesses order) v
  unfold SchedulePlan.InWave accessWaves
  simp only [getElem?_byLevel]
  constructor
  · intro ⟨wave, hwave, hv⟩
    split at hwave
    · obtain rfl := Option.some.inj hwave
      simpa using (List.mem_filter.mp hv).2
    · exact absurd hwave (by simp)
  · intro heq
    rw [heq] at hlt
    exact ⟨_, if_pos hlt, List.mem_filter.mpr ⟨hall v, by simpa using heq⟩⟩

theorem accessLevels_compatible (hfirst : DepsFirst deps order) (hnd : order.Nodup)
    (hall : ∀ v, v ∈ order) :
    Compatible deps accesses order (accessLevels deps accesses order) where
  deps v _ hd := (isLevels_accessLevels hfirst hnd hall).lt
    ((mem_mustPrecede_iff (hall v)).mpr (.inl hd))
  conflicts _ v hlt hconflict := (isLevels_accessLevels hfirst hnd hall).lt
    ((mem_mustPrecede_iff (hall v)).mpr
      (.inr ⟨hlt, (SystemAccess.conflicts_comm _ _).trans hconflict⟩))

/-- Two systems that conflict are kept apart, in the order they have. -/
theorem Compatible.lt_iff (hall : ∀ v, v ∈ order) {wave : Fin n → Nat}
    (h : Compatible deps accesses order wave) {u v : Fin n} (hne : u ≠ v)
    (hconflict : (accesses u).conflicts (accesses v) = true) :
    wave u ≠ wave v ∧ (wave u < wave v ↔ order.idxOf u < order.idxOf v) := by
  have hidx : order.idxOf u ≠ order.idxOf v := fun heq => hne ((List.idxOf_inj (hall u)).mp heq)
  have huv := h.conflicts u v
  have hvu := h.conflicts v u
  rw [SystemAccess.conflicts_comm] at hvu
  have hone := Nat.lt_or_gt_of_ne hidx
  grind

/-- No other numbering is anywhere lower. -/
theorem Compatible.le (hfirst : DepsFirst deps order) (hnd : order.Nodup)
    (hall : ∀ v, v ∈ order) {wave : Fin n → Nat} (h : Compatible deps accesses order wave)
    (v : Fin n) : accessLevels deps accesses order v ≤ wave v := by
  refine (isLevels_accessLevels hfirst hnd hall).le (?_) v
  intro v u hu
  cases (mem_mustPrecede_iff (hall v)).mp hu with
  | inl hdep => exact h.deps v u hdep
  | inr hconflict =>
    exact h.conflicts u v hconflict.1 ((SystemAccess.conflicts_comm _ _).trans hconflict.2)

/-- Every wave has a system: below the level of some system, every level is some system's. -/
theorem accessWaves_ne_nil (hfirst : DepsFirst deps order) (hnd : order.Nodup)
    (hall : ∀ v, v ∈ order) {wave : List (Fin n)} (hwave : wave ∈ accessWaves order deps accesses) :
    wave ≠ [] := by
  obtain ⟨i, hi⟩ := List.mem_iff_getElem?.mp hwave
  have hlt : i < waveCount (accessLevels deps accesses order) := by
    have hin := (List.getElem?_eq_some_iff.mp hi).1
    rwa [accessWaves, length_byLevel] at hin
  rw [accessWaves, getElem?_byLevel, if_pos hlt] at hi
  obtain ⟨v, hv⟩ : ∃ v, i ≤ accessLevels deps accesses order v := by
    -- The highest level is some system's, and below an occupied level every level is occupied.
    by_contra hnone
    rw [waveCount, max?_elim_succ] at hlt
    have hle : nextLevel (accessLevels deps accesses order) (List.finRange n) ≤ i :=
      nextLevel_le_iff.mpr fun v _ => Nat.lt_of_not_le fun hv => hnone ⟨v, hv⟩
    omega
  obtain ⟨u, hu⟩ := (isLevels_accessLevels hfirst hnd hall).occupied hv
  rw [← Option.some.inj hi]
  exact List.ne_nil_of_mem (List.mem_filter.mpr ⟨hall u, by simpa using hu⟩)

end Order

theorem SchedulePlan.build_eq {deps : Fin n → List (Fin n)} {names : Fin n → String}
    {order : List (Fin n)} (accesses : Fin n → SystemAccess)
    (h : toposort deps names = some (.ok order)) :
    build deps names accesses = some (.ok ⟨order, accessWaves order deps accesses⟩) := by
  rw [build, h]
  rfl

/-- **The plan of an acyclic table.** Its waves hold every system once and none is empty; a
    system's wave is after those of its dependencies and of the earlier systems it conflicts with,
    and no wave number that satisfies the two is lower. -/
theorem SchedulePlan.build_spec {deps : Fin n → List (Fin n)} (hacyclic : ¬ Cyclic deps)
    (names : Fin n → String) (accesses : Fin n → SystemAccess) :
    ∃ plan, build deps names accesses = some (.ok plan) ∧
      toposort deps names = some (.ok plan.order) ∧
      plan.waves.flatten.Perm (List.finRange n) ∧
      (∀ wave ∈ plan.waves, wave ≠ []) ∧
      (∀ v d i j, d ∈ deps v → plan.InWave d i → plan.InWave v j → i < j) ∧
      (∀ u v i j, u ≠ v → (accesses u).conflicts (accesses v) = true →
        plan.InWave u i → plan.InWave v j →
          i ≠ j ∧ (i < j ↔ plan.order.idxOf u < plan.order.idxOf v)) ∧
      ∀ wave, Compatible deps accesses plan.order wave → ∀ v i, plan.InWave v i → i ≤ wave v := by
  obtain ⟨order, hsort⟩ := (toposort_ok_iff deps names).mpr hacyclic
  obtain ⟨hnd, hfirst, hall⟩ := toposort_ok hsort
  have hcompatible : Compatible deps accesses order (accessLevels deps accesses order) :=
    accessLevels_compatible hfirst hnd hall
  refine ⟨_, build_eq accesses hsort, hsort, ?_, ?_, ?_, ?_, ?_⟩
  · exact (flatten_byLevel_perm fun v _ => level_lt_waveCount _ v).trans (perm_finRange hnd hall)
  · exact fun wave hwave => accessWaves_ne_nil hfirst hnd hall hwave
  · intro v d i j hd hi hj
    rw [inWave_iff hall] at hi hj
    exact hi ▸ hj ▸ hcompatible.deps v d hd
  · intro u v i j hne hconflict hi hj
    rw [inWave_iff hall] at hi hj
    have hiff := hcompatible.lt_iff hall hne hconflict
    rw [hi, hj] at hiff
    exact hiff
  · intro wave hwave v i hi
    rw [inWave_iff hall] at hi
    exact hi ▸ hwave.le hfirst hnd hall v

/-! ## Three systems -/

/-- Physics depends on input; input and audio read the world, which physics writes. -/
def threeDeps : Fin 3 → List (Fin 3)
  | 2 => [0]
  | _ => []

def threeNames : Fin 3 → String
  | 0 => "input"
  | 1 => "audio"
  | 2 => "physics"

def threeAccesses : Fin 3 → SystemAccess
  | 2 => ⟨["world"], ["world"], false⟩
  | _ => ⟨["world"], [], false⟩

theorem threeDeps_acyclic : ¬ Cyclic threeDeps :=
  (toposort_ok_iff threeDeps threeNames).mp ⟨[0, 1, 2], by decide⟩

/-- Three systems without a cycle are all planned, and no wave is empty. -/
theorem three_planned :
    ∃ plan, SchedulePlan.build threeDeps threeNames threeAccesses = some (.ok plan) ∧
      plan.waves.flatten.Perm (List.finRange 3) ∧ ∀ wave ∈ plan.waves, wave ≠ [] := by
  obtain ⟨plan, hbuild, -, hperm, hne, -⟩ :=
    SchedulePlan.build_spec threeDeps_acyclic threeNames threeAccesses
  exact ⟨plan, hbuild, hperm, hne⟩

example : (SchedulePlan.build threeDeps threeNames threeAccesses).map
    (fun result => result.toOption.map SchedulePlan.waves) = some (some [[0, 1], [2]]) := by
  decide

end Schedule
end EngineKit
