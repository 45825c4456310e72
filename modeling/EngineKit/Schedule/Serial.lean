import EngineKit.Lib.Reorder
import EngineKit.Schedule.Waves

/-!
# Waves are serial-equivalent

What the kernel plans waves for: systems that keep to their declared accesses may run in any order
within a wave, and the store ends up as if they had run one by one in the topological order.

Systems act on a store of named entries. One that keeps to its access changes only what it
declares to write, and computes it from what it declares to read or write (`Respects`); an
exclusive system is free. Two such systems whose accesses do not conflict commute
(`Respects.commutes`), and the plan keeps the others in order, so the reordering lemma applies.
-/

set_option autoImplicit false

namespace EngineKit
namespace Schedule

open Lib

variable {V : Type} {n : Nat}

abbrev Store (V : Type) : Type := String → V

/-- What a system that is not exclusive promises of its run. -/
structure Respects (access : SystemAccess) (run : Store V → Store V) : Prop where
  frame (store : Store V) (key : String) : key ∉ access.writes → run store key = store key
  reads (store store' : Store V) :
    (∀ key, key ∈ access.reads ∨ key ∈ access.writes → store key = store' key) →
      ∀ key ∈ access.writes, run store key = run store' key

/-- An exclusive system promises nothing. -/
def RespectsAccess (access : SystemAccess) (run : Store V → Store V) : Prop :=
  access.exclusive = true ∨ Respects access run

/-- Running the waves one after another, each in the order given. -/
def runWaves (systems : Fin n → Store V → Store V) (waves : List (List (Fin n)))
    (store : Store V) : Store V :=
  waves.foldl (fun store wave => runSteps systems wave store) store

theorem runWaves_eq_flatten (systems : Fin n → Store V → Store V) (waves : List (List (Fin n)))
    (store : Store V) : runWaves systems waves store = runSteps systems waves.flatten store := by
  induction waves generalizing store with
  | nil => rfl
  | cons wave waves ih =>
    rw [List.flatten_cons, runSteps_append, ← ih]
    rfl

/-! ## Systems that do not conflict -/

section Commute

variable {access access' : SystemAccess} {run run' : Store V → Store V}

/-- What one system writes is not what the other reads or writes, so it runs the same before and
    after it. -/
theorem Respects.run_run (h : Respects access run) (h' : Respects access' run')
    (hdisjoint : ∀ key, key ∈ access.reads ∨ key ∈ access.writes → key ∉ access'.writes)
    (store : Store V) {key : String} (hkey : key ∈ access.writes) :
    run (run' store) key = run' (run store) key := by
  rw [h.reads (run' store) store (fun k hk => h'.frame store k (hdisjoint k hk)) key hkey,
    h'.frame (run store) key (hdisjoint key (.inr hkey))]

theorem Respects.commutes (h : Respects access run) (h' : Respects access' run')
    (hconflict : access.conflicts access' = false) (store : Store V) :
    run (run' store) = run' (run store) := by
  have hnone : ¬ access.conflicts access' = true := by simp [hconflict]
  rw [SystemAccess.conflicts_iff] at hnone
  have hleft (key : String) (hkey : key ∈ access.reads ∨ key ∈ access.writes) :
      key ∉ access'.writes := fun hw => hnone (.inr (.inr ⟨key, by grind⟩))
  have hright (key : String) (hkey : key ∈ access'.reads ∨ key ∈ access'.writes) :
      key ∉ access.writes := fun hw => hnone (.inr (.inr ⟨key, by grind⟩))
  funext key
  by_cases hkey : key ∈ access.writes
  · exact h.run_run h' hleft store hkey
  · by_cases hkey' : key ∈ access'.writes
    · exact (h'.run_run h hright store hkey').symm
    · rw [h.frame _ key hkey, h'.frame _ key hkey', h'.frame _ key hkey', h.frame _ key hkey]

theorem RespectsAccess.commutes (h : RespectsAccess access run)
    (h' : RespectsAccess access' run') (hconflict : access.conflicts access' = false)
    (store : Store V) : run (run' store) = run' (run store) := by
  have hnone : ¬ access.conflicts access' = true := by simp [hconflict]
  rw [SystemAccess.conflicts_iff] at hnone
  cases h with
  | inl hexclusive => exact absurd (.inl hexclusive) hnone
  | inr h =>
    cases h' with
    | inl hexclusive => exact absurd (.inr (.inl hexclusive)) hnone
    | inr h' => exact h.commutes h' hconflict store

end Commute

/-! ## Every schedule of the waves -/

theorem SchedulePlan.inWave_of_schedule (plan : SchedulePlan n) {schedule : List (List (Fin n))}
    (h : List.Forall₂ List.Perm schedule plan.waves) {v : Fin n} {i : Nat}
    (hv : ∃ wave, schedule[i]? = some wave ∧ v ∈ wave) : plan.InWave v i := by
  obtain ⟨wave, hwave, hmem⟩ := hv
  obtain ⟨hi, rfl⟩ := List.getElem?_eq_some_iff.mp hwave
  have hi' : i < plan.waves.length := h.length_eq ▸ hi
  exact ⟨_, List.getElem?_eq_getElem hi', (h.get hi hi').mem_iff.mp hmem⟩

/-- **Serial equivalence.** Whatever order the systems of each wave run in, the store ends as
    after running all systems in the order of the plan. -/
theorem SchedulePlan.runWaves_eq {deps : Fin n → List (Fin n)} (hacyclic : ¬ Cyclic deps)
    (names : Fin n → String) (accesses : Fin n → SystemAccess)
    (systems : Fin n → Store V → Store V)
    (hrespects : ∀ i, RespectsAccess (accesses i) (systems i)) :
    ∃ plan, build deps names accesses = some (.ok plan) ∧
      ∀ schedule, List.Forall₂ List.Perm schedule plan.waves → ∀ store,
        runWaves systems schedule store = runSteps systems plan.order store := by
  obtain ⟨plan, hbuild, hsort, hwaves, -, -, hconflicts, -⟩ := build_spec hacyclic names accesses
  obtain ⟨hnd, -, hall⟩ := toposort_ok hsort
  refine ⟨plan, hbuild, ?_⟩
  intro schedule hschedule store
  have hperm : schedule.flatten.Perm plan.order :=
    ((List.Perm.flatten_congr hschedule).trans hwaves).trans (perm_finRange hnd hall).symm
  rw [runWaves_eq_flatten]
  refine runSteps_eq_of_order hperm hnd (?_) store
  intro u v hsub
  have hne : u ≠ v := by
    have hpair : [u, v].Nodup := (hperm.nodup_iff.mpr hnd).sublist hsub
    simpa using hpair
  cases hconflict : (accesses u).conflicts (accesses v) with
  | false => exact .inl ((hrespects u).commutes (hrespects v) hconflict)
  | true =>
    -- a schedule permutes each wave, so the two are in the waves the plan has them in
    obtain ⟨i, j, hij, hu, hv⟩ := parts_of_pair_sublist hsub
    obtain ⟨hapart, horder⟩ := hconflicts u v i j hne hconflict
      (plan.inWave_of_schedule hschedule hu) (plan.inWave_of_schedule hschedule hv)
    exact .inr (pair_sublist_of_idxOf_lt (hall v) (horder.mp (Nat.lt_of_le_of_ne hij hapart)))

/-- Physics adds one to the world; the other two leave the store alone. -/
def threeSystems : Fin 3 → Store Nat → Store Nat
  | 2 => fun store => Function.update store "world" (store "world" + 1)
  | _ => id

theorem threeSystems_respect (i : Fin 3) : RespectsAccess (threeAccesses i) (threeSystems i) := by
  match i with
  | 0 => exact .inr ⟨fun _ _ _ => rfl, fun _ _ _ _ hkey => absurd hkey (by simp [threeAccesses])⟩
  | 1 => exact .inr ⟨fun _ _ _ => rfl, fun _ _ _ _ hkey => absurd hkey (by simp [threeAccesses])⟩
  | 2 =>
    refine .inr ⟨?_, ?_⟩
    · intro store key hkey
      exact Function.update_of_ne (by simpa [threeAccesses] using hkey) _ _
    · intro store store' hsame key hkey
      obtain rfl : key = "world" := by simpa [threeAccesses] using hkey
      have hworld := hsame "world" (.inr hkey)
      show Function.update store "world" _ "world" = Function.update store' "world" _ "world"
      rw [Function.update_self, Function.update_self, hworld]

/-- Input and audio share a wave and may run in either order; physics writes the world and has one
    of its own. -/
theorem threeSystems_serial :
    ∃ plan, SchedulePlan.build threeDeps threeNames threeAccesses = some (.ok plan) ∧
      ∀ schedule, List.Forall₂ List.Perm schedule plan.waves → ∀ store,
        runWaves threeSystems schedule store = runSteps threeSystems plan.order store :=
  SchedulePlan.runWaves_eq threeDeps_acyclic threeNames threeAccesses threeSystems
    threeSystems_respect

end Schedule
end EngineKit
