import EngineKit.Schedule.Waves

/-!
# The registry

Subsystems in the order they were registered, under distinct names. A subsystem's place is its
address on the bus and its node in the schedule, and `resolveDependencies` turns the names it
depends on into such nodes, or fails on the first that is nobody's.

`Registry.deps` is the relation itself: who has a name that a subsystem depends on. The table
`resolveDependencies` builds is that relation (`mem_depsOf_iff`), and a registry is `Schedulable`
if every name is known and nobody depends on himself through others; that is when there is a plan
(`schedulable_iff`).

`deps` names no table and no order in which names are looked up, so that what is proved of it can be
said without the code. That it is the same relation needs the names to be distinct: `position` finds
the first subsystem of a name, and the relation is about any.
-/

set_option autoImplicit false

namespace EngineKit
namespace Core

open Lib Schedule

/-- What a subsystem says about itself. What its callbacks do is up to each call. -/
structure Subsystem where
  name : String
  dependencies : List String
  access : SystemAccess
deriving DecidableEq

structure Registry where
  entries : List Subsystem
deriving DecidableEq

namespace Registry

def register (r : Registry) (subsystem : Subsystem) : Except KernelError Nat × Registry :=
  if r.entries.any fun entry => entry.name = subsystem.name then
    (.error (.duplicateName subsystem.name), r)
  else (.ok r.entries.length, ⟨r.entries ++ [subsystem]⟩)

/-- `entries.iter().position(|(n, _)| n == dep)`. -/
def position (r : Registry) (dep : String) : Option (Fin r.entries.length) :=
  r.entries.findFinIdx? fun entry => entry.name = dep

def resolve (r : Registry) (subsystem : Subsystem) :
    Except KernelError (List (Fin r.entries.length)) :=
  subsystem.dependencies.mapM fun dep =>
    match r.position dep with
    | some i => .ok i
    | none => .error (.unknownDependency subsystem.name dep)

def resolveDependencies (r : Registry) :
    Except KernelError (List (List (Fin r.entries.length))) :=
  r.entries.mapM r.resolve

/-- A table as the dependencies of each node. -/
def depsOf {n : Nat} (table : List (List (Fin n))) (v : Fin n) : List (Fin n) :=
  table[v.val]?.getD []

end Registry

/-- `SchedulePlan::build` returns. -/
theorem build_isSome {n : Nat} (deps : Fin n → List (Fin n)) (names : Fin n → String)
    (accesses : Fin n → SystemAccess) : (SchedulePlan.build deps names accesses).isSome := by
  rw [SchedulePlan.build]
  cases toposort_cases deps names with
  | inl hok =>
    obtain ⟨order, hok, -⟩ := hok
    rw [hok]
    rfl
  | inr hcycle =>
    obtain ⟨walk, herror, -⟩ := hcycle
    rw [herror]
    rfl

namespace Registry

def plan (r : Registry) (table : List (List (Fin r.entries.length))) :
    Except KernelError (SchedulePlan r.entries.length) :=
  (SchedulePlan.build (depsOf table) (fun v => r.entries[v].name)
    fun v => r.entries[v].access).get (build_isSome _ _ _)

/-! ## The table is the relation -/

/-- Who `v` depends on. -/
def deps (r : Registry) (v : Fin r.entries.length) : List (Fin r.entries.length) :=
  (List.finRange r.entries.length).filter fun u => r.entries[u].name ∈ r.entries[v].dependencies

def Distinct (r : Registry) : Prop := (r.entries.map Subsystem.name).Nodup

structure Schedulable (r : Registry) : Prop where
  known (v : Fin r.entries.length) (dep : String) :
    dep ∈ r.entries[v].dependencies → ∃ u : Fin r.entries.length, r.entries[u].name = dep
  acyclic : ¬ Cyclic r.deps

/-- Each element has its result, in order. -/
theorem mapM_ok_iff {α β ε : Type} {f : α → Except ε β} {xs : List α} {ys : List β} :
    xs.mapM f = .ok ys ↔ List.Forall₂ (fun x y => f x = .ok y) xs ys := by
  -- On the list: the first failure is the answer, and a list without one has an answer for each.
  induction xs generalizing ys with
  | nil =>
    rw [List.forall₂_nil_left_iff]
    exact ⟨fun h => (Except.ok.inj h).symm, fun h => h ▸ rfl⟩
  | cons x xs ih =>
    rw [List.mapM_cons, List.forall₂_cons_left_iff]
    simp only [← ih]
    cases f x with
    | error e => exact iff_of_false (by rintro ⟨⟩) (by rintro ⟨_, _, ⟨⟩, _⟩)
    | ok y =>
      cases xs.mapM f with
      | error e => exact iff_of_false (by rintro ⟨⟩) (by rintro ⟨_, _, _, ⟨⟩, _⟩)
      | ok ys' =>
        constructor
        · intro h
          exact ⟨y, ys', rfl, rfl, (Except.ok.inj h).symm⟩
        · intro hex
          obtain ⟨_, _, h, h', rfl⟩ := hex
          rw [← Except.ok.inj h, ← Except.ok.inj h']
          rfl

/-- And there is a result if each has one. -/
theorem mapM_total {α β ε : Type} {f : α → Except ε β} {xs : List α}
    (h : ∀ x ∈ xs, ∃ y, f x = .ok y) : ∃ ys, xs.mapM f = .ok ys := by
  simp only [mapM_ok_iff]
  induction xs with
  | nil => exact ⟨[], .nil⟩
  | cons x xs ih =>
    obtain ⟨y, hy⟩ := h x List.mem_cons_self
    obtain ⟨ys, hys⟩ := ih fun x' hx' => h x' (List.mem_cons_of_mem x hx')
    exact ⟨y :: ys, .cons hy hys⟩

section Registered

variable {r : Registry}

/-- A second subsystem of one name is refused. -/
theorem Distinct.register (h : r.Distinct) (subsystem : Subsystem) :
    (r.register subsystem).2.Distinct := by
  unfold Registry.register
  split
  · exact h
  · next hnew =>
    rw [Distinct, List.map_append]
    refine List.nodup_append.mpr ⟨h, List.nodup_singleton _, ?_⟩
    intro name hname _ hlast heq
    obtain ⟨entry, hentry, rfl⟩ := List.mem_map.mp hname
    rw [List.map_singleton, List.mem_singleton] at hlast
    exact hnew (List.any_eq_true.mpr ⟨entry, hentry, by simpa using heq.trans hlast⟩)

/-- Nothing is ever taken out, so the numbers of subsystems stay. -/
theorem entries_register (r : Registry) (subsystem : Subsystem) :
    r.entries <+: (r.register subsystem).2.entries := by
  unfold Registry.register
  split
  · exact List.prefix_rfl
  · exact List.prefix_append _ _

/-- Distinct names have one place each. -/
theorem Distinct.eq_of_name (h : r.Distinct) {u v : Fin r.entries.length}
    (heq : r.entries[u].name = r.entries[v].name) : u = v := by
  have hinj := List.nodup_iff_injective_get.mp h
  have hlen : (r.entries.map Subsystem.name).length = r.entries.length := List.length_map _
  have hcast : Fin.cast hlen.symm u = Fin.cast hlen.symm v := hinj (by simpa using heq)
  simpa using hcast

/-- The subsystem of a name. -/
theorem Distinct.position_iff (h : r.Distinct) {dep : String} {u : Fin r.entries.length} :
    r.position dep = some u ↔ r.entries[u].name = dep := by
  constructor
  · intro hpos
    have hfound := (List.findFinIdx?_eq_some_iff.mp hpos).1
    simpa using hfound
  · intro hname
    cases hpos : r.position dep with
    | none =>
      have hnone := List.findFinIdx?_eq_none_iff.mp hpos r.entries[u] (List.getElem_mem u.isLt)
      exact absurd hname (by simpa using hnone)
    | some i =>
      have hfound := (List.findFinIdx?_eq_some_iff.mp hpos).1
      rw [h.eq_of_name (u := i) (v := u) ((by simpa using hfound : _ = dep).trans hname.symm)]

/-- The subsystems of the names, in their order. -/
theorem resolve_ok_iff {subsystem : Subsystem} {list : List (Fin r.entries.length)} :
    r.resolve subsystem = .ok list ↔
      List.Forall₂ (fun dep u => r.position dep = some u) subsystem.dependencies list := by
  rw [resolve, mapM_ok_iff]
  refine iff_of_eq (congrArg (List.Forall₂ · _ _) ?_)
  funext dep u
  cases r.position dep <;> simp

/-- What a table has for a node is what resolving its subsystem gave. -/
theorem resolve_depsOf {table : List (List (Fin r.entries.length))}
    (htable : r.resolveDependencies = .ok table) (v : Fin r.entries.length) :
    r.resolve r.entries[v] = .ok (depsOf table v) := by
  obtain ⟨hlen, hget⟩ := List.forall₂_iff_get.mp (mapM_ok_iff.mp htable)
  have hlt : v.val < table.length := hlen ▸ v.isLt
  have hv := hget v.val v.isLt hlt
  rw [depsOf, List.getElem?_eq_getElem hlt, Option.getD_some]
  exact hv

/-- **The table is the relation.** -/
theorem Distinct.mem_depsOf_iff (h : r.Distinct) {table : List (List (Fin r.entries.length))}
    (htable : r.resolveDependencies = .ok table) (v u : Fin r.entries.length) :
    u ∈ depsOf table v ↔ r.entries[u].name ∈ r.entries[v].dependencies := by
  have hall := resolve_ok_iff.mp (resolve_depsOf htable v)
  constructor
  · intro hu
    obtain ⟨i, hi, rfl⟩ := List.getElem_of_mem hu
    obtain ⟨hlen, hget⟩ := List.forall₂_iff_get.mp hall
    have hpos := hget i (hlen ▸ hi) hi
    exact (h.position_iff.mp hpos) ▸ List.getElem_mem _
  · intro hname
    obtain ⟨i, hi, hdep⟩ := List.getElem_of_mem hname
    obtain ⟨hlen, hget⟩ := List.forall₂_iff_get.mp hall
    have hpos := hget i hi (hlen ▸ hi)
    have hu := h.position_iff.mpr hdep.symm
    rw [Option.some.inj (hu.symm.trans hpos)]
    exact List.getElem_mem _

/-- So the two have the same cycles. -/
theorem Distinct.depsOf_cyclic_iff (h : r.Distinct)
    {table : List (List (Fin r.entries.length))} (htable : r.resolveDependencies = .ok table) :
    Cyclic (depsOf table) ↔ Cyclic r.deps := by
  have hsame : DependsOn (depsOf table) = DependsOn r.deps := by
    funext v u
    refine propext ?_
    rw [Lib.DependsOn, Lib.DependsOn, h.mem_depsOf_iff htable, deps, List.mem_filter]
    simp
  rw [Cyclic, Cyclic, hsame]

/-- The plan is the one that is built. -/
theorem plan_ok_iff {table : List (List (Fin r.entries.length))}
    {plan : SchedulePlan r.entries.length} :
    r.plan table = .ok plan ↔ SchedulePlan.build (depsOf table) (fun v => r.entries[v].name)
      (fun v => r.entries[v].access) = some (.ok plan) := by
  rw [Registry.plan, Option.eq_some_iff_get_eq]
  exact ⟨fun h => ⟨_, h⟩, fun ⟨_, h⟩ => h⟩

/-- Its order is the topological one. -/
theorem plan_sorts {table : List (List (Fin r.entries.length))}
    {plan : SchedulePlan r.entries.length} (hplan : r.plan table = .ok plan) :
    toposort (depsOf table) (fun v => r.entries[v].name) = some (.ok plan.order) := by
  rw [plan_ok_iff, SchedulePlan.build] at hplan
  obtain ⟨result, hsort, hmap⟩ := Option.map_eq_some_iff.mp hplan
  cases result with
  | error e => exact absurd hmap (by rintro ⟨⟩)
  | ok order =>
    obtain rfl := Except.ok.inj hmap
    exact hsort

/-- **A plan** has every subsystem once, behind all it depends on. -/
theorem Distinct.plan_spec (h : r.Distinct) {table : List (List (Fin r.entries.length))}
    (htable : r.resolveDependencies = .ok table) {plan : SchedulePlan r.entries.length}
    (hplan : r.plan table = .ok plan) :
    plan.order.Perm (List.finRange r.entries.length) ∧
      ∀ v u : Fin r.entries.length, r.entries[u].name ∈ r.entries[v].dependencies →
        plan.order.idxOf u < plan.order.idxOf v := by
  obtain ⟨hperm, hfirst⟩ := (toposort_spec (depsOf table) _).2.2.1 plan.order (plan_sorts hplan)
  exact ⟨hperm, fun v u hu => hfirst v u ((h.mem_depsOf_iff htable v u).mpr hu)⟩

/-- **There is a plan** exactly for a schedulable registry. -/
theorem Distinct.schedulable_iff (h : r.Distinct) :
    r.Schedulable ↔ ∃ table plan, r.resolveDependencies = .ok table ∧ r.plan table = .ok plan := by
  constructor
  · intro hall
    obtain ⟨hknown, hacyclic⟩ := hall
    obtain ⟨table, htable⟩ : ∃ table, r.resolveDependencies = .ok table := by
      refine mapM_total ?_
      intro entry hentry
      obtain ⟨v, hv, rfl⟩ := List.getElem_of_mem hentry
      refine mapM_total ?_
      intro dep hdep
      obtain ⟨u, hu⟩ := hknown ⟨v, hv⟩ dep hdep
      exact ⟨u, by rw [h.position_iff.mpr hu]⟩
    rw [← h.depsOf_cyclic_iff htable] at hacyclic
    obtain ⟨plan, hplan, -⟩ := SchedulePlan.build_spec hacyclic (fun v => r.entries[v].name)
      fun v => r.entries[v].access
    exact ⟨table, plan, htable, plan_ok_iff.mpr hplan⟩
  · intro hex
    obtain ⟨table, plan, htable, hplan⟩ := hex
    refine ⟨?_, ?_⟩
    · intro v dep hdep
      obtain ⟨i, hi, rfl⟩ := List.getElem_of_mem hdep
      obtain ⟨hlen, hget⟩ := List.forall₂_iff_get.mp (resolve_ok_iff.mp (resolve_depsOf htable v))
      exact ⟨_, h.position_iff.mp (hget i hi (hlen ▸ hi))⟩
    · rw [← h.depsOf_cyclic_iff htable]
      exact (toposort_ok_iff _ _).mp ⟨plan.order, plan_sorts hplan⟩

end Registered

end Registry

end Core
end EngineKit
