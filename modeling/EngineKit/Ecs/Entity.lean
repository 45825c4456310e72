import EngineKit.Lib.LittleEndian
import EngineKit.Lib.SparseSet

/-!
# The entity table

An entity is a slot of the table and the slot's generation when the entity was made. Destroying
it puts the slot on the free list; reusing the slot bumps its generation, so that handles to the
previous owner stay dead.

`Entities.current` is the table as a partial function: the generation of the entity in a slot, if
there is one. The two operations are characterised by what they do to it. `Entities.Wf` is what
they keep: the free list holds distinct slots of the table, and `live` counts the others.

An index the code would panic on reads a default here; in a well-formed table there is none.

A slot is current, free, or not yet in the table, and `current` is `none` in the last two cases
alike. That is enough for what is asked of handles, since both kinds of slots are filled by
`try_create`, and what it returns is what is current then. Generations are not a part of the
invariant: that a handle stays dead is about how often its slot was reused, and is proved of runs.
-/

set_option autoImplicit false

namespace EngineKit
namespace Ecs

open Lib

structure Entity where
  index : UInt32
  generation : UInt32
deriving DecidableEq

inductive EntityError where
  | indexOverflow
  | allocationFailed
deriving DecidableEq

structure Entities where
  generations : List UInt32
  free : List UInt32
  live : Nat

namespace Entities

def new : Entities := ⟨[], [], 0⟩

def IsAlive (table : Entities) (entity : Entity) : Prop :=
  table.generations[entity.index.toNat]? = some entity.generation ∧ entity.index ∉ table.free

instance (table : Entities) (entity : Entity) : Decidable (table.IsAlive entity) :=
  inferInstanceAs (Decidable (_ ∧ _))

/-- The end of the slot range. -/
def watermark (table : Entities) : Nat := table.generations.length

/-- `checked_add(1).unwrap_or(0)`. -/
def nextGeneration (generation : UInt32) : UInt32 := (u32CheckedAdd generation 1).getD 0

def tryCreate (room : Bool) (table : Entities) : Except EntityError (Entity × Entities) :=
  match table.free.getLast? with
  | some slot =>
    let generation := nextGeneration (table.generations[slot.toNat]?.getD 0)
    .ok (⟨slot, generation⟩,
      { generations := table.generations.set slot.toNat generation
        free := table.free.dropLast
        live := table.live + 1 })
  | none =>
    if 2 ^ 32 - 1 ≤ table.generations.length then .error .indexOverflow
    else if room then
      .ok (⟨UInt32.ofNat table.generations.length, 0⟩,
        { table with generations := table.generations ++ [0], live := table.live + 1 })
    else .error .allocationFailed

def tryDestroy (room : Bool) (table : Entities) (entity : Entity) :
    Except EntityError (Bool × Entities) :=
  if ¬ table.IsAlive entity then .ok (false, table)
  else if room then
    .ok (true, { table with free := table.free ++ [entity.index], live := table.live - 1 })
  else .error .allocationFailed

/-! ## The table as a partial function -/

/-- The generation of the entity in a slot. -/
def current (table : Entities) (index : UInt32) : Option UInt32 :=
  if index ∈ table.free then none else table.generations[index.toNat]?

/-- A handle is alive if its slot is current at its generation. -/
theorem isAlive_iff (table : Entities) (entity : Entity) :
    table.IsAlive entity ↔ table.current entity.index = some entity.generation := by
  unfold IsAlive current
  split
  · next hfree => simp [hfree]
  · next hfree => simp [hfree]

structure Wf (table : Entities) : Prop where
  small : table.generations.length < 2 ^ 32
  nodup : table.free.Nodup
  free_lt (slot : UInt32) : slot ∈ table.free → slot.toNat < table.generations.length
  live : table.live + table.free.length = table.generations.length

/-- The empty table has no slots. -/
theorem Wf.new : Entities.new.Wf where
  small := by decide
  nodup := List.nodup_nil
  free_lt slot hslot := absurd hslot (by simp [Entities.new])
  live := rfl

/-- There are not more distinct slots than the table has. -/
theorem length_le_watermark {table : Entities} {slots : List UInt32} (hnd : slots.Nodup)
    (hlt : ∀ i ∈ slots, i.toNat < table.watermark) : slots.length ≤ table.watermark := by
  have hcount := length_le_of_nodup (hnd.map fun _ _ heq => UInt32.toNat_inj.mp heq)
    (fun n hn => by
      obtain ⟨i, hi, rfl⟩ := List.mem_map.mp hn
      exact hlt i hi)
  rwa [List.length_map] at hcount

/-- Reusing the slot freed last. -/
theorem recycle_spec {table : Entities} {rest : List UInt32} {slot : UInt32}
    (h : table.Wf) (hfree : table.free = rest ++ [slot]) (generation : UInt32) (i : UInt32) :
    table.current slot = none ∧
      current ⟨table.generations.set slot.toNat generation, rest, table.live + 1⟩ i
        = if i = slot then some generation else table.current i := by
  have hnd : (rest ++ [slot]).Nodup := hfree ▸ h.nodup
  have hslot : slot ∉ rest := fun hmem =>
    (List.nodup_append.mp hnd).2.2 slot hmem slot (List.mem_singleton_self slot) rfl
  have hin : slot ∈ table.free := by rw [hfree]; simp
  refine ⟨if_pos hin, ?_⟩
  unfold current
  by_cases hi : i = slot
  · subst hi
    rw [if_neg hslot, if_pos rfl, List.getElem?_set_self (h.free_lt i hin)]
  · have hne : slot.toNat ≠ i.toNat := fun heq => hi (UInt32.toNat_inj.mp heq).symm
    rw [if_neg hi, List.getElem?_set_ne hne, hfree]
    simp [hi]

/-- Opening a slot at the end of the range. -/
theorem grow_spec {table : Entities} (h : table.generations.length < 2 ^ 32)
    (hfree : table.free = []) (i : UInt32) :
    table.current (UInt32.ofNat table.generations.length) = none ∧
      current { table with generations := table.generations ++ [0], live := table.live + 1 } i
        = if i = UInt32.ofNat table.generations.length then some 0 else table.current i := by
  have hslot : (UInt32.ofNat table.generations.length).toNat = table.generations.length :=
    UInt32.toNat_ofNat_of_lt' h
  unfold current
  simp only [hfree, List.not_mem_nil, if_false]
  refine ⟨by rw [hslot]; simp, ?_⟩
  by_cases hi : i = UInt32.ofNat table.generations.length
  · rw [if_pos hi, hi, hslot, List.getElem?_append_right (Nat.le_refl _), Nat.sub_self]
    rfl
  · have hne : i.toNat ≠ table.generations.length := fun heq => hi (by
      rw [← heq, UInt32.ofNat_toNat])
    rw [if_neg hi, List.getElem?_append]
    split
    · rfl
    · rw [List.getElem?_eq_none (by simp; omega), List.getElem?_eq_none (by omega)]

/-- **Creating an entity** fills a slot that held none. -/
theorem tryCreate_spec {room : Bool} {table table' : Entities} {entity : Entity}
    (h : table.Wf) (hcreate : table.tryCreate room = .ok (entity, table')) :
    table'.Wf ∧ table.current entity.index = none ∧
      ∀ i, table'.current i
        = if i = entity.index then some entity.generation else table.current i := by
  unfold tryCreate at hcreate
  -- A slot is reused, with the next generation; or one is added, with the first.
  cases hlast : table.free.getLast? with
  | some slot =>
    obtain ⟨rest, hfree⟩ := List.getLast?_eq_some_iff.mp hlast
    have hrest : table.free.dropLast = rest := by rw [hfree, List.dropLast_concat]
    simp only [hlast, hrest] at hcreate
    obtain ⟨rfl, rfl⟩ := Prod.mk.inj (Except.ok.inj hcreate)
    have hspec := recycle_spec h hfree
    refine ⟨?_, (hspec 0 0).1, fun i => (hspec _ i).2⟩
    have hsub : rest ⊆ table.free := by rw [hfree]; exact List.subset_append_left _ _
    have hlive := h.live
    rw [hfree, List.length_append, List.length_singleton] at hlive
    constructor
    · exact (List.length_set ..).trans_lt h.small
    · exact (hfree ▸ h.nodup).sublist (List.sublist_append_left rest [slot])
    · intro i hi
      exact (h.free_lt i (hsub hi)).trans_eq (List.length_set ..).symm
    · show table.live + 1 + rest.length = _
      rw [List.length_set]
      omega
  | none =>
    have hfree : table.free = [] := List.getLast?_eq_none_iff.mp hlast
    simp only [hlast] at hcreate
    split at hcreate
    · exact absurd hcreate (by simp)
    · next hroom =>
      split at hcreate
      · obtain ⟨rfl, rfl⟩ := Prod.mk.inj (Except.ok.inj hcreate)
        have hspec := grow_spec h.small hfree
        refine ⟨?_, (hspec 0).1, fun i => (hspec i).2⟩
        have hlive := h.live
        constructor
        · show (_ ++ [_]).length < _
          rw [List.length_append, List.length_singleton]
          omega
        · exact h.nodup
        · intro i hi
          exact absurd hi (by simp [hfree])
        · show table.live + 1 + table.free.length = (_ ++ [_]).length
          rw [List.length_append, List.length_singleton]
          omega
      · exact absurd hcreate (by simp)

/-- **Destroying an entity** empties its slot. -/
theorem tryDestroy_spec {room : Bool} {table table' : Entities} {entity : Entity} {done : Bool}
    (h : table.Wf) (hdestroy : table.tryDestroy room entity = .ok (done, table')) :
    table'.Wf ∧ (done = true ↔ table.IsAlive entity) ∧
      (done = true → ∀ i, table'.current i = if i = entity.index then none else table.current i) ∧
      (done = false → table' = table) := by
  unfold tryDestroy at hdestroy
  -- A handle that is not alive changes nothing.
  by_cases halive : table.IsAlive entity
  · rw [if_neg (not_not_intro halive)] at hdestroy
    split at hdestroy
    · obtain ⟨rfl, rfl⟩ := Prod.mk.inj (Except.ok.inj hdestroy)
      obtain ⟨hgen, hfree⟩ := halive
      obtain ⟨hin, -⟩ := List.getElem?_eq_some_iff.mp hgen
      refine ⟨?_, by simp [IsAlive, hgen, hfree], fun _ i => ?_, by simp⟩
      · have hnd : (table.free ++ [entity.index]).Nodup := by
          rw [List.nodup_append]
          exact ⟨h.nodup, List.nodup_singleton _, fun a ha b hb heq =>
            hfree ((heq.trans (List.mem_singleton.mp hb)) ▸ ha)⟩
        have hlt (i : UInt32) (hi : i ∈ table.free ++ [entity.index]) :
            i.toNat < table.generations.length := by
          cases List.mem_append.mp hi with
          | inl hi => exact h.free_lt i hi
          | inr hi => exact (List.mem_singleton.mp hi) ▸ hin
        -- the slot was not free, so some entity was alive to be counted
        have hcount := length_le_watermark hnd hlt
        rw [List.length_append, List.length_singleton, watermark] at hcount
        have hlive := h.live
        refine ⟨h.small, hnd, hlt, ?_⟩
        show table.live - 1 + (table.free ++ [entity.index]).length = table.generations.length
        rw [List.length_append, List.length_singleton]
        omega
      · unfold current
        by_cases hi : i = entity.index <;> simp [hi]
    · exact absurd hdestroy (by simp)
  · rw [if_pos halive] at hdestroy
    obtain ⟨rfl, rfl⟩ := Prod.mk.inj (Except.ok.inj hdestroy)
    exact ⟨h, by simp [halive], by simp, fun _ => rfl⟩

/-- Distinct slots that hold entities are at most as many as the table counts. -/
theorem Wf.length_le_live {table : Entities} (h : table.Wf) {slots : List UInt32}
    (hnd : slots.Nodup) (hlive : ∀ i ∈ slots, table.current i ≠ none) :
    slots.length ≤ table.live := by
  have hall : (slots ++ table.free).Nodup := by
    rw [List.nodup_append]
    refine ⟨hnd, h.nodup, fun a ha b hb heq => hlive a ha ?_⟩
    exact if_pos (heq ▸ hb)
  have hlt (i : UInt32) (hi : i ∈ slots ++ table.free) : i.toNat < table.watermark := by
    cases List.mem_append.mp hi with
    | inr hi => exact h.free_lt i hi
    | inl hi =>
      by_contra hout
      refine hlive i hi ?_
      unfold current
      rw [List.getElem?_eq_none (Nat.not_lt.mp hout), ite_self]
  have hcount := length_le_watermark hall hlt
  rw [List.length_append, watermark] at hcount
  have hsum := h.live
  omega

end Entities

end Ecs
end EngineKit
