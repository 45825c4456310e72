import Mathlib.Data.List.Nodup
import Mathlib.Data.List.Perm.Basic
import Mathlib.Data.Nat.ModEq
import EngineKit.Lib.Reach

/-!
# The pool

A block of memory cut into slots, the list of the slots that are free, and a generation for each
slot. A handle is a slot and its generation when the value went in, and freeing moves the slot to
its next generation.

Whether a slot holds a value is not recorded. The operations ask only whether the handle's
generation is the slot's, so `get` answers with whatever the slot's memory is, and that is what
`Cell` is for: memory never written, a value, or what is left of one that was dropped. A handle
that names a free slot at the generation it has now (`Pool.Forged`) passes that test. A pool never
returns such a handle for itself, but a handle says nothing of the pool it came from.

`alloc_cases`, `free_cases` and the two of `get` and `get_mut` say what the operations do,
pointwise; what runs do is derived from them.
-/

set_option autoImplicit false

namespace EngineKit
namespace Mem

open Lib

inductive PoolError where
  | exhausted
  | invalidSlot (idx : UInt32)
  | invalidCapacity
  | allocationFailed
deriving DecidableEq

structure PoolHandle where
  idx : UInt32
  generation : UInt32
deriving DecidableEq

/-- The memory of a slot. -/
inductive Cell (T : Type) where
  | uninit
  | live (value : T)
  | dropped (value : T)

/-- `assume_init_drop`. -/
def Cell.drop {T : Type} : Cell T → Cell T
  | .live value => .dropped value
  | cell => cell

structure Pool (T : Type) where
  base : List (Cell T)
  capacity : Nat
  freeList : List UInt32
  generations : List UInt32

namespace Pool

variable {T : Type}

/-- `layout` is whether the block's size is one a layout can have, and `room` whether there is
    memory for it and the two lists. -/
def tryWithCapacity (layout room : Bool) (capacity : Nat) : Except PoolError (Pool T) :=
  let capacity := max capacity 1
  if ¬ layout then .error .invalidCapacity
  else if ¬ room then .error .allocationFailed
  else
    .ok
      { base := List.replicate capacity .uninit
        capacity
        -- `i as u32`, which is not `i` past `2 ^ 32`
        freeList := (List.range capacity).map UInt32.ofNat
        generations := List.replicate capacity 0 }

def available (p : Pool T) : Nat := p.freeList.length

/-- `generations[idx]`, for a slot of the block. -/
def generation (p : Pool T) (idx : UInt32) : UInt32 := p.generations.getD idx.toNat 0

/-- `*base.add(idx)`, for a slot of the block. -/
def cell (p : Pool T) (idx : UInt32) : Cell T := p.base.getD idx.toNat .uninit

/-- Writes a value to a slot's memory. -/
def write (p : Pool T) (idx : UInt32) (value : T) : Pool T :=
  { p with base := p.base.set idx.toNat (.live value) }

def alloc (p : Pool T) (value : T) : Except PoolError PoolHandle × Pool T :=
  match p.freeList.getLast? with
  | none => (.error .exhausted, p)
  | some slot =>
    let p := { p with freeList := p.freeList.dropLast }
    (.ok ⟨slot, p.generation slot⟩, p.write slot value)

/-- The end of `free`. The generation wraps. -/
def release (p : Pool T) (slot : UInt32) : Pool T :=
  { p with
    base := p.base.set slot.toNat (p.cell slot).drop
    generations := p.generations.set slot.toNat (p.generation slot + 1)
    freeList := p.freeList ++ [slot] }

def free (p : Pool T) (handle : PoolHandle) : Except PoolError Unit × Pool T :=
  let slot := handle.idx
  if p.capacity ≤ slot.toNat then (.error (.invalidSlot handle.idx), p)
  else if p.generation slot ≠ handle.generation then (.error (.invalidSlot handle.idx), p)
  else (.ok (), p.release slot)

def get (p : Pool T) (handle : PoolHandle) : Option (Cell T) :=
  let slot := handle.idx
  if p.capacity ≤ slot.toNat ∨ p.generation slot ≠ handle.generation then none
  else some (p.cell slot)

/-- What `get_mut` borrows, and the pool once a value has been assigned to it. -/
def getMut (p : Pool T) (handle : PoolHandle) : Option (Cell T × (T → Pool T)) :=
  let slot := handle.idx
  if p.capacity ≤ slot.toNat ∨ p.generation slot ≠ handle.generation then none
  else some (p.cell slot, p.write slot)

/-- What `iter` goes through. -/
def iter (p : Pool T) : List (UInt32 × Cell T) :=
  (List.range p.capacity).filterMap fun i =>
    if UInt32.ofNat i ∈ p.freeList then none else some (UInt32.ofNat i, p.base.getD i .uninit)

/-- What `Drop` drops, in order. -/
def drop (p : Pool T) : List (Cell T) :=
  (List.range p.capacity).filterMap fun i =>
    if UInt32.ofNat i ∈ p.freeList then none else some (p.base.getD i .uninit)

/-! ## What the operations do -/

/-- The test of `free`, `get` and `get_mut`. -/
def Matches (p : Pool T) (handle : PoolHandle) : Prop :=
  handle.idx.toNat < p.capacity ∧ p.generation handle.idx = handle.generation

instance (p : Pool T) (handle : PoolHandle) : Decidable (p.Matches handle) :=
  inferInstanceAs (Decidable (_ ∧ _))

/-- **A handle to a free slot** that passes the test. -/
def Forged (p : Pool T) (handle : PoolHandle) : Prop :=
  handle.idx ∈ p.freeList ∧ p.generation handle.idx = handle.generation

instance (p : Pool T) (handle : PoolHandle) : Decidable (p.Forged handle) :=
  inferInstanceAs (Decidable (_ ∧ _))

/-- **The pool's invariant.** A slot holds a value if and only if it is not free. -/
structure Wf (p : Pool T) : Prop where
  base : p.base.length = p.capacity
  generations : p.generations.length = p.capacity
  small : p.capacity ≤ 2 ^ 32
  inside : ∀ i ∈ p.freeList, i.toNat < p.capacity
  nodup : p.freeList.Nodup
  live (i : UInt32) : i.toNat < p.capacity →
    (i ∉ p.freeList ↔ ∃ value, p.cell i = .live value)

theorem not_matches_iff {p : Pool T} {handle : PoolHandle} :
    ¬ p.Matches handle ↔
      p.capacity ≤ handle.idx.toNat ∨ p.generation handle.idx ≠ handle.generation := by
  rw [Matches, not_and_or, Nat.not_lt]

theorem get_eq (p : Pool T) (handle : PoolHandle) :
    p.get handle = if p.Matches handle then some (p.cell handle.idx) else none := by
  by_cases h : p.Matches handle
  · rw [get, if_neg (fun hnot => not_matches_iff.mpr hnot h), if_pos h]
  · rw [get, if_pos (not_matches_iff.mp h), if_neg h]

theorem getMut_eq (p : Pool T) (handle : PoolHandle) :
    p.getMut handle =
      if p.Matches handle then some (p.cell handle.idx, p.write handle.idx) else none := by
  by_cases h : p.Matches handle
  · rw [getMut, if_neg (fun hnot => not_matches_iff.mpr hnot h), if_pos h]
  · rw [getMut, if_pos (not_matches_iff.mp h), if_neg h]

theorem ofNat_toNat_lt {i n : Nat} (hi : i < n) (hn : n ≤ 2 ^ 32) : (UInt32.ofNat i).toNat = i :=
  UInt32.toNat_ofNat_of_lt' (Nat.lt_of_lt_of_le hi hn)

theorem getD_set {α : Type} (xs : List α) {i j : UInt32} (x d : α) (hi : i.toNat < xs.length) :
    (xs.set i.toNat x).getD j.toNat d = if j = i then x else xs.getD j.toNat d := by
  rw [List.getD_eq_getElem?_getD, List.getD_eq_getElem?_getD, List.getElem?_set]
  by_cases hij : j = i
  · subst hij
    simp [hi]
  · have hne : i.toNat ≠ j.toNat := fun h => hij (UInt32.toNat_inj.mp h).symm
    rw [if_neg hne, if_neg hij]

section Wf

variable {p : Pool T}

theorem Wf.cell_write (h : p.Wf) {idx : UInt32} (hidx : idx.toNat < p.capacity) (value : T)
    (i : UInt32) : (p.write idx value).cell i = if i = idx then .live value else p.cell i :=
  getD_set p.base _ _ (h.base ▸ hidx)

/-- **Writing to a slot that holds a value** keeps the invariant. -/
theorem Wf.write (h : p.Wf) {idx : UInt32} (hidx : idx.toNat < p.capacity)
    (hlive : idx ∉ p.freeList) (value : T) : (p.write idx value).Wf where
  base := (List.length_set).trans h.base
  generations := h.generations
  small := h.small
  inside := h.inside
  nodup := h.nodup
  live i hi := by
    rw [h.cell_write hidx]
    by_cases heq : i = idx
    · subst heq
      simp only [if_true, Cell.live.injEq, exists_eq', iff_true]
      exact hlive
    · rw [if_neg heq]
      exact h.live i hi

/-- **`alloc`** fails on an empty free list, and else takes its last slot. -/
theorem Wf.alloc_cases (h : p.Wf) (value : T) :
    (p.freeList = [] ∧ p.alloc value = (.error .exhausted, p)) ∨
      ∃ slot p', p.freeList = p'.freeList ++ [slot] ∧ slot.toNat < p.capacity ∧
        p.alloc value = (.ok ⟨slot, p.generation slot⟩, p') ∧ p'.Wf ∧
        p'.capacity = p.capacity ∧ p'.generations = p.generations ∧
        ∀ i, p'.cell i = if i = slot then .live value else p.cell i := by
  cases hlast : p.freeList.getLast? with
  | none =>
    refine .inl ⟨List.getLast?_eq_none_iff.mp hlast, ?_⟩
    simp only [alloc, hlast]
  | some slot =>
    obtain ⟨rest, hrest⟩ := List.getLast?_eq_some_iff.mp hlast
    have hslot : slot.toNat < p.capacity := h.inside slot (by simp [hrest])
    have hnodup := h.nodup
    rw [hrest, List.nodup_append] at hnodup
    obtain ⟨hnodup, -, hapart⟩ := hnodup
    have hout : slot ∉ rest := fun hmem => hapart slot hmem slot List.mem_cons_self rfl
    have hpoint (i : UInt32) : (({ p with freeList := rest } : Pool T).write slot value).cell i =
        if i = slot then .live value else p.cell i := getD_set p.base _ _ (h.base ▸ hslot)
    refine .inr ⟨slot, ({ p with freeList := rest } : Pool T).write slot value, hrest, hslot, ?_,
      ?_, rfl, rfl, hpoint⟩
    · simp only [alloc, hlast]
      rw [hrest, List.dropLast_concat]
      rfl
    · refine ⟨(List.length_set).trans h.base, h.generations, h.small, ?_, hnodup, ?_⟩
      · intro i hi
        exact h.inside i (by simp [hrest, show i ∈ rest from hi])
      · intro i hi
        rw [hpoint]
        by_cases heq : i = slot
        · subst heq
          simp only [if_true, Cell.live.injEq, exists_eq', iff_true]
          exact hout
        · rw [if_neg heq, ← h.live i hi, hrest]
          simp [heq, Pool.write]

theorem Wf.cell_release (h : p.Wf) {slot : UInt32} (hslot : slot.toNat < p.capacity)
    (i : UInt32) : (p.release slot).cell i = if i = slot then (p.cell slot).drop else p.cell i :=
  getD_set p.base _ _ (h.base ▸ hslot)

theorem Wf.generation_release (h : p.Wf) {slot : UInt32} (hslot : slot.toNat < p.capacity)
    (i : UInt32) :
    (p.release slot).generation i = if i = slot then p.generation slot + 1 else p.generation i :=
  getD_set p.generations _ _ (h.generations ▸ hslot)

/-- **Releasing a slot that holds a value** keeps the invariant. -/
theorem Wf.release (h : p.Wf) {slot : UInt32} (hslot : slot.toNat < p.capacity)
    (hlive : slot ∉ p.freeList) : (p.release slot).Wf where
  base := (List.length_set).trans h.base
  generations := (List.length_set).trans h.generations
  small := h.small
  inside i hi := by
    rcases List.mem_append.mp hi with hi | hi
    · exact h.inside i hi
    · rw [List.mem_singleton.mp hi]
      exact hslot
  nodup := by
    refine h.nodup.append (List.nodup_singleton _) ?_
    intro i hi hmem
    exact hlive (List.mem_singleton.mp hmem ▸ hi)
  live i hi := by
    rw [h.cell_release hslot]
    by_cases heq : i = slot
    · subst heq
      obtain ⟨value, hvalue⟩ := (h.live i hslot).mp hlive
      simp [hvalue, Cell.drop, Pool.release]
    · rw [if_neg heq, ← h.live i hi]
      simp [heq, Pool.release]

/-- **`free`** rejects a handle that fails the test, and else releases its slot. -/
theorem free_eq (p : Pool T) (handle : PoolHandle) :
    p.free handle =
      if p.Matches handle then (.ok (), p.release handle.idx)
      else (.error (.invalidSlot handle.idx), p) := by
  by_cases hm : p.Matches handle
  · rw [free, if_neg (Nat.not_le.mpr hm.1), if_neg (not_not.mpr hm.2), if_pos hm]
  · rw [if_neg hm]
    rcases not_matches_iff.mp hm with hle | hne
    · rw [free, if_pos hle]
    · rw [free, if_pos hne, ite_self]

/-- The slots `iter` and `Drop` go through. -/
def used (p : Pool T) : List UInt32 :=
  ((List.range p.capacity).map UInt32.ofNat).filter fun i => i ∉ p.freeList

theorem drop_eq_map (p : Pool T) : p.drop = p.iter.map Prod.snd := by
  rw [drop, iter, List.map_filterMap]
  congr 1
  funext i
  split <;> rfl

theorem Wf.iter_eq (h : p.Wf) : p.iter = p.used.map fun i => (i, p.cell i) := by
  rw [iter, used, List.filter_map, List.map_map, ← List.filterMap_eq_map, List.filterMap_filter]
  refine List.filterMap_congr ?_
  intro i hi
  have hnat := ofNat_toNat_lt (List.mem_range.mp hi) h.small
  by_cases hfree : UInt32.ofNat i ∈ p.freeList
  · simp [hfree]
  · simp [hfree, cell, hnat]

end Wf

theorem tryWithCapacity_eq_ok {layout room : Bool} {capacity : Nat} {p : Pool T}
    (hnew : Pool.tryWithCapacity layout room capacity = .ok p) :
    p = ⟨List.replicate (max capacity 1) .uninit, max capacity 1,
      (List.range (max capacity 1)).map UInt32.ofNat, List.replicate (max capacity 1) 0⟩ := by
  unfold Pool.tryWithCapacity at hnew
  split at hnew
  · cases hnew
  · split at hnew
    · cases hnew
    · exact (Except.ok.inj hnew).symm

theorem Wf.tryWithCapacity {layout room : Bool} {capacity : Nat} {p : Pool T}
    (hnew : Pool.tryWithCapacity layout room capacity = .ok p) (hsmall : capacity ≤ 2 ^ 32) :
    p.Wf := by
  rw [tryWithCapacity_eq_ok hnew]
  have hle : max capacity 1 ≤ 2 ^ 32 := Nat.max_le.mpr ⟨hsmall, Nat.one_le_two_pow⟩
  refine ⟨List.length_replicate, List.length_replicate, hle, ?_, ?_, ?_⟩
  · intro i hi
    obtain ⟨n, hn, rfl⟩ := List.mem_map.mp hi
    have hlt := List.mem_range.mp hn
    rw [ofNat_toNat_lt hlt hle]
    exact hlt
  · refine List.Nodup.map_on ?_ List.nodup_range
    intro m hm n hn heq
    have hnat := congrArg UInt32.toNat heq
    rwa [ofNat_toNat_lt (List.mem_range.mp hm) hle,
      ofNat_toNat_lt (List.mem_range.mp hn) hle] at hnat
  · intro i hi
    have hmem : i ∈ (List.range (max capacity 1)).map UInt32.ofNat :=
      List.mem_map.mpr ⟨i.toNat, List.mem_range.mpr hi, UInt32.ofNat_toNat⟩
    simp [hmem, Pool.cell, List.getD_eq_getElem?_getD, hi]

end Pool

end Mem
end EngineKit
