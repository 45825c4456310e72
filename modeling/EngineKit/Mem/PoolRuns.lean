import EngineKit.Mem.Pool

/-!
# Runs of the pool

With handles of any origin a pool's operations meet a value if and only if the handle is not a
forged one (`free_slots_rejected_iff`). One that is forged reads memory never written, or drops a
value twice, and its slot is then on the free list twice.

With the pool's own handles there is nothing to forge (`own_handles_lawful`): those of values in
the pool name slots that are not free, and those of values freed are generations behind, as long
as a slot's generation has not come round. The pool is then a finite map from the handles in use
to values (`PoolLife.held`).
-/

set_option autoImplicit false

namespace EngineKit
namespace Mem

open Lib

inductive PoolOp (T : Type) where
  | alloc (value : T)
  | free (handle : PoolHandle)
  | get (handle : PoolHandle)
  /-- `get_mut`, and the value assigned to what it borrows. -/
  | getMut (handle : PoolHandle) (value : T)

variable {T : Type}

/-- The handle the operation is given. -/
def PoolOp.handle? : PoolOp T → Option PoolHandle
  | .alloc _ => none
  | .free handle | .get handle | .getMut handle _ => some handle

/-! ## Handles of any origin -/

namespace Pool

def step (p : Pool T) : PoolOp T → Pool T
  | .alloc value => (p.alloc value).2
  | .free handle => (p.free handle).2
  | .get _ => p
  | .getMut handle value =>
    match p.getMut handle with
    | none => p
    | some (_, assign) => assign value

abbrev steps : Pool T → PoolOp T → Pool T → Prop := fun p op q => q = p.step op

/-- The operation is given no forged handle. -/
def Honest (p : Pool T) (op : PoolOp T) : Prop := ∀ handle ∈ op.handle?, ¬ p.Forged handle

/-- **The law of a handle**: nothing is read, borrowed or dropped but a value, and what is freed
    was not free. -/
structure Guards (p : Pool T) (handle : PoolHandle) : Prop where
  get (cell : Cell T) : p.get handle = some cell → ∃ value, cell = .live value
  getMut (cell : Cell T) (assign : T → Pool T) : p.getMut handle = some (cell, assign) →
    ∃ value, cell = .live value
  free : (p.free handle).1 = .ok () →
    (∃ value, p.cell handle.idx = .live value) ∧ handle.idx ∉ p.freeList

section Guards

variable {p q : Pool T}

theorem Wf.live_of_matches (h : p.Wf) {handle : PoolHandle} (hm : p.Matches handle)
    (hforged : ¬ p.Forged handle) :
    handle.idx ∉ p.freeList ∧ ∃ value, p.cell handle.idx = .live value := by
  have hout : handle.idx ∉ p.freeList := fun hmem => hforged ⟨hmem, hm.2⟩
  exact ⟨hout, (h.live handle.idx hm.1).mp hout⟩

/-- **A handle keeps the law** if and only if it is not forged. -/
theorem Wf.guards_iff (h : p.Wf) (handle : PoolHandle) :
    p.Guards handle ↔ ¬ p.Forged handle := by
  constructor
  · intro hguards hforged
    have hm : p.Matches handle := ⟨h.inside _ hforged.1, hforged.2⟩
    have hok : (p.free handle).1 = .ok () := by rw [free_eq, if_pos hm]
    exact (hguards.free hok).2 hforged.1
  · intro hforged
    constructor
    · intro cell hget
      rw [get_eq] at hget
      split at hget
      · next hm =>
        obtain ⟨-, value, hvalue⟩ := h.live_of_matches hm hforged
        exact ⟨value, (Option.some.inj hget).symm.trans hvalue⟩
      · cases hget
    · intro cell assign hget
      rw [getMut_eq] at hget
      split at hget
      · next hm =>
        obtain ⟨-, value, hvalue⟩ := h.live_of_matches hm hforged
        have hcell := (Prod.mk.inj (Option.some.inj hget)).1
        exact ⟨value, hcell.symm.trans hvalue⟩
      · cases hget
    · intro hok
      rw [free_eq] at hok
      split at hok
      · next hm => exact (h.live_of_matches hm hforged).symm
      · cases hok

theorem Wf.step (h : p.Wf) {op : PoolOp T} (hop : p.Honest op) : (p.step op).Wf := by
  cases op with
  | alloc value =>
    rcases h.alloc_cases value with ⟨-, hrun⟩ | ⟨slot, p', -, -, hrun, hwf, -⟩
    · simp only [Pool.step, hrun]
      exact h
    · simp only [Pool.step, hrun]
      exact hwf
  | free handle =>
    simp only [Pool.step, free_eq]
    split
    · next hm => exact h.release hm.1 (h.live_of_matches hm (hop handle rfl)).1
    · exact h
  | get handle => exact h
  | getMut handle value =>
    simp only [Pool.step, getMut_eq]
    by_cases hm : p.Matches handle
    · rw [if_pos hm]
      exact h.write hm.1 (h.live_of_matches hm (hop handle rfl)).1 value
    · rw [if_neg hm]
      exact h

theorem Wf.run (h : p.Wf) (hr : Reaches (Guarded Honest steps) p q) : q.Wf := by
  refine hr.invariant Wf h ?_
  rintro s op _ hwf ⟨hop, rfl⟩
  exact hwf.step hop

/-- A block of more slots than there are indices lists some of them as free twice, and the first
    slot handed out is such a one. -/
theorem not_guards_of_large {layout room : Bool} {capacity : Nat}
    (hnew : Pool.tryWithCapacity layout room capacity = .ok p) (hlarge : 2 ^ 32 < capacity)
    (value : T) :
    ∃ handle, (p.alloc value).1 = .ok handle ∧ ¬ (p.alloc value).2.Guards handle := by
  rw [tryWithCapacity_eq_ok hnew]
  obtain ⟨n, rfl⟩ : ∃ n, capacity = n + 1 := ⟨capacity - 1, by omega⟩
  rw [Nat.max_eq_left (Nat.le_add_left 1 n)]
  have hfree : (List.range (n + 1)).map UInt32.ofNat =
      (List.range n).map UInt32.ofNat ++ [UInt32.ofNat n] := by
    rw [List.range_succ, List.map_append, List.map_singleton]
  -- `n as u32` is also that of `n % 2 ^ 32`, which stays on the list
  have hmod : (UInt32.ofNat n).toNat < n := by
    rw [UInt32.toNat_ofNat']
    omega
  have htwice : UInt32.ofNat n ∈ (List.range n).map UInt32.ofNat :=
    List.mem_map.mpr ⟨_, List.mem_range.mpr hmod, UInt32.ofNat_toNat⟩
  have hgen (i : UInt32) : (List.replicate (n + 1) (0 : UInt32)).getD i.toNat 0 = 0 := by
    rw [List.getD_eq_getElem?_getD, List.getElem?_replicate]
    split <;> rfl
  refine ⟨⟨UInt32.ofNat n, 0⟩, ?_, ?_⟩
  · simp only [alloc, hfree, List.getLast?_concat, generation, hgen]
  · intro hguards
    refine (hguards.free ?_).2 ?_
    · rw [free_eq, if_pos]
      simp only [alloc, hfree, List.getLast?_concat]
      exact ⟨Nat.lt_succ_of_lt hmod, hgen _⟩
    · simp only [alloc, hfree, List.getLast?_concat, List.dropLast_concat]
      exact htwice

/-- **A handle is rejected by a free slot** if and only if it is not forged, in every run given no
    forged handle of a pool of at most `2 ^ 32` slots. In a larger one the first handle it returns
    breaks the law. -/
theorem free_slots_rejected_iff {layout room : Bool} {capacity : Nat}
    (hnew : Pool.tryWithCapacity layout room capacity = .ok p) :
    (capacity ≤ 2 ^ 32 → ∀ q, Reaches (Guarded Honest steps) p q →
      q.freeList.Nodup ∧ ∀ handle, q.Guards handle ↔ ¬ q.Forged handle) ∧
      (2 ^ 32 < capacity → ∀ value : T,
        ∃ handle, (p.alloc value).1 = .ok handle ∧ ¬ (p.alloc value).2.Guards handle) := by
  refine ⟨?_, ?_⟩
  · intro hsmall q hr
    have hwf := (Wf.tryWithCapacity hnew hsmall).run hr
    exact ⟨hwf.nodup, hwf.guards_iff⟩
  · intro hlarge value
    exact not_guards_of_large hnew hlarge value

/-- The slot is on the free list, and the handle that names it at its generation is the one that
    gets through. -/
theorem free_slots_rejected_one : ¬ (⟨[.uninit], 1, [0], [0]⟩ : Pool Nat).Guards ⟨0, 0⟩ := by
  have hnew : Pool.tryWithCapacity true true 1 = .ok (⟨[.uninit], 1, [0], [0]⟩ : Pool Nat) := rfl
  have hlaw := (free_slots_rejected_iff hnew).1 Nat.one_le_two_pow _ .refl
  exact fun hguards => (hlaw.2 ⟨0, 0⟩).mp hguards (by decide)

/-- The handle another pool returned, where this one has a free slot at its generation. Memory
    that was never written is read through it, and the slot is freed while it is free. -/
theorem reads_free_slot : ∃ p handle, Pool.tryWithCapacity true true 1 = .ok p ∧
    (p.alloc 7).1 = .ok handle ∧ p.get handle = some (.uninit : Cell Nat) ∧
      (p.free handle).1 = .ok () ∧ (p.free handle).2.freeList = [0, 0] :=
  ⟨⟨[.uninit], 1, [0], [0]⟩, ⟨0, 0⟩, by rfl, by rfl, by rfl, by rfl, by rfl⟩

end Guards

end Pool

/-! ## The pool's own handles -/

/-- A pool, the handles of the values in it, each with the value last stored under it, and the
    handles freed, in order. -/
structure PoolLife (T : Type) where
  pool : Pool T
  held : List (PoolHandle × T)
  freed : List PoolHandle

namespace PoolLife

def step (s : PoolLife T) : PoolOp T → PoolLife T
  | .alloc value =>
    match s.pool.alloc value with
    | (.error _, pool) => { s with pool }
    | (.ok handle, pool) => { s with pool, held := s.held ++ [(handle, value)] }
  | .free handle =>
    match s.pool.free handle with
    | (.error _, pool) => { s with pool }
    | (.ok (), pool) =>
      { pool, held := s.held.filter fun e => e.1 ≠ handle, freed := s.freed ++ [handle] }
  | .get _ => s
  | .getMut handle value =>
    match s.pool.getMut handle with
    | none => s
    | some (_, assign) =>
      { s with
        pool := assign value
        held := s.held.map fun e => if e.1 = handle then (handle, value) else e }

/-- How often the slot has been freed. -/
def recycled (s : PoolLife T) (i : UInt32) : Nat := (s.freed.filter fun x => x.idx = i).length

/-- A handle this pool has returned. -/
def Issued (s : PoolLife T) (handle : PoolHandle) : Prop :=
  handle ∈ s.held.map Prod.fst ∨ handle ∈ s.freed

/-- The operation is given a handle of this pool's, and frees no slot for the `2 ^ 32`-th time. -/
def Own (s : PoolLife T) : PoolOp T → Prop
  | .alloc _ => True
  | .free handle => s.Issued handle ∧
      (handle ∈ s.held.map Prod.fst → s.recycled handle.idx + 1 < 2 ^ 32)
  | .get handle | .getMut handle _ => s.Issued handle

abbrev steps : PoolLife T → PoolOp T → PoolLife T → Prop :=
  Guarded Own fun s op t => t = s.step op

/-- **The invariant.** Every slot is free or one handle's in use, at whose generation it is; and
    its generation counts how often it was freed. -/
structure Wf (s : PoolLife T) : Prop where
  pool : s.pool.Wf
  slots : (s.pool.freeList ++ s.held.map fun e => e.1.idx).Perm
    ((List.range s.pool.capacity).map UInt32.ofNat)
  held : ∀ e ∈ s.held, e.1.idx.toNat < s.pool.capacity ∧
    s.pool.generation e.1.idx = e.1.generation ∧ s.pool.cell e.1.idx = .live e.2
  recycled (i : UInt32) : i.toNat < s.pool.capacity →
    (s.pool.generation i).toNat = s.recycled i
  stale : ∀ x ∈ s.freed, x.idx.toNat < s.pool.capacity ∧
    x.generation.toNat < (s.pool.generation x.idx).toNat

section Wf

variable {s t : PoolLife T}

theorem Wf.new {layout room : Bool} {capacity : Nat} {p : Pool T}
    (hnew : Pool.tryWithCapacity layout room capacity = .ok p) (hsmall : capacity ≤ 2 ^ 32) :
    (⟨p, [], []⟩ : PoolLife T).Wf where
  pool := Pool.Wf.tryWithCapacity hnew hsmall
  slots := by
    rw [Pool.tryWithCapacity_eq_ok hnew, List.map_nil, List.append_nil]
  held := List.forall_mem_nil _
  recycled i _ := by
    rw [Pool.tryWithCapacity_eq_ok hnew, Pool.generation, List.getD_eq_getElem?_getD,
      List.getElem?_replicate]
    split <;> rfl
  stale := List.forall_mem_nil _

theorem Wf.nodup (h : s.Wf) : (s.pool.freeList ++ s.held.map fun e => e.1.idx).Nodup := by
  refine h.slots.nodup_iff.mpr (List.Nodup.map_on ?_ List.nodup_range)
  intro m hm n hn heq
  have hnat := congrArg UInt32.toNat heq
  rwa [Pool.ofNat_toNat_lt (List.mem_range.mp hm) h.pool.small,
    Pool.ofNat_toNat_lt (List.mem_range.mp hn) h.pool.small] at hnat

theorem Wf.not_mem_freeList (h : s.Wf) {e : PoolHandle × T} (he : e ∈ s.held) :
    e.1.idx ∉ s.pool.freeList := by
  intro hmem
  exact (List.nodup_append.mp h.nodup).2.2 _ hmem _ (List.mem_map_of_mem he) rfl

theorem Wf.eq_of_idx (h : s.Wf) {e e' : PoolHandle × T} (he : e ∈ s.held) (he' : e' ∈ s.held)
    (hidx : e.1.idx = e'.1.idx) : e = e' :=
  List.inj_on_of_nodup_map (List.nodup_append.mp h.nodup).2.1 he he' hidx

/-- Of the pool's own handles, those of values in it pass the test. -/
theorem Wf.matches_iff (h : s.Wf) {handle : PoolHandle} (hown : s.Issued handle) :
    s.pool.Matches handle ↔ handle ∈ s.held.map Prod.fst := by
  constructor
  · intro hm
    rcases hown with hheld | hfreed
    · exact hheld
    · obtain ⟨-, hlt⟩ := h.stale handle hfreed
      rw [hm.2] at hlt
      exact absurd hlt (Nat.lt_irrefl _)
  · intro hheld
    obtain ⟨e, he, rfl⟩ := List.mem_map.mp hheld
    obtain ⟨hlt, hgen, -⟩ := h.held e he
    exact ⟨hlt, hgen⟩

/-- **No pool forges a handle** of its own. -/
theorem Wf.not_forged (h : s.Wf) {handle : PoolHandle} (hown : s.Issued handle) :
    ¬ s.pool.Forged handle := by
  intro hall
  obtain ⟨hmem, hgen⟩ := hall
  rcases hown with hheld | hfreed
  · obtain ⟨e, he, rfl⟩ := List.mem_map.mp hheld
    exact h.not_mem_freeList he hmem
  · obtain ⟨-, hlt⟩ := h.stale handle hfreed
    rw [hgen] at hlt
    exact Nat.lt_irrefl _ hlt

/-- Taking out the entry of one handle. -/
theorem Wf.perm_filter (h : s.Wf) {e : PoolHandle × T} (he : e ∈ s.held) :
    s.held.Perm (e :: s.held.filter fun x => x.1 ≠ e.1) := by
  have hnodup : s.held.Nodup := List.Nodup.of_map _ (List.nodup_append.mp h.nodup).2.1
  refine (List.perm_ext_iff_of_nodup hnodup ?_).mpr ?_
  · refine List.nodup_cons.mpr ⟨?_, hnodup.filter _⟩
    simp
  · intro x
    rw [List.mem_cons, List.mem_filter]
    constructor
    · intro hx
      by_cases hkey : x.1 = e.1
      · exact .inl (h.eq_of_idx hx he (congrArg PoolHandle.idx hkey))
      · exact .inr ⟨hx, by simpa using hkey⟩
    · rintro (rfl | hx)
      · exact he
      · exact hx.1

theorem Wf.alloc (h : s.Wf) (value : T) : (s.step (.alloc value)).Wf := by
  rcases h.pool.alloc_cases value with ⟨-, hrun⟩ |
    ⟨slot, pool, hfree, hslot, hrun, hwf, hcap, hgen, hcell⟩
  · simp only [step, hrun]
    exact h
  · simp only [step, hrun]
    have hgen' (i : UInt32) : pool.generation i = s.pool.generation i := by
      rw [Pool.generation, hgen, Pool.generation]
    refine ⟨hwf, ?_, ?_, ?_, ?_⟩
    · have hslots := h.slots
      rw [hfree, List.append_assoc] at hslots
      rw [hcap, List.map_append, List.map_singleton]
      exact (List.perm_append_comm.append_left _).trans hslots
    · intro e he
      rcases List.mem_append.mp he with he | he
      · obtain ⟨hlt, hgene, hcelle⟩ := h.held e he
        have hne : e.1.idx ≠ slot := by
          intro heq
          exact h.not_mem_freeList he (by simp [hfree, heq])
        refine ⟨hcap ▸ hlt, (hgen' _).trans hgene, ?_⟩
        rw [hcell, if_neg hne]
        exact hcelle
      · obtain rfl := List.mem_singleton.mp he
        refine ⟨hcap ▸ hslot, hgen' _, ?_⟩
        rw [hcell, if_pos rfl]
    · intro i hi
      rw [hgen']
      exact h.recycled i (hcap ▸ hi)
    · intro x hx
      rw [hgen', hcap]
      exact h.stale x hx

theorem Wf.free (h : s.Wf) {handle : PoolHandle} (hop : s.Own (.free handle)) :
    (s.step (.free handle)).Wf := by
  by_cases hm : s.pool.Matches handle
  · have hheld := (h.matches_iff hop.1).mp hm
    have hfew := hop.2 hheld
    obtain ⟨e, he, rfl⟩ := List.mem_map.mp hheld
    have hcell := h.pool.cell_release hm.1
    have hgen := h.pool.generation_release hm.1
    have hnext : (s.pool.generation e.1.idx + 1).toNat = s.recycled e.1.idx + 1 := by
      rw [UInt32.toNat_add, UInt32.toNat_one, h.recycled _ hm.1]
      exact Nat.mod_eq_of_lt hfew
    simp only [step, Pool.free_eq, if_pos hm]
    refine ⟨h.pool.release hm.1 (h.not_mem_freeList he), ?_, ?_, ?_, ?_⟩
    · refine List.Perm.trans ?_ h.slots
      show ((s.pool.freeList ++ [e.1.idx]) ++ _).Perm _
      rw [List.append_assoc, List.singleton_append]
      exact ((h.perm_filter he).map fun x => x.1.idx).symm.append_left _
    · intro x hx
      obtain ⟨hx, hkey⟩ := List.mem_filter.mp hx
      have hne : x.1.idx ≠ e.1.idx := by
        intro hidx
        obtain rfl := h.eq_of_idx hx he hidx
        simp at hkey
      obtain ⟨hlt, hgenx, hcellx⟩ := h.held x hx
      refine ⟨hlt, ?_, ?_⟩
      · rw [hgen, if_neg hne]
        exact hgenx
      · rw [hcell, if_neg hne]
        exact hcellx
    · intro i hi
      rw [hgen]
      by_cases heq : i = e.1.idx
      · subst heq
        rw [if_pos rfl, hnext]
        simp [PoolLife.recycled]
      · rw [if_neg heq, h.recycled i hi]
        simp [PoolLife.recycled, Ne.symm heq]
    · intro x hx
      rw [hgen]
      rcases List.mem_append.mp hx with hx | hx
      · obtain ⟨hlt, hgenx⟩ := h.stale x hx
        refine ⟨hlt, ?_⟩
        split
        · next heq =>
          rw [hnext, ← h.recycled _ hm.1, ← heq]
          exact Nat.lt_succ_of_lt hgenx
        · exact hgenx
      · obtain rfl := List.mem_singleton.mp hx
        refine ⟨hm.1, ?_⟩
        rw [if_pos rfl, hnext, ← h.recycled _ hm.1, hm.2]
        exact Nat.lt_succ_self _
  · simp only [step, Pool.free_eq, if_neg hm]
    exact h

theorem Wf.getMut (h : s.Wf) {handle : PoolHandle} (hop : s.Issued handle) (value : T) :
    (s.step (.getMut handle value)).Wf := by
  by_cases hm : s.pool.Matches handle
  · obtain ⟨e, he, rfl⟩ := List.mem_map.mp ((h.matches_iff hop).mp hm)
    simp only [step, Pool.getMut_eq, if_pos hm]
    have hkey (x : PoolHandle × T) : (if x.1 = e.1 then (e.1, value) else x).1 = x.1 := by
      split
      · next heq => exact heq.symm
      · rfl
    refine ⟨h.pool.write hm.1 (h.not_mem_freeList he) value, ?_, ?_, h.recycled, h.stale⟩
    · rw [List.map_map]
      have hidx : ((fun x : PoolHandle × T => x.1.idx) ∘
          fun x => if x.1 = e.1 then (e.1, value) else x) = fun x => x.1.idx := by
        funext x
        exact congrArg PoolHandle.idx (hkey x)
      rw [hidx]
      exact h.slots
    · intro x hx
      obtain ⟨y, hy, rfl⟩ := List.mem_map.mp hx
      obtain ⟨hlt, hgen, hcell⟩ := h.held y hy
      rw [hkey, h.pool.cell_write hm.1]
      refine ⟨hlt, hgen, ?_⟩
      by_cases heq : y.1 = e.1
      · rw [if_pos (congrArg PoolHandle.idx heq), if_pos heq]
      · have hne : y.1.idx ≠ e.1.idx := by
          intro hidx
          exact heq (congrArg Prod.fst (h.eq_of_idx hy he hidx))
        rw [if_neg hne, if_neg heq]
        exact hcell
  · simp only [step, Pool.getMut_eq, if_neg hm]
    exact h

theorem Wf.step (h : s.Wf) {op : PoolOp T} (hop : s.Own op) : (s.step op).Wf := by
  cases op with
  | alloc value => exact h.alloc value
  | free handle => exact h.free hop
  | get handle => exact h
  | getMut handle value => exact h.getMut hop value

theorem Wf.run (h : s.Wf) (hr : Reaches steps s t) : t.Wf := by
  refine hr.invariant Wf h ?_
  rintro u op _ hwf ⟨hop, rfl⟩
  exact hwf.step hop

/-! ## The law of own handles -/

/-- **The pool is a finite map** from the handles in use to values. -/
structure Lawful (s : PoolLife T) : Prop where
  distinct : (s.held.map fun e => e.1.idx).Nodup
  reads : ∀ e ∈ s.held, s.pool.get e.1 = some (.live e.2) ∧
    s.pool.getMut e.1 = some (.live e.2, s.pool.write e.1.idx)
  stale : ∀ handle ∈ s.freed, s.pool.get handle = none ∧ s.pool.getMut handle = none ∧
    s.pool.free handle = (.error (.invalidSlot handle.idx), s.pool)
  full (value : T) (e : PoolError) : (s.pool.alloc value).1 = .error e →
    e = .exhausted ∧ s.held.length = s.pool.capacity
  count : s.pool.available + s.held.length = s.pool.capacity
  inUse (i : UInt32) : i.toNat < s.pool.capacity →
    (i ∉ s.pool.freeList ↔ ∃ e ∈ s.held, e.1.idx = i ∧ s.pool.cell i = .live e.2)
  iter : s.pool.iter.Perm (s.held.map fun e => (e.1.idx, .live e.2))
  drop : s.pool.drop.Perm (s.held.map fun e => .live e.2)

theorem Wf.count (h : s.Wf) : s.pool.available + s.held.length = s.pool.capacity := by
  have hlen := h.slots.length_eq
  rwa [List.length_append, List.length_map, List.length_map, List.length_range] at hlen

theorem Wf.used_perm (h : s.Wf) : s.pool.used.Perm (s.held.map fun e => e.1.idx) := by
  have hperm := h.slots.symm.filter fun i => i ∉ s.pool.freeList
  have hnone : s.pool.freeList.filter (fun i => i ∉ s.pool.freeList) = [] := by
    rw [List.filter_eq_nil_iff]
    intro i hi
    simpa using hi
  have hall : (s.held.map fun e => e.1.idx).filter (fun i => i ∉ s.pool.freeList) =
      s.held.map fun e => e.1.idx := by
    rw [List.filter_eq_self]
    intro i hi
    obtain ⟨e, he, rfl⟩ := List.mem_map.mp hi
    simpa using h.not_mem_freeList he
  rwa [List.filter_append, hnone, hall, List.nil_append] at hperm

theorem Wf.iter_perm (h : s.Wf) :
    s.pool.iter.Perm (s.held.map fun e => (e.1.idx, .live e.2)) := by
  have hmap : (s.held.map fun e => e.1.idx).map (fun i => (i, s.pool.cell i)) =
      s.held.map fun e => (e.1.idx, Cell.live e.2) := by
    rw [List.map_map]
    refine List.map_congr_left ?_
    intro e he
    exact congrArg (Prod.mk e.1.idx) (h.held e he).2.2
  rw [h.pool.iter_eq, ← hmap]
  exact h.used_perm.map _

theorem Wf.lawful (h : s.Wf) : s.Lawful where
  distinct := (List.nodup_append.mp h.nodup).2.1
  reads e he := by
    obtain ⟨hlt, hgen, hcell⟩ := h.held e he
    have hm : s.pool.Matches e.1 := ⟨hlt, hgen⟩
    rw [Pool.get_eq, Pool.getMut_eq, if_pos hm, if_pos hm, hcell]
    exact ⟨rfl, rfl⟩
  stale handle hfreed := by
    have hm : ¬ s.pool.Matches handle := by
      intro hm
      have hlt := (h.stale handle hfreed).2
      rw [hm.2] at hlt
      exact Nat.lt_irrefl _ hlt
    rw [Pool.get_eq, Pool.getMut_eq, Pool.free_eq, if_neg hm, if_neg hm, if_neg hm]
    exact ⟨rfl, rfl, rfl⟩
  full value e herror := by
    rcases h.pool.alloc_cases value with ⟨hfree, hrun⟩ | ⟨slot, pool, -, -, hrun, -⟩
    · rw [hrun] at herror
      have hcount := h.count
      rw [Pool.available, hfree, List.length_nil, Nat.zero_add] at hcount
      exact ⟨(Except.error.inj herror).symm, hcount⟩
    · rw [hrun] at herror
      cases herror
  count := h.count
  inUse i hi := by
    constructor
    · intro hout
      have hmem : i ∈ s.pool.freeList ++ s.held.map fun e => e.1.idx := by
        refine h.slots.mem_iff.mpr (List.mem_map.mpr ?_)
        exact ⟨i.toNat, List.mem_range.mpr hi, UInt32.ofNat_toNat⟩
      obtain ⟨e, he, rfl⟩ := List.mem_map.mp ((List.mem_append.mp hmem).resolve_left hout)
      exact ⟨e, he, rfl, (h.held e he).2.2⟩
    · intro hex
      obtain ⟨e, he, rfl, -⟩ := hex
      exact h.not_mem_freeList he
  iter := h.iter_perm
  drop := by
    rw [Pool.drop_eq_map]
    have hmap := h.iter_perm.map Prod.snd
    rwa [List.map_map] at hmap

/-- **Own handles keep the law** in every run that frees no slot `2 ^ 32` times. -/
theorem own_handles_lawful {layout room : Bool} {capacity : Nat} {p : Pool T}
    (hsmall : capacity ≤ 2 ^ 32) (hnew : Pool.tryWithCapacity layout room capacity = .ok p)
    (hr : Reaches steps ⟨p, [], []⟩ s) : s.Lawful :=
  ((Wf.new hnew hsmall).run hr).lawful

/-- A slot is freed and used again, and then freed by its first handle once more: that one is
    stale, and the second value stays. -/
theorem own_handles_lawful_reused :
    (⟨⟨[.live 9], 1, [], [1]⟩, [(⟨0, 1⟩, 9)], [⟨0, 0⟩]⟩ : PoolLife Nat).Lawful := by
  have hnew : Pool.tryWithCapacity true true 1 = .ok (⟨[.uninit], 1, [0], [0]⟩ : Pool Nat) := rfl
  have hrun : Reaches steps (⟨⟨[.uninit], 1, [0], [0]⟩, [], []⟩ : PoolLife Nat)
      ⟨⟨[.live 9], 1, [], [1]⟩, [(⟨0, 1⟩, 9)], [⟨0, 0⟩]⟩ :=
    .head ⟨.alloc 7, trivial, rfl⟩ (.head ⟨.free ⟨0, 0⟩, ⟨.inl (by decide), by decide⟩, rfl⟩
      (.head ⟨.alloc 9, trivial, rfl⟩ (.single ⟨.free ⟨0, 0⟩, ⟨.inr (by decide), by decide⟩, rfl⟩)))
  exact own_handles_lawful Nat.one_le_two_pow hnew hrun

end Wf

end PoolLife

end Mem
end EngineKit
