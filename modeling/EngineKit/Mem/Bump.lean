import EngineKit.Lib.CasLoop
import EngineKit.Mem.Arena

/-!
# The heap of the kernel without the standard library

A block of 64 KiB and an atomic cursor that only goes up. `try_alloc` looks at the size and the
alignment; then `alloc` moves the cursor with `fetch_update`: up to a multiple of the alignment, and
behind the bytes. Any threads call it, at the same time, and what they load of the cursor may be
stale.

`fetch_update` answers the cursor that it replaced, and this is where the pointer goes: to where the
bytes before have stopped, not to the multiple that was rounded up to. So the blocks are in the heap
and apart from each other, and follow one another with no gaps but those that the rounding leaves
behind them; but a block is aligned only where there was nothing to round (`bump_alloc`).

What is written through the pointers is not modelled.
-/

set_option autoImplicit false

namespace EngineKit
namespace Mem

open Lib

def HEAP_SIZE : UInt64 := 64 * 1024
def HEAP_ALIGNMENT : UInt64 := 4096

/-- `core::alloc::Layout`. -/
structure Layout where
  size : UInt64
  align : UInt64
  fits : layoutFits size align

/-- A layout that `alloc` takes to the cursor. -/
structure HeapRequest extends Layout where
  sized : size ≠ 0
  small : max align 1 ≤ HEAP_ALIGNMENT

namespace BumpAllocator

/-- What `alloc` does before the cursor. No request is a null pointer. -/
def alloc (layout : Layout) : Option HeapRequest :=
  if h : layout.size = 0 ∨ HEAP_ALIGNMENT < max layout.align 1 then none
  else
    some ⟨layout, fun hsize => h (.inl hsize), UInt64.not_lt.mp fun hlarge => h (.inr hlarge)⟩

/-- `try_alloc`, likewise. -/
def tryAlloc (size align : UInt64) : Option HeapRequest :=
  if size = 0 ∨ HEAP_ALIGNMENT < align then none
  else if h : layoutFits size align then alloc ⟨size, align, h⟩
  else none

/-- The closure of `fetch_update`: the next cursor. -/
def reserve (request : HeapRequest) (cursor : UInt64) : Option UInt64 :=
  let align := max request.align 1
  (checkedAdd cursor.toNat (saturatingSub align 1).toNat).bind fun sum =>
    let start := UInt64.ofNat sum &&& ~~~(align - 1)
    (checkedAdd start.toNat request.size.toNat).bind fun stop =>
      if stop ≤ HEAP_SIZE.toNat then some (.ofNat stop) else none

def heapRemaining (cursor : UInt64) : UInt64 := saturatingSub HEAP_SIZE cursor

def heapUsed (cursor : UInt64) : UInt64 := min cursor HEAP_SIZE

/-- The threads of type `T` on the heap. -/
abbrev Heap (T : Type) : Type := CasLoop.System T UInt64 HeapRequest

/-! ## One request -/

/-- Where a request takes the cursor. -/
def bump (cursor : Nat) (request : HeapRequest) : Nat :=
  roundUp cursor request.align.toNat + request.size.toNat

theorem le_bump (cursor : Nat) (request : HeapRequest) :
    cursor + request.size.toNat ≤ bump cursor request :=
  Nat.add_le_add_right (le_roundUp cursor (Nat.pos_of_isPowerOfTwo request.fits.1)) _

/-- An alignment is not zero. -/
theorem max_align (request : HeapRequest) : max request.align 1 = request.align := by
  have hpos := Nat.pos_of_isPowerOfTwo request.fits.1
  refine UInt64.toNat_inj.mp ?_
  show (if request.align ≤ 1 then 1 else request.align).toNat = _
  split
  · next hle =>
    have hle := UInt64.le_iff_toNat_le.mp hle
    exact Nat.le_antisymm hpos hle
  · rfl

/-- The requests are those that `try_alloc` takes. -/
theorem tryAlloc_request (request : HeapRequest) :
    tryAlloc request.size request.align = some request := by
  have hsmall := request.small
  rw [max_align] at hsmall
  have hguard : ¬ (request.size = 0 ∨ HEAP_ALIGNMENT < request.align) := by
    intro h
    rcases h with hsize | hlarge
    · exact request.sized hsize
    · exact UInt64.not_lt.mpr hsmall hlarge
  have hguard' : ¬ (request.size = 0 ∨ HEAP_ALIGNMENT < max request.align 1) := by
    rw [max_align]
    exact hguard
  rw [tryAlloc, if_neg hguard, dif_pos request.fits, alloc, dif_neg hguard']

theorem align_le (request : HeapRequest) : request.align.toNat ≤ 4096 := by
  have hsmall := UInt64.le_iff_toNat_le.mp request.small
  rw [max_align] at hsmall
  exact hsmall

/-- The closure fails if the bytes do not fit, and for no other reason: a sum that wraps is far
    outside. -/
theorem reserve_eq (request : HeapRequest) (cursor : UInt64) :
    reserve request cursor =
      if bump cursor.toNat request ≤ 65536 then some (.ofNat (bump cursor.toNat request))
      else none := by
  have halign := align_le request
  have hone : (1 : UInt64) ≤ request.align :=
    UInt64.le_iff_toNat_le.mpr (Nat.pos_of_isPowerOfTwo request.fits.1)
  have hpred : (saturatingSub request.align 1).toNat = request.align.toNat - 1 := by
    rw [saturatingSub, if_pos hone]
    exact UInt64.toNat_sub_of_le _ _ hone
  unfold reserve
  simp only [max_align, hpred]
  by_cases hsum : cursor.toNat + (request.align.toNat - 1) < 2 ^ 64
  · have hstart : (UInt64.ofNat (cursor.toNat + (request.align.toNat - 1)) &&&
        ~~~(request.align - 1)).toNat = roundUp cursor.toNat request.align.toNat := by
      rw [toNat_and_not_mask _ request.fits.1, UInt64.toNat_ofNat_of_lt' hsum, roundUp]
    simp only [checkedAdd_of_lt hsum, Option.bind_some, hstart]
    by_cases hfits : roundUp cursor.toNat request.align.toNat + request.size.toNat < 2 ^ 64
    · rw [checkedAdd_of_lt hfits]
      rfl
    · rw [checkedAdd, if_neg hfits, Option.bind_none, if_neg]
      show ¬ roundUp cursor.toNat request.align.toNat + request.size.toNat ≤ 65536
      omega
  · have hle := le_bump cursor.toNat request
    rw [checkedAdd, if_neg hsum, Option.bind_none, if_neg]
    omega

theorem reserve_some {request : HeapRequest} {cursor next : UInt64}
    (h : reserve request cursor = some next) :
    next.toNat = bump cursor.toNat request ∧ next.toNat ≤ 65536 := by
  rw [reserve_eq] at h
  obtain ⟨hfits, heq⟩ := Option.ite_none_right_eq_some.mp h
  have hnext : next.toNat = bump cursor.toNat request := by
    rw [← Option.some.inj heq]
    exact UInt64.toNat_ofNat_of_lt' (Nat.lt_of_le_of_lt hfits (by decide))
  exact ⟨hnext, hnext ▸ hfits⟩

/-- An alignment divides the address of the heap. -/
theorem align_dvd_base (request : HeapRequest) {base : Nat} (hbase : 4096 ∣ base) :
    request.align.toNat ∣ base := by
  have hle := align_le request
  obtain ⟨k, hk⟩ := request.fits.1
  rw [hk] at hle ⊢
  have hk12 : k ≤ 12 := (Nat.pow_le_pow_iff_right (by decide)).mp (show 2 ^ k ≤ 2 ^ 12 from hle)
  exact Nat.dvd_trans (Nat.pow_dvd_pow 2 hk12) hbase

/-! ## A run -/

section Run

variable {T : Type}

/-- Where a list of requests takes the cursor. -/
def bumps (log : List (T × HeapRequest × UInt64)) : Nat :=
  (log.map fun entry => entry.2.1).foldl bump 0

/-- Two blocks have no byte in common. -/
def Apart (a b : HeapRequest × UInt64) : Prop :=
  a.2.toNat + a.1.size.toNat ≤ b.2.toNat ∨ b.2.toNat + b.1.size.toNat ≤ a.2.toNat

instance : Std.Symm Apart := ⟨fun _ _ h => h.symm⟩

/-- What is so of the heap. The blocks of `log` are in the order of the cursor; those that have been
    `returned` are what the callers have. -/
structure Bumped (s : Heap T) : Prop where
  cursor : s.cell.toNat = bumps s.log
  used : (heapUsed s.cell).toNat + (heapRemaining s.cell).toNat = 65536
  offset : ∀ before entry after, s.log = before ++ entry :: after →
    entry.2.2.toNat = bumps before
  inside : ∀ i request old, (i, request, .ok old) ∈ s.returned →
    old.toNat + request.size.toNat ≤ 65536
  apart : s.returned.Pairwise fun a b => ∀ old old', a.2.2 = .ok old → b.2.2 = .ok old' →
    Apart (a.2.1, old) (b.2.1, old')
  aligned : ∀ base, 4096 ∣ base → ∀ i request old, (i, request, .ok old) ∈ s.returned →
    (request.align.toNat ∣ base + old.toNat ↔
      bump old.toNat request = old.toNat + request.size.toNat)
  refused : ∀ i request seen, (i, request, .error seen) ∈ s.returned →
    65536 < bump s.cell.toNat request

/-- The cursor, replayed. -/
theorem bumps_of_chain {log : List (T × HeapRequest × UInt64)} {cursor : UInt64}
    (h : CasLoop.Chain reserve 0 log cursor) :
    cursor.toNat = bumps log ∧ cursor.toNat ≤ 65536 ∧
      ∀ before entry after, log = before ++ entry :: after → entry.2.2.toNat = bumps before := by
  induction h with
  | start =>
    refine ⟨rfl, Nat.zero_le _, ?_⟩
    intro before entry after hsplit
    simp at hsplit
  | @update log old next request _ thread hnext ih =>
    obtain ⟨hold, -, hoffset⟩ := ih
    obtain ⟨hbump, hroom⟩ := reserve_some hnext
    refine ⟨?_, hroom, ?_⟩
    · rw [hbump, hold, bumps, bumps, List.map_append, List.foldl_append]
      rfl
    · intro before entry after hsplit
      rcases List.eq_nil_or_concat after with rfl | ⟨between, last, rfl⟩
      · obtain ⟨rfl, hentry⟩ := List.append_inj' hsplit rfl
        obtain rfl := (List.cons.inj hentry).1
        exact hold
      · rw [List.concat_eq_append, ← List.cons_append, ← List.append_assoc] at hsplit
        obtain ⟨hlog, -⟩ := List.append_inj' hsplit rfl
        exact hoffset before entry between hlog

/-- A request that does not fit does not fit later. -/
theorem bump_mono (request : HeapRequest) {a b : Nat} (h : a ≤ b) :
    bump a request ≤ bump b request :=
  Nat.add_le_add_right (Nat.mul_le_mul_right _ (Nat.div_le_div_right (Nat.add_le_add_right h _))) _

theorem reserve_up (request : HeapRequest) (cursor next : UInt64)
    (h : reserve request cursor = some next) :
    cursor.toNat ≤ next.toNat ∧ cursor.toNat + request.size.toNat ≤ next.toNat := by
  have hle := le_bump cursor.toNat request
  rw [(reserve_some h).1]
  exact ⟨Nat.le_trans (Nat.le_add_right _ _) hle, hle⟩

/-- **What is so of the heap of the kernel**, in every run of any threads on it. The cursor is
    where the requests that were served take it, one after the other from the start of the heap,
    each up to a multiple of its alignment and behind its bytes; each was given the place where
    those before it have stopped. What the callers have is in the heap, and no two blocks have a
    byte in common. A block is aligned exactly if there was nothing to round before it. A request
    that was refused does not fit any more. -/
theorem bump_alloc [DecidableEq T] {s : Heap T}
    (hrun : Reaches (CasLoop.steps reserve) (CasLoop.start 0) s) : Bumped s := by
  have hlooped := CasLoop.looped 0 hrun
  obtain ⟨hcursor, hroom, hoffset⟩ := bumps_of_chain hlooped.chain
  obtain ⟨hpairwise, hstop⟩ := hlooped.chain.pairwise UInt64.toNat
    (fun request old => old.toNat + request.size.toNat) reserve_up
  have hheap : HEAP_SIZE.toNat = 65536 := rfl
  refine ⟨hcursor, ?_, hoffset, ?_, ?_, ?_, ?_⟩
  · have hle : s.cell ≤ HEAP_SIZE := UInt64.le_iff_toNat_le.mpr hroom
    rw [heapUsed, heapRemaining, saturatingSub, if_pos hle, UInt64.toNat_sub_of_le _ _ hle, hheap]
    show (if s.cell ≤ HEAP_SIZE then s.cell else HEAP_SIZE).toNat + _ = _
    rw [if_pos hle]
    exact Nat.add_sub_cancel' hroom
  · intro i request old hmem
    exact Nat.le_trans (hstop _ (hlooped.mem_log hmem)) hroom
  · exact hlooped.apart (hpairwise.imp Or.inl)
  · intro base hbase i request old hmem
    have hpos := Nat.pos_of_isPowerOfTwo request.fits.1
    rw [Nat.dvd_add_right (align_dvd_base request hbase), ← roundUp_eq_self_iff _ hpos]
    exact (Nat.add_right_cancel_iff).symm
  · intro i request seen hmem
    obtain ⟨hnone, hpast⟩ := hlooped.refused i request seen hmem
    obtain ⟨log, hbefore, hchain⟩ := hlooped.past seen hpast
    have hle := hlooped.chain.le_of_prefix UInt64.toNat
      (fun request cursor next h => (reserve_up request cursor next h).1) hchain hbefore
    rw [reserve_eq] at hnone
    have hfull : ¬ bump seen.toNat request ≤ 65536 := by
      intro hfits
      rw [if_pos hfits] at hnone
      cases hnone
    exact Nat.lt_of_lt_of_le (Nat.not_le.mp hfull) (bump_mono request hle)

end Run

/-- One byte at any place, and eight at a multiple of eight. -/
def byteRequest : HeapRequest := ⟨⟨1, 1, ⟨0, rfl⟩, by decide⟩, by decide, by decide⟩
def wordRequest : HeapRequest := ⟨⟨8, 8, ⟨3, rfl⟩, by decide⟩, by decide, by decide⟩

/-- Two threads that have loaded the same cursor: the second has to load it anew, and is given the
    place behind the byte of the first, which is no multiple of eight. -/
theorem bump_alloc_two : ∃ s : Heap Bool,
    Reaches (CasLoop.steps reserve) (CasLoop.start 0) s ∧ Bumped s ∧
      s.returned = [(false, byteRequest, .ok 0), (true, wordRequest, .ok 1)] ∧ s.cell = 16 := by
  let acts : List (CasLoop.CasAct Bool UInt64 HeapRequest) :=
    [.call false byteRequest, .call true wordRequest, .load false 0, .load true 0,
      .exchange false false, .exchange true false, .load true 1, .exchange true false, .ret false,
      .ret true]
  obtain ⟨s, hs, hreturned, hcell⟩ : ∃ s : Heap Bool,
      acts.foldlM (CasLoop.next reserve) (CasLoop.start 0) = some s ∧
        s.returned = [(false, byteRequest, .ok 0), (true, wordRequest, .ok 1)] ∧ s.cell = 16 :=
    ⟨_, rfl, rfl, rfl⟩
  have hrun : Reaches (CasLoop.steps reserve) (CasLoop.start 0) s :=
    Reaches.foldlM (fun _ _ _ _ hstep => hstep) hs
  exact ⟨s, hrun, bump_alloc hrun, hreturned, hcell⟩

end BumpAllocator

end Mem
end EngineKit
