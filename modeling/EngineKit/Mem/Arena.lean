import EngineKit.Lib.Align
import EngineKit.Lib.Reach

/-!
# The bump arena

One block of memory and a cursor. `alloc_bytes` rounds the cursor up to the alignment asked for and
moves it behind the bytes; `put` and `slot` ask for those of a type; `reset` takes it back to the
start.

What is rounded is the cursor. It is small, since a block is at most `isize::MAX` bytes, so nothing
saturates, and between two resets the bytes handed out follow one another inside the block
(`isolated_of_run`). The address handed out is the block's plus the cursor, and the block is
only known to start at a multiple of 16: so an address is aligned to `a` exactly if `a` divides
the block's (`alloc_aligned_iff`).

What is written through the addresses is not modelled.
-/

set_option autoImplicit false

namespace EngineKit
namespace Mem

open Lib

def DEFAULT_ALIGN : UInt64 := 16

/-- `base` is the address of the block. -/
structure BumpArena where
  base : UInt64
  capacity : UInt64
  used : UInt64
  peak : UInt64
deriving DecidableEq

/-- `size_of` and `align_of` of a type. -/
structure TypeLayout where
  size : UInt64
  align : UInt64
  powerOfTwo : align.toNat.isPowerOfTwo

/-- `Layout::from_size_align` accepts it: rounded up, the size is at most `isize::MAX`. -/
def layoutFits (size align : UInt64) : Prop :=
  align.toNat.isPowerOfTwo ∧ size.toNat + (align.toNat - 1) < 2 ^ 63

instance (size align : UInt64) : Decidable (layoutFits size align) :=
  inferInstanceAs (Decidable (_ ∧ _))

namespace BumpArena

/-- `try_new`. `alloc` is the allocator, with the address of what it allocates. `new` makes the
    same arena, or does not return. -/
def tryNew (alloc : UInt64 → UInt64 → Option UInt64) (capacity : UInt64) : Option BumpArena :=
  let capacity := max capacity 1
  if layoutFits capacity DEFAULT_ALIGN then
    match alloc capacity DEFAULT_ALIGN with
    | none => none
    | some base => some ⟨base, capacity, 0, 0⟩
  else none

def alignUp (offset align : UInt64) : UInt64 :=
  saturatingAdd offset (saturatingSub align 1) &&& ~~~(saturatingSub align 1)

def reset (arena : BumpArena) : BumpArena := { arena with used := 0 }

/-- The address, and the arena. -/
def allocBytes (arena : BumpArena) (size align : UInt64) : Option UInt64 × BumpArena :=
  if align = 0 ∨ ¬ align.toNat.isPowerOfTwo then (none, arena)
  else
    let offset := alignUp arena.used align
    match checkedAdd offset.toNat size.toNat with
    | none => (none, arena)
    | some stop =>
      if arena.capacity.toNat < stop then (none, arena)
      else
        (some (arena.base + offset),
          { arena with used := .ofNat stop, peak := max arena.peak (.ofNat stop) })

def put (arena : BumpArena) (layout : TypeLayout) : Option UInt64 × BumpArena :=
  arena.allocBytes layout.size layout.align

def slot (arena : BumpArena) (layout : TypeLayout) : Option UInt64 × BumpArena :=
  arena.allocBytes layout.size layout.align

/-! ## One call -/

/-- The arena's invariant: the cursor is in the block, which is no larger than a layout. -/
structure Wf (arena : BumpArena) : Prop where
  used : arena.used ≤ arena.capacity
  capacity : arena.capacity.toNat + 15 < 2 ^ 63

theorem Wf.tryNew {alloc : UInt64 → UInt64 → Option UInt64} {capacity : UInt64}
    {arena : BumpArena} (h : tryNew alloc capacity = some arena) :
    arena.Wf ∧ arena.used = 0 ∧ arena.peak = 0 ∧
      ∃ size, alloc size DEFAULT_ALIGN = some arena.base := by
  unfold BumpArena.tryNew at h
  dsimp only at h
  split at h
  · next hfits =>
    split at h
    · cases h
    · next base halloc =>
      obtain rfl := Option.some.inj h
      exact ⟨⟨UInt64.le_iff_toNat_le.mpr (Nat.zero_le _), hfits.2⟩, rfl, rfl, _, halloc⟩
  · cases h

section Call

variable {arena : BumpArena}

/-- A power of two below `2 ^ 64` is at most `2 ^ 63`. -/
theorem le_of_isPowerOfTwo {align : UInt64} (h : align.toNat.isPowerOfTwo) :
    align.toNat ≤ 2 ^ 63 := by
  obtain ⟨k, hk⟩ := h
  have hlt := align.toNat_lt
  rw [hk] at hlt ⊢
  have hk63 := (Nat.pow_lt_pow_iff_right (by decide : 1 < 2)).mp hlt
  exact Nat.pow_le_pow_right (by decide) (Nat.le_of_lt_succ hk63)

/-- The cursor is well below what would saturate. -/
theorem Wf.toNat_alignUp (h : arena.Wf) {align : UInt64} (hpow : align.toNat.isPowerOfTwo) :
    (alignUp arena.used align).toNat = roundUp arena.used.toNat align.toNat := by
  have hused := UInt64.le_iff_toNat_le.mp h.used
  have hcapacity := h.capacity
  have hsmall := le_of_isPowerOfTwo hpow
  exact toNat_roundUp_mask hpow (by omega)

/-- **`alloc_bytes`** answers nothing and changes nothing, or takes bytes behind the cursor, at a
    multiple of the alignment. -/
theorem Wf.allocBytes_cases (h : arena.Wf) (size align : UInt64) :
    arena.allocBytes size align = (none, arena) ∨
      ∃ offset stop : UInt64, arena.allocBytes size align =
          (some (arena.base + offset), { arena with used := stop, peak := max arena.peak stop }) ∧
        arena.used ≤ offset ∧ align.toNat ∣ offset.toNat ∧
        stop.toNat = offset.toNat + size.toNat ∧ stop ≤ arena.capacity ∧
        align.toNat.isPowerOfTwo := by
  unfold allocBytes
  by_cases halign : align = 0 ∨ ¬ align.toNat.isPowerOfTwo
  · exact .inl (if_pos halign)
  · rw [if_neg halign]
    obtain ⟨-, hpow⟩ := not_or.mp halign
    rw [not_not] at hpow
    have hround := h.toNat_alignUp hpow
    dsimp only
    split
    · exact .inl rfl
    · next stop hstop =>
      split
      · exact .inl rfl
      · next hfits =>
        obtain rfl := eq_of_checkedAdd hstop
        have hlt := arena.capacity.toNat_lt
        have hnat : (UInt64.ofNat ((alignUp arena.used align).toNat + size.toNat)).toNat
            = (alignUp arena.used align).toNat + size.toNat :=
          UInt64.toNat_ofNat_of_lt' (by change _ < 2 ^ 64; omega)
        refine .inr ⟨_, _, rfl, ?_, ?_, hnat, ?_, hpow⟩
        · rw [UInt64.le_iff_toNat_le, hround]
          exact le_roundUp _ (Nat.pos_of_isPowerOfTwo hpow)
        · rw [hround]
          exact dvd_roundUp _ _
        · rw [UInt64.le_iff_toNat_le, hnat]
          exact Nat.le_of_not_lt hfits

end Call

end BumpArena

/-! ## Runs -/

inductive ArenaOp where
  | allocBytes (size align : UInt64)
  | put (layout : TypeLayout)
  | slot (layout : TypeLayout)
  | reset

def ArenaOp.perform (arena : BumpArena) : ArenaOp → Option UInt64 × BumpArena
  | .allocBytes size align => arena.allocBytes size align
  | .put layout => arena.put layout
  | .slot layout => arena.slot layout
  | .reset => (none, arena.reset)

/-- The size and the alignment that a call asks for. -/
def ArenaOp.request : ArenaOp → Option (UInt64 × UInt64)
  | .allocBytes size align => some (size, align)
  | .put layout | .slot layout => some (layout.size, layout.align)
  | .reset => none

/-- Bytes that were handed out, from the start of the block. -/
structure Block where
  offset : UInt64
  size : UInt64
  align : UInt64

/-- An arena, the blocks it has handed out since the last reset, and every value that `used` has had
    since it was made. -/
structure ArenaLife where
  arena : BumpArena
  blocks : List Block
  usedSeen : List UInt64

namespace ArenaLife

def new (arena : BumpArena) : ArenaLife := ⟨arena, [], [arena.used]⟩

def step (s : ArenaLife) (op : ArenaOp) : ArenaLife :=
  let (answer, arena) := op.perform s.arena
  { arena
    blocks :=
      match op.request with
      | none => []
      | some (size, align) =>
        s.blocks ++ answer.toList.map fun address => ⟨address - s.arena.base, size, align⟩
    usedSeen := s.usedSeen ++ [arena.used] }

abbrev steps : ArenaLife → ArenaOp → ArenaLife → Prop := fun s op t => t = s.step op

theorem perform_of_request {op : ArenaOp} {size align : UInt64}
    (h : op.request = some (size, align)) (arena : BumpArena) :
    op.perform arena = arena.allocBytes size align := by
  cases op with
  | allocBytes size' align' =>
    cases h
    rfl
  | put layout =>
    cases h
    rfl
  | slot layout =>
    cases h
    rfl
  | reset => cases h

/-- **The invariant.** The blocks follow one another up to the cursor, each at a multiple of its
    alignment; the peak is the largest cursor there has been. -/
structure Isolated (s : ArenaLife) : Prop where
  wf : s.arena.Wf
  ordered : s.blocks.Pairwise fun a b => a.offset.toNat + a.size.toNat ≤ b.offset.toNat
  behind : ∀ b ∈ s.blocks, b.offset.toNat + b.size.toNat ≤ s.arena.used.toNat
  aligned : ∀ b ∈ s.blocks, b.align.toNat ∣ b.offset.toNat
  current : s.arena.used ∈ s.usedSeen
  peakSeen : s.arena.peak ∈ s.usedSeen
  peakMax : ∀ used ∈ s.usedSeen, used ≤ s.arena.peak

theorem Isolated.new {arena : BumpArena} (h : arena.Wf) (hused : arena.used = 0)
    (hpeak : arena.peak = 0) : (new arena).Isolated where
  wf := h
  ordered := List.Pairwise.nil
  behind := List.forall_mem_nil _
  aligned := List.forall_mem_nil _
  current := List.mem_singleton_self _
  peakSeen := by
    rw [ArenaLife.new, hused, hpeak]
    exact List.mem_singleton_self 0
  peakMax := by
    intro used hmem
    rw [List.mem_singleton.mp hmem, ArenaLife.new, hused, hpeak]
    exact UInt64.le_refl 0

theorem u64_max_mem (a b : UInt64) {seen : List UInt64} (ha : a ∈ seen) :
    max a b ∈ seen ++ [b] := by
  have hmax : max a b = if a ≤ b then b else a := rfl
  rw [hmax]
  split
  · exact List.mem_append_right _ (List.mem_singleton_self b)
  · exact List.mem_append_left _ ha

/-- One more value of the cursor, no larger than the peak. -/
theorem Isolated.peakMax_snoc {s : ArenaLife} (h : s.Isolated) {peak used : UInt64}
    (hpeak : s.arena.peak ≤ peak) (hused : used ≤ peak) :
    ∀ seen ∈ s.usedSeen ++ [used], seen ≤ peak := by
  intro seen hmem
  rcases List.mem_append.mp hmem with hold | hnew
  · exact UInt64.le_trans (h.peakMax seen hold) hpeak
  · rw [List.mem_singleton.mp hnew]
    exact hused

theorem Isolated.reset {s : ArenaLife} (h : s.Isolated) : (s.step .reset).Isolated where
  wf := ⟨UInt64.le_iff_toNat_le.mpr (Nat.zero_le _), h.wf.capacity⟩
  ordered := List.Pairwise.nil
  behind := List.forall_mem_nil _
  aligned := List.forall_mem_nil _
  current := List.mem_append_right _ (List.mem_singleton_self _)
  peakSeen := List.mem_append_left _ h.peakSeen
  peakMax := h.peakMax_snoc (UInt64.le_refl _) (UInt64.le_iff_toNat_le.mpr (Nat.zero_le _))

theorem Isolated.refused {s : ArenaLife} (h : s.Isolated) :
    ArenaLife.Isolated ⟨s.arena, s.blocks, s.usedSeen ++ [s.arena.used]⟩ where
  wf := h.wf
  ordered := h.ordered
  behind := h.behind
  aligned := h.aligned
  current := List.mem_append_left _ h.current
  peakSeen := List.mem_append_left _ h.peakSeen
  peakMax := h.peakMax_snoc (UInt64.le_refl _) (h.peakMax _ h.current)

/-- Bytes from `offset` to `stop`, behind the cursor. -/
theorem Isolated.handed {s : ArenaLife} (h : s.Isolated) {offset stop size align : UInt64}
    (hused : s.arena.used ≤ offset) (hdvd : align.toNat ∣ offset.toNat)
    (hstop : stop.toNat = offset.toNat + size.toNat) (hfits : stop ≤ s.arena.capacity) :
    ArenaLife.Isolated ⟨{ s.arena with used := stop, peak := max s.arena.peak stop },
      s.blocks ++ [⟨offset, size, align⟩], s.usedSeen ++ [stop]⟩ := by
  have hbehind : ∀ b ∈ s.blocks, b.offset.toNat + b.size.toNat ≤ offset.toNat := by
    intro b hb
    exact Nat.le_trans (h.behind b hb) (UInt64.le_iff_toNat_le.mp hused)
  have hpeak := u64_toNat_max s.arena.peak stop
  constructor
  · exact ⟨hfits, h.wf.capacity⟩
  · refine List.pairwise_append.mpr ⟨h.ordered, List.pairwise_singleton _ _, ?_⟩
    intro a ha b hb
    rw [List.mem_singleton.mp hb]
    exact hbehind a ha
  · intro b hb
    rcases List.mem_append.mp hb with hold | hnew
    · show _ ≤ stop.toNat
      rw [hstop]
      exact Nat.le_trans (hbehind b hold) (Nat.le_add_right _ _)
    · rw [List.mem_singleton.mp hnew]
      exact Nat.le_of_eq hstop.symm
  · intro b hb
    rcases List.mem_append.mp hb with hold | hnew
    · exact h.aligned b hold
    · rw [List.mem_singleton.mp hnew]
      exact hdvd
  · exact List.mem_append_right _ (List.mem_singleton_self stop)
  · exact u64_max_mem _ _ h.peakSeen
  · refine h.peakMax_snoc ?_ ?_
    · rw [UInt64.le_iff_toNat_le, hpeak]
      exact Nat.le_max_left _ _
    · rw [UInt64.le_iff_toNat_le, hpeak]
      exact Nat.le_max_right _ _

/-- **A call.** -/
theorem Isolated.step {s : ArenaLife} (h : s.Isolated) (op : ArenaOp) : (s.step op).Isolated := by
  cases hop : op.request with
  | none =>
    cases op with
    | reset => exact h.reset
    | _ => cases hop
  | some request =>
    obtain ⟨size, align⟩ := request
    have hperform := perform_of_request hop s.arena
    rcases h.wf.allocBytes_cases size align with hnone |
      ⟨offset, stop, hsome, hused, hdvd, hstop, hfits, -⟩
    · rw [hnone] at hperform
      simp only [ArenaLife.step, hperform, hop, Option.toList_none, List.map_nil, List.append_nil]
      exact h.refused
    · rw [hsome] at hperform
      have hoffset : s.arena.base + offset - s.arena.base = offset := by
        rw [UInt64.add_comm, UInt64.add_sub_cancel]
      simp only [ArenaLife.step, hperform, hop, Option.toList_some, List.map_singleton, hoffset]
      exact h.handed hused hdvd hstop hfits

/-- The block is where it was, and as large. -/
theorem block_step (s : ArenaLife) (op : ArenaOp) :
    (s.step op).arena.base = s.arena.base ∧ (s.step op).arena.capacity = s.arena.capacity := by
  have hbytes (size align : UInt64) :
      (s.arena.allocBytes size align).2.base = s.arena.base ∧
        (s.arena.allocBytes size align).2.capacity = s.arena.capacity := by
    unfold BumpArena.allocBytes
    split
    · exact ⟨rfl, rfl⟩
    · dsimp only
      split
      · exact ⟨rfl, rfl⟩
      · split
        · exact ⟨rfl, rfl⟩
        · exact ⟨rfl, rfl⟩
  cases op with
  | allocBytes size align => exact hbytes size align
  | put layout => exact hbytes layout.size layout.align
  | slot layout => exact hbytes layout.size layout.align
  | reset => exact ⟨rfl, rfl⟩

end ArenaLife

/-! ## The laws -/

section Laws

variable {alloc : UInt64 → UInt64 → Option UInt64} {capacity : UInt64} {arena : BumpArena}
  {s : ArenaLife}

theorem ArenaLife.isolated_run (hnew : BumpArena.tryNew alloc capacity = some arena)
    (hr : Reaches ArenaLife.steps (.new arena) s) :
    s.Isolated ∧ s.arena.base = arena.base ∧ s.arena.capacity = arena.capacity := by
  obtain ⟨hwf, hused, hpeak, -⟩ := BumpArena.Wf.tryNew hnew
  refine hr.invariant (fun s => s.Isolated ∧ s.arena.base = arena.base ∧
    s.arena.capacity = arena.capacity) ⟨.new hwf hused hpeak, rfl, rfl⟩ ?_
  intro s op t hs hstep
  obtain ⟨hisolated, hbase, hcapacity⟩ := hs
  obtain ⟨hbase', hcapacity'⟩ := s.block_step op
  subst hstep
  exact ⟨hisolated.step op, hbase'.trans hbase, hcapacity'.trans hcapacity⟩

/-- **The arena isolates.** In every run: the blocks handed out since the last reset follow one
    another, inside the arena, each at an offset that is a multiple of its alignment; a call that
    answers nothing changes nothing; the cursor is within the capacity, and the peak is the
    largest cursor since the arena was made. -/
theorem BumpArena.isolated_of_run (hnew : BumpArena.tryNew alloc capacity = some arena)
    (hr : Reaches ArenaLife.steps (.new arena) s) :
    (s.blocks.Pairwise fun a b => a.offset.toNat + a.size.toNat ≤ b.offset.toNat) ∧
    (∀ b ∈ s.blocks, b.offset.toNat + b.size.toNat ≤ arena.capacity.toNat ∧
      b.align.toNat ∣ b.offset.toNat) ∧
    (∀ (op : ArenaOp) (request : UInt64 × UInt64), op.request = some request →
      (op.perform s.arena).1 = none → (op.perform s.arena).2 = s.arena) ∧
    s.arena.used ≤ arena.capacity ∧ s.arena.peak ∈ s.usedSeen ∧
      ∀ used ∈ s.usedSeen, used ≤ s.arena.peak := by
  obtain ⟨h, -, hcapacity⟩ := ArenaLife.isolated_run hnew hr
  have hused := h.wf.used
  rw [hcapacity] at hused
  refine ⟨h.ordered, ?_, ?_, hused, h.peakSeen, h.peakMax⟩
  · intro b hb
    exact ⟨Nat.le_trans (h.behind b hb) (UInt64.le_iff_toNat_le.mp hused), h.aligned b hb⟩
  · intro op request hop hnone
    obtain ⟨size, align⟩ := request
    rw [ArenaLife.perform_of_request hop] at hnone ⊢
    rcases h.wf.allocBytes_cases size align with hrefused | ⟨offset, stop, hsome, -⟩
    · rw [hrefused]
    · rw [hsome] at hnone
      cases hnone

/-- A power of two divides a sum of words as it divides the sum of the numbers. -/
theorem dvd_toNat_add {align base offset : UInt64} (hpow : align.toNat.isPowerOfTwo)
    (hoffset : align.toNat ∣ offset.toNat) :
    align.toNat ∣ (base + offset).toNat ↔ align.toNat ∣ base.toNat := by
  have hword : align.toNat ∣ 2 ^ 64 := by
    obtain ⟨k, hk⟩ := hpow
    have hlt := align.toNat_lt
    rw [hk] at hlt ⊢
    exact Nat.pow_dvd_pow 2 ((Nat.pow_lt_pow_iff_right (by decide)).mp hlt).le
  rw [UInt64.toNat_add, Nat.dvd_mod_iff hword, Nat.dvd_add_left hoffset]

/-- **When an address is aligned.** In every run of an arena whose allocator keeps to the alignment
    it is asked for: an address that is handed out is a multiple of the alignment asked for,
    exactly if the address of the block is. Up to 16 it always is. -/
theorem BumpArena.alloc_aligned_iff
    (halloc : ∀ size align base, alloc size align = some base → align.toNat ∣ base.toNat)
    (hnew : BumpArena.tryNew alloc capacity = some arena)
    (hr : Reaches ArenaLife.steps (.new arena) s) {op : ArenaOp} {size align address : UInt64}
    (hop : op.request = some (size, align)) (h : (op.perform s.arena).1 = some address) :
    (align.toNat ∣ address.toNat ↔ align.toNat ∣ arena.base.toNat) ∧
      (align ≤ 16 → align.toNat ∣ address.toNat) := by
  obtain ⟨hisolated, hbase, -⟩ := ArenaLife.isolated_run hnew hr
  obtain ⟨-, -, -, blockSize, hblock⟩ := BumpArena.Wf.tryNew hnew
  rw [ArenaLife.perform_of_request hop] at h
  rcases hisolated.wf.allocBytes_cases size align with hnone |
    ⟨offset, stop, hsome, -, hdvd, -, -, hpow⟩
  · rw [hnone] at h
    cases h
  · rw [hsome] at h
    obtain rfl := Option.some.inj h
    have hiff := @dvd_toNat_add align arena.base offset hpow hdvd
    rw [hbase]
    refine ⟨hiff, fun hsmall => hiff.mpr ?_⟩
    have hdefault : align.toNat ∣ 16 := by
      obtain ⟨k, hk⟩ := hpow
      have hle := UInt64.le_iff_toNat_le.mp hsmall
      rw [hk] at hle ⊢
      have hk4 : k ≤ 4 := (Nat.pow_le_pow_iff_right (by decide)).mp (show 2 ^ k ≤ 2 ^ 4 from hle)
      exact Nat.pow_dvd_pow 2 hk4
    exact Nat.dvd_trans hdefault (halloc _ _ _ hblock)

end Laws

/-- An allocator with one block, at an odd multiple of 16. -/
def oddBlock (_ align : UInt64) : Option UInt64 := if align = 16 then some 0x1010 else none

def oddArena : BumpArena := ⟨0x1010, 64, 0, 0⟩

/-- Three bytes, and eight behind the padding. -/
def twoCalls : ArenaLife :=
  ((ArenaLife.new oddArena).step (.allocBytes 3 1)).step (.allocBytes 8 8)

/-- The second block starts behind the padding, and both are within the 64 bytes. -/
theorem isolated_of_two_calls :
    twoCalls.blocks.Pairwise (fun a b => a.offset.toNat + a.size.toNat ≤ b.offset.toNat) ∧
      twoCalls.arena.used ≤ 64 := by
  have hnew : BumpArena.tryNew oddBlock 64 = some oddArena := by decide
  have hrun := Reaches.run ArenaLife.step (.new oddArena) [.allocBytes 3 1, .allocBytes 8 8]
  obtain ⟨hordered, -, -, hused, -⟩ := BumpArena.isolated_of_run hnew hrun
  exact ⟨hordered, hused⟩

/-- The layout of a type that wants 32. -/
def wideLayout : TypeLayout := ⟨32, 32, ⟨5, rfl⟩⟩

/-- Its slot is aligned after a byte is, in a block that starts at a multiple of 32. -/
theorem aligned_of_wide : ∃ address,
    (BumpArena.slot ((ArenaLife.new ⟨0x1020, 64, 0, 0⟩).step (.allocBytes 1 1)).arena
      wideLayout).1 = some address ∧ wideLayout.align.toNat ∣ address.toNat := by
  let alloc (_ align : UInt64) : Option UInt64 := if align = 16 then some 0x1020 else none
  have halloc : ∀ size align base, alloc size align = some base → align.toNat ∣ base.toNat := by
    intro size align base hbase
    dsimp only [alloc] at hbase
    split at hbase
    · next heq =>
      rw [heq, ← Option.some.inj hbase]
      decide
    · cases hbase
  have hnew : BumpArena.tryNew alloc 64 = some ⟨0x1020, 64, 0, 0⟩ := by decide
  have hrun := Reaches.run ArenaLife.step (.new ⟨0x1020, 64, 0, 0⟩) [.allocBytes 1 1]
  obtain ⟨address, haddress⟩ : ∃ address, (BumpArena.slot
      ((ArenaLife.new ⟨0x1020, 64, 0, 0⟩).step (.allocBytes 1 1)).arena wideLayout).1
        = some address := ⟨0x1040, by decide⟩
  have hrequest : (ArenaOp.slot wideLayout).request = some (32, 32) := rfl
  have halign := BumpArena.alloc_aligned_iff halloc hnew hrun hrequest haddress
  exact ⟨address, haddress, halign.1.mpr (by decide)⟩

/-- **An odd block.** The first bytes of it have its address, whatever they are for. -/
theorem oddArena_misaligned :
    BumpArena.tryNew oddBlock 64 = some oddArena ∧ DEFAULT_ALIGN.toNat ∣ oddArena.base.toNat ∧
      (oddArena.allocBytes 8 32).1 = some 0x1010 ∧ (oddArena.put wideLayout).1 = some 0x1010 ∧
      (oddArena.slot wideLayout).1 = some 0x1010 ∧ ¬ 32 ∣ (0x1010 : UInt64).toNat := by
  decide

end Mem
end EngineKit
