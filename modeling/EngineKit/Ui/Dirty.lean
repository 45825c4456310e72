import EngineKit.Ui.Paint

/-!
# Dirty ranges

A frame does not send its whole stream: `UiRenderSnapshot.encodeDirtyRanges` compares the stream
with the one of an earlier snapshot in 32-byte chunks, joins runs of chunks that changed, and
sends each run as a range. The scan keeps the start of the run it is in (`pendingStart`) and the
ranges it has closed.

`ScanInv` is what the scan knows before chunk `k`: every byte below `32 * k` lies in a closed
range, or at or after the pending start, or is what the earlier stream has there. At the last
chunk the pending run is closed, so a byte outside every range is one the earlier stream had too;
with the patch rule that is the patch law (`encodeDirtyRanges_some`): the ranges bring the
earlier stream, cut or zero-filled to the new length, to the new stream.

`ScanOrder` is about where the ranges lie. A range is closed at a chunk that did not change, so the
next one starts at least a chunk later: the ranges ascend and no two touch
(`encodeDirtyRanges_apart`).
-/

set_option autoImplicit false

namespace EngineKit
namespace Ui

open Lib

/-- One range of the stream to upload. -/
abbrev UiUploadRange := Patch UInt8

/-- Whether a chunk differs: the two reads disagree, or the streams end at different places
    inside it. A read that starts past its stream's end is `none`. -/
def chunkChanged (current old : List UInt8) (start chunkEnd : Nat) : Bool :=
  let stop := min chunkEnd current.length
  let oldStop := min chunkEnd old.length
  getRange current start stop != getRange old start oldStop ||
    (current.length != old.length && stop != oldStop)

/-- The scan's two variables. -/
structure DirtyScan where
  pendingStart : Option Nat
  ranges : List UiUploadRange

/-- Close a run: it becomes a range unless it is empty. -/
def DirtyScan.close (scan : DirtyScan) (current : List UInt8) (rangeStart rangeEnd : Nat) :
    DirtyScan :=
  if rangeStart < rangeEnd then
    ⟨none, scan.ranges ++ [⟨rangeStart, (current.take rangeEnd).drop rangeStart⟩]⟩
  else ⟨none, scan.ranges⟩

/-- One round of the scan. -/
def scanChunk (current old : List UInt8) (chunkCount chunk : Nat) (scan : DirtyScan) :
    Except UiError DirtyScan := do
  let start ← orOverflow (checkedMul chunk 32)
  let chunkEnd ← orOverflow (checkedAdd start 32)
  let changed := chunkChanged current old start chunkEnd
  let pending := if changed && scan.pendingStart.isNone then some start else scan.pendingStart
  let isLast := chunk + 1 == chunkCount
  if !changed && pending.isSome || changed && isLast then
    let rangeEnd := if changed && isLast then current.length else min start current.length
    .ok (scan.close current (pending.getD start) rangeEnd)
  else .ok ⟨pending, scan.ranges⟩

/-- The scan over the `left` chunks from `chunk` on. -/
def scanChunks (current old : List UInt8) (chunkCount : Nat) :
    Nat → Nat → DirtyScan → Except UiError DirtyScan
  | _, 0, scan => .ok scan
  | chunk, left + 1, scan => do
    let scan ← scanChunk current old chunkCount chunk scan
    scanChunks current old chunkCount (chunk + 1) left scan

def UiRenderSnapshot.encodeDirtyRanges {F : Type} [Scalar F] (snapshot : UiRenderSnapshot F)
    (previous : Option (UiRenderSnapshot F)) : Except UiError (List UiUploadRange) := do
  let current ← snapshot.encodeBytes
  match previous with
  | none => .ok [⟨0, current⟩]
  | some previous =>
    let old ← previous.encodeBytes
    let chunkCount := (max current.length old.length + 31) / 32
    let scan ← scanChunks current old chunkCount 0 chunkCount ⟨none, []⟩
    .ok scan.ranges

/-! ## The scan -/

section Scan

variable {current old : List UInt8}

/-- What the earlier stream has at `i`, the new one has too. -/
def Same (current old : List UInt8) (i : Nat) : Prop :=
  i < old.length ∧ old[i]? = current[i]?

theorem same_of_not_chunkChanged {start i : Nat}
    (h : chunkChanged current old start (start + 32) = false) (hlo : start ≤ i)
    (hhi : i < start + 32) (hi : i < current.length) : Same current old i := by
  simp only [chunkChanged, Bool.or_eq_false_iff, bne_eq_false_iff_eq] at h
  obtain ⟨hreads, -⟩ := h
  -- the read of the new stream succeeds, so the earlier one read the same bytes
  have hread : getRange current start (min (start + 32) current.length)
      = some ((current.take (min (start + 32) current.length)).drop start) :=
    if_pos (by omega)
  rw [hread] at hreads
  have hnew := length_getRange hread
  have hold := length_getRange hreads.symm
  have hstop : i < min (start + 32) old.length := by omega
  refine ⟨by omega, ?_⟩
  rw [← getElem?_getRange hreads.symm hlo hstop, ← getElem?_getRange hread hlo (by omega)]

/-- What the scan knows before chunk `k`. -/
structure ScanInv (current old : List UInt8) (k : Nat) (scan : DirtyScan) : Prop where
  slices : ∀ r ∈ scan.ranges, r.Slices current
  pending : ∀ p, scan.pendingStart = some p → p ≤ 32 * k
  covered : ∀ i < current.length, i < 32 * k →
    (∃ r ∈ scan.ranges, r.Touches i) ∨ (∃ p, scan.pendingStart = some p ∧ p ≤ i) ∨
      Same current old i

/-- Where a run pending or starting now begins. -/
theorem ScanInv.start_le {chunk : Nat} {scan : DirtyScan} (h : ScanInv current old chunk scan) :
    scan.pendingStart.getD (32 * chunk) ≤ 32 * chunk := by
  cases hp : scan.pendingStart with
  | none => exact Nat.le_refl _
  | some p => exact h.pending p hp

/-- A byte before that is settled: a range has it, or it is as it was. -/
theorem ScanInv.covered_before {chunk i : Nat} {scan : DirtyScan}
    (h : ScanInv current old chunk scan) (hi : i < current.length)
    (hlt : ¬ scan.pendingStart.getD (32 * chunk) ≤ i) :
    (∃ r ∈ scan.ranges, r.Touches i) ∨ Same current old i := by
  have hstart := h.start_le
  rcases h.covered i hi (by omega) with hr | ⟨p, hp, hle⟩ | hsame
  · exact .inl hr
  · rw [hp] at hlt
    exact absurd hle hlt
  · exact .inr hsame

theorem slices_close {scan : DirtyScan} {p stop : Nat} (hstop : stop ≤ current.length)
    (h : ∀ r ∈ scan.ranges, r.Slices current) :
    ∀ r ∈ (scan.close current p stop).ranges, r.Slices current := by
  intro r hr
  unfold DirtyScan.close at hr
  split at hr
  · next hlt =>
    cases List.mem_append.mp hr with
    | inl hr => exact h r hr
    | inr hr =>
      obtain rfl := List.mem_singleton.mp hr
      exact Patch.slices_cut (Nat.le_of_lt hlt) hstop
  · exact h r hr

theorem touches_close {scan : DirtyScan} {p stop i : Nat} (hstop : stop ≤ current.length)
    (h : (∃ r ∈ scan.ranges, r.Touches i) ∨ p ≤ i ∧ i < stop) :
    ∃ r ∈ (scan.close current p stop).ranges, r.Touches i := by
  unfold DirtyScan.close
  cases h with
  | inl h =>
    obtain ⟨r, hr, hi⟩ := h
    split
    · exact ⟨r, List.mem_append_left _ hr, hi⟩
    · exact ⟨r, hr, hi⟩
  | inr h =>
    rw [if_pos (by omega)]
    refine ⟨_, List.mem_append_right _ List.mem_cons_self, h.1, ?_⟩
    simp only [List.length_drop, List.length_take]
    omega

@[simp] theorem pendingStart_close (scan : DirtyScan) (p stop : Nat) :
    (scan.close current p stop).pendingStart = none := by
  unfold DirtyScan.close
  split <;> rfl

/-- What one round can do: nothing, end the run, end the last run, or start or go on with one. -/
theorem scanChunk_cases {chunkCount chunk : Nat} {scan scan' : DirtyScan}
    (h : scanChunk current old chunkCount chunk scan = .ok scan') :
    (chunkChanged current old (32 * chunk) (32 * chunk + 32) = false ∧
      scan.pendingStart = none ∧ scan' = scan) ∨
    (∃ p, chunkChanged current old (32 * chunk) (32 * chunk + 32) = false ∧
      scan.pendingStart = some p ∧
      scan' = scan.close current p (min (32 * chunk) current.length)) ∨
    (chunk + 1 = chunkCount ∧
      scan' = scan.close current (scan.pendingStart.getD (32 * chunk)) current.length) ∨
    (chunk + 1 ≠ chunkCount ∧
      scan' = ⟨some (scan.pendingStart.getD (32 * chunk)), scan.ranges⟩) := by
  simp only [scanChunk, bind_eq_ok, orOverflow_eq_ok] at h
  obtain ⟨start, hstart, chunkEnd, hend, h⟩ := h
  obtain rfl : start = 32 * chunk := by rw [eq_of_checkedMul hstart, Nat.mul_comm]
  obtain rfl : chunkEnd = 32 * chunk + 32 := eq_of_checkedAdd hend
  cases hc : chunkChanged current old (32 * chunk) (32 * chunk + 32) with
  | false =>
    cases hp : scan.pendingStart with
    | none =>
      simp [hc, hp] at h
      exact .inl ⟨rfl, rfl, by rw [← h, ← hp]⟩
    | some p =>
      simp [hc, hp] at h
      exact .inr (.inl ⟨p, rfl, rfl, h.symm⟩)
  | true =>
    -- whether it starts here or started before, there is a run now
    have hpend : (if (true && scan.pendingStart.isNone) = true then some (32 * chunk)
        else scan.pendingStart) = some (scan.pendingStart.getD (32 * chunk)) := by
      cases scan.pendingStart <;> rfl
    by_cases hlast : chunk + 1 = chunkCount
    · simp only [hc, hpend, hlast, beq_self_eq_true, Bool.and_self, Bool.or_true, if_true,
        Option.getD_some, Except.ok.injEq] at h
      exact .inr (.inr (.inl ⟨hlast, h.symm⟩))
    · have hlast' : (chunk + 1 == chunkCount) = false := beq_eq_false_iff_ne.mpr hlast
      simp only [hc, hpend, hlast', Bool.not_true, Bool.false_and, Bool.and_false,
        Bool.or_self, Bool.false_eq_true, if_false, Except.ok.injEq] at h
      exact .inr (.inr (.inr ⟨hlast, h.symm⟩))

/-- **One chunk.** The invariant moves on, and the last chunk leaves nothing pending. -/
theorem scanChunk_inv {chunkCount chunk : Nat} {scan scan' : DirtyScan}
    (h : scanChunk current old chunkCount chunk scan = .ok scan')
    (hinv : ScanInv current old chunk scan) :
    ScanInv current old (chunk + 1) scan' ∧
      (chunk + 1 = chunkCount → scan'.pendingStart = none) := by
  have hstart := hinv.start_le
  rcases scanChunk_cases h with ⟨hc, hp, rfl⟩ | ⟨p, hc, hp, rfl⟩ | ⟨hlast, rfl⟩ | ⟨hlast, rfl⟩
  · -- unchanged, outside a run
    refine ⟨⟨hinv.slices, fun q hq => absurd (hp.symm.trans hq) (by simp), ?_⟩, fun _ => hp⟩
    intro i hi hk
    by_cases hlo : 32 * chunk ≤ i
    · exact .inr (.inr (same_of_not_chunkChanged hc hlo (by omega) hi))
    · exact hinv.covered i hi (by omega)
  · -- unchanged: the run that started at `p` ends before this chunk
    have hnone : (scan.close current p (min (32 * chunk) current.length)).pendingStart = none :=
      pendingStart_close ..
    refine ⟨⟨slices_close (Nat.min_le_right _ _) hinv.slices,
      fun q hq => absurd (hnone.symm.trans hq) (by simp), ?_⟩, fun _ => hnone⟩
    intro i hi hk
    by_cases hlo : 32 * chunk ≤ i
    · exact .inr (.inr (same_of_not_chunkChanged hc hlo (by omega) hi))
    · by_cases hle : p ≤ i
      · exact .inl (touches_close (Nat.min_le_right _ _) (.inr ⟨hle, by omega⟩))
      · rcases hinv.covered_before hi (by simpa [hp] using hle) with hr | hsame
        · exact .inl (touches_close (Nat.min_le_right _ _) (.inl hr))
        · exact .inr (.inr hsame)
  · -- changed and last: the run is closed at the end of the stream
    have hnone : (scan.close current (scan.pendingStart.getD (32 * chunk))
        current.length).pendingStart = none := pendingStart_close ..
    refine ⟨⟨slices_close (Nat.le_refl _) hinv.slices,
      fun q hq => absurd (hnone.symm.trans hq) (by simp), ?_⟩, fun _ => hnone⟩
    intro i hi hk
    by_cases hle : scan.pendingStart.getD (32 * chunk) ≤ i
    · exact .inl (touches_close (Nat.le_refl _) (.inr ⟨hle, hi⟩))
    · rcases hinv.covered_before hi hle with hr | hsame
      · exact .inl (touches_close (Nat.le_refl _) (.inl hr))
      · exact .inr (.inr hsame)
  · -- changed: the run goes on, or starts here
    refine ⟨⟨hinv.slices, ?_, ?_⟩, fun hk => absurd hk hlast⟩
    · intro q hq
      have := Option.some.inj hq
      omega
    · intro i hi hk
      by_cases hle : scan.pendingStart.getD (32 * chunk) ≤ i
      · exact .inr (.inl ⟨_, rfl, hle⟩)
      · rcases hinv.covered_before hi hle with hr | hsame
        · exact .inl hr
        · exact .inr (.inr hsame)

/-- **The whole scan**, by induction on the chunks left. -/
theorem scanChunks_inv {chunkCount chunk left : Nat} {scan scan' : DirtyScan}
    (hcount : chunk + left = chunkCount) (hleft : left = 0 → scan.pendingStart = none)
    (h : scanChunks current old chunkCount chunk left scan = .ok scan')
    (hinv : ScanInv current old chunk scan) :
    ScanInv current old chunkCount scan' ∧ scan'.pendingStart = none := by
  induction left generalizing chunk scan with
  | zero =>
    obtain rfl := Except.ok.inj h
    obtain rfl : chunk = chunkCount := hcount
    exact ⟨hinv, hleft rfl⟩
  | succ left ih =>
    simp only [scanChunks, bind_eq_ok] at h
    obtain ⟨next, hround, hrest⟩ := h
    obtain ⟨hnext, hlast⟩ := scanChunk_inv hround hinv
    exact ih (by omega) (fun h0 => hlast (by omega)) hrest hnext

/-- Streams a vector can hold are short enough for the scan's checked arithmetic. -/
theorem scanChunks_isOk {chunkCount chunk left : Nat} (scan : DirtyScan)
    (hfit : 32 * (chunk + left) < 2 ^ 64) :
    ∃ scan', scanChunks current old chunkCount chunk left scan = .ok scan' := by
  induction left generalizing chunk scan with
  | zero => exact ⟨scan, rfl⟩
  | succ left ih =>
    have hmul : checkedMul chunk 32 = some (chunk * 32) := if_pos (by omega)
    have hadd : checkedAdd (chunk * 32) 32 = some (chunk * 32 + 32) := if_pos (by omega)
    have hround : ∃ next, scanChunk current old chunkCount chunk scan = .ok next := by
      simp only [scanChunk, bind_eq_ok, orOverflow_eq_ok, hmul, hadd, Option.some.injEq,
        exists_eq_left']
      split
      all_goals split
      all_goals exact ⟨_, rfl⟩
    obtain ⟨next, hnext⟩ := hround
    have hleft : 32 * (chunk + 1 + left) < 2 ^ 64 := by omega
    obtain ⟨scan', hrest⟩ := ih next hleft
    exact ⟨scan', bind_eq_ok.mpr ⟨next, hnext, hrest⟩⟩

/-! ### Where the ranges lie -/

/-- The ranges carry something, start at a chunk, and keep a gap between one another. -/
structure Apart (ranges : List UiUploadRange) : Prop where
  nonempty : ∀ r ∈ ranges, r.bytes ≠ []
  aligned : ∀ r ∈ ranges, 32 ∣ r.offset
  gaps : ranges.Pairwise fun r s => r.offset + r.bytes.length < s.offset

theorem Apart.nil : Apart [] :=
  ⟨fun _ hr => absurd hr (by simp), fun _ hr => absurd hr (by simp), List.Pairwise.nil⟩

/-- What the scan knows of them before chunk `k`: all end before the run it is in, or before the
    chunk. After the last chunk nothing is left to be before. -/
structure ScanOrder (chunkCount k : Nat) (scan : DirtyScan) : Prop extends Apart scan.ranges where
  start : ∀ p, scan.pendingStart = some p → 32 ∣ p
  before : k ≠ chunkCount → ∀ r ∈ scan.ranges,
    r.offset + r.bytes.length < scan.pendingStart.getD (32 * k)

theorem length_cut {p stop : Nat} (hstop : stop ≤ current.length) :
    ((current.take stop).drop p).length = stop - p := by
  rw [List.length_drop, List.length_take, Nat.min_eq_left hstop]

/-- What a closed run adds, if anything, is a range that ends where the run was closed. -/
theorem ends_close {scan : DirtyScan} {p stop bound : Nat} (hstop : stop ≤ current.length)
    (hlt : stop < bound) (h : ∀ r ∈ scan.ranges, r.offset + r.bytes.length < bound) :
    ∀ r ∈ (scan.close current p stop).ranges, r.offset + r.bytes.length < bound := by
  intro r hr
  unfold DirtyScan.close at hr
  split at hr
  · next hps =>
    cases List.mem_append.mp hr with
    | inl hr => exact h r hr
    | inr hr =>
      obtain rfl := List.mem_singleton.mp hr
      simp only [length_cut hstop]
      omega
  · exact h r hr

theorem Apart.close {scan : DirtyScan} {p stop : Nat} (h : Apart scan.ranges)
    (hstop : stop ≤ current.length) (hp : 32 ∣ p)
    (hbefore : ∀ r ∈ scan.ranges, r.offset + r.bytes.length < p) :
    Apart (scan.close current p stop).ranges := by
  unfold DirtyScan.close
  split
  · next hlt =>
    refine ⟨?_, ?_, ?_⟩
    · intro r hr
      cases List.mem_append.mp hr with
      | inl hr => exact h.nonempty r hr
      | inr hr =>
        obtain rfl := List.mem_singleton.mp hr
        apply List.ne_nil_of_length_pos
        simp only [length_cut hstop]
        omega
    · intro r hr
      cases List.mem_append.mp hr with
      | inl hr => exact h.aligned r hr
      | inr hr =>
        obtain rfl := List.mem_singleton.mp hr
        exact hp
    · apply List.pairwise_append.mpr
      refine ⟨h.gaps, List.pairwise_singleton _ _, ?_⟩
      intro r hr s hs
      obtain rfl := List.mem_singleton.mp hs
      exact hbefore r hr
  · exact h

/-- The run pending or starting now starts at a chunk. -/
theorem ScanOrder.start_dvd {chunkCount chunk : Nat} {scan : DirtyScan}
    (h : ScanOrder chunkCount chunk scan) : 32 ∣ scan.pendingStart.getD (32 * chunk) := by
  cases hp : scan.pendingStart with
  | none => exact Nat.dvd_mul_right 32 chunk
  | some p => exact h.start p hp

/-- **One chunk** leaves the ranges in order. -/
theorem scanChunk_order {chunkCount chunk : Nat} {scan scan' : DirtyScan}
    (h : scanChunk current old chunkCount chunk scan = .ok scan') (hchunk : chunk ≠ chunkCount)
    (hinv : ScanInv current old chunk scan) (horder : ScanOrder chunkCount chunk scan) :
    ScanOrder chunkCount (chunk + 1) scan' := by
  have hbefore := horder.before hchunk
  have hstart := hinv.start_le
  rcases scanChunk_cases h with ⟨hc, hp, rfl⟩ | ⟨p, hc, hp, rfl⟩ | ⟨hlast, rfl⟩ | ⟨hlast, rfl⟩
  · -- unchanged, outside a run: the bound moves on by a chunk
    refine ⟨horder.toApart, horder.start, ?_⟩
    intro _ r hr
    have hlt := hbefore r hr
    rw [hp] at hlt ⊢
    exact Nat.lt_trans hlt (Nat.mul_lt_mul_of_pos_left (Nat.lt_succ_self chunk) (by decide))
  · -- the run ends at a chunk that did not change, which is the gap
    rw [hp] at hbefore hstart
    have hstop : min (32 * chunk) current.length ≤ current.length := Nat.min_le_right _ _
    have hnone : (scan.close current p (min (32 * chunk) current.length)).pendingStart = none :=
      pendingStart_close ..
    refine ⟨horder.toApart.close hstop (horder.start p hp) hbefore, ?_, ?_⟩
    · intro q hq
      exact absurd (hnone.symm.trans hq) (by simp)
    · intro _
      rw [hnone]
      refine ends_close hstop (by simp only [Option.getD_none]; omega) ?_
      intro r hr
      have hlt := hbefore r hr
      simp only [Option.getD_some, Option.getD_none] at hlt hstart ⊢
      omega
  · -- the last chunk: only the ranges are left to speak of
    have hnone : (scan.close current (scan.pendingStart.getD (32 * chunk))
        current.length).pendingStart = none := pendingStart_close ..
    refine ⟨horder.toApart.close (Nat.le_refl _) horder.start_dvd hbefore, ?_, ?_⟩
    · intro q hq
      exact absurd (hnone.symm.trans hq) (by simp)
    · intro hne
      exact absurd hlast hne
  · -- the run goes on, or starts here
    refine ⟨horder.toApart, ?_, fun _ => hbefore⟩
    intro q hq
    obtain rfl := Option.some.inj hq
    exact horder.start_dvd

/-- **The whole scan**, by induction on the chunks left. -/
theorem scanChunks_order {chunkCount chunk left : Nat} {scan scan' : DirtyScan}
    (hcount : chunk + left = chunkCount)
    (h : scanChunks current old chunkCount chunk left scan = .ok scan')
    (hinv : ScanInv current old chunk scan) (horder : ScanOrder chunkCount chunk scan) :
    Apart scan'.ranges := by
  induction left generalizing chunk scan with
  | zero =>
    obtain rfl := Except.ok.inj h
    exact horder.toApart
  | succ left ih =>
    simp only [scanChunks, bind_eq_ok] at h
    obtain ⟨next, hround, hrest⟩ := h
    obtain ⟨hnext, -⟩ := scanChunk_inv hround hinv
    exact ih (by omega) hrest hnext (scanChunk_order hround (by omega) hinv horder)

theorem chunkChanged_self (bytes : List UInt8) (start stop : Nat) :
    chunkChanged bytes bytes start stop = false := by
  simp [chunkChanged]

/-- Against its own stream the scan finds nothing. -/
theorem scanChunks_self {chunkCount chunk left : Nat} {scan' : DirtyScan}
    (h : scanChunks current current chunkCount chunk left ⟨none, []⟩ = .ok scan') :
    scan'.ranges = [] := by
  induction left generalizing chunk with
  | zero => rw [← Except.ok.inj h]
  | succ left ih =>
    simp only [scanChunks, scanChunk, chunkChanged_self, bind_eq_ok, orOverflow_eq_ok] at h
    obtain ⟨next, ⟨start, -, stop, -, hround⟩, hrest⟩ := h
    obtain rfl := Except.ok.inj hround
    exact ih hrest

end Scan

/-! ## The patch law -/

section Law

variable {F : Type} [Scalar F] {snapshot previous : UiRenderSnapshot F} {current old : List UInt8}

theorem encodeDirtyRanges_none (hcur : snapshot.encodeBytes = .ok current) :
    snapshot.encodeDirtyRanges none = .ok [⟨0, current⟩] :=
  bind_eq_ok.mpr ⟨current, hcur, rfl⟩

/-- **The patch law.** The ranges are slices of the new stream, and they bring the earlier
    stream, cut or zero-filled to the new length, to the new one. -/
theorem encodeDirtyRanges_some (hcur : snapshot.encodeBytes = .ok current)
    (hold : previous.encodeBytes = .ok old) :
    ∃ ranges, snapshot.encodeDirtyRanges (some previous) = .ok ranges ∧
      (∀ r ∈ ranges, r.Slices current) ∧
      patchAll (resize old current.length 0) ranges = current := by
  have hcurLen := (UiRenderSnapshot.length_encodeBytes hcur).2
  have holdLen := (UiRenderSnapshot.length_encodeBytes hold).2
  unfold ISIZE_MAX at hcurLen holdLen
  have hinit : ScanInv current old 0 ⟨none, []⟩ :=
    ⟨fun r hr => absurd hr (by simp), fun p hp => absurd hp (by simp), fun i _ hi => by omega⟩
  obtain ⟨scan, hscan⟩ :
      ∃ scan, scanChunks current old ((max current.length old.length + 31) / 32) 0
        ((max current.length old.length + 31) / 32) ⟨none, []⟩ = .ok scan :=
    scanChunks_isOk _ (by omega)
  obtain ⟨hinv, hnone⟩ := scanChunks_inv (Nat.zero_add _) (fun _ => rfl) hscan hinit
  refine ⟨scan.ranges, ?_, hinv.slices, patchAll_eq (length_resize ..) hinv.slices ?_⟩
  · exact bind_eq_ok.mpr ⟨current, hcur, bind_eq_ok.mpr ⟨old, hold,
      bind_eq_ok.mpr ⟨scan, hscan, rfl⟩⟩⟩
  · -- nothing is pending any more, so a byte no range touches is one the earlier stream has
    intro i hi
    rcases hinv.covered i hi (by omega) with hr | ⟨p, hp, -⟩ | ⟨hlt, hsame⟩
    · exact .inl hr
    · exact absurd (hnone.symm.trans hp) (by simp)
    · exact .inr ((getElem?_resize 0 hi hlt).trans hsame)

/-- The ranges carry something, start at a chunk, ascend and keep a gap; against an equal stream
    there are none. -/
theorem encodeDirtyRanges_apart {ranges : List UiUploadRange}
    (hcur : snapshot.encodeBytes = .ok current) (hold : previous.encodeBytes = .ok old)
    (h : snapshot.encodeDirtyRanges (some previous) = .ok ranges) :
    Apart ranges ∧ (current = old → ranges = []) := by
  simp only [UiRenderSnapshot.encodeDirtyRanges, hcur, hold, bind_eq_ok, Except.ok.injEq,
    exists_eq_left'] at h
  obtain ⟨scan, hscan, rfl⟩ := h
  have hinit : ScanInv current old 0 ⟨none, []⟩ :=
    ⟨fun r hr => absurd hr (by simp), fun p hp => absurd hp (by simp), fun i _ hi => by omega⟩
  have horder : ScanOrder ((max current.length old.length + 31) / 32) 0 ⟨none, []⟩ :=
    ⟨Apart.nil, fun p hp => absurd hp (by simp), fun _ r hr => absurd hr (by simp)⟩
  refine ⟨scanChunks_order (Nat.zero_add _) hscan hinit horder, ?_⟩
  intro heq
  subst heq
  exact scanChunks_self hscan

end Law

end Ui
end EngineKit
