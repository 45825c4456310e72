import EngineKit.Sync.Opened

/-!
# Enqueues that return an error

An enqueue is refused before it touches anything, by validation or for want of room, or when the
log does not take its record. The record of a coalesced delta is written first, and its failure
leaves the replicator as it was. The record of a new packet is written after its sequence number
is taken: there a failure leaves `next_sequence` moved on (`failed_enqueue_iff`).
-/

set_option autoImplicit false

namespace EngineKit
namespace Sync

open Lib

namespace Replicator

/-- Nothing an application or a peer can see is different, but for the count of refusals. -/
structure Untouched (r r' : Replicator) : Prop where
  pending : r'.pending = r.pending
  inFlight : r'.inFlight = r.inFlight
  nextSequence : r'.nextSequence = r.nextSequence
  lastReceived : r'.lastReceived = r.lastReceived
  stats : { r'.stats with rejectedBackpressure := r.stats.rejectedBackpressure } = r.stats

/-- A number taken is never the next one again, also where the numbers wrap. -/
theorem successor_ne (r : Replicator) : r.successor ≠ r.nextSequence := by
  by_cases hlast : r.nextSequence = lastSequence
  · unfold successor
    rw [hlast]
    decide
  · intro heq
    have hnat := toNat_successor hlast
    rw [heq] at hnat
    exact absurd hnat (Nat.ne_of_lt (Nat.lt_succ_self _))

/-- **What an enqueue that fails leaves behind.** At most the log and the count of refusals, or,
    when the record of a new packet was not taken, the number it was given. -/
theorem enqueue_error_cases {r : Replicator} {disk : DiskWrite} {update : Update}
    {error : SyncError} (hnew : ¬ r.Coalesces update)
    (herror : (r.enqueue disk update.kind update.key update.payload).1 = .error error) :
    (¬ r.Takes update ∧ ∃ rejected,
      (r.enqueue disk update.kind update.key update.payload).2
        = { r with stats.rejectedBackpressure := rejected }) ∨
    (r.Takes update ∧ ∃ wal',
      (r.enqueue disk update.kind update.key update.payload).2
        = { r with nextSequence := r.successor, wal := some wal' }) := by
  rcases r.enqueue_cases disk update.kind update.key update.payload with
    ⟨error', rejected, h, hrefused⟩ | ⟨hvalid, hroom, ⟨-, h⟩ | ⟨wal', -, h⟩⟩
  · rw [h]
    exact .inl ⟨fun htakes => hrefused ⟨htakes.1, htakes.2.1⟩, rejected, rfl⟩
  · rw [h] at herror
    exact absurd herror (by simp)
  · rw [h]
    exact .inr ⟨⟨hvalid, hroom, hnew⟩, wal', rfl⟩

theorem enqueueUpdate_error_cases {r : Replicator} {disk : DiskWrite} {update : Update}
    {error : SyncError} (herror : (r.enqueueUpdate disk update).1 = .error error) :
    (¬ r.Takes update ∧ ∃ rejected wal',
      (r.enqueueUpdate disk update).2
        = { r with stats.rejectedBackpressure := rejected, wal := wal' }) ∨
    (r.Takes update ∧ ∃ wal',
      (r.enqueueUpdate disk update).2
        = { r with nextSequence := r.successor, wal := some wal' }) := by
  have hqueued (hnew : ¬ r.Coalesces update) (hrun : r.enqueueUpdate disk update
      = r.enqueue disk update.kind update.key update.payload) :
      (¬ r.Takes update ∧ ∃ rejected wal',
        (r.enqueueUpdate disk update).2
          = { r with stats.rejectedBackpressure := rejected, wal := wal' }) ∨
      (r.Takes update ∧ ∃ wal',
        (r.enqueueUpdate disk update).2
          = { r with nextSequence := r.successor, wal := some wal' }) := by
    rw [hrun] at herror ⊢
    rcases enqueue_error_cases hnew herror with ⟨hrefused, rejected, h⟩ | htakes
    · exact .inl ⟨hrefused, rejected, r.wal, h⟩
    · exact .inr htakes
  cases update with
  | snapshot payload => exact hqueued id rfl
  | event key payload => exact hqueued id rfl
  | delta key payload =>
    rcases r.enqueueDelta_cases disk key payload with
      ⟨error', hinvalid, h⟩ | ⟨hnew, h⟩ | ⟨pre, old, post, hpending, -, hold, ⟨-, h⟩ | ⟨wal', -, h⟩⟩
    · refine .inl ⟨?_, r.stats.rejectedBackpressure, r.wal, by simp only [enqueueUpdate, h]⟩
      intro htakes
      exact absurd (hinvalid.symm.trans htakes.1) (by simp)
    · exact hqueued hnew h
    · rw [enqueueUpdate, h] at herror
      exact absurd herror (by simp)
    · refine .inl ⟨?_, r.stats.rejectedBackpressure, some wal', by simp only [enqueueUpdate, h]⟩
      intro htakes
      exact htakes.2.2 ⟨old, by rw [hpending]; simp, hold⟩

/-- **When a failed enqueue leaves no trace.** Exactly when it was not for a packet of its own:
    one that passes validation, finds room and replaces no delta. -/
theorem failed_enqueue_iff {r : Replicator} {disk : DiskWrite} {update : Update}
    {done : Except SyncError UInt64 × Replicator} {error : SyncError}
    (hcall : done = r.enqueueUpdate disk update ∨ done = r.enqueueUpdateBytes disk update)
    (herror : done.1 = .error error) : Untouched r done.2 ↔ ¬ r.Takes update := by
  obtain rfl : done = r.enqueueUpdate disk update :=
    hcall.elim id fun hbytes => hbytes.trans (r.enqueueUpdateBytes_eq disk update)
  rcases enqueueUpdate_error_cases herror with
    ⟨hrefused, rejected, wal', h⟩ | ⟨htakes, wal', h⟩
  · rw [h]
    exact iff_of_true ⟨rfl, rfl, rfl, rfl, rfl⟩ hrefused
  · rw [h]
    refine iff_of_false ?_ (not_not_intro htakes)
    intro huntouched
    exact r.successor_ne huntouched.nextSequence

/-- An empty payload. -/
theorem failed_enqueue_empty :
    Untouched (blank .default) ((blank .default).enqueueUpdate .complete (.event 1 [])).2 :=
  (failed_enqueue_iff (.inl rfl) rfl).mpr (by decide)

/-- The disk fails at the first byte of an event's record: number 1 is gone. -/
theorem failed_enqueue_takes_number :
    ((opened .default emptyLog []).enqueueUpdate (.failed 0) (.event 7 [9])).1
        = .error .persistenceFailed ∧
      (opened .default emptyLog []).nextSequence = 1 ∧
      ((opened .default emptyLog []).enqueueUpdate (.failed 0) (.event 7 [9])).2.nextSequence = 2 ∧
      ((opened .default emptyLog []).enqueueUpdate (.failed 0) (.event 7 [9])).2.wal
        = some emptyLog :=
  ⟨rfl, rfl, rfl, rfl⟩

end Replicator

end Sync
end EngineKit
