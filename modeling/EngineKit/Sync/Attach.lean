import EngineKit.Sync.Opened
import EngineKit.Sync.Wire

/-!
# Everything done to a replicator

`Call` leaves two methods out: bytes can come in without an envelope (`receive_bytes`), and a
log can be attached to a replicator that is already running (`attach_wal`). `Event` has all
three, and `reaction_react` says what one can do: a call's effect, nothing but a count, or the
live packets of a log joining the queue behind what waits there already.

`with_wal` is `try_new` and one such event (`withWal_eq_attachWal`).

What a run is answerable for is more than its last state shows. A `Ledger` keeps beside the
replicator how many packets it recovered from logs, and the highest sequence number it has
taken or recovered.
-/

set_option autoImplicit false

namespace EngineKit
namespace Sync

open Lib

namespace Replicator

/-! ## `attach_wal` -/

def attachWal (r : Replicator) (wal : SyncWal) : Except SyncError Unit × Replicator :=
  match wal.replay with
  | .error _ => (.error .persistenceFailed, r)
  | .ok recovered =>
    -- The sum saturates in the source; the lengths of two queues in memory never reach that.
    if r.config.maxPending < r.pending.length + recovered.length then (.error .backpressure, r)
    else (.ok (), { recovered.foldl recover r with wal := some wal })

/-- `next_sequence` after these packets were recovered. -/
def nextAfter (next : UInt64) (recovered : List SyncPacket) : UInt64 :=
  recovered.foldl (fun next p => max next (max (saturatingAdd p.sequence 1) 1)) next

def attached (r : Replicator) (wal : SyncWal) (recovered : List SyncPacket) : Replicator :=
  { r with
    nextSequence := nextAfter r.nextSequence recovered
    pending := r.pending ++ recovered
    wal := some wal }

/-- The log replays to these packets, and the queue has room for them. -/
def Recovers (r : Replicator) (wal : SyncWal) (recovered : List SyncPacket) : Prop :=
  wal.replay = .ok recovered ∧ r.pending.length + recovered.length ≤ r.config.maxPending

theorem attachWal_of_recovers {r : Replicator} {wal : SyncWal} {recovered : List SyncPacket}
    (h : r.Recovers wal recovered) :
    r.attachWal wal = (.ok (), r.attached wal recovered) := by
  obtain ⟨hreplay, hroom⟩ := h
  unfold attachWal
  rw [hreplay]
  simp only [if_neg (Nat.not_lt.mpr hroom), foldl_recover]
  rfl

/-- **What `attach_wal` does.** It leaves the replicator alone, or queues what the log has. -/
theorem attachWal_cases (r : Replicator) (wal : SyncWal) :
    (∃ error, r.attachWal wal = (.error error, r)) ∨
      ∃ recovered, r.Recovers wal recovered ∧
        r.attachWal wal = (.ok (), r.attached wal recovered) := by
  cases hreplay : wal.replay with
  | error error =>
    refine Or.inl ⟨.persistenceFailed, ?_⟩
    simp only [attachWal, hreplay]
  | ok recovered =>
    by_cases hroom : r.pending.length + recovered.length ≤ r.config.maxPending
    · exact Or.inr ⟨recovered, ⟨hreplay, hroom⟩, attachWal_of_recovers ⟨hreplay, hroom⟩⟩
    · refine Or.inl ⟨.backpressure, ?_⟩
      simp only [attachWal, hreplay, if_pos (Nat.lt_of_not_le hroom)]

/-- **`with_wal` is `try_new` and `attach_wal`.** -/
theorem withWal_eq_attachWal {config : SyncConfig} {r : Replicator}
    (hnew : tryNew config = .ok r) (wal : SyncWal) :
    withWal config wal =
      match r.attachWal wal with
      | (.ok (), r') => .ok r'
      | (.error error, _) => .error error := by
  obtain ⟨-, rfl⟩ := tryNew_eq_ok_iff.mp hnew
  unfold withWal attachWal
  rw [hnew]
  cases wal.replay with
  | error error => rfl
  | ok recovered =>
    simp only [blank, List.length_nil, Nat.zero_add]
    by_cases hfull : config.maxPending < recovered.length
    · simp only [if_pos hfull]
    · simp only [if_neg hfull]

end Replicator

/-! ## Events -/

inductive Event
  | call (c : Call)
  | receiveBytes (disk : DiskWrite) (bytes : List UInt8)
  | attach (wal : SyncWal)

def Event.changesSession : Event → Bool
  | .call c => c.changesSession
  | _ => false

namespace Replicator

def react (r : Replicator) : Event → Output × Replicator
  | .call c => r.call c
  | .receiveBytes disk bytes =>
    let (result, r) := r.receiveBytes disk bytes
    ({ received := result.toOption.join }, r)
  | .attach wal => ({}, (r.attachWal wal).2)

/-- The packets an `attach_wal` that succeeds finds in the log. -/
def recoveredBy (r : Replicator) : Event → List SyncPacket
  | .attach wal =>
    match (r.attachWal wal).1 with
    | .ok () => wal.replay.toOption.getD []
    | .error _ => []
  | _ => []

/-- The sequence number a new update takes, or those an `attach_wal` brings in. -/
def numbersBy (r : Replicator) : Event → List UInt64
  | .call (.enqueue _ update) => if r.Takes update then [r.nextSequence] else []
  | e => sequences (r.recoveredBy e)

/-- **Everything an event can do.** From `r`, the event with this output leaves this replicator,
    with these packets recovered. -/
inductive Reaction (r : Replicator) : Event → Output → List SyncPacket → Replicator → Prop
  | call (c : Call) : Reaction r (.call c) (r.call c).1 [] (r.call c).2
  /-- The bytes are a packet. -/
  | received (disk : DiskWrite) (bytes : List UInt8) (p : SyncPacket) :
      Reaction r (.receiveBytes disk bytes) (r.call (.receive disk p)).1 []
        (r.call (.receive disk p)).2
  | rejected (disk : DiskWrite) (bytes : List UInt8) :
      Reaction r (.receiveBytes disk bytes) {} [] r.rejectReceive
  | refused (wal : SyncWal) : Reaction r (.attach wal) {} [] r
  | attached {wal : SyncWal} {recovered : List SyncPacket} (h : r.Recovers wal recovered) :
      Reaction r (.attach wal) {} recovered (r.attached wal recovered)

/-- **Every event is one of the reactions.** -/
theorem reaction_react (r : Replicator) (e : Event) :
    Reaction r e (r.react e).1 (r.recoveredBy e) (r.react e).2 := by
  cases e with
  | call c => exact .call c
  | receiveBytes disk bytes =>
    simp only [react, recoveredBy, r.receiveBytes_eq]
    cases decodeBytes bytes r.config.maxPayloadBytes with
    | error error => exact .rejected disk bytes
    | ok p => exact .received disk bytes p
  | attach wal =>
    rcases r.attachWal_cases wal with ⟨error, h⟩ | ⟨recovered, hrecovers, h⟩
    · simp only [react, recoveredBy, h]
      exact .refused wal
    · simp only [react, recoveredBy, h, hrecovers.1]
      exact .attached hrecovers

end Replicator

/-! ## Runs -/

structure Ledger where
  replicator : Replicator
  /-- How many packets were recovered from logs. -/
  recovered : Nat
  /-- The highest sequence number taken or recovered, 0 when there is none. -/
  highest : UInt64

namespace Ledger

/-- The ledger of a replicator to which nothing has been done. -/
def new (r : Replicator) : Ledger where
  replicator := r
  recovered := 0
  highest := 0

def step (s : Ledger) (e : Event) : Ledger where
  replicator := (s.replicator.react e).2
  recovered := s.recovered + (s.replicator.recoveredBy e).length
  highest := (s.replicator.numbersBy e).foldl max s.highest

def steps : Ledger → Event → Ledger → Prop := fun s e t => t = s.step e

theorem step_attach (s : Ledger) (wal : SyncWal) :
    (s.step (.attach wal)).replicator = (s.replicator.attachWal wal).2 := rfl

/-- The ledger of a replicator built by `try_new` or by `with_wal`. -/
inductive Opens (config : SyncConfig) : Ledger → Prop
  | tryNew {r : Replicator} (h : Replicator.tryNew config = .ok r) : Opens config (new r)
  | withWal {r : Replicator} {wal : SyncWal} {recovered : List SyncPacket}
      (h : Replicator.withWal config wal = .ok r) (hreplay : wal.replay = .ok recovered) :
      Opens config
        { replicator := r, recovered := recovered.length,
          highest := (sequences recovered).foldl max 0 }

/-- Whatever `with_wal` builds, `try_new` and one event build. -/
theorem Opens.reaches {config : SyncConfig} {s : Ledger} (h : Opens config s) :
    ∃ r, Replicator.tryNew config = .ok r ∧ Reaches steps (new r) s := by
  cases h with
  | tryNew h => exact ⟨_, h, .refl⟩
  | @withWal r wal recovered h hreplay =>
    obtain ⟨hvalid, -⟩ := Replicator.withWal_eq_ok_iff.mp h
    have hnew := Replicator.tryNew_eq_ok_iff.mpr ⟨hvalid, rfl⟩
    refine ⟨_, hnew, .single ⟨.attach wal, ?_⟩⟩
    rw [Replicator.withWal_eq_attachWal hnew] at h
    rcases (Replicator.blank config).attachWal_cases wal with
      ⟨error, ha⟩ | ⟨recovered', hrecovers, ha⟩
    · rw [ha] at h
      exact absurd h (by simp)
    · rw [ha] at h
      cases Except.ok.inj h
      cases Except.ok.inj (hreplay.symm.trans hrecovers.1)
      simp [steps, step, new, Replicator.react, Replicator.recoveredBy, Replicator.numbersBy, ha,
        hreplay, Except.toOption]

end Ledger

end Sync
end EngineKit
