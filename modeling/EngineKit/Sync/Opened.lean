import EngineKit.Sync.Calls
import EngineKit.Sync.Live

/-!
# Opening a replicator on a log, and its log while it runs

`with_wal` replays the log into the queue and works out the next sequence number from what it
finds. `withWal_eq_ok_iff` says exactly when it succeeds and what it builds, and
`recoveredNext` is the sequence number it ends up with.

From then on the log is appended to and never read. `Whole r wal rs` says the replicator's log
consists of the records `rs`, each written whole; the lemmas after it say what becomes of that
under each thing an `Effect` does to the log.
-/

set_option autoImplicit false

namespace EngineKit
namespace Sync

open Lib

/-! ## `with_wal` -/

/-- `try_new` accepts the configuration. -/
def SyncConfig.Valid (config : SyncConfig) : Prop :=
  config.maxPending ≠ 0 ∧ config.maxPayloadBytes ≠ 0 ∧ config.maxInFlight ≠ 0

instance (config : SyncConfig) : Decidable config.Valid :=
  inferInstanceAs (Decidable (_ ∧ _ ∧ _))

/-- Whatever the bytes of the file, the packets replayed have distinct sequence numbers. -/
theorem SyncWal.nodup_of_replay {wal : SyncWal} {recovered : List SyncPacket}
    (h : wal.replay = .ok recovered) : (sequences recovered).Nodup := by
  by_cases hlimit : wal.maxPayloadBytes + 30 < 2 ^ 64
  · obtain ⟨rs, tail, -, -, -, happ⟩ := (scan_eq_ok_iff (readRecord_consumes hlimit)
      (readRecord_bytes hlimit) (readRecord_canonical hlimit)).mp h
    have hnil : (sequences []).Nodup := List.nodup_nil
    rcases applyAll_eq rs hnil (Nat.zero_le wal.maxRecords) with ⟨hok, -⟩ | ⟨herr, -⟩
    · rw [← Except.ok.inj (hok.symm.trans happ)]
      exact nodup_live rs
    · exact absurd (herr.symm.trans happ) (by simp)
  · -- No header is ever accepted, so a file that replays has not even one.
    by_cases hlong : walHeader ≤ wal.file.length
    · obtain ⟨error, hbad⟩ := readRecord_of_overflow hlimit hlong
      rw [replay, scan_corrupt hbad] at h
      exact absurd h (by simp)
    · have hstop : readRecord wal.maxPayloadBytes wal.file = .stop := by
        rw [readRecord, readExact, if_neg hlong]
      rw [replay, scan_stop hstop] at h
      cases Except.ok.inj h
      exact List.nodup_nil

namespace Replicator

def blank (config : SyncConfig) : Replicator :=
  { config, mode := .offline, nextSequence := 1, lastReceived := 0, lastAckSent := 0,
    pending := [], inFlight := [], wal := none, sessionNonce := none, stats := {} }

theorem tryNew_eq_ok_iff {config : SyncConfig} {r : Replicator} :
    tryNew config = .ok r ↔ config.Valid ∧ r = blank config := by
  unfold tryNew SyncConfig.Valid
  split
  · next h =>
    refine ⟨fun hc => absurd hc (by simp), ?_⟩
    intro hall
    obtain ⟨⟨h1, h2, h3⟩, -⟩ := hall
    rcases h with h | h | h <;> contradiction
  · next h =>
    simp only [not_or] at h
    exact ⟨fun hc => ⟨h, (Except.ok.inj hc).symm⟩, fun hc => congrArg _ hc.2.symm⟩

/-- The sequence number `with_wal` goes on with. -/
def recoveredNext (recovered : List SyncPacket) : UInt64 :=
  recovered.foldl (fun next p => max next (max (saturatingAdd p.sequence 1) 1)) 1

/-- What `with_wal` builds from the packets it replayed. -/
def opened (config : SyncConfig) (wal : SyncWal) (recovered : List SyncPacket) : Replicator :=
  { blank config with
    nextSequence := recoveredNext recovered, pending := recovered, wal := some wal }

theorem foldl_recover (recovered : List SyncPacket) (r : Replicator) :
    recovered.foldl recover r =
      { r with
        nextSequence := recovered.foldl
          (fun next p => max next (max (saturatingAdd p.sequence 1) 1)) r.nextSequence
        pending := r.pending ++ recovered } := by
  induction recovered generalizing r with
  | nil => simp
  | cons p ps ih => simp [ih, recover]

/-- **What `with_wal` does.** It wants a valid configuration, a log that replays and no more
    live packets than the queue holds, and queues them. -/
theorem withWal_eq_ok_iff {config : SyncConfig} {wal : SyncWal} {r : Replicator} :
    withWal config wal = .ok r ↔ config.Valid ∧ ∃ recovered, wal.replay = .ok recovered ∧
      recovered.length ≤ config.maxPending ∧ r = opened config wal recovered := by
  unfold withWal
  cases hnew : tryNew config with
  | error error =>
    refine ⟨fun hc => absurd hc (by simp), ?_⟩
    intro hall
    obtain ⟨hvalid, -⟩ := hall
    rw [tryNew_eq_ok_iff.mpr ⟨hvalid, rfl⟩] at hnew
    exact absurd hnew (by simp)
  | ok r₀ =>
    obtain ⟨hvalid, rfl⟩ := tryNew_eq_ok_iff.mp hnew
    cases hreplay : wal.replay with
    | error error => simp
    | ok recovered =>
      by_cases hfull : config.maxPending < recovered.length
      · simp only [if_pos hfull, reduceCtorEq, false_iff, Except.ok.injEq]
        intro hall
        obtain ⟨-, recovered', rfl, hle, -⟩ := hall
        omega
      · simp only [if_neg hfull, Except.ok.injEq, foldl_recover]
        constructor
        · rintro rfl
          exact ⟨hvalid, recovered, rfl, by omega, rfl⟩
        · intro hall
          obtain ⟨-, recovered', rfl, -, rfl⟩ := hall
          rfl

def emptyLog : SyncWal where
  maxPayloadBytes := 64
  maxRecords := 4
  maxRecords_pos := by decide
  file := []

theorem withWal_emptyLog {config : SyncConfig} (h : config.Valid) :
    withWal config emptyLog = .ok (opened config emptyLog []) :=
  withWal_eq_ok_iff.mpr ⟨h, [], rfl, Nat.zero_le _, rfl⟩

theorem le_foldl_next (ps : List SyncPacket) (next : UInt64) : next.toNat ≤
    (ps.foldl (fun next p => max next (max (saturatingAdd p.sequence 1) 1)) next).toNat := by
  induction ps generalizing next with
  | nil => exact Nat.le_refl _
  | cons q ps ih =>
    refine Nat.le_trans ?_ (ih _)
    rw [u64_toNat_max]
    exact Nat.le_max_left _ _

theorem recoveredNext_pos (recovered : List SyncPacket) : 0 < recoveredNext recovered :=
  UInt64.lt_iff_toNat_lt.mpr (le_foldl_next recovered 1)

theorem le_recoveredNext {recovered : List SyncPacket} {p : SyncPacket} (hp : p ∈ recovered) :
    (saturatingAdd p.sequence 1).toNat ≤ (recoveredNext recovered).toNat := by
  obtain ⟨pre, post, rfl⟩ := List.append_of_mem hp
  rw [recoveredNext, List.foldl_append, List.foldl_cons]
  refine Nat.le_trans ?_ (le_foldl_next post _)
  simp only [u64_toNat_max]
  omega

/-! ## How a life begins -/

/-- A replicator that holds the recovered packets and has done nothing else. -/
structure Fresh (r : Replicator) (recovered : List SyncPacket) : Prop where
  pending : r.pending = recovered
  inFlight : r.inFlight = []
  nextSequence : r.nextSequence = recoveredNext recovered
  lastReceived : r.lastReceived = 0
  lastAckSent : r.lastAckSent = 0

/-- `try_new`, or `with_wal` on a log whose live packets satisfy `P`. -/
inductive Starts (P : List SyncPacket → Prop) (r : Replicator) : Prop
  | tryNew {config : SyncConfig} (h : Replicator.tryNew config = .ok r)
  | withWal {config : SyncConfig} {wal : SyncWal} {recovered : List SyncPacket}
      (h : Replicator.withWal config wal = .ok r) (hreplay : wal.replay = .ok recovered)
      (hrecovered : P recovered)

theorem fresh_opened (config : SyncConfig) (wal : SyncWal) (recovered : List SyncPacket) :
    (opened config wal recovered).Fresh recovered :=
  ⟨rfl, rfl, rfl, rfl, rfl⟩

theorem Starts.nodup_pending {P : List SyncPacket → Prop} {r : Replicator} (h : Starts P r) :
    (sequences r.pending).Nodup := by
  cases h with
  | tryNew h =>
    obtain ⟨-, rfl⟩ := tryNew_eq_ok_iff.mp h
    exact List.nodup_nil
  | withWal h hreplay hrecovered =>
    obtain ⟨-, recovered, hreplay, -, rfl⟩ := withWal_eq_ok_iff.mp h
    exact SyncWal.nodup_of_replay hreplay

theorem Starts.fresh {P : List SyncPacket → Prop} {r : Replicator} (h : Starts P r)
    (hnil : P []) : ∃ recovered, P recovered ∧ r.Fresh recovered := by
  cases h with
  | tryNew h =>
    obtain ⟨-, rfl⟩ := tryNew_eq_ok_iff.mp h
    exact ⟨[], hnil, rfl, rfl, rfl, rfl, rfl⟩
  | @withWal config wal recovered h hreplay hrecovered =>
    obtain ⟨-, recovered', hreplay', -, rfl⟩ := withWal_eq_ok_iff.mp h
    cases Except.ok.inj (hreplay.symm.trans hreplay')
    exact ⟨recovered, hrecovered, fresh_opened config wal recovered⟩

/-! ## The last sequence number -/

/-- `u64::MAX`, after which `next_sequence` wraps. -/
def lastSequence : UInt64 := 18446744073709551615

theorem le_lastSequence (n : UInt64) : n ≤ lastSequence :=
  UInt64.le_iff_toNat_le.mpr (Nat.le_of_lt_succ n.toNat_lt)

theorem toNat_successor {r : Replicator} (h : r.nextSequence ≠ lastSequence) :
    r.successor.toNat = r.nextSequence.toNat + 1 := by
  have hne : r.nextSequence.toNat ≠ 18446744073709551615 := fun hc => h (UInt64.toNat_inj.mp hc)
  have hlt := r.nextSequence.toNat_lt
  have hone : (1 : UInt64).toNat = 1 := rfl
  rw [successor, u64_toNat_max, UInt64.toNat_add]
  omega

/-! ## The log of a running replicator -/

/-- The replicator's log is the file behind `wal`'s limits, and is made of these records, each
    written whole. -/
def Whole (r : Replicator) (wal : SyncWal) (rs : List WalRecord) : Prop :=
  r.wal = some { wal with file := encodeAll WalRecord.bytes rs } ∧
    ∀ record ∈ rs, record.Fits wal.maxPayloadBytes

theorem Whole.congr {r r' : Replicator} {wal : SyncWal} {rs : List WalRecord}
    (h : r.Whole wal rs) (hwal : r'.wal = r.wal) : r'.Whole wal rs :=
  ⟨hwal.trans h.1, h.2⟩

theorem Whole.logged {r r' : Replicator} {wal : SyncWal} {rs : List WalRecord}
    (h : r.Whole wal rs) {disk : DiskWrite} {record : WalRecord} (hlogs : r.Logs disk record)
    (hwal : r'.wal = r.logged record) : r'.Whole wal (rs ++ [record]) := by
  refine ⟨?_, ?_⟩
  · rw [hwal, Replicator.logged, h.1]
    simp [SyncWal.push, encodeAll]
  · intro record' hr
    rcases List.mem_append.mp hr with hr | hr
    · exact h.2 record' hr
    · rw [List.mem_singleton.mp hr]
      exact (hlogs _ h.1).1

theorem Whole.spoiled {r r' : Replicator} {wal : SyncWal} {rs : List WalRecord}
    (h : r.Whole wal rs) {disk : DiskWrite} (hdisk : disk = .complete) {record : WalRecord}
    {wal' : SyncWal} (hspoils : r.Spoils disk record wal') (hwal : r'.wal = some wal') :
    r'.Whole wal rs := by
  subst hdisk
  exact h.congr (hwal.trans hspoils.eq_of_complete.symm)

/-- The log of a running replicator replays to its live packets, if it replays. -/
theorem Whole.replay {r : Replicator} {wal : SyncWal} {rs : List WalRecord}
    (h : r.Whole wal rs) (hlimit : wal.maxPayloadBytes + 30 < 2 ^ 64) :
    (SyncWal.replay { wal with file := encodeAll WalRecord.bytes rs } = .ok (live rs) ∧
        WithinRecords wal.maxRecords [] rs) ∨
      (SyncWal.replay { wal with file := encodeAll WalRecord.bytes rs } =
          .error .tooManyRecords ∧ ¬ WithinRecords wal.maxRecords [] rs) :=
  SyncWal.replay_eq_live_of_whole { wal with file := encodeAll WalRecord.bytes rs } hlimit h.2 rfl

/-- A replicator opened on whole records has them for its log, and their live packets for its
    queue. -/
theorem whole_of_withWal {config : SyncConfig} {wal : SyncWal} {rs : List WalRecord}
    {r : Replicator} (hopen : withWal config wal = .ok r)
    (hlimit : wal.maxPayloadBytes + 30 < 2 ^ 64)
    (hfits : ∀ record ∈ rs, record.Fits wal.maxPayloadBytes)
    (hfile : wal.file = encodeAll WalRecord.bytes rs) :
    r.Whole wal rs ∧ r = opened config wal (live rs) ∧ (live rs).length ≤ config.maxPending ∧
      WithinRecords wal.maxRecords [] rs := by
  obtain ⟨-, recovered, hreplay, hle, rfl⟩ := withWal_eq_ok_iff.mp hopen
  rcases wal.replay_eq_live_of_whole hlimit hfits hfile with ⟨h, hwithin⟩ | ⟨h, -⟩
  · cases Except.ok.inj (hreplay.symm.trans h)
    exact ⟨⟨congrArg some (by rw [← hfile]), hfits⟩, rfl, hle, hwithin⟩
  · exact absurd (hreplay.symm.trans h) (by simp)

end Replicator

/-! ## A life over one log -/

/-- A replicator's life over its log: the calls made on it, and the restarts. -/
inductive LifeEvent
  | call (c : Call)
  /-- The replicator is dropped, and `with_wal` called on the log it leaves. -/
  | restart (config : SyncConfig)

end Sync
end EngineKit
