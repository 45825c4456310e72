import EngineKit.Lib.Reach
import EngineKit.Sync.Script
import EngineKit.Sync.WalFacts

/-!
# One call on a replicator, and everything it can do

The laws of replication are about runs: calls in any order, on one replicator or on two. This
module says what a call is (`Call`, `Replicator.call`) and, once and for all, what a call can
do (`Effect`, `effect_call`). Every invariant further on is a case analysis over `Effect`; no
proof after this module opens `enqueue`, `pump` or `receive` again.

What the environment decides is part of the call: a log write carries its `DiskWrite`, a pump
the answers of its transport. `Output` is what an observer learns from a call.
-/

set_option autoImplicit false

namespace EngineKit
namespace Sync

open Lib

/-! ## Calls -/

/-- What an application asks to replicate. -/
inductive Update
  | snapshot (payload : List UInt8)
  | delta (key : UInt64) (payload : List UInt8)
  | event (key : UInt64) (payload : List UInt8)
  deriving DecidableEq, Repr

def Update.kind : Update → SyncKind
  | .snapshot _ => .snapshot
  | .delta _ _ => .delta
  | .event _ _ => .event

/-- Snapshots are all queued under key 0. -/
def Update.key : Update → UInt64
  | .snapshot _ => 0
  | .delta key _ => key
  | .event key _ => key

def Update.payload : Update → List UInt8
  | .snapshot payload => payload
  | .delta _ payload => payload
  | .event _ payload => payload

inductive Call
  | enqueue (disk : DiskWrite) (update : Update)
  | pump (answers : List (Except TransportError Unit)) (frame : UInt64)
  | receive (disk : DiskWrite) (packet : SyncPacket)
  | receiveAuthenticated (disk : DiskWrite) (authenticator : SyncAuthenticator)
      (bytes : List UInt8)
  | acknowledge (disk : DiskWrite) (sequence : UInt64)
  | setMode (mode : SyncMode)
  | setSession (nonce : Vector UInt8 16)
  | clearSession

def Call.disk : Call → DiskWrite
  | .enqueue disk _ => disk
  | .receive disk _ => disk
  | .receiveAuthenticated disk _ _ => disk
  | .acknowledge disk _ => disk
  | _ => .complete

/-- The call begins another session, or ends the one there is. -/
def Call.changesSession : Call → Bool
  | .setSession _ => true
  | .clearSession => true
  | _ => false

/-- The packet a `receive` is given; authenticated bytes may turn out to hold any. -/
def Call.Carries : Call → SyncPacket → Prop
  | .receive _ packet, p => p = packet
  | .receiveAuthenticated _ _ _, _ => True
  | _, _ => False

theorem Call.Carries.changesSession_eq {c : Call} {p : SyncPacket} (h : c.Carries p) :
    c.changesSession = false := by
  cases c with
  | setSession nonce => exact h.elim
  | clearSession => exact h.elim
  | _ => rfl

structure Output where
  /-- The sequence number an enqueue answered `Ok` with. -/
  accepted : Option UInt64 := none
  /-- The packets a pump moved in flight. -/
  fresh : List SyncPacket := []
  /-- What a pump handed to the transport, and whether it was taken. -/
  handed : List (SyncPacket × Bool) := []
  /-- The packet a receive returned. -/
  received : Option SyncPacket := none

namespace Replicator

/-- `enqueue_snapshot`, `enqueue_delta`, `enqueue_event`. -/
def enqueueUpdate (r : Replicator) (disk : DiskWrite) :
    Update → Except SyncError UInt64 × Replicator
  | .snapshot payload => r.enqueueSnapshot disk payload
  | .delta key payload => r.enqueueDelta disk key payload
  | .event key payload => r.enqueueEvent disk key payload

/-- `enqueue_snapshot_bytes`, `enqueue_delta_bytes`, `enqueue_event_bytes`. -/
def enqueueUpdateBytes (r : Replicator) (disk : DiskWrite) :
    Update → Except SyncError UInt64 × Replicator
  | .snapshot payload => r.enqueueSnapshotBytes disk payload
  | .delta key payload => r.enqueueDeltaBytes disk key payload
  | .event key payload => r.enqueueEventBytes disk key payload

def call (r : Replicator) : Call → Output × Replicator
  | .enqueue disk update =>
    let (result, r) := r.enqueueUpdate disk update
    ({ accepted := result.toOption }, r)
  | .pump answers frame =>
    let (report, r', script) := r.pump (Script.mk answers []) frame
    ({ fresh := r.pending.take report.sent, handed := script.handed }, r')
  | .receive disk packet =>
    let (received, r) := r.receive disk packet
    ({ received }, r)
  | .receiveAuthenticated disk authenticator bytes =>
    let (result, r) := r.receiveAuthenticatedBytes disk authenticator bytes
    ({ received := result.toOption.join }, r)
  | .acknowledge disk sequence => ({}, r.acknowledge disk sequence)
  | .setMode mode => ({}, r.setMode mode)
  | .setSession nonce => ({}, r.setSessionNonce nonce)
  | .clearSession => ({}, r.clearSession)

/-- The by-reference enqueues validate twice and are otherwise the owned ones, so a law about
    `enqueueUpdate` is a law about them. -/
theorem enqueueUpdateBytes_eq (r : Replicator) (disk : DiskWrite) (update : Update) :
    r.enqueueUpdateBytes disk update = r.enqueueUpdate disk update := by
  have howned : ∀ kind key payload,
      r.enqueueOwned disk kind key payload = r.enqueue disk kind key payload := by
    intro kind key payload
    unfold enqueueOwned enqueue
    cases r.validate payload <;> rfl
  cases update with
  | snapshot payload => exact howned _ _ _
  | event key payload => exact howned _ _ _
  | delta key payload =>
    simp only [enqueueUpdateBytes, enqueueUpdate, enqueueDeltaBytes, enqueueDelta]
    cases r.validate payload <;> rfl

/-! ## The state a call meets -/

/-- A pending delta of the update's key takes the new payload in its place. -/
def Coalesces (r : Replicator) : Update → Prop
  | .delta key _ => ∃ p ∈ r.pending, isDelta key p = true
  | _ => False

instance (r : Replicator) : (update : Update) → Decidable (r.Coalesces update)
  | .snapshot _ => inferInstanceAs (Decidable False)
  | .delta key _ => inferInstanceAs (Decidable (∃ p ∈ r.pending, isDelta key p = true))
  | .event _ _ => inferInstanceAs (Decidable False)

/-- The update is admissible and goes to the end of the queue under a new sequence number. -/
def Takes (r : Replicator) (update : Update) : Prop :=
  r.validate update.payload = .ok () ∧ r.pending.length < r.config.maxPending ∧
    ¬ r.Coalesces update

instance (r : Replicator) (update : Update) : Decidable (r.Takes update) :=
  inferInstanceAs (Decidable (_ ∧ _ ∧ ¬ _))

def nextPacket (r : Replicator) (update : Update) : SyncPacket :=
  { sequence := r.nextSequence, ack := r.lastReceived, kind := update.kind, key := update.key,
    payload := update.payload }

/-- `next_sequence` after a sequence number is taken. -/
def successor (r : Replicator) : UInt64 := max (r.nextSequence + 1) 1

/-- The checks `receive` makes before it accepts a packet. -/
def Accepts (r : Replicator) (p : SyncPacket) : Prop :=
  p.payload ≠ [] ∧ p.payload.length ≤ r.config.maxPayloadBytes ∧ r.lastReceived < p.sequence

instance (r : Replicator) (p : SyncPacket) : Decidable (r.Accepts p) :=
  inferInstanceAs (Decidable (_ ∧ _ ∧ _))

/-- The log, if there is one, takes the record. -/
def Logs (r : Replicator) (disk : DiskWrite) (record : WalRecord) : Prop :=
  ∀ wal, r.wal = some wal → record.Fits wal.maxPayloadBytes ∧ disk = .complete

def logged (r : Replicator) (record : WalRecord) : Option SyncWal :=
  r.wal.map (·.push record)

/-- The log refuses the record and is then `wal'`. -/
def Spoils (r : Replicator) (disk : DiskWrite) (record : WalRecord) (wal' : SyncWal) : Prop :=
  ∃ wal error, r.wal = some wal ∧ wal.perform disk record = (.error error, wal')

/-- **What `persist` does.** Nothing but the log changes. -/
theorem persist_cases (r : Replicator) (disk : DiskWrite) (record : WalRecord) :
    (r.Logs disk record ∧
      r.persist disk record = (.ok (), { r with wal := r.logged record })) ∨
    ∃ wal', r.Spoils disk record wal' ∧
      r.persist disk record = (.error .persistenceFailed, { r with wal := some wal' }) := by
  unfold persist
  cases hw : r.wal with
  | none =>
    refine Or.inl ⟨fun wal h => absurd (hw.symm.trans h) (by simp), ?_⟩
    rw [show r.logged record = r.wal by simp [logged, hw]]
  | some wal =>
    cases hp : wal.perform disk record with
    | mk result wal' =>
      cases result with
      | error error => exact Or.inr ⟨wal', ⟨wal, error, hw, hp⟩, by simp [hp]⟩
      | ok _ =>
        obtain ⟨hfits, hdisk, rfl⟩ := SyncWal.perform_eq_ok_iff.mp hp
        refine Or.inl ⟨?_, by simp [logged, hw, hp]⟩
        intro wal₁ h
        cases Option.some.inj (hw.symm.trans h)
        exact ⟨hfits, hdisk⟩

theorem Spoils.eq_of_complete {r : Replicator} {record : WalRecord} {wal' : SyncWal}
    (h : r.Spoils .complete record wal') : r.wal = some wal' := by
  obtain ⟨wal, error, hw, hp⟩ := h
  rcases wal.perform_cases .complete record with ⟨-, h⟩ | ⟨-, n, hd, -⟩ | ⟨-, -, h⟩
  · rw [hp] at h
    exact hw.trans (congrArg some (Prod.mk.inj h).2.symm)
  · exact absurd hd (by simp)
  · exact absurd (hp.symm.trans h) (by simp)

/-! ## Effects -/

/-- **Everything a call can do.** From `r`, the call with this output leaves this replicator. -/
inductive Effect (r : Replicator) : Call → Output → Replicator → Prop
  /-- The call was refused, or touched only the mode. -/
  | idle {c : Call} (mode : SyncMode) (stats : SyncStats) (hc : c.changesSession = false) :
      Effect r c {} { r with mode, stats }
  /-- A new update took a sequence number and the log did not take the record. -/
  | burned {disk : DiskWrite} {update : Update} {wal' : SyncWal}
      (htakes : r.Takes update) (hspoils : r.Spoils disk (.packet (r.nextPacket update)) wal') :
      Effect r (.enqueue disk update) {}
        { r with nextSequence := r.successor, wal := some wal' }
  /-- A new update stands at the end of the queue. -/
  | enqueued {disk : DiskWrite} {update : Update} (stats : SyncStats)
      (htakes : r.Takes update) (hlogs : r.Logs disk (.packet (r.nextPacket update))) :
      Effect r (.enqueue disk update) { accepted := some r.nextSequence }
        { r with
          nextSequence := r.successor
          pending := r.pending ++ [r.nextPacket update]
          wal := r.logged (.packet (r.nextPacket update))
          stats }
  /-- A record other than a new update's was not taken by the log. -/
  | spoiled {c : Call} {record : WalRecord} {wal' : SyncWal} (hc : c.changesSession = false)
      (hspoils : r.Spoils c.disk record wal') : Effect r c {} { r with wal := some wal' }
  /-- A pending delta has a new payload. -/
  | coalesced {disk : DiskWrite} {key : UInt64} {payload : List UInt8}
      {pre post : List SyncPacket} {old : SyncPacket} (stats : SyncStats)
      (hpending : r.pending = pre ++ old :: post) (hpre : ∀ p ∈ pre, isDelta key p = false)
      (hold : isDelta key old = true)
      (hlogs : r.Logs disk (.packet { old with ack := r.lastReceived, payload })) :
      Effect r (.enqueue disk (.delta key payload)) { accepted := some old.sequence }
        { r with
          pending := pre ++ { old with payload } :: post
          wal := r.logged (.packet { old with ack := r.lastReceived, payload })
          stats }
  /-- A prefix of the queue moved in flight; the rest of what was handed over was in flight, or
      was refused. -/
  | pumped {answers : List (Except TransportError Unit)} {frame : UInt64}
      {moved left : List SyncPacket} {inFlight : List InFlight} {rest : List (SyncPacket × Bool)}
      (stats : SyncStats) (hpending : r.pending = moved ++ left)
      (hinFlight : (inFlight.map InFlight.packet).Sublist
        (r.inFlight.map InFlight.packet ++ moved))
      (hrest : ∀ x ∈ rest, x.1 ∈ r.inFlight.map InFlight.packet ++ moved ∨
        x.1 ∈ left ∧ x.2 = false) :
      Effect r (.pump answers frame)
        { fresh := moved, handed := moved.map (·, true) ++ rest }
        { r with pending := left, inFlight, stats }
  /-- Everything in flight up to a sequence number is released. -/
  | acknowledged {disk : DiskWrite} {sequence : UInt64} (stats : SyncStats)
      (hlogs : r.Logs disk (.ack sequence)) :
      Effect r (.acknowledge disk sequence) {}
        { r with
          inFlight := r.inFlight.filter fun item => sequence < item.packet.sequence
          wal := r.logged (.ack sequence)
          stats }
  /-- A packet is returned, and acknowledges nothing new. -/
  | received {c : Call} {p : SyncPacket} (hc : c.Carries p) (haccepts : r.Accepts p)
      (hack : p.ack ≤ r.lastAckSent) :
      Effect r c { received := some p } { r with lastReceived := p.sequence }
  /-- A packet is returned, and what it acknowledges is released. -/
  | receivedAck {c : Call} {p : SyncPacket} (stats : SyncStats) (hc : c.Carries p)
      (haccepts : r.Accepts p) (hack : r.lastAckSent < p.ack) (hlogs : r.Logs c.disk (.ack p.ack)) :
      Effect r c { received := some p }
        { r with
          lastReceived := p.sequence
          lastAckSent := p.ack
          inFlight := r.inFlight.filter fun item => p.ack < item.packet.sequence
          wal := r.logged (.ack p.ack)
          stats }
  /-- A packet is returned, and the log did not take its acknowledgement. -/
  | receivedSpoiled {c : Call} {p : SyncPacket} {wal' : SyncWal} (hc : c.Carries p)
      (haccepts : r.Accepts p) (hack : r.lastAckSent < p.ack)
      (hspoils : r.Spoils c.disk (.ack p.ack) wal') :
      Effect r c { received := some p }
        { r with lastReceived := p.sequence, lastAckSent := p.ack, wal := some wal' }
  /-- The session changed. -/
  | session {c : Call} (sessionNonce : Option (Vector UInt8 16))
      (hc : c.changesSession = true) :
      Effect r c {} { r with sessionNonce, lastReceived := 0, lastAckSent := 0 }

/-- **What an enqueue does.** It refuses the update, or takes a number for it; and then the packet
    is in the log and in the queue, or the log refused it and only the number is gone. -/
theorem enqueue_cases (r : Replicator) (disk : DiskWrite) (kind : SyncKind) (key : UInt64)
    (payload : List UInt8) :
    (∃ error rejected, r.enqueue disk kind key payload =
        (.error error, { r with stats.rejectedBackpressure := rejected }) ∧
      ¬ (r.validate payload = .ok () ∧ r.pending.length < r.config.maxPending)) ∨
    (r.validate payload = .ok () ∧ r.pending.length < r.config.maxPending ∧
      ((r.Logs disk (.packet ⟨r.nextSequence, r.lastReceived, kind, key, payload⟩) ∧
          r.enqueue disk kind key payload =
            (.ok r.nextSequence,
              { r with
                nextSequence := r.successor
                pending := r.pending ++ [⟨r.nextSequence, r.lastReceived, kind, key, payload⟩]
                wal := r.logged (.packet ⟨r.nextSequence, r.lastReceived, kind, key, payload⟩)
                stats.queued := r.stats.queued + 1 })) ∨
        ∃ wal',
          r.Spoils disk (.packet ⟨r.nextSequence, r.lastReceived, kind, key, payload⟩) wal' ∧
          r.enqueue disk kind key payload =
            (.error .persistenceFailed,
              { r with nextSequence := r.successor, wal := some wal' }))) := by
  unfold enqueue
  cases hv : r.validate payload with
  | error error => exact Or.inl ⟨error, _, rfl, fun h => absurd h.1 (by simp)⟩
  | ok _ =>
    by_cases hfull : r.config.maxPending ≤ r.pending.length
    · simp only [if_pos hfull]
      exact Or.inl ⟨_, _, rfl, fun h => absurd h.2 (Nat.not_lt.mpr hfull)⟩
    · simp only [if_neg hfull]
      refine Or.inr ⟨trivial, Nat.lt_of_not_le hfull, ?_⟩
      rcases persist_cases { r with nextSequence := r.successor } disk
        (.packet ⟨r.nextSequence, r.lastReceived, kind, key, payload⟩) with
        ⟨hlogs, h⟩ | ⟨wal', hspoils, h⟩
      · rw [show max (r.nextSequence + 1) 1 = r.successor from rfl, h]
        exact Or.inl ⟨hlogs, rfl⟩
      · rw [show max (r.nextSequence + 1) 1 = r.successor from rfl, h]
        exact Or.inr ⟨wal', hspoils, rfl⟩

/-- **What a delta does.** It is refused, or coalesces with the first pending delta of its key
    unless the log refuses that; and without one it is queued like any update. -/
theorem enqueueDelta_cases (r : Replicator) (disk : DiskWrite) (key : UInt64)
    (payload : List UInt8) :
    (∃ error, r.validate payload = .error error ∧
      r.enqueueDelta disk key payload = (.error error, r)) ∨
    (¬ r.Coalesces (.delta key payload) ∧
      r.enqueueDelta disk key payload = r.enqueue disk .delta key payload) ∨
    ∃ pre old post, r.pending = pre ++ old :: post ∧ (∀ p ∈ pre, isDelta key p = false) ∧
      isDelta key old = true ∧
      ((r.Logs disk (.packet { old with ack := r.lastReceived, payload }) ∧
          r.enqueueDelta disk key payload =
            (.ok old.sequence,
              { r with
                pending := pre ++ { old with payload } :: post
                wal := r.logged (.packet { old with ack := r.lastReceived, payload })
                stats.coalesced := r.stats.coalesced + 1 })) ∨
        ∃ wal', r.Spoils disk (.packet { old with ack := r.lastReceived, payload }) wal' ∧
          r.enqueueDelta disk key payload =
            (.error .persistenceFailed, { r with wal := some wal' })) := by
  unfold enqueueDelta
  cases hv : r.validate payload with
  | error error => exact Or.inl ⟨error, rfl, rfl⟩
  | ok _ =>
    cases hf : r.pending.find? (isDelta key) with
    | none =>
      refine Or.inr (Or.inl ⟨?_, rfl⟩)
      intro hex
      obtain ⟨p, hp, hd⟩ := hex
      exact absurd hd (by simpa using List.find?_eq_none.mp hf p hp)
    | some old =>
      obtain ⟨hold, pre, post, hpending, hpre⟩ := List.find?_eq_some_iff_append.mp hf
      have hpre' : ∀ p ∈ pre, isDelta key p = false := by simpa using hpre
      have hupdate : updateFirst (isDelta key) (fun p => { p with payload }) r.pending =
          some (pre ++ { old with payload } :: post) :=
        updateFirst_eq_some_iff.mpr ⟨pre, old, post, hpending, hpre', hold, rfl⟩
      have hkey : old.kind = .delta ∧ old.key = key := by simpa [isDelta] using hold
      -- The record written is the old packet with the new payload and ack.
      have hrecord : SyncPacket.mk old.sequence r.lastReceived .delta key payload =
          { old with ack := r.lastReceived, payload } := by
        rw [← hkey.1, ← hkey.2]
      refine Or.inr (Or.inr ⟨pre, old, post, hpending, hpre', hold, ?_⟩)
      simp only [hrecord]
      rcases persist_cases r disk (.packet { old with ack := r.lastReceived, payload }) with
        ⟨hlogs, h⟩ | ⟨wal', hspoils, h⟩
      · rw [h]
        simp only [hupdate, Option.getD_some]
        exact Or.inl ⟨hlogs, trivial⟩
      · rw [h]
        exact Or.inr ⟨wal', hspoils, rfl⟩

theorem effect_enqueue (r : Replicator) (disk : DiskWrite) (update : Update)
    (hnew : ¬ r.Coalesces update) :
    Effect r (.enqueue disk update)
      { accepted :=
          (r.enqueue disk update.kind update.key update.payload).1.toOption }
      (r.enqueue disk update.kind update.key update.payload).2 := by
  rcases r.enqueue_cases disk update.kind update.key update.payload with
    ⟨error, rejected, h, -⟩ | ⟨hvalid, hroom, ⟨hlogs, h⟩ | ⟨wal', hspoils, h⟩⟩
  · rw [h]
    exact .idle r.mode _ rfl
  · rw [h]
    exact .enqueued _ ⟨hvalid, hroom, hnew⟩ hlogs
  · rw [h]
    exact .burned ⟨hvalid, hroom, hnew⟩ hspoils

theorem effect_enqueueUpdate (r : Replicator) (disk : DiskWrite) (update : Update) :
    Effect r (.enqueue disk update) { accepted := (r.enqueueUpdate disk update).1.toOption }
      (r.enqueueUpdate disk update).2 := by
  cases update with
  | snapshot payload => exact r.effect_enqueue disk (.snapshot payload) (fun h => h)
  | event key payload => exact r.effect_enqueue disk (.event key payload) (fun h => h)
  | delta key payload =>
    simp only [enqueueUpdate]
    rcases r.enqueueDelta_cases disk key payload with
      ⟨error, -, h⟩ | ⟨hnew, h⟩ |
        ⟨pre, old, post, hpending, hpre, hold, ⟨hlogs, h⟩ | ⟨wal', hspoils, h⟩⟩
    · rw [h]
      exact .idle r.mode r.stats rfl
    · rw [h]
      exact r.effect_enqueue disk (.delta key payload) hnew
    · rw [h]
      exact .coalesced _ hpending hpre hold hlogs
    · rw [h]
      exact .spoiled rfl hspoils

theorem effect_pump (r : Replicator) (answers : List (Except TransportError Unit))
    (frame : UInt64) :
    Effect r (.pump answers frame) (r.call (.pump answers frame)).1
      (r.call (.pump answers frame)).2 := by
  by_cases hmode : r.mode ≠ .online
  · simp only [call, pump, if_pos hmode, List.take_zero]
    exact .idle r.mode r.stats rfl
  · obtain ⟨moved, left, refused, script, blocked, hpending, hrefused, hh, heq⟩ :=
      sendPending_script r.config.maxInFlight frame r.pending r.inFlight (Script.mk answers [])
    obtain ⟨inFlight, script', resent, blocked', handed, heq', hmap, hh', hin⟩ :=
      resendDue_script r.config frame
        (r.inFlight ++ moved.map fun packet => { packet, lastSent := frame, retries := 0 }) script
    have hpackets : (r.inFlight ++ moved.map fun packet =>
        ({ packet, lastSent := frame, retries := 0 } : InFlight)).map InFlight.packet =
          r.inFlight.map InFlight.packet ++ moved := by
      rw [List.map_append, List.map_map]
      exact congrArg (_ ++ ·) (List.map_id moved)
    have hhanded : script'.handed =
        moved.map (·, true) ++ (refused.map (·, false) ++ handed) := by
      simp [hh', hh]
    simp only [call, pump, if_neg hmode, heq, heq', hhanded]
    rw [hpending, List.take_left]
    refine .pumped _ hpending ?_ ?_
    · -- Giving up only removes.
      rw [← hpackets, ← hmap]
      exact List.filter_sublist.map _
    · intro x hx
      rcases List.mem_append.mp hx with hx | hx
      · obtain ⟨p, hp, rfl⟩ := List.mem_map.mp hx
        exact Or.inr ⟨hrefused hp, rfl⟩
      · exact Or.inl (hpackets ▸ hin x hx)

/-- **What an acknowledgement does.** -/
theorem tryAcknowledge_cases (r : Replicator) (disk : DiskWrite) (sequence : UInt64) :
    (r.Logs disk (.ack sequence) ∧
      (r.tryAcknowledge disk sequence).2 =
        { r with
          inFlight := r.inFlight.filter fun item => sequence < item.packet.sequence
          wal := r.logged (.ack sequence)
          stats.acknowledged := r.stats.acknowledged +
            (r.inFlight.filter fun item => item.packet.sequence ≤ sequence).length }) ∨
      ∃ wal', r.Spoils disk (.ack sequence) wal' ∧
        (r.tryAcknowledge disk sequence).2 = { r with wal := some wal' } := by
  have hfilter : (fun item : InFlight => ! decide (item.packet.sequence ≤ sequence)) =
      fun item => decide (sequence < item.packet.sequence) := by
    funext item
    rw [← decide_not]
    exact decide_eq_decide.mpr UInt64.not_le
  unfold tryAcknowledge
  rcases persist_cases r disk (.ack sequence) with ⟨hlogs, h⟩ | ⟨wal', hspoils, h⟩
  · rw [h]
    exact Or.inl ⟨hlogs, by simp only [hfilter]⟩
  · rw [h]
    exact Or.inr ⟨wal', hspoils, rfl⟩

theorem effect_receive (r : Replicator) {c : Call} {p : SyncPacket} (hc : c.Carries p) :
    Effect r c { received := (r.receive c.disk p).1 } (r.receive c.disk p).2 := by
  have hsession := hc.changesSession_eq
  unfold receive
  split
  · exact .idle r.mode _ hsession
  · next hvalid =>
    split
    · exact .idle r.mode _ hsession
    · next hseq =>
      have haccepts : r.Accepts p := by
        refine ⟨fun h => hvalid (Or.inl (by simp [h])), ?_, UInt64.not_le.mp hseq⟩
        exact Nat.le_of_not_lt fun h => hvalid (Or.inr h)
      by_cases hack : r.lastAckSent < p.ack
      · simp only [if_pos hack, acknowledge]
        rcases tryAcknowledge_cases { r with lastReceived := p.sequence } c.disk p.ack with
          ⟨hlogs, h⟩ | ⟨wal', hspoils, h⟩
        · rw [h]
          exact .receivedAck _ hc haccepts hack hlogs
        · rw [h]
          exact .receivedSpoiled hc haccepts hack hspoils
      · simp only [if_neg hack]
        exact .received hc haccepts (UInt64.not_lt.mp hack)

theorem effect_rejectReceive (r : Replicator) {c : Call} (hc : c.changesSession = false) :
    Effect r c {} r.rejectReceive :=
  .idle r.mode _ hc

theorem effect_receiveBytes (r : Replicator) {c : Call} (hc : ∀ p, c.Carries p)
    (hsession : c.changesSession = false) (bytes : List UInt8) :
    Effect r c { received := (r.receiveBytes c.disk bytes).1.toOption.join }
      (r.receiveBytes c.disk bytes).2 := by
  unfold receiveBytes
  split
  · exact r.effect_rejectReceive hsession
  · split
    · exact r.effect_rejectReceive hsession
    · split
      · exact r.effect_rejectReceive hsession
      · simp only
        split
        · exact .idle r.mode r.stats hsession
        · split
          · exact r.effect_rejectReceive hsession
          · split
            · exact r.effect_rejectReceive hsession
            · exact r.effect_receive (hc _)

/-- **Every call is one of the effects.** -/
theorem effect_call (r : Replicator) (c : Call) : Effect r c (r.call c).1 (r.call c).2 := by
  cases c with
  | enqueue disk update => exact r.effect_enqueueUpdate disk update
  | pump answers frame => exact r.effect_pump answers frame
  | receive disk packet => exact r.effect_receive (c := .receive disk packet) rfl
  | receiveAuthenticated disk authenticator bytes =>
    simp only [call, receiveAuthenticatedBytes]
    split
    · exact r.effect_rejectReceive rfl
    · split
      · exact .idle r.mode r.stats rfl
      · split
        · exact r.effect_rejectReceive rfl
        · split
          · exact r.effect_rejectReceive rfl
          · exact r.effect_receiveBytes (c := .receiveAuthenticated disk authenticator bytes)
              (fun _ => trivial) rfl _
  | acknowledge disk sequence =>
    simp only [call, acknowledge]
    rcases r.tryAcknowledge_cases disk sequence with ⟨hlogs, h⟩ | ⟨wal', hspoils, h⟩
    · rw [h]
      exact .acknowledged _ hlogs
    · rw [h]
      exact .spoiled (c := .acknowledge disk sequence) rfl hspoils
  | setMode mode => exact .idle mode r.stats rfl
  | setSession nonce => exact .session (some nonce) rfl
  | clearSession => exact .session none rfl

def steps : Replicator → Call → Replicator → Prop := fun r c r' => r' = (r.call c).2

theorem effect_of_steps {r r' : Replicator} {c : Call} (h : steps r c r') :
    Effect r c (r.call c).1 r' :=
  h ▸ r.effect_call c

/-- **What a call does to `last_received`**, other than change the session: it stays, and nothing
    is returned, or it becomes the sequence number of the packet returned. -/
theorem Effect.lastReceived_cases {r r' : Replicator} {c : Call} {o : Output}
    (h : Effect r c o r') (hc : c.changesSession = false) :
    (o.received = none ∧ r'.lastReceived = r.lastReceived) ∨
      ∃ p, c.Carries p ∧ r.Accepts p ∧ o.received = some p ∧ r'.lastReceived = p.sequence := by
  cases h with
  | received hcarries haccepts hle => exact Or.inr ⟨_, hcarries, haccepts, rfl, rfl⟩
  | receivedAck stats hcarries haccepts hlt hlogs =>
    exact Or.inr ⟨_, hcarries, haccepts, rfl, rfl⟩
  | receivedSpoiled hcarries haccepts hlt hspoils =>
    exact Or.inr ⟨_, hcarries, haccepts, rfl, rfl⟩
  | session nonce hc' => exact absurd (hc.symm.trans hc') (by simp)
  | _ => exact Or.inl ⟨rfl, rfl⟩

/-- The packets the replicator still holds. -/
def outstanding (r : Replicator) : List SyncPacket :=
  r.pending ++ r.inFlight.map InFlight.packet

/-- The call may write an ACK record of this sequence number. -/
def WritesAck (r : Replicator) : Call → UInt64 → Prop
  | .acknowledge _ sequence, s => s = sequence
  | c, s => ∃ p, c.Carries p ∧ r.Accepts p ∧ r.lastAckSent < p.ack ∧ s = p.ack

end Replicator

end Sync
end EngineKit
