import EngineKit.Sync.Wal

/-!
# The replicator

`Replicator` of `src/kernel/sync.rs`, function by function: the outgoing queue and its
coalescing, the pump with its three loops, acknowledgement, and the three ways a packet comes
in. Methods that take `&mut self` answer their result and the replicator after the call;
methods that may write the log take what the disk does with the write (`DiskWrite`).

A transport is any state with a `send` (`SyncTransport`); an authenticator is any tag function,
with the trait's default `verify_tag` (`SyncAuthenticator`). Queues are lists, front first.
Statistics are natural numbers.
-/

set_option autoImplicit false

namespace EngineKit
namespace Sync

open Lib

structure SyncStats where
  queued : Nat := 0
  coalesced : Nat := 0
  sent : Nat := 0
  resent : Nat := 0
  acknowledged : Nat := 0
  duplicates : Nat := 0
  droppedRetries : Nat := 0
  rejectedBackpressure : Nat := 0
  rejectedReceive : Nat := 0
  deriving DecidableEq, Repr

structure InFlight where
  packet : SyncPacket
  lastSent : UInt64
  retries : UInt8
  deriving DecidableEq, Repr

inductive TransportError
  | wouldBlock
  | disconnected
  | failed
  deriving DecidableEq, Repr

class SyncTransport (T : Type) where
  send : T → SyncPacket → Except TransportError Unit × T

structure PumpReport where
  sent : Nat := 0
  resent : Nat := 0
  blocked : Bool := false
  failed : Nat := 0
  deriving DecidableEq, Repr

structure Replicator where
  config : SyncConfig
  mode : SyncMode
  nextSequence : UInt64
  lastReceived : UInt64
  lastAckSent : UInt64
  pending : List SyncPacket
  inFlight : List InFlight
  wal : Option SyncWal
  sessionNonce : Option (Vector UInt8 16)
  stats : SyncStats

namespace Replicator

/-! ## Construction -/

def tryNew (config : SyncConfig) : Except SyncError Replicator :=
  if config.maxPending = 0 ∨ config.maxPayloadBytes = 0 ∨ config.maxInFlight = 0 then
    .error .invalidConfig
  else
    .ok
      { config, mode := .offline, nextSequence := 1, lastReceived := 0, lastAckSent := 0,
        pending := [], inFlight := [], wal := none, sessionNonce := none, stats := {} }

/-- One recovered packet joins the queue, in `with_wal` and `attach_wal`. -/
def recover (r : Replicator) (packet : SyncPacket) : Replicator :=
  { r with
    nextSequence := max r.nextSequence (max (saturatingAdd packet.sequence 1) 1)
    pending := r.pending ++ [packet] }

def withWal (config : SyncConfig) (wal : SyncWal) : Except SyncError Replicator :=
  match tryNew config with
  | .error error => .error error
  | .ok replicator =>
    match wal.replay with
    | .error _ => .error .persistenceFailed
    | .ok recovered =>
      if config.maxPending < recovered.length then .error .backpressure
      else .ok { recovered.foldl recover replicator with wal := some wal }

/-! ## Mode and session -/

def setMode (r : Replicator) (mode : SyncMode) : Replicator := { r with mode }

def setSessionNonce (r : Replicator) (nonce : Vector UInt8 16) : Replicator :=
  { r with sessionNonce := some nonce, lastReceived := 0, lastAckSent := 0 }

def clearSession (r : Replicator) : Replicator :=
  { r with sessionNonce := none, lastReceived := 0, lastAckSent := 0 }

/-! ## Enqueueing -/

def validate (r : Replicator) (payload : List UInt8) : Except SyncError Unit :=
  if payload.isEmpty then .error .emptyPayload
  else if r.config.maxPayloadBytes < payload.length then .error .payloadTooLarge
  else .ok ()

/-- `if let Some(wal) = &self.wal { … .map_err(|_| PersistenceFailed)? }`, around
    `wal.append` and `wal.acknowledge`. -/
def persist (r : Replicator) (disk : DiskWrite) (record : WalRecord) :
    Except SyncError Unit × Replicator :=
  match r.wal with
  | none => (.ok (), r)
  | some wal =>
    match wal.perform disk record with
    | (.ok (), wal) => (.ok (), { r with wal := some wal })
    | (.error _, wal) => (.error .persistenceFailed, { r with wal := some wal })

def enqueue (r : Replicator) (disk : DiskWrite) (kind : SyncKind) (key : UInt64)
    (payload : List UInt8) : Except SyncError UInt64 × Replicator :=
  match r.validate payload with
  | .error error => (.error error, r)
  | .ok () =>
    if r.config.maxPending ≤ r.pending.length then
      (.error .backpressure,
        { r with stats.rejectedBackpressure := r.stats.rejectedBackpressure + 1 })
    else
      let sequence := r.nextSequence
      let packet : SyncPacket := { sequence, ack := r.lastReceived, kind, key, payload }
      let r := { r with nextSequence := max (r.nextSequence + 1) 1 }
      -- The number stays taken when the write fails.
      match r.persist disk (.packet packet) with
      | (.error error, r) => (.error error, r)
      | (.ok (), r) =>
        (.ok sequence,
          { r with pending := r.pending ++ [packet], stats.queued := r.stats.queued + 1 })

def enqueueSnapshot (r : Replicator) (disk : DiskWrite) (payload : List UInt8) :
    Except SyncError UInt64 × Replicator :=
  r.enqueue disk .snapshot 0 payload

def enqueueEvent (r : Replicator) (disk : DiskWrite) (key : UInt64) (payload : List UInt8) :
    Except SyncError UInt64 × Replicator :=
  r.enqueue disk .event key payload

def isDelta (key : UInt64) (p : SyncPacket) : Bool := p.kind = .delta ∧ p.key = key

def enqueueDelta (r : Replicator) (disk : DiskWrite) (key : UInt64) (payload : List UInt8) :
    Except SyncError UInt64 × Replicator :=
  match r.validate payload with
  | .error error => (.error error, r)
  | .ok () =>
    match r.pending.find? (isDelta key) with
    | some existing =>
      -- The record has the current ack; the packet in the queue keeps the one it has.
      let replacement : SyncPacket :=
        { sequence := existing.sequence, ack := r.lastReceived, kind := .delta, key, payload }
      match r.persist disk (.packet replacement) with
      | (.error error, r) => (.error error, r)
      | (.ok (), r) =>
        (.ok existing.sequence,
          { r with
            pending :=
              (updateFirst (isDelta key) (fun p => { p with payload }) r.pending).getD r.pending
            stats.coalesced := r.stats.coalesced + 1 })
    | none => r.enqueue disk .delta key payload

/-- The payload is validated before it is copied, and again by `enqueue`. -/
def enqueueOwned (r : Replicator) (disk : DiskWrite) (kind : SyncKind) (key : UInt64)
    (payload : List UInt8) : Except SyncError UInt64 × Replicator :=
  match r.validate payload with
  | .error error => (.error error, r)
  | .ok () => r.enqueue disk kind key payload

def enqueueSnapshotBytes (r : Replicator) (disk : DiskWrite) (payload : List UInt8) :
    Except SyncError UInt64 × Replicator :=
  r.enqueueOwned disk .snapshot 0 payload

def enqueueEventBytes (r : Replicator) (disk : DiskWrite) (key : UInt64)
    (payload : List UInt8) : Except SyncError UInt64 × Replicator :=
  r.enqueueOwned disk .event key payload

def enqueueDeltaBytes (r : Replicator) (disk : DiskWrite) (key : UInt64)
    (payload : List UInt8) : Except SyncError UInt64 × Replicator :=
  match r.validate payload with
  | .error error => (.error error, r)
  | .ok () => r.enqueueDelta disk key payload

/-! ## Pumping -/

section Pump

variable {T : Type} [SyncTransport T]

/-- `pump`'s first loop: first transmissions, front of the queue first, while there is room in
    flight. Answers what is left pending, what is in flight, the transport, how many were sent,
    and whether a send failed. -/
def sendPending (maxInFlight : Nat) (frame : UInt64) :
    List SyncPacket → List InFlight → T →
      List SyncPacket × List InFlight × T × Nat × Bool
  | [], inFlight, transport => ([], inFlight, transport, 0, false)
  | packet :: pending, inFlight, transport =>
    if inFlight.length < maxInFlight then
      match SyncTransport.send transport packet with
      | (.ok (), transport) =>
        let (pending, inFlight, transport, sent, blocked) :=
          sendPending maxInFlight frame pending
            (inFlight ++ [{ packet, lastSent := frame, retries := 0 }]) transport
        (pending, inFlight, transport, sent + 1, blocked)
      | (.error _, transport) => (packet :: pending, inFlight, transport, 0, true)
    else (packet :: pending, inFlight, transport, 0, false)

/-- `pump`'s second loop: every packet in flight that is due and has a retry left. A failed
    send does not end the loop. -/
def resendDue (config : SyncConfig) (frame : UInt64) :
    List InFlight → T → List InFlight × T × Nat × Bool
  | [], transport => ([], transport, 0, false)
  | item :: inFlight, transport =>
    if saturatingSub frame item.lastSent < config.resendAfterFrames ∨
        config.maxRetries ≤ item.retries then
      let (inFlight, transport, resent, blocked) := resendDue config frame inFlight transport
      (item :: inFlight, transport, resent, blocked)
    else
      match SyncTransport.send transport item.packet with
      | (.ok (), transport) =>
        let (inFlight, transport, resent, blocked) := resendDue config frame inFlight transport
        ({ item with lastSent := frame, retries := item.retries + 1 } :: inFlight, transport,
          resent + 1, blocked)
      | (.error _, transport) =>
        let (inFlight, transport, resent, _) := resendDue config frame inFlight transport
        (item :: inFlight, transport, resent, true)

/-- The packets `pump`'s third loop gives up on. -/
def exhausted (config : SyncConfig) (frame : UInt64) (item : InFlight) : Bool :=
  config.maxRetries ≤ item.retries ∧
    config.resendAfterFrames ≤ saturatingSub frame item.lastSent

def pump (r : Replicator) (transport : T) (frame : UInt64) : PumpReport × Replicator × T :=
  if r.mode ≠ .online then ({}, r, transport)
  else
    let (pending, inFlight, transport, sent, blockedFresh) :=
      sendPending r.config.maxInFlight frame r.pending r.inFlight transport
    let (inFlight, transport, resent, blockedResend) :=
      resendDue r.config frame inFlight transport
    let failed := (inFlight.filter (exhausted r.config frame)).length
    ({ sent, resent, blocked := blockedFresh || blockedResend, failed },
      { r with
        pending
        inFlight := inFlight.filter fun item => ! exhausted r.config frame item
        stats.sent := r.stats.sent + sent
        stats.resent := r.stats.resent + resent
        stats.droppedRetries := r.stats.droppedRetries + failed },
      transport)

end Pump

/-! ## Acknowledgement and receiving -/

def tryAcknowledge (r : Replicator) (disk : DiskWrite) (sequence : UInt64) :
    Except SyncError Unit × Replicator :=
  match r.persist disk (.ack sequence) with
  | (.error error, r) => (.error error, r)
  | (.ok (), r) =>
    let released := r.inFlight.filter fun item => item.packet.sequence ≤ sequence
    (.ok (),
      { r with
        inFlight := r.inFlight.filter fun item => ! decide (item.packet.sequence ≤ sequence)
        stats.acknowledged := r.stats.acknowledged + released.length })

def acknowledge (r : Replicator) (disk : DiskWrite) (sequence : UInt64) : Replicator :=
  (r.tryAcknowledge disk sequence).2

def receive (r : Replicator) (disk : DiskWrite) (packet : SyncPacket) :
    Option SyncPacket × Replicator :=
  if packet.payload.isEmpty ∨ r.config.maxPayloadBytes < packet.payload.length then
    (none, { r with stats.rejectedReceive := r.stats.rejectedReceive + 1 })
  else if packet.sequence ≤ r.lastReceived then
    (none, { r with stats.duplicates := r.stats.duplicates + 1 })
  else
    let r := { r with lastReceived := packet.sequence }
    if r.lastAckSent < packet.ack then
      -- The packet is returned also when the ACK record could not be written.
      (some packet, { r.acknowledge disk packet.ack with lastAckSent := packet.ack })
    else (some packet, r)

/-- The `rejected_receive` that accompanies an error of the wire decoder. -/
def rejectReceive (r : Replicator) : Replicator :=
  { r with stats.rejectedReceive := r.stats.rejectedReceive + 1 }

def receiveBytes (r : Replicator) (disk : DiskWrite) (bytes : List UInt8) :
    Except SyncError (Option SyncPacket) × Replicator :=
  if bytes.length < 30 then (.error .invalidPacket, r.rejectReceive)
  else
    match SyncKind.ofTag (bytes.getD 1 0) with
    | none => (.error .invalidPacket, r.rejectReceive)
    | some kind =>
      if bytes.getD 0 0 ≠ 1 then (.error .invalidPacket, r.rejectReceive)
      else
        let sequence := u64OfLe (bytes.extract 2 10)
        let ack := u64OfLe (bytes.extract 10 18)
        let key := u64OfLe (bytes.extract 18 26)
        let len := (u32OfLe (bytes.extract 26 30)).toNat
        match checkedAdd 30 len with
        -- The one refusal that is not counted: a `?` on the sum.
        | none => (.error .receiveTooLarge, r)
        | some total =>
          if len = 0 then (.error .emptyPayload, r.rejectReceive)
          else if r.config.maxPayloadBytes < len ∨ total ≠ bytes.length then
            (.error .receiveTooLarge, r.rejectReceive)
          else
            let (received, r) :=
              r.receive disk { sequence, ack, kind, key, payload := bytes.drop 30 }
            (.ok received, r)

end Replicator

/-! ## Authentication -/

/-- The trait's default `verify_tag`: the tags are compared without an early exit. -/
def defaultVerifyTag (authenticationTag : List UInt8 → Vector UInt8 32) (message : List UInt8)
    (expected : Vector UInt8 32) : Bool :=
  let actual := authenticationTag message
  (actual.toList.zip expected.toList).foldl
    (fun different pair => different ||| (pair.1 ^^^ pair.2)) (0 : UInt8) == 0

structure SyncAuthenticator where
  authenticationTag : List UInt8 → Vector UInt8 32
  verifyTag : List UInt8 → Vector UInt8 32 → Bool := defaultVerifyTag authenticationTag

namespace Replicator

/-- `Replicator::receive_authenticated_bytes`: nonce, packet, tag. -/
def receiveAuthenticatedBytes (r : Replicator) (disk : DiskWrite)
    (authenticator : SyncAuthenticator) (bytes : List UInt8) :
    Except SyncError (Option SyncPacket) × Replicator :=
  if h : bytes.length < 16 + 32 then (.error .authenticationFailed, r.rejectReceive)
  else
    match r.sessionNonce with
    | none => (.error .noSession, r)
    | some configured =>
      if bytes.take 16 ≠ configured.toList then (.error .authenticationFailed, r.rejectReceive)
      else
        let signedEnd := bytes.length - 32
        let tag : Vector UInt8 32 :=
          ⟨(bytes.drop signedEnd).toArray, by
            simp only [List.size_toArray, List.length_drop, signedEnd]; omega⟩
        if ! authenticator.verifyTag (bytes.take signedEnd) tag then
          (.error .authenticationFailed, r.rejectReceive)
        else r.receiveBytes disk (bytes.extract 16 signedEnd)

end Replicator

end Sync
end EngineKit
