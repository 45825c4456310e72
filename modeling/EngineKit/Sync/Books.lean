import EngineKit.Sync.Attach
import EngineKit.Sync.Compact

/-!
# The books of a replicator

A packet comes in by being queued or by being recovered from a log, and goes out by being
acknowledged or given up on. In between it is pending or in flight. `Balanced r n r'` says that
between two states, with `n` packets recovered, this adds up, and that neither queue outgrew its
bound; every method keeps the books (`balanced_call`, `balanced_reaction`), so every run does.

The effects of `Sync/Calls.lean` do not mention the statistics. The lemmas here are about the
methods themselves, those about `pump` for any transport.
-/

set_option autoImplicit false

namespace EngineKit
namespace Sync

open Lib

namespace Replicator

/-- Where the packets that came in are, or went. -/
def accounted (r : Replicator) : Nat :=
  r.pending.length + r.inFlight.length + r.stats.acknowledged + r.stats.droppedRetries

structure Balanced (r : Replicator) (n : Nat) (r' : Replicator) : Prop where
  config : r'.config = r.config
  pending : r.pending.length ≤ r.config.maxPending → r'.pending.length ≤ r.config.maxPending
  inFlight : r.inFlight.length ≤ r.config.maxInFlight →
    r'.inFlight.length ≤ r.config.maxInFlight
  books : r'.stats.queued + r.accounted + n = r.stats.queued + r'.accounted

theorem Balanced.refl (r : Replicator) : Balanced r 0 r := ⟨rfl, id, id, rfl⟩

/-! ## Queueing -/

theorem balanced_enqueue (r : Replicator) (disk : DiskWrite) (kind : SyncKind) (key : UInt64)
    (payload : List UInt8) : Balanced r 0 (r.enqueue disk kind key payload).2 := by
  rcases r.enqueue_cases disk kind key payload with
    ⟨error, rejected, h, -⟩ | ⟨-, hroom, ⟨-, h⟩ | ⟨wal', -, h⟩⟩
  · rw [h]
    exact ⟨rfl, id, id, rfl⟩
  · rw [h]
    refine ⟨rfl, ?_, id, ?_⟩
    · intro _
      simp only [List.length_append, List.length_singleton]
      omega
    · simp only [accounted, List.length_append, List.length_singleton]
      omega
  · rw [h]
    exact ⟨rfl, id, id, rfl⟩

theorem balanced_enqueueDelta (r : Replicator) (disk : DiskWrite) (key : UInt64)
    (payload : List UInt8) : Balanced r 0 (r.enqueueDelta disk key payload).2 := by
  rcases r.enqueueDelta_cases disk key payload with
    ⟨error, -, h⟩ | ⟨-, h⟩ | ⟨pre, old, post, hpending, -, -, ⟨-, h⟩ | ⟨wal', -, h⟩⟩
  · rw [h]
    exact .refl r
  · rw [h]
    exact r.balanced_enqueue disk .delta key payload
  · -- A payload takes another's place; no packet comes in.
    have hlength : (pre ++ { old with payload } :: post).length = r.pending.length := by
      simp [hpending]
    rw [h]
    refine ⟨rfl, ?_, id, ?_⟩
    · intro hle
      exact hlength ▸ hle
    · simp only [accounted, hlength, Nat.add_zero]
  · rw [h]
    exact ⟨rfl, id, id, rfl⟩

theorem balanced_enqueueUpdate (r : Replicator) (disk : DiskWrite) (update : Update) :
    Balanced r 0 (r.enqueueUpdate disk update).2 := by
  cases update with
  | snapshot payload => exact r.balanced_enqueue disk .snapshot 0 payload
  | delta key payload => exact r.balanced_enqueueDelta disk key payload
  | event key payload => exact r.balanced_enqueue disk .event key payload

/-! ## Pumping -/

section Pump

variable {T : Type} [SyncTransport T]

/-- First transmissions move packets from one queue to the other, while there is room. -/
theorem sendPending_lengths (maxInFlight : Nat) (frame : UInt64) (pending : List SyncPacket)
    (inFlight : List InFlight) (transport : T) :
    ∃ left inFlight' transport' sent blocked,
      sendPending maxInFlight frame pending inFlight transport =
        (left, inFlight', transport', sent, blocked) ∧
      left.length + inFlight'.length = pending.length + inFlight.length ∧
      left.length ≤ pending.length ∧
      (inFlight.length ≤ maxInFlight → inFlight'.length ≤ maxInFlight) := by
  induction pending generalizing inFlight transport with
  | nil => exact ⟨[], inFlight, transport, 0, false, rfl, rfl, Nat.le_refl _, id⟩
  | cons packet pending ih =>
    unfold sendPending
    by_cases hroom : inFlight.length < maxInFlight
    · rw [if_pos hroom]
      cases SyncTransport.send transport packet with
      | mk answer transport₁ =>
        cases answer with
        | error error =>
          exact ⟨packet :: pending, inFlight, transport₁, 0, true, rfl, rfl, Nat.le_refl _, id⟩
        | ok _ =>
          obtain ⟨left, inFlight', transport', sent, blocked, h, htotal, hleft, hbound⟩ :=
            ih (inFlight ++ [{ packet, lastSent := frame, retries := 0 }]) transport₁
          simp only [List.length_append, List.length_singleton] at htotal hbound
          refine ⟨left, inFlight', transport', sent + 1, blocked, by simp only [h], ?_, ?_, ?_⟩
          · simp only [List.length_cons]
            omega
          · exact Nat.le_succ_of_le hleft
          · exact fun _ => hbound hroom
    · rw [if_neg hroom]
      exact ⟨packet :: pending, inFlight, transport, 0, false, rfl, rfl, Nat.le_refl _, id⟩

theorem resendDue_length (config : SyncConfig) (frame : UInt64) (inFlight : List InFlight)
    (transport : T) :
    ∃ inFlight' transport' resent blocked,
      resendDue config frame inFlight transport = (inFlight', transport', resent, blocked) ∧
      inFlight'.length = inFlight.length := by
  induction inFlight generalizing transport with
  | nil => exact ⟨[], transport, 0, false, rfl, rfl⟩
  | cons item inFlight ih =>
    unfold resendDue
    split
    · obtain ⟨inFlight', transport', resent, blocked, h, hlen⟩ := ih transport
      exact ⟨item :: inFlight', transport', resent, blocked, by simp only [h], by simp [hlen]⟩
    · cases SyncTransport.send transport item.packet with
      | mk answer transport₁ =>
        obtain ⟨inFlight', transport', resent, blocked, h, hlen⟩ := ih transport₁
        cases answer with
        | ok _ =>
          exact ⟨{ item with lastSent := frame, retries := item.retries + 1 } :: inFlight',
            transport', resent + 1, blocked, by simp only [h], by simp [hlen]⟩
        | error _ =>
          exact ⟨item :: inFlight', transport', resent, true, by simp only [h], by simp [hlen]⟩

/-- What a filter keeps and what it drops are everything. -/
theorem length_filter_add_not {α : Type} (f : α → Bool) (xs : List α) :
    (xs.filter f).length + (xs.filter fun x => ! f x).length = xs.length := by
  have h := List.length_eq_countP_add_countP f (l := xs)
  simpa [List.countP_eq_length_filter] using h.symm

/-- **A pump keeps the books**, whatever the transport does. -/
theorem balanced_pump (r : Replicator) (transport : T) (frame : UInt64) :
    Balanced r 0 (r.pump transport frame).2.1 := by
  unfold pump
  by_cases hmode : r.mode ≠ .online
  · rw [if_pos hmode]
    exact .refl r
  · rw [if_neg hmode]
    obtain ⟨left, inFlight, transport₁, sent, blocked, h, htotal, hleft, hbound⟩ :=
      sendPending_lengths r.config.maxInFlight frame r.pending r.inFlight transport
    obtain ⟨inFlight', transport₂, resent, blocked', h', hlen⟩ :=
      resendDue_length r.config frame inFlight transport₁
    have hsplit := length_filter_add_not (exhausted r.config frame) inFlight'
    simp only [h, h']
    refine ⟨rfl, fun hle => Nat.le_trans hleft hle, ?_, ?_⟩
    · intro hle
      have hle' := hbound hle
      simp only
      omega
    · simp only [accounted]
      omega

end Pump

/-! ## Acknowledging and receiving -/

theorem balanced_tryAcknowledge (r : Replicator) (disk : DiskWrite) (sequence : UInt64) :
    Balanced r 0 (r.tryAcknowledge disk sequence).2 := by
  rcases r.tryAcknowledge_cases disk sequence with ⟨-, h⟩ | ⟨wal', -, h⟩
  · have hsplit := length_filter_add_not
      (fun item : InFlight => decide (item.packet.sequence ≤ sequence)) r.inFlight
    simp only [← decide_not, UInt64.not_le] at hsplit
    rw [h]
    refine ⟨rfl, id, ?_, ?_⟩
    · intro hle
      simp only
      omega
    · simp only [accounted]
      omega
  · rw [h]
    exact ⟨rfl, id, id, rfl⟩

theorem balanced_receive (r : Replicator) (disk : DiskWrite) (packet : SyncPacket) :
    Balanced r 0 (r.receive disk packet).2 := by
  unfold receive
  split
  · exact ⟨rfl, id, id, rfl⟩
  · split
    · exact ⟨rfl, id, id, rfl⟩
    · simp only
      split
      · have hack := balanced_tryAcknowledge { r with lastReceived := packet.sequence } disk
          packet.ack
        exact ⟨hack.config, hack.pending, hack.inFlight, hack.books⟩
      · exact ⟨rfl, id, id, rfl⟩

theorem balanced_receiveBytes (r : Replicator) (disk : DiskWrite) (bytes : List UInt8) :
    Balanced r 0 (r.receiveBytes disk bytes).2 := by
  rw [receiveBytes_eq]
  cases decodeBytes bytes r.config.maxPayloadBytes with
  | error error => exact ⟨rfl, id, id, rfl⟩
  | ok packet => exact r.balanced_receive disk packet

theorem balanced_receiveAuthenticatedBytes (r : Replicator) (disk : DiskWrite)
    (authenticator : SyncAuthenticator) (bytes : List UInt8) :
    Balanced r 0 (r.receiveAuthenticatedBytes disk authenticator bytes).2 := by
  unfold receiveAuthenticatedBytes
  split
  · exact ⟨rfl, id, id, rfl⟩
  · split
    · exact .refl r
    · split
      · exact ⟨rfl, id, id, rfl⟩
      · simp only
        split
        · exact ⟨rfl, id, id, rfl⟩
        · exact r.balanced_receiveBytes disk _

/-! ## Every event -/

/-- **A call keeps the books.** -/
theorem balanced_call (r : Replicator) (c : Call) : Balanced r 0 (r.call c).2 := by
  cases c with
  | enqueue disk update => exact r.balanced_enqueueUpdate disk update
  | pump answers frame => exact r.balanced_pump (Script.mk answers []) frame
  | receive disk packet => exact r.balanced_receive disk packet
  | receiveAuthenticated disk authenticator bytes =>
    exact r.balanced_receiveAuthenticatedBytes disk authenticator bytes
  | acknowledge disk sequence => exact r.balanced_tryAcknowledge disk sequence
  | setMode mode => exact ⟨rfl, id, id, rfl⟩
  | setSession nonce => exact ⟨rfl, id, id, rfl⟩
  | clearSession => exact ⟨rfl, id, id, rfl⟩

/-- **An event keeps the books**, with what it recovers on the side of what comes in. -/
theorem Reaction.balanced {r r' : Replicator} {e : Event} {o : Output}
    {recovered : List SyncPacket} (h : Reaction r e o recovered r') :
    Balanced r recovered.length r' := by
  cases h with
  | call c => exact r.balanced_call c
  | received disk bytes p => exact r.balanced_call (.receive disk p)
  | rejected disk bytes => exact ⟨rfl, id, id, rfl⟩
  | refused wal => exact .refl r
  | attached h =>
    refine ⟨rfl, ?_, id, ?_⟩
    · intro _
      simp only [Replicator.attached, List.length_append]
      exact h.2
    · simp only [accounted, Replicator.attached, List.length_append]
      omega

end Replicator

/-! ## Every run -/

namespace Ledger

/-- Both queues are within their bounds, and what came in is accounted for. -/
structure Books (config : SyncConfig) (s : Ledger) : Prop where
  config_eq : s.replicator.config = config
  pending : s.replicator.pending.length ≤ config.maxPending
  inFlight : s.replicator.inFlight.length ≤ config.maxInFlight
  books : s.replicator.stats.queued + s.recovered = s.replicator.accounted

theorem Books.new {config : SyncConfig} {r : Replicator}
    (h : Replicator.tryNew config = .ok r) : Books config (new r) := by
  obtain ⟨-, rfl⟩ := Replicator.tryNew_eq_ok_iff.mp h
  exact ⟨rfl, Nat.zero_le _, Nat.zero_le _, rfl⟩

theorem Books.step {config : SyncConfig} {s : Ledger} (h : Books config s) (e : Event) :
    Books config (s.step e) := by
  have hbalanced := (s.replicator.reaction_react e).balanced
  have hbefore := h.books
  have hbetween := hbalanced.books
  refine ⟨hbalanced.config.trans h.config_eq, ?_, ?_, ?_⟩
  · have hle := hbalanced.pending (h.config_eq ▸ h.pending)
    rwa [h.config_eq] at hle
  · have hle := hbalanced.inFlight (h.config_eq ▸ h.inFlight)
    rwa [h.config_eq] at hle
  · simp only [Ledger.step]
    omega

/-- **Conservation.** Whatever is done to a replicator built by `try_new` or `with_wal`, its
    queues stay within their bounds, and what was queued and what was recovered is pending, in
    flight, acknowledged or given up on, each packet once. -/
theorem conservation {config : SyncConfig} {s t : Ledger} (hopens : Opens config s)
    (hr : Reaches steps s t) :
    t.replicator.pending.length ≤ config.maxPending ∧
      t.replicator.inFlight.length ≤ config.maxInFlight ∧
      t.replicator.stats.queued + t.recovered =
        t.replicator.pending.length + t.replicator.inFlight.length +
          t.replicator.stats.acknowledged + t.replicator.stats.droppedRetries := by
  obtain ⟨r, hnew, hopened⟩ := hopens.reaches
  have hbooks : Books config t := by
    refine Reaches.invariant (Books config) (hopened.trans hr) (.new hnew) ?_
    intro s e s' hs hstep
    rw [hstep]
    exact hs.step e
  exact ⟨hbooks.pending, hbooks.inFlight, hbooks.books⟩

/-- One packet recovered, and one queued behind it. -/
theorem recovered_and_queued :
    let s := (new (Replicator.blank SyncConfig.default)).step (.attach ackedLog)
    let t := s.step (.call (.enqueue .complete (.event 1 [5])))
    t.replicator.pending.length ≤ SyncConfig.default.maxPending ∧
      t.replicator.inFlight.length ≤ SyncConfig.default.maxInFlight ∧
      t.replicator.stats.queued + t.recovered =
        t.replicator.pending.length + t.replicator.inFlight.length +
          t.replicator.stats.acknowledged + t.replicator.stats.droppedRetries :=
  conservation (.tryNew (Replicator.tryNew_eq_ok_iff.mpr ⟨by decide, rfl⟩))
    (.tail (.single ⟨_, rfl⟩) ⟨_, rfl⟩)

end Ledger

end Sync
end EngineKit
