import EngineKit.Sync.Replicator

/-!
# Pumping into a scripted transport

What the transport does during one `pump` is the environment's choice. A `Script` makes that
choice data: it answers the sends from a list and keeps what it was handed. Nothing is lost —
whatever a transport does during one `pump`, some script makes the same report and the same
replicator of it (`pump_eq_pump_script`) — so a law about every script is a law about every
transport.

`sendPending_script` and `resendDue_script` say what the two sending loops do with a script:
what is handed over, in which order, and where the packets are afterwards.
-/

set_option autoImplicit false

namespace EngineKit
namespace Sync

open Lib

/-! ## The transport -/

/-- A transport that answers from a list, `WouldBlock` when it runs out, and keeps every packet
    it was handed with whether it took it. -/
structure Script where
  answers : List (Except TransportError Unit)
  handed : List (SyncPacket × Bool) := []

def Script.send (script : Script) (packet : SyncPacket) : Except TransportError Unit × Script :=
  match script.answers with
  | [] => (.error .wouldBlock, { answers := [], handed := script.handed ++ [(packet, false)] })
  | answer :: answers => (answer, { answers, handed := script.handed ++ [(packet, answer.isOk)] })

instance : SyncTransport Script := ⟨Script.send⟩

namespace Replicator

/-! ## The two sending loops -/

/-- **First transmissions are a prefix of the queue.** What moves in flight was taken by the
    transport, in order; at most the packet behind it was handed over and refused. -/
theorem sendPending_script (maxInFlight : Nat) (frame : UInt64) (pending : List SyncPacket)
    (inFlight : List InFlight) (script : Script) :
    ∃ moved left refused script' blocked, pending = moved ++ left ∧ refused ⊆ left ∧
      script'.handed =
        script.handed ++ (moved.map (·, true) ++ refused.map (·, false)) ∧
      sendPending maxInFlight frame pending inFlight script =
        (left, inFlight ++ moved.map fun packet => { packet, lastSent := frame, retries := 0 },
          script', moved.length, blocked) := by
  induction pending generalizing inFlight script with
  | nil => exact ⟨[], [], [], script, false, by simp [sendPending]⟩
  | cons packet pending ih =>
    unfold sendPending
    by_cases hroom : inFlight.length < maxInFlight
    · rw [if_pos hroom]
      cases hs : SyncTransport.send script packet with
      | mk answer script₁ =>
        have hhanded : script₁.handed = script.handed ++ [(packet, answer.isOk)] := by
          simp only [SyncTransport.send, Script.send] at hs
          split at hs <;> cases hs <;> rfl
        cases answer with
        | error error =>
          -- A refused send ends the loop, with the packet still in the queue.
          exact ⟨[], packet :: pending, [packet], script₁, true, rfl, by simp, hhanded, by simp⟩
        | ok _ =>
          obtain ⟨moved, left, refused, script', blocked, rfl, hsub, hh, heq⟩ :=
            ih (inFlight ++ [{ packet, lastSent := frame, retries := 0 }]) script₁
          refine ⟨packet :: moved, left, refused, script', blocked, by simp, hsub, ?_, ?_⟩
          · rw [hh, hhanded]
            simp [Except.isOk, Except.toBool]
          · simp [heq]
    · rw [if_neg hroom]
      exact ⟨[], packet :: pending, [], script, false, by simp⟩

/-- Retransmission hands over packets in flight and changes none of them. -/
theorem resendDue_script (config : SyncConfig) (frame : UInt64) (inFlight : List InFlight)
    (script : Script) :
    ∃ inFlight' script' resent blocked handed,
      resendDue config frame inFlight script = (inFlight', script', resent, blocked) ∧
      inFlight'.map InFlight.packet = inFlight.map InFlight.packet ∧
      script'.handed = script.handed ++ handed ∧
      ∀ x ∈ handed, x.1 ∈ inFlight.map InFlight.packet := by
  induction inFlight generalizing script with
  | nil => exact ⟨[], script, 0, false, [], rfl, rfl, by simp, by simp⟩
  | cons item inFlight ih =>
    unfold resendDue
    split
    · obtain ⟨inFlight', script', resent, blocked, handed, heq, hmap, hh, hin⟩ := ih script
      refine ⟨item :: inFlight', script', resent, blocked, handed, by simp [heq],
        by simp [hmap], hh, fun x hx => List.mem_cons_of_mem _ (hin x hx)⟩
    · cases hs : SyncTransport.send script item.packet with
      | mk answer script₁ =>
        have hhanded : script₁.handed = script.handed ++ [(item.packet, answer.isOk)] := by
          simp only [SyncTransport.send, Script.send] at hs
          split at hs <;> cases hs <;> rfl
        obtain ⟨inFlight', script', resent, blocked, handed, heq, hmap, hh, hin⟩ := ih script₁
        have hin' : ∀ x ∈ (item.packet, answer.isOk) :: handed,
            x.1 ∈ (item :: inFlight).map InFlight.packet := by
          intro x hx
          rcases List.mem_cons.mp hx with rfl | hx
          · exact List.mem_cons_self
          · exact List.mem_cons_of_mem _ (hin x hx)
        have hh' : script'.handed =
            script.handed ++ ((item.packet, answer.isOk) :: handed) := by
          rw [hh, hhanded, List.append_assoc]
          rfl
        -- Taken or refused, the packet stays in flight and the loop goes on.
        cases answer with
        | ok _ =>
          exact ⟨{ item with lastSent := frame, retries := item.retries + 1 } :: inFlight',
            script', resent + 1, blocked, _, by simp [heq], by simp [hmap], hh', hin'⟩
        | error _ =>
          exact ⟨item :: inFlight', script', resent, true, _, by simp [heq], by simp [hmap], hh',
            hin'⟩

/-! ## Any transport is a script -/

section AnyTransport

variable {T : Type} [SyncTransport T]

/-- The script's answers to the sends of one loop, read off any transport. -/
theorem sendPending_eq_script (maxInFlight : Nat) (frame : UInt64) (pending : List SyncPacket)
    (inFlight : List InFlight) (transport : T) :
    ∃ answers transport' left inFlight' sent blocked,
      sendPending maxInFlight frame pending inFlight transport =
        (left, inFlight', transport', sent, blocked) ∧
      ∀ rest handed, ∃ handed',
        sendPending maxInFlight frame pending inFlight (Script.mk (answers ++ rest) handed) =
          (left, inFlight', Script.mk rest handed', sent, blocked) := by
  induction pending generalizing inFlight transport with
  | nil => exact ⟨[], transport, [], inFlight, 0, false, rfl, fun rest handed => ⟨handed, rfl⟩⟩
  | cons packet pending ih =>
    unfold sendPending
    by_cases hroom : inFlight.length < maxInFlight
    · simp only [if_pos hroom]
      cases hs : SyncTransport.send transport packet with
      | mk answer transport₁ =>
        cases answer with
        | error error =>
          exact ⟨[.error error], transport₁, _, _, _, _, rfl, fun rest handed => ⟨_, rfl⟩⟩
        | ok _ =>
          obtain ⟨answers, transport', left, inFlight', sent, blocked, heq, hscript⟩ :=
            ih (inFlight ++ [{ packet, lastSent := frame, retries := 0 }]) transport₁
          refine ⟨.ok () :: answers, transport', left, inFlight', sent + 1, blocked,
            by simp [heq], fun rest handed => ?_⟩
          obtain ⟨handed', hs'⟩ := hscript rest (handed ++ [(packet, true)])
          refine ⟨handed', ?_⟩
          simp only [SyncTransport.send, Script.send, List.cons_append]
          rw [show (Except.ok () : Except TransportError Unit).isOk = true from rfl, hs']
    · simp only [if_neg hroom]
      exact ⟨[], transport, _, _, _, _, rfl, fun rest handed => ⟨handed, rfl⟩⟩

theorem resendDue_eq_script (config : SyncConfig) (frame : UInt64) (inFlight : List InFlight)
    (transport : T) :
    ∃ answers transport' inFlight' resent blocked,
      resendDue config frame inFlight transport = (inFlight', transport', resent, blocked) ∧
      ∀ rest handed, ∃ handed',
        resendDue config frame inFlight (Script.mk (answers ++ rest) handed) =
          (inFlight', Script.mk rest handed', resent, blocked) := by
  induction inFlight generalizing transport with
  | nil => exact ⟨[], transport, [], 0, false, rfl, fun rest handed => ⟨handed, rfl⟩⟩
  | cons item inFlight ih =>
    unfold resendDue
    by_cases hskip : saturatingSub frame item.lastSent < config.resendAfterFrames ∨
        config.maxRetries ≤ item.retries
    · simp only [if_pos hskip]
      obtain ⟨answers, transport', inFlight', resent, blocked, heq, hscript⟩ := ih transport
      refine ⟨answers, transport', item :: inFlight', resent, blocked, by simp [heq],
        fun rest handed => ?_⟩
      obtain ⟨handed', hs'⟩ := hscript rest handed
      exact ⟨handed', by rw [hs']⟩
    · simp only [if_neg hskip]
      cases hs : SyncTransport.send transport item.packet with
      | mk answer transport₁ =>
        obtain ⟨answers, transport', inFlight', resent, blocked, heq, hscript⟩ := ih transport₁
        cases answer with
        | error error =>
          refine ⟨.error error :: answers, transport', item :: inFlight', resent, true,
            by simp [heq], fun rest handed => ?_⟩
          obtain ⟨handed', hs'⟩ := hscript rest (handed ++ [(item.packet, false)])
          refine ⟨handed', ?_⟩
          simp only [SyncTransport.send, Script.send, List.cons_append]
          rw [show (Except.error error : Except TransportError Unit).isOk = false from rfl, hs']
        | ok _ =>
          refine ⟨.ok () :: answers, transport',
            { item with lastSent := frame, retries := item.retries + 1 } :: inFlight',
            resent + 1, blocked, by simp [heq], fun rest handed => ?_⟩
          obtain ⟨handed', hs'⟩ := hscript rest (handed ++ [(item.packet, true)])
          refine ⟨handed', ?_⟩
          simp only [SyncTransport.send, Script.send, List.cons_append]
          rw [show (Except.ok () : Except TransportError Unit).isOk = true from rfl, hs']

/-- **A script stands for any transport.** Whatever a transport does during one `pump`, some
    script makes the same report and the same replicator of it. -/
theorem pump_eq_pump_script (r : Replicator) (transport : T) (frame : UInt64) :
    ∃ answers, (r.pump (Script.mk answers []) frame).1 = (r.pump transport frame).1 ∧
      (r.pump (Script.mk answers []) frame).2.1 = (r.pump transport frame).2.1 := by
  by_cases hmode : r.mode ≠ .online
  · exact ⟨[], by simp [pump, if_pos hmode]⟩
  · obtain ⟨answers, transport₁, left, inFlight, sent, blocked, heq, hscript⟩ :=
      sendPending_eq_script r.config.maxInFlight frame r.pending r.inFlight transport
    obtain ⟨answers', transport₂, inFlight', resent, blocked', heq', hscript'⟩ :=
      resendDue_eq_script r.config frame inFlight transport₁
    -- The first loop's answers, and then the second's.
    obtain ⟨handed, hs⟩ := hscript answers' []
    obtain ⟨handed', hs'⟩ := hscript' [] handed
    rw [List.append_nil] at hs'
    refine ⟨answers ++ answers', ?_⟩
    simp only [pump, if_neg hmode, heq, heq', hs, hs', and_self]

end AnyTransport

end Replicator

end Sync
end EngineKit
