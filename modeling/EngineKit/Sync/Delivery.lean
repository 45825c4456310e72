import EngineKit.Sync.Order

/-!
# What the receiver returns

One sender, one receiver, and a network that gives the receiver any packet a transport took from
the sender, any number of times and in any order. The sender queues, coalesces, pumps,
retransmits, gives up, and is itself given whatever packets; log writes on either side may fail.

`delivered_in_order` is what survives all of that: what `receive` returns has increasing sequence
numbers, and each packet returned is one the sender transmitted for the first time, as it stood
in the queue at that moment. The argument needs nothing about the schedule. A packet in flight
never changes again, so every copy on the wire is a copy of a first transmission; and the
receiver's one number rules the rest out.

While fewer than 2⁶⁴ updates have been queued, first transmissions have distinct numbers, so
"the packet with that number" means one packet.
-/

set_option autoImplicit false

namespace EngineKit
namespace Sync

open Lib

/-- A sender and a receiver, with the history of both. -/
structure Stream where
  sender : Replicator
  receiver : Replicator
  /-- How many updates the sender was asked to queue. -/
  enqueues : Nat := 0
  /-- The packets the sender transmitted for the first time, as they left the queue. -/
  first : List SyncPacket := []
  /-- Every packet a transport took from the sender. -/
  wire : List SyncPacket := []
  /-- The packets the receiver's `receive` returned. -/
  delivered : List SyncPacket := []

inductive StreamEvent
  /-- A call on the sender. -/
  | send (c : Call)
  /-- The network gives the receiver a packet. -/
  | deliver (disk : DiskWrite) (p : SyncPacket)

/-- The calls made on the sender; what it receives may come from anywhere. -/
def Call.bySender : Call → Prop
  | .enqueue _ _ => True
  | .pump _ _ => True
  | .setMode _ => True
  | .receive _ _ => True
  | _ => False

def Call.enqueues : Call → Nat
  | .enqueue _ _ => 1
  | _ => 0

def Stream.step (s : Stream) : StreamEvent → Stream → Prop
  | .send c, t =>
    c.bySender ∧
      t = { s with
            sender := (s.sender.call c).2
            enqueues := s.enqueues + c.enqueues
            first := s.first ++ (s.sender.call c).1.fresh
            wire := s.wire ++ (s.sender.call c).1.taken }
  | .deliver disk p, t =>
    p ∈ s.wire ∧
      t = { s with
            receiver := (s.receiver.call (.receive disk p)).2
            delivered :=
              s.delivered ++ (s.receiver.call (.receive disk p)).1.received.toList }

/-! ## Numbers, counted -/

/-- What the count of updates says about the numbers of what was transmitted and is queued. The
    last number may be taken, after which the next one is no longer above it. -/
structure Counted (first : List SyncPacket) (r : Replicator) (n : Nat) : Prop where
  nodup : n < 2 ^ 64 → (sequences (first ++ r.pending)).Nodup
  below : n + 1 < 2 ^ 64 → r.nextSequence.toNat ≤ n + 1 ∧
    ∀ s ∈ sequences (first ++ r.pending), s < r.nextSequence

namespace Replicator

/-- **One call keeps the count.** -/
theorem counted_step {first : List SyncPacket} {r r' : Replicator} {c : Call} {o : Output}
    {n : Nat} (h : Counted first r n) (heffect : Effect r c o r') :
    Counted (first ++ o.fresh) r' (n + c.enqueues) := by
  have hsplit : sequences (first ++ o.fresh ++ r'.pending) =
      sequences first ++ sequences (o.fresh ++ r'.pending) := by
    rw [List.append_assoc, sequences, List.map_append]
  have hbefore : sequences (first ++ r.pending) = sequences first ++ sequences r.pending :=
    List.map_append
  have hsucc : n + 1 + 1 < 2 ^ 64 → r.nextSequence < r.successor ∧
      r.successor.toNat ≤ n + 1 + 1 := by
    intro hn
    have hle := (h.below (by omega)).1
    have hne : r.nextSequence ≠ lastSequence := by
      intro hc
      rw [hc] at hle
      have : lastSequence.toNat = 18446744073709551615 := rfl
      omega
    have := toNat_successor hne
    exact ⟨lt_successor hne, by omega⟩
  rcases heffect.numbers with ⟨hseq, hnext | ⟨⟨disk, update, rfl, htakes⟩, hnext⟩⟩ |
    ⟨⟨disk, update, rfl, htakes⟩, hseq, hnext⟩
  · have hsame : sequences (first ++ o.fresh ++ r'.pending) = sequences (first ++ r.pending) := by
      rw [hsplit, hseq, hbefore]
    refine ⟨fun hn => hsame ▸ h.nodup (by omega), ?_⟩
    intro hn
    rw [hsame, hnext]
    have hbelow := h.below (by omega)
    exact ⟨by omega, hbelow.2⟩
  · -- The number is spent on a packet the log refused.
    have hsame : sequences (first ++ o.fresh ++ r'.pending) = sequences (first ++ r.pending) := by
      rw [hsplit, hseq, hbefore]
    simp only [Call.enqueues]
    refine ⟨fun hn => hsame ▸ h.nodup (by omega), ?_⟩
    intro hn
    rw [hsame, hnext]
    obtain ⟨hlt, hle⟩ := hsucc hn
    exact ⟨hle, fun s hs => UInt64.lt_trans ((h.below (by omega)).2 s hs) hlt⟩
  · have hmore : sequences (first ++ o.fresh ++ r'.pending) =
        sequences (first ++ r.pending) ++ [r.nextSequence] := by
      rw [hsplit, hseq, hbefore, List.append_assoc]
    simp only [Call.enqueues]
    refine ⟨?_, ?_⟩
    · intro hn
      rw [hmore, List.nodup_append]
      refine ⟨h.nodup (by omega), by simp, ?_⟩
      rintro a ha b hb rfl
      rw [List.mem_singleton.mp hb] at ha
      exact absurd ((h.below (by omega)).2 _ ha) (UInt64.lt_irrefl _)
    · intro hn
      rw [hmore, hnext]
      obtain ⟨hlt, hle⟩ := hsucc hn
      refine ⟨hle, ?_⟩
      intro s hs
      rcases List.mem_append.mp hs with hs | hs
      · exact UInt64.lt_trans ((h.below (by omega)).2 s hs) hlt
      · rw [List.mem_singleton.mp hs]
        exact hlt

end Replicator

/-! ## The invariant -/

/-- What is on the wire or in flight is a first transmission; what was delivered came off the
    wire in the order of its numbers. -/
structure Stream.Ordered (s : Stream) : Prop where
  counted : Counted s.first s.sender s.enqueues
  in_flight : s.sender.inFlight.map InFlight.packet ⊆ s.first
  wire : s.wire ⊆ s.first
  delivered : s.delivered ⊆ s.first
  increasing : (sequences s.delivered).Pairwise (· < ·)
  reached : ∀ n ∈ sequences s.delivered, n ≤ s.receiver.lastReceived

/-- **One event keeps it.** -/
theorem Stream.Ordered.step {s t : Stream} (h : s.Ordered) {e : StreamEvent}
    (hst : s.step e t) : t.Ordered := by
  cases e with
  | send c =>
    obtain ⟨-, rfl⟩ := hst
    have heffect := s.sender.effect_call c
    have hmore : s.sender.inFlight.map InFlight.packet ++ (s.sender.call c).1.fresh ⊆
        s.first ++ (s.sender.call c).1.fresh := by
      intro p hp
      exact List.mem_append.mpr ((List.mem_append.mp hp).imp (fun hp => h.in_flight hp) id)
    obtain ⟨again, htaken, hagain⟩ := heffect.taken_eq
    refine ⟨Replicator.counted_step h.counted heffect, ?_, ?_, ?_, h.increasing, h.reached⟩
    · exact fun p hp => hmore (heffect.inFlight_subset hp)
    · intro p hp
      rcases List.mem_append.mp hp with hp | hp
      · exact List.mem_append_left _ (h.wire hp)
      · rw [htaken] at hp
        rcases List.mem_append.mp hp with hp | hp
        · exact List.mem_append_right _ hp
        · exact hmore (hagain hp)
    · exact fun p hp => List.mem_append_left _ (h.delivered hp)
  | deliver disk p =>
    obtain ⟨hwire, rfl⟩ := hst
    have heffect := s.receiver.effect_call (.receive disk p)
    rcases heffect.lastReceived_cases rfl with ⟨hnone, heq⟩ | ⟨q, rfl, haccepts, hsome, heq⟩
    · refine ⟨h.counted, h.in_flight, h.wire, ?_, ?_, ?_⟩ <;>
        simp only [hnone, Option.toList_none, List.append_nil]
      · exact h.delivered
      · exact h.increasing
      · exact heq ▸ h.reached
    · -- The packet returned is above everything delivered, and it came off the wire.
      have hup : ∀ n ∈ sequences s.delivered, n < q.sequence := fun n hn =>
        UInt64.lt_of_le_of_lt (h.reached n hn) haccepts.2.2
      refine ⟨h.counted, h.in_flight, h.wire, ?_, ?_, ?_⟩ <;>
        simp only [hsome, Option.toList_some]
      · intro p hp
        rcases List.mem_append.mp hp with hp | hp
        · exact h.delivered hp
        · rw [List.mem_singleton.mp hp]
          exact h.wire hwire
      · rw [sequences, List.map_append, List.pairwise_append]
        refine ⟨h.increasing, by simp, ?_⟩
        intro n hn m hm
        rw [show m = q.sequence by simpa using hm]
        exact hup n hn
      · rw [heq, sequences, List.map_append]
        intro n hn
        rcases List.mem_append.mp hn with hn | hn
        · exact UInt64.le_of_lt (hup n hn)
        · rw [show n = q.sequence by simpa using hn]
          exact UInt64.le_refl _

/-- **In order, at most once, unchanged.** Whatever the schedule, what the receiver returned has
    increasing sequence numbers, and each packet is one the sender transmitted for the first
    time, as it then left the queue. While fewer than 2⁶⁴ updates were queued, first
    transmissions have distinct numbers. -/
theorem Stream.delivered_in_order {config : SyncConfig} {sender : Replicator}
    (hnew : Replicator.tryNew config = .ok sender) (receiver : Replicator) {t : Stream}
    (hrun : Reaches Stream.step { sender, receiver } t) :
    (sequences t.delivered).Pairwise (· < ·) ∧ t.delivered ⊆ t.first ∧
      (t.enqueues < 2 ^ 64 → (sequences t.first).Nodup) := by
  obtain ⟨-, rfl⟩ := Replicator.tryNew_eq_ok_iff.mp hnew
  have hordered : t.Ordered := by
    refine Reaches.invariant Stream.Ordered hrun ?_ fun s e t h hst => h.step hst
    refine ⟨⟨by simp [Replicator.blank], ?_⟩, by simp [Replicator.blank], by simp, by simp,
      by simp, by simp⟩
    exact fun _ => ⟨Nat.le_refl 1, by simp [Replicator.blank]⟩
  refine ⟨hordered.increasing, hordered.delivered, ?_⟩
  intro hn
  have hnodup := hordered.counted.nodup hn
  rw [sequences, List.map_append] at hnodup
  exact (List.nodup_append.mp hnodup).1

/-- Two packets transmitted, and the network delivers the second, then both again. -/
theorem Stream.delivered_in_order_reordered : ∃ t : Stream,
    t.delivered = [⟨2, 0, .event, 7, [8]⟩] ∧ t.delivered ⊆ t.first := by
  refine ⟨_, ?_, (Stream.delivered_in_order
    (Replicator.tryNew_eq_ok_iff.mpr
      ⟨(by decide : SyncConfig.default.Valid), rfl⟩)
    (Replicator.blank .default)
    (.head ⟨.send (.enqueue .complete (.event 7 [9])), trivial, rfl⟩
      (.head ⟨.send (.enqueue .complete (.event 7 [8])), trivial, rfl⟩
        (.head ⟨.send (.setMode .online), trivial, rfl⟩
          (.head ⟨.send (.pump [.ok (), .ok ()] 0), trivial, rfl⟩
            (.head ⟨.deliver .complete ⟨2, 0, .event, 7, [8]⟩, by decide, rfl⟩
              (.head ⟨.deliver .complete ⟨1, 0, .event, 7, [9]⟩, by decide, rfl⟩
                (.single ⟨.deliver .complete ⟨2, 0, .event, 7, [8]⟩, by decide,
                  rfl⟩)))))))).2.1⟩
  decide

end Sync
end EngineKit
