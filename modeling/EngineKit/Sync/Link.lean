import Mathlib.Data.List.Nodup
import EngineKit.Sync.Order
import EngineKit.Sync.Sessions

/-!
# Two peers and a network between them

Two replicators exchange packets over a network that may lose, duplicate, delay and reorder what
a transport took: a peer may at any time be given any packet the other ever transmitted. The
question is whether an acknowledgement can be believed — when a packet leaves the flight because
the peer acknowledged it, had the peer's `receive` returned it?

The receiver keeps one number, the highest it has seen, and accepts anything above it; the ack
it sends is that number and releases everything up to it. A packet lost before a later one that
arrives is passed over for good, and acknowledged with the later one (`lost_packet_acked`).
`acked_returned` is the law on the runs where nothing still in flight is passed over.

`Flow a b` is the invariant, in one direction: packets from `a` to `b`, acknowledgements from
`b` to `a`. The system is symmetric, and so is its invariant: one `Flow` each way.
-/

set_option autoImplicit false

namespace EngineKit
namespace Sync

open Lib

/-! ## The system -/

/-- A replicator and its history. -/
structure Peer where
  replicator : Replicator
  /-- The packets it transmitted for the first time, in order. -/
  first : List SyncPacket := []
  /-- Every packet a transport took from it. -/
  wire : List SyncPacket := []
  /-- The packets its `receive` returned. -/
  returned : List SyncPacket := []
  /-- The packets an acknowledgement it received released from its flight. -/
  acked : List SyncPacket := []

/-- The packets a `receive` released: those in flight before it and not after. -/
def Call.released : Call → List InFlight → List InFlight → List SyncPacket
  | .receive _ _, before, after =>
    (before.filter fun item => item ∉ after).map InFlight.packet
  | _, _, _ => []

def Peer.after (a : Peer) (c : Call) (o : Output) (r : Replicator) : Peer :=
  { replicator := r
    first := a.first ++ o.fresh
    wire := a.wire ++ o.taken
    returned := a.returned ++ o.received.toList
    acked := a.acked ++ c.released a.replicator.inFlight r.inFlight }

def Peer.act (a : Peer) (c : Call) : Peer :=
  a.after c (a.replicator.call c).1 (a.replicator.call c).2

/-- The calls made on one peer: updates queued, pumps, and packets the other transmitted. -/
def Peer.Permits (other : Peer) : Call → Prop
  | .enqueue _ _ => True
  | .pump _ _ => True
  | .setMode _ => True
  | .receive _ p => p ∈ other.wire
  | _ => False

instance (other : Peer) : (c : Call) → Decidable (other.Permits c)
  | .enqueue _ _ => .isTrue trivial
  | .pump _ _ => .isTrue trivial
  | .setMode _ => .isTrue trivial
  | .receive _ p => inferInstanceAs (Decidable (p ∈ other.wire))
  | .receiveAuthenticated _ _ _ => .isFalse id
  | .acknowledge _ _ => .isFalse id
  | .setSession _ => .isFalse id
  | .clearSession => .isFalse id

inductive Side
  | left
  | right
  deriving DecidableEq, Repr

structure Link where
  left : Peer
  right : Peer

def Link.step (s : Link) : Side × Call → Link → Prop
  | (.left, c), t => s.right.Permits c ∧ t = { s with left := s.left.act c }
  | (.right, c), t => s.left.Permits c ∧ t = { s with right := s.right.act c }

/-- Nothing is passed over: a packet is accepted only when none that the other side still has in
    flight lies between it and what was received before. -/
def Peer.PassesNothing (a other : Peer) (c : Call) : Prop :=
  ∀ disk p, c = .receive disk p → a.replicator.Accepts p →
    ∀ q ∈ other.replicator.inFlight.map InFlight.packet,
      a.replicator.lastReceived < q.sequence → p.sequence ≤ q.sequence

/-- The calls an acknowledgement survives. -/
def Peer.Orderly (a other : Peer) (c : Call) : Prop :=
  a.replicator.Unwrapped c ∧ a.PassesNothing other c

def Link.Orderly (s : Link) : Side × Call → Prop
  | (.left, c) => s.left.Orderly s.right c
  | (.right, c) => s.right.Orderly s.left c

theorem Peer.Permits.changesSession_eq {other : Peer} {c : Call} (h : other.Permits c) :
    c.changesSession = false := by
  cases c with
  | setSession nonce => exact h.elim
  | clearSession => exact h.elim
  | _ => rfl

theorem Peer.Permits.mem_wire {other : Peer} {c : Call} (h : other.Permits c) {p : SyncPacket}
    (hcarries : c.Carries p) : p ∈ other.wire ∧ ∃ disk, c = .receive disk p := by
  cases c with
  | receive disk q =>
    obtain rfl := hcarries
    exact ⟨h, disk, rfl⟩
  | receiveAuthenticated disk authenticator bytes => exact h.elim
  | _ => exact hcarries.elim

namespace Replicator

/-- **What an acknowledgement releases** lies at or below it. -/
theorem Effect.released_le {r r' : Replicator} {c : Call} {o : Output} (h : Effect r c o r')
    {q : SyncPacket} (hq : q ∈ c.released r.inFlight r'.inFlight) :
    q ∈ r.inFlight.map InFlight.packet ∧ ∃ p, c.Carries p ∧ q.sequence ≤ p.ack := by
  cases c with
  | receive disk packet =>
    obtain ⟨item, hitem, rfl⟩ := List.mem_map.mp hq
    obtain ⟨hin, hnot⟩ := List.mem_filter.mp hitem
    have hgone : item ∉ r'.inFlight := by simpa using hnot
    refine ⟨List.mem_map_of_mem hin, ?_⟩
    cases h with
    | @receivedAck _ p stats hcarries haccepts hlt hlogs =>
      refine ⟨p, hcarries, UInt64.not_lt.mp fun hlt => hgone ?_⟩
      exact List.mem_filter.mpr ⟨hin, by simpa using hlt⟩
    | _ => exact absurd hin hgone
  | _ => exact absurd hq (by simp [Call.released])

end Replicator

/-! ## The invariant, in one direction -/

/-- Packets from `a` to `b`, acknowledgements from `b` to `a`. -/
structure Flow (a b : Peer) : Prop where
  numbered : Replicator.Numbered a.first a.replicator
  increasing : (sequences (a.first ++ a.replicator.pending)).Pairwise (· < ·)
  /-- What `b` received lies below everything `a` has yet to transmit. -/
  queue_ahead : ∀ s ∈ sequences a.replicator.pending, b.replicator.lastReceived < s
  next_ahead : b.replicator.lastReceived < a.replicator.nextSequence
  wire_subset : a.wire ⊆ a.first
  /-- What is still in flight at or below `b`'s number has been returned. -/
  in_flight : ∀ q ∈ a.replicator.inFlight.map InFlight.packet,
    q.sequence ≤ b.replicator.lastReceived → q ∈ b.returned
  acks_held : ∀ q ∈ b.replicator.outstanding, q.ack ≤ b.replicator.lastReceived
  acks_wire : ∀ q ∈ b.wire, q.ack ≤ b.replicator.lastReceived
  acked : a.acked ⊆ b.returned

variable {a b : Peer} {c : Call} {o : Output} {r : Replicator}

/-- The numbers of the queue are the old ones, and perhaps the next one at the end. -/
theorem Replicator.Effect.queue_cases {r r' : Replicator} (h : Replicator.Effect r c o r') :
    sequences (o.fresh ++ r'.pending) = sequences r.pending ∨
      sequences (o.fresh ++ r'.pending) = sequences r.pending ++ [r.nextSequence] := by
  rcases h.numbers with ⟨hseq, -⟩ | ⟨-, hseq, -⟩
  · exact Or.inl hseq
  · exact Or.inr hseq

theorem Flow.fresh_ahead (h : Flow a b) (heffect : Replicator.Effect a.replicator c o r) :
    ∀ s ∈ sequences (o.fresh ++ r.pending), b.replicator.lastReceived < s := by
  intro s hs
  rcases heffect.queue_cases with hseq | hseq
  · exact h.queue_ahead s (hseq ▸ hs)
  · rw [hseq] at hs
    rcases List.mem_append.mp hs with hs | hs
    · exact h.queue_ahead s hs
    · rw [List.mem_singleton.mp hs]
      exact h.next_ahead

theorem Flow.still_ahead (h : Flow a b) (hunwrapped : a.replicator.Unwrapped c)
    (heffect : Replicator.Effect a.replicator c o r) :
    b.replicator.lastReceived < r.nextSequence := by
  rcases heffect.numbers with ⟨-, hnext | ⟨⟨disk, update, rfl, htakes⟩, hnext⟩⟩ |
    ⟨⟨disk, update, rfl, htakes⟩, -, hnext⟩
  · exact hnext ▸ h.next_ahead
  · rw [hnext]
    exact UInt64.lt_trans h.next_ahead (Replicator.lt_successor (hunwrapped disk update rfl htakes))
  · rw [hnext]
    exact UInt64.lt_trans h.next_ahead (Replicator.lt_successor (hunwrapped disk update rfl htakes))

theorem Flow.still_increasing (h : Flow a b) (heffect : Replicator.Effect a.replicator c o r) :
    (sequences (a.first ++ o.fresh ++ r.pending)).Pairwise (· < ·) := by
  have hinc := h.increasing
  have hbelow := h.numbered.below
  rw [sequences, List.map_append] at hinc hbelow
  rw [List.append_assoc, sequences, List.map_append]
  change (sequences a.first ++ sequences (o.fresh ++ r.pending)).Pairwise (· < ·)
  rcases heffect.queue_cases with hseq | hseq
  · rw [hseq]
    exact hinc
  · rw [hseq, ← List.append_assoc, List.pairwise_append]
    refine ⟨hinc, by simp, ?_⟩
    intro s hs s' hs'
    rw [List.mem_singleton.mp hs']
    exact hbelow s hs

/-- **The sender acts.** -/
theorem Flow.send (h : Flow a b) (hpermits : b.Permits c) (hunwrapped : a.replicator.Unwrapped c)
    (heffect : Replicator.Effect a.replicator c o r) : Flow (a.after c o r) b := by
  have hahead := h.fresh_ahead heffect
  refine ⟨h.numbered.step hunwrapped heffect, h.still_increasing heffect,
    fun s hs => hahead s ?_, h.still_ahead hunwrapped heffect, ?_, ?_, h.acks_held, h.acks_wire, ?_⟩
  · rw [sequences, List.map_append]
    exact List.mem_append_right _ hs
  · obtain ⟨again, htaken, hagain⟩ := heffect.taken_eq
    intro p hp
    simp only [Peer.after, htaken, List.mem_append] at hp ⊢
    rcases hp with hp | hp | hp
    · exact Or.inl (h.wire_subset hp)
    · exact Or.inr hp
    · exact (List.mem_append.mp (hagain hp)).imp (fun hp => h.numbered.inFlight hp) id
  · intro q hq hle
    rcases List.mem_append.mp (heffect.inFlight_subset hq) with hq | hq
    · exact h.in_flight q hq hle
    · -- A packet just transmitted is above anything received.
      have hmem : q.sequence ∈ sequences (o.fresh ++ r.pending) :=
        List.mem_map_of_mem (List.mem_append_left _ hq)
      exact absurd hle (UInt64.not_le.mpr (hahead _ hmem))
  · intro q hq
    rcases List.mem_append.mp hq with hq | hq
    · exact h.acked hq
    · obtain ⟨hin, p, hcarries, hle⟩ := heffect.released_le hq
      exact h.in_flight q hin
        (UInt64.le_trans hle (h.acks_wire p (hpermits.mem_wire hcarries).1))

/-- **The receiver acts.** -/
theorem Flow.receive (h : Flow a b) (hpermits : a.Permits c) (hpasses : b.PassesNothing a c)
    (heffect : Replicator.Effect b.replicator c o r) : Flow a (b.after c o r) := by
  have hc := hpermits.changesSession_eq
  obtain ⟨hheld, hhanded⟩ := heffect.held hc (UInt64.le_refl _) h.acks_held
  have hwire : ∀ q ∈ b.wire ++ o.taken, q.ack ≤ b.replicator.lastReceived := by
    intro q hq
    rcases List.mem_append.mp hq with hq | hq
    · exact h.acks_wire q hq
    · obtain ⟨x, hx, rfl⟩ := List.mem_map.mp hq
      exact hhanded x (List.mem_filter.mp hx).1
  have hmono : ∀ q ∈ b.returned, q ∈ b.returned ++ o.received.toList :=
    fun q hq => List.mem_append_left _ hq
  rcases heffect.lastReceived_cases hc with ⟨-, heq⟩ | ⟨p, hcarries, haccepts, hreturned, heq⟩
  · exact
      { numbered := h.numbered
        increasing := h.increasing
        queue_ahead := fun s hs => heq ▸ h.queue_ahead s hs
        next_ahead := heq ▸ h.next_ahead
        wire_subset := h.wire_subset
        in_flight := fun q hq hle => hmono q (h.in_flight q hq (heq ▸ hle))
        acks_held := fun q hq => heq ▸ hheld q hq
        acks_wire := fun q hq => heq ▸ hwire q hq
        acked := fun q hq => hmono q (h.acked hq) }
  · obtain ⟨hp, disk, rfl⟩ := hpermits.mem_wire hcarries
    have hfirst : p ∈ a.first := h.wire_subset hp
    have hup : ∀ s, s ≤ b.replicator.lastReceived → s ≤ r.lastReceived := fun s hs =>
      heq ▸ UInt64.le_trans hs (UInt64.le_of_lt haccepts.2.2)
    have hinc := h.increasing
    rw [sequences, List.map_append] at hinc
    exact
      { numbered := h.numbered
        increasing := h.increasing
        queue_ahead := by
          intro s hs
          change r.lastReceived < s
          rw [heq]
          exact (List.pairwise_append.mp hinc).2.2 _ (List.mem_map_of_mem hfirst) s hs
        next_ahead := by
          change r.lastReceived < _
          rw [heq]
          exact h.numbered.below _ (List.mem_map_of_mem (List.mem_append_left _ hfirst))
        wire_subset := h.wire_subset
        in_flight := by
          intro q hq hle
          by_cases hold : q.sequence ≤ b.replicator.lastReceived
          · exact hmono q (h.in_flight q hq hold)
          · -- Nothing in flight is passed over, so what the number now covers is `p` itself.
            have hge := hpasses disk p rfl haccepts q hq (UInt64.not_le.mp hold)
            have hseq : q.sequence = p.sequence :=
              UInt64.le_antisymm (heq ▸ hle) hge
            have hqp : q = p := by
              have hnodup := h.numbered.nodup
              rw [sequences, List.map_append] at hnodup
              exact List.inj_on_of_nodup_map (List.nodup_append.mp hnodup).1
                (h.numbered.inFlight hq) hfirst hseq
            rw [hqp]
            exact List.mem_append_right _ (by rw [hreturned]; simp)
        acks_held := fun q hq => hup _ (hheld q hq)
        acks_wire := fun q hq => hup _ (hwire q hq)
        acked := fun q hq => hmono q (h.acked hq) }

/-! ## Runs -/

/-- Packets recovered from a log that the link can go on with: increasing numbers, neither zero
    nor the last one, and no acknowledgement from an earlier session. -/
def Recoverable (ps : List SyncPacket) : Prop :=
  Silent ps ∧ (sequences ps).Pairwise (· < ·) ∧
    ∀ p ∈ ps, 0 < p.sequence ∧ p.sequence ≠ Replicator.lastSequence

theorem flow_start {a b : Replicator} {recovered recovered' : List SyncPacket}
    (ha : a.Fresh recovered) (hb : b.Fresh recovered') (hr : Recoverable recovered)
    (hr' : Recoverable recovered') : Flow { replicator := a } { replicator := b } where
  numbered := ha.numbered (hr.2.1.imp fun h => UInt64.ne_of_lt h) fun p hp => (hr.2.2 p hp).2
  increasing := by rw [List.nil_append, ha.pending]; exact hr.2.1
  queue_ahead := by
    rw [ha.pending, hb.lastReceived]
    intro s hs
    obtain ⟨p, hp, rfl⟩ := List.mem_map.mp hs
    exact (hr.2.2 p hp).1
  next_ahead := by
    rw [ha.nextSequence, hb.lastReceived]
    exact Replicator.recoveredNext_pos recovered
  wire_subset := by simp
  in_flight := by rw [ha.inFlight]; simp
  acks_held := by
    rw [Replicator.outstanding, hb.pending, hb.inFlight, hb.lastReceived]
    intro q hq
    rw [hr'.1 q (by simpa using hq)]
    exact UInt64.le_refl _
  acks_wire := by simp
  acked := by simp

/-- **One step keeps both directions.** -/
theorem Flow.step {s t : Link} (h : Flow s.left s.right ∧ Flow s.right s.left)
    {e : Side × Call} (he : s.Orderly e) (hst : s.step e t) :
    Flow t.left t.right ∧ Flow t.right t.left := by
  obtain ⟨side, c⟩ := e
  cases side with
  | left =>
    obtain ⟨hpermits, rfl⟩ := hst
    have heffect := s.left.replicator.effect_call c
    exact ⟨h.1.send hpermits he.1 heffect, h.2.receive hpermits he.2 heffect⟩
  | right =>
    obtain ⟨hpermits, rfl⟩ := hst
    have heffect := s.right.replicator.effect_call c
    exact ⟨h.1.receive hpermits he.2 heffect, h.2.send hpermits he.1 heffect⟩

/-- **Acknowledged implies returned**, both ways, in runs that pass nothing over: whatever an
    acknowledgement released from one side's flight, the other side's `receive` had returned. -/
theorem Link.acked_returned {a b : Replicator} (ha : Replicator.Starts Recoverable a)
    (hb : Replicator.Starts Recoverable b) {t : Link}
    (hrun : Reaches (Guarded Link.Orderly Link.step)
      { left := { replicator := a }, right := { replicator := b } } t) :
    t.left.acked ⊆ t.right.returned ∧ t.right.acked ⊆ t.left.returned := by
  have hnil : Recoverable [] := ⟨by simp [Silent], .nil, by simp⟩
  obtain ⟨recovered, hr, hfresh⟩ := ha.fresh hnil
  obtain ⟨recovered', hr', hfresh'⟩ := hb.fresh hnil
  have hflow : Flow t.left t.right ∧ Flow t.right t.left := by
    refine Reaches.invariant (fun s => Flow s.left s.right ∧ Flow s.right s.left) hrun
      ⟨flow_start hfresh hfresh' hr hr', flow_start hfresh' hfresh hr' hr⟩ ?_
    rintro s e t h ⟨he, hst⟩
    exact Flow.step h he hst
  exact ⟨hflow.1.acked, hflow.2.acked⟩

theorem Peer.orderly_of_ne {a other : Peer} {c : Call}
    (hnext : a.replicator.nextSequence ≠ Replicator.lastSequence)
    (hc : ∀ disk p, c ≠ .receive disk p) : a.Orderly other c :=
  ⟨fun _ _ _ _ => hnext, fun disk p heq => absurd heq (hc disk p)⟩

def Link.blank : Link :=
  { left := { replicator := Replicator.blank .default },
    right := { replicator := Replicator.blank .default } }

/-- A packet transmitted, returned, and acknowledged by the answer. -/
theorem Link.acked_returned_answer : ∃ t : Link,
    t.left.acked = [⟨1, 0, .event, 7, [9]⟩] ∧ t.left.acked ⊆ t.right.returned := by
  have hstart : Replicator.Starts Recoverable (Replicator.blank .default) :=
    .tryNew (Replicator.tryNew_eq_ok_iff.mpr ⟨by decide, rfl⟩)
  refine ⟨_, ?_, (Link.acked_returned hstart hstart
    (.head ⟨(.left, .enqueue .complete (.event 7 [9])),
        Peer.orderly_of_ne (by decide) (by simp), trivial, rfl⟩
      (.head ⟨(.left, .setMode .online), Peer.orderly_of_ne (by decide) (by simp), trivial, rfl⟩
        (.head ⟨(.left, .pump [.ok ()] 0), Peer.orderly_of_ne (by decide) (by simp), trivial,
            rfl⟩
          (.head ⟨(.right, .receive .complete ⟨1, 0, .event, 7, [9]⟩),
              ⟨by rintro disk update ⟨⟩, by rintro disk p ⟨⟩; decide⟩, by decide, rfl⟩
            (.head ⟨(.right, .enqueue .complete (.event 8 [5])),
                Peer.orderly_of_ne (by decide) (by simp), trivial, rfl⟩
              (.head ⟨(.right, .setMode .online), Peer.orderly_of_ne (by decide) (by simp),
                  trivial, rfl⟩
                (.head ⟨(.right, .pump [.ok ()] 0), Peer.orderly_of_ne (by decide) (by simp),
                    trivial, rfl⟩
                  (.single ⟨(.left, .receive .complete ⟨1, 1, .event, 8, [5]⟩),
                    ⟨by rintro disk update ⟨⟩, by rintro disk p ⟨⟩; decide⟩, by decide,
                    rfl⟩))))))))).1⟩
  decide

/-- **A lost packet is acknowledged.** Two packets are transmitted and the first is lost; the
    answer to the second releases both. -/
theorem Link.lost_packet_acked : ∃ t : Link, Reaches Link.step Link.blank t ∧
    t.left.acked = [⟨1, 0, .event, 7, [9]⟩, ⟨2, 0, .event, 7, [8]⟩] ∧
    t.right.returned = [⟨2, 0, .event, 7, [8]⟩] := by
  refine ⟨_,
    .head ⟨(.left, .enqueue .complete (.event 7 [9])), trivial, rfl⟩
      (.head ⟨(.left, .enqueue .complete (.event 7 [8])), trivial, rfl⟩
        (.head ⟨(.left, .setMode .online), trivial, rfl⟩
          (.head ⟨(.left, .pump [.ok (), .ok ()] 0), trivial, rfl⟩
            (.head ⟨(.right, .receive .complete ⟨2, 0, .event, 7, [8]⟩), by decide, rfl⟩
              (.head ⟨(.right, .enqueue .complete (.event 8 [5])), trivial, rfl⟩
                (.head ⟨(.right, .setMode .online), trivial, rfl⟩
                  (.head ⟨(.right, .pump [.ok ()] 0), trivial, rfl⟩
                    (.single ⟨(.left, .receive .complete ⟨1, 2, .event, 8, [5]⟩), by decide,
                      rfl⟩)))))))), by decide, by decide⟩

end Sync
end EngineKit
