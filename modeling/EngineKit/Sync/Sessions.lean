import EngineKit.Sync.Opened

/-!
# Acknowledgements and sessions

A packet's `ack` tells the peer what this side has received. It is taken from `last_received`
when the packet is *enqueued* and travels with the packet from then on: through the queue, the
flight, every retransmission and the log. `set_session_nonce` and `clear_session` set
`last_received` back to zero and leave the packets as they are; a restart does the same to
packets read back from the log.

So an ack can outlive its session (`stale_ack_handed`), and a peer that numbers from one again
is told that packets it has yet to send were received. `acks_truthful` is the law for runs that
change sessions only while no held packet carries an ack.
-/

set_option autoImplicit false

namespace EngineKit
namespace Sync

open Lib

/-- A replicator with what an observer of its session has noted: the highest sequence number it
    returned in the session so far, and each packet it handed to a transport together with that
    highest number at the time. -/
structure Talk where
  replicator : Replicator
  highest : UInt64
  handed : List (SyncPacket × UInt64)

/-- The highest sequence number of the session after a call. -/
def Talk.hear (highest : UInt64) (c : Call) (o : Output) : UInt64 :=
  if c.changesSession then 0
  else
    match o.received with
    | some p => max highest p.sequence
    | none => highest

/-- A restart begins with no session and nothing received. -/
def Talk.step (s : Talk) : LifeEvent → Talk → Prop
  | .call c, t =>
    t = { replicator := (s.replicator.call c).2
          highest := Talk.hear s.highest c (s.replicator.call c).1
          handed := s.handed ++ (s.replicator.call c).1.handed.map fun x => (x.1, s.highest) }
  | .restart config, t =>
    t.highest = 0 ∧ t.handed = s.handed ∧
      ∃ wal, s.replicator.wal = some wal ∧ Replicator.withWal config wal = .ok t.replicator

def Silent (ps : List SyncPacket) : Prop := ∀ p ∈ ps, p.ack = 0

/-- The session changes only while no packet held acknowledges anything, and a restart finds no
    packet in the log that does. -/
def Talk.Clean (s : Talk) : LifeEvent → Prop
  | .call c => c.changesSession = true → Silent s.replicator.outstanding
  | .restart _ =>
    ∀ wal recovered, s.replicator.wal = some wal → wal.replay = .ok recovered →
      Silent recovered

/-- What is held acknowledges no more than was heard, and so did what was handed over. -/
structure Talk.Truthful (s : Talk) : Prop where
  heard : s.replicator.lastReceived = s.highest
  held : ∀ p ∈ s.replicator.outstanding, p.ack ≤ s.highest
  handed : ∀ x ∈ s.handed, x.1.ack ≤ x.2

namespace Replicator

theorem Fresh.truthful {r : Replicator} {recovered : List SyncPacket} (h : r.Fresh recovered)
    (hsilent : Silent recovered) {handed : List (SyncPacket × UInt64)}
    (hhanded : ∀ x ∈ handed, x.1.ack ≤ x.2) :
    Talk.Truthful { replicator := r, highest := 0, handed } where
  heard := h.lastReceived
  held := by
    intro p hp
    rw [outstanding, h.pending, h.inFlight, List.map_nil, List.append_nil] at hp
    rw [hsilent p hp]
    exact UInt64.le_refl _
  handed := hhanded

/-- Without a change of session, a call holds what it held or a packet that acknowledges
    `last_received`, and hands over what it held. -/
theorem Effect.held {r r' : Replicator} {c : Call} {o : Output} (h : Effect r c o r')
    (hc : c.changesSession = false) {bound : UInt64} (hlast : r.lastReceived ≤ bound)
    (hheld : ∀ p ∈ r.outstanding, p.ack ≤ bound) :
    (∀ p ∈ r'.outstanding, p.ack ≤ bound) ∧ ∀ x ∈ o.handed, x.1.ack ≤ bound := by
  have hnone : ∀ x ∈ ([] : List (SyncPacket × Bool)), x.1.ack ≤ bound := by simp
  have hfilter : ∀ s : UInt64, ∀ p ∈ r.pending ++
      (r.inFlight.filter fun item => s < item.packet.sequence).map InFlight.packet,
      p.ack ≤ bound := by
    intro s p hp
    refine hheld p ((List.Sublist.append_left ?_ _).subset hp)
    exact List.filter_sublist.map _
  cases h with
  | enqueued stats htakes hlogs =>
    -- The one new packet carries `last_received`.
    refine ⟨?_, hnone⟩
    intro p hp
    rw [outstanding, List.append_assoc] at hp
    rcases List.mem_cons.mp (List.perm_middle.mem_iff.mp hp) with rfl | hp
    · exact hlast
    · exact hheld p hp
  | @coalesced disk key payload pre post old stats hpending hpre hold hlogs =>
    refine ⟨?_, hnone⟩
    rw [outstanding, hpending, List.append_assoc, List.cons_append] at hheld
    intro p hp
    rw [outstanding, List.append_assoc, List.cons_append] at hp
    rcases List.mem_cons.mp (List.perm_middle.mem_iff.mp hp) with rfl | hp
    · exact hheld old (by simp)
    · exact hheld p (List.perm_middle.mem_iff.mpr (List.mem_cons_of_mem _ hp))
  | @pumped answers frame moved left inFlight rest stats hpending hinFlight hrest =>
    have hmem : ∀ p, p ∈ left ∨ p ∈ r.inFlight.map InFlight.packet ++ moved →
        p ∈ r.outstanding := by
      intro p hp
      rw [outstanding, hpending]
      simp only [List.mem_append] at hp ⊢
      tauto
    refine ⟨?_, ?_⟩
    · intro p hp
      rcases List.mem_append.mp hp with hp | hp
      · exact hheld p (hmem p (Or.inl hp))
      · exact hheld p (hmem p (Or.inr (hinFlight.subset hp)))
    · intro x hx
      rcases List.mem_append.mp hx with hx | hx
      · obtain ⟨p, hp, rfl⟩ := List.mem_map.mp hx
        exact hheld p (hmem p (Or.inr (List.mem_append_right _ hp)))
      · rcases hrest x hx with hx | ⟨hx, -⟩
        · exact hheld x.1 (hmem x.1 (Or.inr hx))
        · exact hheld x.1 (hmem x.1 (Or.inl hx))
  | acknowledged stats hlogs => exact ⟨hfilter _, hnone⟩
  | receivedAck stats hcarries haccepts hlt hlogs => exact ⟨hfilter _, hnone⟩
  | session nonce hc' => exact absurd (hc.symm.trans hc') (by simp)
  | _ => exact ⟨hheld, hnone⟩

theorem Effect.lastReceived_eq_hear {r r' : Replicator} {c : Call} {o : Output}
    (h : Effect r c o r') (hc : c.changesSession = false) {highest : UInt64}
    (hlast : r.lastReceived = highest) : r'.lastReceived = Talk.hear highest c o := by
  rcases h.lastReceived_cases hc with ⟨hnone, heq⟩ | ⟨p, -, haccepts, hsome, heq⟩
  · rw [heq, hlast]
    simp [Talk.hear, hc, hnone]
  · have hlt := UInt64.lt_iff_toNat_lt.mp (hlast ▸ haccepts.2.2)
    rw [heq]
    refine UInt64.toNat_inj.mp ?_
    simp only [Talk.hear, hc, hsome, u64_toNat_max, Bool.false_eq_true, if_false]
    omega

/-- A change of session holds on to the packets and hands none over. -/
theorem Effect.session_eq {r r' : Replicator} {c : Call} {o : Output} (h : Effect r c o r')
    (hc : c.changesSession = true) :
    r'.lastReceived = 0 ∧ r'.outstanding = r.outstanding ∧ o.handed = [] := by
  cases h with
  | session nonce hc' => exact ⟨rfl, rfl, rfl⟩
  | idle mode stats hc' => exact absurd (hc.symm.trans hc') (by simp)
  | spoiled hc' hspoils => exact absurd (hc.symm.trans hc') (by simp)
  | received hcarries haccepts hle =>
    exact absurd (hc.symm.trans hcarries.changesSession_eq) (by simp)
  | receivedAck stats hcarries haccepts hlt hlogs =>
    exact absurd (hc.symm.trans hcarries.changesSession_eq) (by simp)
  | receivedSpoiled hcarries haccepts hlt hspoils =>
    exact absurd (hc.symm.trans hcarries.changesSession_eq) (by simp)
  | _ => exact absurd hc (by simp [Call.changesSession])

end Replicator

theorem Talk.le_hear {highest : UInt64} {c : Call} (hc : c.changesSession = false) (o : Output) :
    highest ≤ Talk.hear highest c o := by
  simp only [Talk.hear, hc, Bool.false_eq_true, if_false]
  cases o.received with
  | none => exact UInt64.le_refl _
  | some p =>
    rw [UInt64.le_iff_toNat_le, u64_toNat_max]
    exact Nat.le_max_left _ _

/-- **One event keeps it.** -/
theorem Talk.Truthful.step {s t : Talk} (h : s.Truthful) {e : LifeEvent} (he : s.Clean e)
    (hst : s.step e t) : t.Truthful := by
  cases e with
  | call c =>
    obtain rfl := hst
    have heffect := s.replicator.effect_call c
    cases hc : c.changesSession with
    | false =>
      obtain ⟨hheld, hhanded⟩ := heffect.held hc (UInt64.le_of_eq h.heard) h.held
      have hlast := heffect.lastReceived_eq_hear hc h.heard
      refine ⟨hlast, fun p hp => UInt64.le_trans (hheld p hp) (Talk.le_hear hc _), ?_⟩
      intro x hx
      rcases List.mem_append.mp hx with hx | hx
      · exact h.handed x hx
      · obtain ⟨y, hy, rfl⟩ := List.mem_map.mp hx
        exact hhanded y hy
    | true =>
      -- What is held goes over into a session that has heard nothing: this is what `Clean` pays.
      obtain ⟨hlast, hheld, hhanded⟩ := heffect.session_eq hc
      have hzero : Talk.hear s.highest c (s.replicator.call c).1 = 0 := by
        simp [Talk.hear, hc]
      refine ⟨by rw [hlast, hzero], ?_, ?_⟩
      · rw [hheld, hzero]
        intro p hp
        rw [he hc p hp]
        exact UInt64.le_refl _
      · simpa only [hhanded, List.map_nil, List.append_nil] using h.handed
  | restart config =>
    obtain ⟨hhighest, hhanded, wal, hwal, hopen⟩ := hst
    obtain ⟨-, recovered, hreplay, -, hr⟩ := Replicator.withWal_eq_ok_iff.mp hopen
    have hfresh := Replicator.fresh_opened config wal recovered
    have htruthful := hfresh.truthful (he wal recovered hwal hreplay) h.handed
    obtain ⟨r, highest, handed⟩ := t
    obtain rfl := hr
    obtain rfl := hhighest
    obtain rfl := hhanded
    exact htruthful

namespace Replicator

/-- **Acks are truthful in the session**, in runs that change it only while no held packet
    acknowledges anything: whatever a pump hands over, first send or retransmission, taken or
    refused, acknowledges no more than the highest sequence number received in the session. -/
theorem acks_truthful {r : Replicator} (hstart : Starts Silent r) {t : Talk}
    (hrun : Reaches (Guarded Talk.Clean Talk.step)
      { replicator := r, highest := 0, handed := [] } t) :
    ∀ x ∈ t.handed, x.1.ack ≤ x.2 := by
  obtain ⟨recovered, hsilent, hfresh⟩ := hstart.fresh (by simp [Silent])
  have htruthful : t.Truthful := by
    refine Reaches.invariant Talk.Truthful hrun (hfresh.truthful hsilent (by simp)) ?_
    rintro s e t h ⟨he, hst⟩
    exact h.step he hst
  exact htruthful.handed

/-- A packet that acknowledges nothing is held through a change of session; in the new one a packet
    is received, and one queued that acknowledges it; both are sent. -/
theorem acks_truthful_answer : ∃ t : Talk,
    t.handed = [(⟨1, 0, .event, 7, [9]⟩, 5), (⟨2, 5, .event, 8, [4]⟩, 5)] ∧
      ∀ x ∈ t.handed, x.1.ack ≤ x.2 := by
  have hstart : Starts Silent (blank .default) :=
    .tryNew (tryNew_eq_ok_iff.mpr ⟨by decide, rfl⟩)
  have hkeeps {s : Talk} {c : Call} (hc : c.changesSession = false) : s.Clean (.call c) :=
    fun htrue => nomatch hc.symm.trans htrue
  have hrun : Reaches (Guarded Talk.Clean Talk.step)
      { replicator := blank .default, highest := 0, handed := [] } _ :=
    .head ⟨.call (.enqueue .complete (.event 7 [9])), hkeeps rfl, rfl⟩
      (.head ⟨.call (.setSession (Vector.replicate 16 1)), fun _ => by unfold Silent; decide, rfl⟩
        (.head ⟨.call (.receive .complete ⟨5, 0, .event, 3, [1]⟩), hkeeps rfl, rfl⟩
          (.head ⟨.call (.enqueue .complete (.event 8 [4])), hkeeps rfl, rfl⟩
            (.head ⟨.call (.setMode .online), hkeeps rfl, rfl⟩
              (.single ⟨.call (.pump [.ok (), .ok ()] 0), hkeeps rfl, rfl⟩)))))
  exact ⟨_, by decide, acks_truthful hstart hrun⟩

/-- **An ack outlives its session.** A packet received in one session is acknowledged by a packet
    queued in it and sent in the next. -/
theorem stale_ack_handed :
    ∃ r t, Starts Silent r ∧
      Reaches Talk.step { replicator := r, highest := 0, handed := [] } t ∧
      t.handed = [(⟨1, 5, .event, 7, [9]⟩, 0)] := by
  refine ⟨blank .default, _, .tryNew (tryNew_eq_ok_iff.mpr ⟨by decide, rfl⟩),
    .head ⟨.call (.receive .complete ⟨5, 0, .event, 3, [1]⟩), rfl⟩
      (.head ⟨.call (.enqueue .complete (.event 7 [9])), rfl⟩
        (.head ⟨.call (.setSession (Vector.replicate 16 1)), rfl⟩
          (.head ⟨.call (.setMode .online), rfl⟩
            (.single ⟨.call (.pump [.ok ()] 0), rfl⟩)))), by decide⟩

end Replicator

end Sync
end EngineKit
