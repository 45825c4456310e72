import EngineKit.Sync.Opened

/-!
# Does the log keep what memory holds?

A replicator opened with `with_wal` holds packets in its queue and in flight, and its log is
meant to hold them too, so that a crash at any moment loses none. The queue and the log are
updated by different rules: an ACK of `s` erases everything up to `s` from the log and only what
is in flight from memory; coalescing rewrites an entry in both; a pump moves packets in memory
and writes nothing.

`outstanding_replayed` is the law, on the runs for which it holds: no ACK record reaches up to a
packet still queued, and no new packet takes a sequence number still in use. The first half is
what the code lacks: `try_acknowledge` writes its ACK record without looking at the queue
(`acknowledged_while_queued`).
-/

set_option autoImplicit false

namespace EngineKit
namespace Sync

open Lib

/-! ## Surviving in the log -/

/-- A live packet of the log stands for this one. -/
def Survives (p : SyncPacket) (ps : List SyncPacket) : Prop :=
  ∃ q ∈ ps, q.sequence = p.sequence ∧ q.kind = p.kind ∧ q.key = p.key ∧ q.payload = p.payload

theorem Survives.self {p : SyncPacket} {ps : List SyncPacket} (h : p ∈ ps) : Survives p ps :=
  ⟨p, h, rfl, rfl, rfl, rfl⟩

theorem Survives.written {p q : SyncPacket} (hseq : q.sequence = p.sequence)
    (hkind : q.kind = p.kind) (hkey : q.key = p.key) (hpayload : q.payload = p.payload)
    (ps : List SyncPacket) : Survives p (liveStep ps (.packet q)) := by
  refine ⟨q, ?_, hseq, hkind, hkey, hpayload⟩
  by_cases hmem : q.sequence ∈ sequences ps
  · rw [liveStep_packet_of_mem hmem]
    obtain ⟨q', hq', heq⟩ := List.mem_map.mp hmem
    exact List.mem_map.mpr ⟨q', hq', if_pos heq⟩
  · rw [liveStep_packet_of_not_mem hmem]
    exact List.mem_append_right _ List.mem_cons_self

theorem Survives.packet {p : SyncPacket} {ps : List SyncPacket} (h : Survives p ps)
    {q : SyncPacket} (hne : q.sequence ≠ p.sequence) : Survives p (liveStep ps (.packet q)) := by
  obtain ⟨p', hp', hseq, hrest⟩ := h
  refine ⟨p', ?_, hseq, hrest⟩
  by_cases hmem : q.sequence ∈ sequences ps
  · rw [liveStep_packet_of_mem hmem]
    exact List.mem_map.mpr ⟨p', hp', if_neg fun hc => hne (hc.symm.trans hseq)⟩
  · rw [liveStep_packet_of_not_mem hmem]
    exact List.mem_append_left _ hp'

theorem Survives.ack {p : SyncPacket} {ps : List SyncPacket} (h : Survives p ps) {s : UInt64}
    (hlt : s < p.sequence) : Survives p (liveStep ps (.ack s)) := by
  obtain ⟨p', hp', hseq, hrest⟩ := h
  refine ⟨p', ?_, hseq, hrest⟩
  rw [liveStep_ack, List.mem_filter]
  exact ⟨hp', by simpa [hseq] using hlt⟩

/-! ## The invariant -/

namespace Replicator

/-- The calls that cost the log nothing memory still holds: the disk works, a new packet takes a
    sequence number no packet held has, and an ACK record stays below the whole queue. -/
def Spares (r : Replicator) (c : Call) : Prop :=
  c.disk = .complete ∧
    (∀ disk update, c = .enqueue disk update → r.Takes update →
      r.nextSequence ∉ sequences r.outstanding) ∧
    ∀ s, r.WritesAck c s → ∀ p ∈ r.pending, s < p.sequence

/-- Every packet held stands in the log, under a sequence number of its own. -/
structure Kept (wal : SyncWal) (r : Replicator) (rs : List WalRecord) : Prop where
  whole : r.Whole wal rs
  nodup : (sequences r.outstanding).Nodup
  survives : ∀ p ∈ r.outstanding, Survives p (live rs)

variable {wal : SyncWal} {r : Replicator} {rs : List WalRecord}

theorem kept_opened {config : SyncConfig} (hwhole : (opened config wal (live rs)).Whole wal rs) :
    Kept wal (opened config wal (live rs)) rs where
  whole := hwhole
  nodup := by simpa [outstanding, opened, blank] using nodup_live rs
  survives := fun p hp => .self (by simpa [outstanding, opened, blank] using hp)

theorem Kept.shrink (h : Kept wal r rs) {r' : Replicator} (hwhole : r'.Whole wal rs)
    (hsub : (sequences r'.outstanding).Nodup) (hmem : r'.outstanding ⊆ r.outstanding) :
    Kept wal r' rs :=
  ⟨hwhole, hsub, fun p hp => h.survives p (hmem hp)⟩

/-- An ACK below the queue releases what it releases and spares the rest. -/
theorem Kept.ack (h : Kept wal r rs) {s : UInt64} (hbelow : ∀ p ∈ r.pending, s < p.sequence)
    {r' : Replicator} (hwhole : r'.Whole wal (rs ++ [.ack s])) (hpending : r'.pending = r.pending)
    (hinFlight : r'.inFlight = r.inFlight.filter fun item => s < item.packet.sequence) :
    Kept wal r' (rs ++ [.ack s]) where
  whole := hwhole
  nodup := by
    refine h.nodup.sublist (List.Sublist.map _ ?_)
    rw [outstanding, outstanding, hpending, hinFlight]
    exact List.Sublist.append_left (List.filter_sublist.map _) _
  survives := by
    intro p hp
    rw [live_snoc]
    rw [outstanding, hpending, hinFlight] at hp
    rcases List.mem_append.mp hp with hp | hp
    · exact (h.survives p (List.mem_append_left _ hp)).ack (hbelow p hp)
    · obtain ⟨item, hitem, rfl⟩ := List.mem_map.mp hp
      obtain ⟨hitem, hlt⟩ := List.mem_filter.mp hitem
      refine (h.survives _ (List.mem_append_right _ ?_)).ack (by simpa using hlt)
      exact List.mem_map_of_mem hitem

/-- **One call keeps it.** -/
theorem Kept.step (h : Kept wal r rs) {c : Call} (hc : r.Spares c) {o : Output}
    {r' : Replicator} (heffect : Effect r c o r') : ∃ rs', Kept wal r' rs' := by
  obtain ⟨hdisk, hfresh, hbelow⟩ := hc
  cases heffect with
  | idle mode stats hc => exact ⟨rs, h.shrink (h.whole.congr rfl) h.nodup fun p hp => hp⟩
  | burned htakes hspoils =>
    exact ⟨rs, h.shrink (h.whole.spoiled hdisk hspoils rfl) h.nodup fun p hp => hp⟩
  | spoiled hc hspoils =>
    exact ⟨rs, h.shrink (h.whole.spoiled hdisk hspoils rfl) h.nodup fun p hp => hp⟩
  | @enqueued disk update stats htakes hlogs =>
    have hnew := hfresh disk update rfl htakes
    have hperm : (r.pending ++ [r.nextPacket update] ++ r.inFlight.map InFlight.packet).Perm
        (r.nextPacket update :: r.outstanding) := by
      rw [List.append_assoc]
      exact List.perm_middle
    refine ⟨rs ++ [.packet (r.nextPacket update)], h.whole.logged hlogs rfl, ?_, ?_⟩
    · exact (hperm.map SyncPacket.sequence).nodup_iff.mpr (List.nodup_cons.mpr ⟨hnew, h.nodup⟩)
    · -- The new packet has its own record, and that record is of no other packet's number.
      intro p hp
      rw [live_snoc]
      rcases List.mem_cons.mp (hperm.mem_iff.mp hp) with rfl | hp
      · exact .written rfl rfl rfl rfl _
      · refine (h.survives p hp).packet fun heq => hnew ?_
        rw [show r.nextSequence = p.sequence from heq]
        exact List.mem_map_of_mem hp
  | @coalesced disk key payload pre post old stats hpending hpre hold hlogs =>
    have hnd := h.nodup
    have hsurvives := h.survives
    rw [outstanding, hpending, List.append_assoc, List.cons_append] at hnd hsurvives
    refine ⟨rs ++ [.packet { old with ack := r.lastReceived, payload }],
      h.whole.logged hlogs rfl, ?_, ?_⟩
    · simpa [sequences, outstanding] using hnd
    · intro p hp
      rw [live_snoc]
      rw [outstanding, List.append_assoc, List.cons_append] at hp
      have hperm := hnd.perm (List.perm_middle.map SyncPacket.sequence)
      rw [List.map_cons, List.nodup_cons] at hperm
      rcases List.mem_cons.mp (List.perm_middle.mem_iff.mp hp) with rfl | hp
      · exact .written rfl rfl rfl rfl _
      · refine (hsurvives p (List.perm_middle.mem_iff.mpr (List.mem_cons_of_mem _ hp))).packet ?_
        exact fun heq => hperm.1 (heq ▸ List.mem_map_of_mem hp)
  | @pumped answers frame moved left inFlight rest stats hpending hinFlight hrest =>
    -- Memory holds the same packets in other places, or fewer; the log is not touched.
    have hperm : (left ++ (r.inFlight.map InFlight.packet ++ moved)).Perm r.outstanding := by
      rw [outstanding, hpending, List.append_assoc]
      exact List.perm_append_comm.trans
        ((List.perm_append_comm.append_right left).trans (by
          rw [List.append_assoc]
          exact List.perm_append_comm.append_left moved))
    have hsub : (left ++ inFlight.map InFlight.packet).Sublist
        (left ++ (r.inFlight.map InFlight.packet ++ moved)) :=
      List.Sublist.append_left hinFlight _
    refine ⟨rs, h.shrink (h.whole.congr rfl) ?_ fun p hp => hperm.subset (hsub.subset hp)⟩
    exact ((hperm.map _).nodup_iff.mpr h.nodup).sublist (hsub.map _)
  | acknowledged stats hlogs =>
    exact ⟨_, h.ack (hbelow _ rfl) (h.whole.logged hlogs rfl) rfl rfl⟩
  | received hcarries haccepts hack =>
    exact ⟨rs, h.shrink (h.whole.congr rfl) h.nodup fun p hp => hp⟩
  | @receivedAck _ p stats hcarries haccepts hack hlogs =>
    -- The acknowledgement came with a packet, and writes the same record.
    have hwrites : r.WritesAck c p.ack := by
      cases c with
      | acknowledge disk s => exact hcarries.elim
      | _ => exact ⟨p, hcarries, haccepts, hack, rfl⟩
    exact ⟨_, h.ack (hbelow _ hwrites) (h.whole.logged hlogs rfl) rfl rfl⟩
  | receivedSpoiled hcarries haccepts hack hspoils =>
    exact ⟨rs, h.shrink (h.whole.spoiled hdisk hspoils rfl) h.nodup fun p hp => hp⟩
  | session nonce hc => exact ⟨rs, h.shrink (h.whole.congr rfl) h.nodup fun p hp => hp⟩

/-! ## The law and its failure -/

/-- **No packet held is lost by a crash**, in runs that spare the queue: replaying the log as it
    stands gives every packet still queued or in flight back, unless the bound on live records
    refuses the replay. -/
theorem outstanding_replayed {config : SyncConfig} {wal : SyncWal} {rs : List WalRecord}
    {r r' : Replicator} (hopen : withWal config wal = .ok r)
    (hlimit : wal.maxPayloadBytes + 30 < 2 ^ 64)
    (hfits : ∀ record ∈ rs, record.Fits wal.maxPayloadBytes)
    (hfile : wal.file = encodeAll WalRecord.bytes rs)
    (hrun : Reaches (Guarded Spares steps) r r') :
    ∃ wal', r'.wal = some wal' ∧
      (wal'.replay = .error .tooManyRecords ∨
        ∃ recovered, wal'.replay = .ok recovered ∧
          ∀ p ∈ r'.pending ++ r'.inFlight.map InFlight.packet, Survives p recovered) := by
  have hkept : ∃ rs', Kept wal r' rs' := by
    refine Reaches.invariant (fun r => ∃ rs, Kept wal r rs) hrun ?_ ?_
    · obtain ⟨hwhole, rfl, -, -⟩ := whole_of_withWal hopen hlimit hfits hfile
      exact ⟨rs, kept_opened hwhole⟩
    · rintro r c r' ⟨rs, hk⟩ ⟨hspares, hstep⟩
      exact hk.step hspares (effect_of_steps hstep)
  obtain ⟨rs', hk⟩ := hkept
  refine ⟨{ wal with file := encodeAll WalRecord.bytes rs' }, hk.whole.1, ?_⟩
  rcases hk.whole.replay hlimit with ⟨h, -⟩ | ⟨h, -⟩
  · exact Or.inr ⟨live rs', h, hk.survives⟩
  · exact Or.inl h

/-- One packet queued on an empty log, the peer offline. -/
theorem outstanding_replayed_queued :
    ∃ wal', ((opened .default emptyLog []).call
        (.enqueue .complete (.event 7 [9]))).2.wal = some wal' ∧
      (wal'.replay = .error .tooManyRecords ∨
        ∃ recovered, wal'.replay = .ok recovered ∧
          ∀ p ∈ [(⟨1, 0, .event, 7, [9]⟩ : SyncPacket)], Survives p recovered) := by
  have hspares : (opened .default emptyLog []).Spares (.enqueue .complete (.event 7 [9])) := by
    refine ⟨rfl, fun disk update hc htakes => by decide, ?_⟩
    rintro s ⟨p, hp, -⟩
    exact hp.elim
  exact outstanding_replayed (withWal_emptyLog (by decide)) (by decide)
    (show ∀ record ∈ ([] : List WalRecord), record.Fits 64 by simp) rfl
    (.single ⟨_, hspares, rfl⟩)

/-- **The queue is not spared.** A packet is queued, the application acknowledges its sequence
    number, and the log forgets the packet the queue still holds. -/
theorem acknowledged_while_queued :
    ∃ r r', withWal .default emptyLog = .ok r ∧
      Reaches (Guarded (fun _ c => c.disk = .complete) steps) r r' ∧
      r'.pending = [⟨1, 0, .event, 7, [9]⟩] ∧
      ∃ wal', r'.wal = some wal' ∧ wal'.replay = .ok [] := by
  refine ⟨opened .default emptyLog [], _, withWal_emptyLog (by decide),
    Reaches.foldl _ _ (show ∀ c ∈ [Call.enqueue .complete (.event 7 [9]),
      .acknowledge .complete 1], c.disk = .complete by simp [Call.disk]), by decide, _, rfl,
    by decide⟩

end Replicator

end Sync
end EngineKit
