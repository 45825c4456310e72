import EngineKit.Sync.Opened

/-!
# After an acknowledgement the log refused

`receive` takes what a packet acknowledges to `acknowledge`, which throws an error of the log
away, and moves its watermark (`last_ack_sent`) on in any case. Nothing was released and nothing
written, and from then on an acknowledgement up to the watermark counts as old.

`Repaired a` says that what `a` acknowledges is released and the log knows it: an ACK record that
covers `a` is among the records `replay` reads (`replay_eq_ok_iff_read`). That the bytes of such a
record are somewhere in the file is not enough. The write that failed may have left some of its own
bytes at the end, and then the next record is read as the rest of the torn one
(`not_repaired_behind_torn`).

A later packet that acknowledges `a` or more repairs it exactly when there was nothing left to
repair, or its acknowledgement is above the watermark and the log has a record that covers `a` or
takes one where it ends (`failed_ack_repaired_iff`). A log that ends with a whole record takes
every one (`takesAck_of_whole`), and one that ends with less than a header none
(`not_takesAck_of_short`).

Within the session the watermark is at `a` or above, so the peer's next packets, which repeat
`a`, do not repair it (`watermark_of_failed_ack`). A `try_acknowledge` that is called again does,
where the log takes the record (`tryAcknowledge_repairs`).
-/

set_option autoImplicit false

namespace EngineKit
namespace Sync

open Lib

namespace Replicator

/-- `replay` reads an ACK record that covers `a`. -/
def Covered (a : UInt64) (r : Replicator) : Prop :=
  ∃ wal s, r.wal = some wal ∧ a ≤ s ∧ .ack s ∈ wal.read.1

/-- Everything up to `a` is out of flight, and a record of the log covers it. -/
structure Repaired (a : UInt64) (r : Replicator) : Prop where
  released : ∀ item ∈ r.inFlight, a < item.packet.sequence
  logged : r.Covered a

/-- `replay` gets to the end of the log, and what it leaves there, with the record of `s` behind
    it, begins with an ACK record that covers `a`. -/
def TakesAck (a s : UInt64) (r : Replicator) : Prop :=
  ∃ wal tail s', r.wal = some wal ∧ wal.maxPayloadBytes + 30 < 2 ^ 64 ∧
    wal.read.2 = some tail ∧ a ≤ s' ∧ (WalRecord.ack s').bytes <+: tail ++ (WalRecord.ack s).bytes

/-- The call receives a packet with the new acknowledgement `a`, and the log refuses it. -/
structure AckFailed (a : UInt64) (r : Replicator) (c : Call) : Prop where
  received : ∃ p, (r.call c).1.received = some p ∧ p.ack = a
  new : r.lastAckSent < a
  refused : ∃ wal', r.Spoils c.disk (.ack a) wal'

/-! ## The ACK records of a log -/

section Read

variable {wal : SyncWal} {s s' : UInt64}

theorem readRecord_cuts {limit : Nat} (hlimit : limit + 30 < 2 ^ 64) :
    Cuts (readRecord limit) WalRecord.bytes (WalRecord.Fits limit) := by
  intro r n hr hn
  exact (readRecord_eq_stop_iff hlimit).mpr (incomplete_take_bytes hr hn)

/-- **What is read is what `replay` applies**, and a log replays if it is read to its end. -/
theorem replay_eq_ok_iff_read (hlimit : wal.maxPayloadBytes + 30 < 2 ^ 64)
    {ps : List SyncPacket} : wal.replay = .ok ps ↔
      wal.read.2.isSome ∧ applyAll (applyRecord wal.maxRecords) [] wal.read.1 = .ok ps :=
  scan_eq_ok_iff_scanned (readRecord_consumes hlimit)

theorem length_ack (s : UInt64) : (WalRecord.ack s).bytes.length = 21 := by
  rw [WalRecord.length_bytes, WalRecord.body, length_u64ToLe]
  rfl

/-- With no bound that `replay` could form nothing is read. -/
theorem read_of_overflow (hlimit : ¬ wal.maxPayloadBytes + 30 < 2 ^ 64) : wal.read.1 = [] := by
  rw [SyncWal.read]
  by_cases hlen : walHeader ≤ wal.file.length
  · obtain ⟨error, hbad⟩ := readRecord_of_overflow hlimit hlen
    rw [scanned_corrupt hbad]
  · have hstop : readRecord wal.maxPayloadBytes wal.file = .stop := by
      rw [readRecord, readExact, if_neg hlen]
    rw [scanned_stop hstop]

/-- A file shorter than an ACK record has none. -/
theorem ack_not_mem_scanned {limit max : Nat} (hlimit : limit + 30 < 2 ^ 64)
    {ps : List SyncPacket} {file : List UInt8} (hshort : file.length < 21) :
    WalRecord.ack s ∉ (scanned (readRecord limit) (applyRecord max) ps file).1 := by
  intro hmem
  obtain ⟨t, tail, -, hfile, -⟩ := exists_of_scanned (applyRecord max)
    (readRecord_consumes hlimit) (readRecord_canonical hlimit) ps file
  have hle : (WalRecord.ack s).bytes.length ≤ file.length := by
    rw [hfile, List.length_append]
    exact Nat.le_add_right_of_le (List.sublist_flatten_of_mem (List.mem_map_of_mem hmem)).length_le
  rw [length_ack] at hle
  omega

/-- **The ACK records after an ACK record is written**: those that were there, and one more where
    the log took it. -/
theorem ack_mem_read_push (hlimit : wal.maxPayloadBytes + 30 < 2 ^ 64) :
    .ack s' ∈ (wal.push (.ack s)).read.1 ↔ .ack s' ∈ wal.read.1 ∨
      ∃ tail, wal.read.2 = some tail ∧
        (WalRecord.ack s').bytes <+: tail ++ (WalRecord.ack s).bytes := by
  have hc := readRecord_consumes hlimit
  have hw := readRecord_bytes hlimit
  rcases scanned_snoc (applyRecord wal.maxRecords) hc hw (readRecord_canonical hlimit)
    (readRecord_cuts hlimit) [] wal.file (WalRecord.ack s).bytes with
    ⟨t, tail, hstop, hleft, hread⟩ | ⟨hrefused, hread⟩
  · have hread : (wal.push (.ack s)).read.1 = wal.read.1 ++ _ := hread
    have hleft : wal.read.2 = some tail := hleft
    rw [hread, List.mem_append]
    refine or_congr_right ⟨?_, ?_⟩
    · intro hmem
      refine ⟨tail, hleft, ?_⟩
      cases hf : readRecord wal.maxPayloadBytes (tail ++ (WalRecord.ack s).bytes) with
      | stop => rw [scanned_stop hf] at hmem; exact absurd hmem List.not_mem_nil
      | corrupt error => rw [scanned_corrupt hf] at hmem; exact absurd hmem List.not_mem_nil
      | frame r rest =>
        obtain ⟨-, heq⟩ := readRecord_canonical hlimit _ r rest hf
        cases ha : applyRecord wal.maxRecords t r with
        | error error =>
          rw [scanned_refused hf ha] at hmem
          exact absurd hmem List.not_mem_nil
        | ok t' =>
          rw [scanned_frame hc hf ha] at hmem
          rcases List.mem_cons.mp hmem with rfl | hlater
          · exact ⟨rest, heq.symm⟩
          · -- what is left of 21 bytes, less one that completed a record, is no ACK record
            rcases length_lt_of_frame_append hw (readRecord_canonical hlimit)
              (readRecord_cuts hlimit) hf with ⟨rest', hframe, -⟩ | ⟨-, hlt⟩
            · exact absurd (hstop.symm.trans hframe) (by simp)
            · rw [length_ack] at hlt
              exact absurd hlater (ack_not_mem_scanned hlimit hlt)
    · intro hex
      obtain ⟨tail', hleft', rest, heq⟩ := hex
      obtain rfl := Option.some.inj (hleft.symm.trans hleft')
      have hf := hw (.ack s') rest trivial
      rw [heq] at hf
      rw [scanned_frame hc hf rfl]
      exact List.mem_cons_self
  · have hread : (wal.push (.ack s)).read.1 = wal.read.1 := hread
    have hrefused : wal.read.2 = none := hrefused
    rw [hread, or_iff_left]
    intro hex
    obtain ⟨tail, hleft, -⟩ := hex
    exact absurd (hrefused.symm.trans hleft) (by simp)

/-- **What a log covers after an ACK record is written.** -/
theorem covered_push_iff {a : UInt64} {r r' : Replicator} (hwal : r.wal = some wal)
    (hwal' : r'.wal = some (wal.push (.ack s))) :
    r'.Covered a ↔ r.Covered a ∨ r.TakesAck a s := by
  by_cases hlimit : wal.maxPayloadBytes + 30 < 2 ^ 64
  · constructor
    · intro hex
      obtain ⟨wal', s', heq, ha, hmem⟩ := hex
      obtain rfl := Option.some.inj (hwal'.symm.trans heq)
      rcases (ack_mem_read_push hlimit).mp hmem with hold | ⟨tail, hleft, hprefix⟩
      · exact .inl ⟨wal, s', hwal, ha, hold⟩
      · exact .inr ⟨wal, tail, s', hwal, hlimit, hleft, ha, hprefix⟩
    · rintro (⟨wal', s', heq, ha, hmem⟩ | ⟨wal', tail, s', heq, -, hleft, ha, hprefix⟩)
      · obtain rfl := Option.some.inj (hwal.symm.trans heq)
        exact ⟨_, s', hwal', ha, (ack_mem_read_push hlimit).mpr (.inl hmem)⟩
      · obtain rfl := Option.some.inj (hwal.symm.trans heq)
        exact ⟨_, s', hwal', ha, (ack_mem_read_push hlimit).mpr (.inr ⟨tail, hleft, hprefix⟩)⟩
  · refine iff_of_false ?_ ?_
    · intro hex
      obtain ⟨wal', s', heq, -, hmem⟩ := hex
      obtain rfl := Option.some.inj (hwal'.symm.trans heq)
      have hpushed : ¬ (wal.push (.ack s)).maxPayloadBytes + 30 < 2 ^ 64 := hlimit
      rw [read_of_overflow hpushed] at hmem
      exact absurd hmem List.not_mem_nil
    · rintro (⟨wal', s', heq, -, hmem⟩ | ⟨wal', tail, s', heq, hfits, -⟩)
      · obtain rfl := Option.some.inj (hwal.symm.trans heq)
        rw [read_of_overflow hlimit] at hmem
        exact absurd hmem List.not_mem_nil
      · obtain rfl := Option.some.inj (hwal.symm.trans heq)
        exact hlimit hfits

/-- A log that ends with a whole record takes every ACK record. -/
theorem takesAck_of_whole {a : UInt64} {r : Replicator} (hwal : r.wal = some wal)
    (hlimit : wal.maxPayloadBytes + 30 < 2 ^ 64) (hwhole : wal.read.2 = some []) (ha : a ≤ s) :
    r.TakesAck a s :=
  ⟨wal, [], s, hwal, hlimit, hwhole, ha, List.prefix_refl _⟩

/-- The header that all ACK records have. -/
theorem take_ack (s : UInt64) :
    (WalRecord.ack s).bytes.take 9 = [0x52, 0x4B, 0x57, 0x31, 2, 8, 0, 0, 0] := by
  rw [WalRecord.bytes, walRecordBytes, WalRecord.body, length_u64ToLe]
  rfl

/-- **Behind less than a header no ACK record is read**: `RKW1` never stands where the kind or
    the length belongs. -/
theorem not_takesAck_of_short {a : UInt64} {r : Replicator} {tail : List UInt8}
    (hwal : r.wal = some wal) (hleft : wal.read.2 = some tail) (hsome : tail ≠ [])
    (hshort : tail.length < walHeader) : ¬ r.TakesAck a s := by
  intro hex
  obtain ⟨wal', tail', s', heq, -, hleft', -, rest, hprefix⟩ := hex
  obtain rfl := Option.some.inj (hwal.symm.trans heq)
  obtain rfl := Option.some.inj (hleft.symm.trans hleft')
  have hpos : 0 < tail.length := List.length_pos_iff.mpr hsome
  have hshort : tail.length < 9 := hshort
  -- both records begin with the same nine bytes, so those would have to overlap themselves
  have hhead := congrArg (List.take 9) hprefix
  rw [List.take_append_of_le_length (by rw [length_ack]; omega), take_ack,
    List.take_append, List.take_of_length_le hshort.le,
    ← Nat.min_eq_left (Nat.sub_le 9 tail.length), ← List.take_take, take_ack] at hhead
  have hover := congrArg (List.drop tail.length) hhead
  rw [List.drop_left] at hover
  have hall : ∀ n < 9, 0 < n → ([0x52, 0x4B, 0x57, 0x31, 2, 8, 0, 0, 0] : List UInt8).drop n ≠
      ([0x52, 0x4B, 0x57, 0x31, 2, 8, 0, 0, 0] : List UInt8).take (9 - n) := by decide
  exact hall tail.length hshort hpos hover

end Read

/-! ## What calls keep -/

/-- A log once attached stays. -/
theorem Effect.isSome_wal {r r' : Replicator} {c : Call} {o : Output} (h : Effect r c o r')
    (hwal : r.wal.isSome) : r'.wal.isSome := by
  have hlogged (record : WalRecord) : (r.logged record).isSome := by
    rw [Replicator.logged, Option.isSome_map]
    exact hwal
  cases h with
  | burned htakes hspoils => rfl
  | spoiled hc hspoils => rfl
  | receivedSpoiled hc haccepts hack hspoils => rfl
  | enqueued stats htakes hlogs => exact hlogged _
  | coalesced stats hpending hpre hold hlogs => exact hlogged _
  | acknowledged stats hlogs => exact hlogged _
  | receivedAck stats hc haccepts hack hlogs => exact hlogged _
  | _ => exact hwal

theorem isSome_wal_of_reaches {r r' : Replicator} (hrun : Reaches steps r r')
    (hwal : r.wal.isSome) : r'.wal.isSome :=
  hrun.invariant (fun r => r.wal.isSome) hwal fun _ _ _ h hstep =>
    (effect_of_steps hstep).isSome_wal h

/-- Within a session the watermark only rises. -/
theorem Effect.lastAckSent_le {r r' : Replicator} {c : Call} {o : Output} (h : Effect r c o r')
    (hc : c.changesSession = false) : r.lastAckSent ≤ r'.lastAckSent := by
  cases h with
  | receivedAck stats hcarries haccepts hack hlogs => exact UInt64.le_of_lt hack
  | receivedSpoiled hcarries haccepts hack hspoils => exact UInt64.le_of_lt hack
  | session nonce hc' => exact absurd (hc.symm.trans hc') (by simp)
  | _ => exact UInt64.le_refl _

/-- **What a call that returns a packet does** with its acknowledgement. -/
theorem Effect.received_cases {r r' : Replicator} {c : Call} {o : Output} (h : Effect r c o r')
    {p : SyncPacket} (hp : o.received = some p) :
    (p.ack ≤ r.lastAckSent ∧ r' = { r with lastReceived := p.sequence }) ∨
    r.lastAckSent < p.ack ∧ r'.lastAckSent = p.ack ∧
      ((r'.wal = r.logged (.ack p.ack) ∧
          r'.inFlight = r.inFlight.filter fun item => p.ack < item.packet.sequence) ∨
        ∃ wal', r.Spoils c.disk (.ack p.ack) wal') := by
  cases h with
  | received hcarries haccepts hack =>
    obtain rfl := Option.some.inj hp
    exact .inl ⟨hack, rfl⟩
  | receivedAck stats hcarries haccepts hack hlogs =>
    obtain rfl := Option.some.inj hp
    exact .inr ⟨hack, rfl, .inl ⟨rfl, rfl⟩⟩
  | receivedSpoiled hcarries haccepts hack hspoils =>
    obtain rfl := Option.some.inj hp
    exact .inr ⟨hack, rfl, .inr ⟨_, hspoils⟩⟩
  | _ => exact absurd hp (by simp)

/-! ## The failure, and the packets after it -/

theorem AckFailed.isSome_wal {a : UInt64} {r : Replicator} {c : Call} (h : AckFailed a r c) :
    r.wal.isSome := by
  obtain ⟨wal', wal, error, hwal, -⟩ := h.refused
  rw [hwal]
  rfl

/-- The packet is returned all the same, and the watermark stands at `a`. -/
theorem AckFailed.lastAckSent {a : UInt64} {r : Replicator} {c : Call} (h : AckFailed a r c) :
    (r.call c).2.lastAckSent = a := by
  obtain ⟨p, hp, rfl⟩ := h.received
  rcases (r.effect_call c).received_cases hp with ⟨hle, -⟩ | ⟨-, hafter, -⟩
  · exact absurd h.new (UInt64.not_lt.mpr hle)
  · exact hafter

/-- A write that the disk completes is not refused. -/
theorem not_spoils_ack {r : Replicator} {s : UInt64} {wal' : SyncWal} :
    ¬ r.Spoils .complete (.ack s) wal' := by
  intro hex
  obtain ⟨wal, error, -, hperform⟩ := hex
  have hok : wal.perform .complete (.ack s) = (.ok (), wal.push (.ack s)) :=
    SyncWal.perform_eq_ok_iff.mpr ⟨trivial, rfl, rfl⟩
  exact absurd (congrArg Prod.fst (hok.symm.trans hperform)) (by simp)

/-- **What releasing and logging `s` brings about.** -/
theorem repaired_logged_iff {a s : UInt64} (ha : a ≤ s) {r r' : Replicator} (hwal : r.wal.isSome)
    (hinFlight : r'.inFlight = r.inFlight.filter fun item => s < item.packet.sequence)
    (hlogged : r'.wal = r.logged (.ack s)) : r'.Repaired a ↔ r.Covered a ∨ r.TakesAck a s := by
  obtain ⟨wal, hwal⟩ := Option.isSome_iff_exists.mp hwal
  have hwal' : r'.wal = some (wal.push (.ack s)) := by
    rw [hlogged, Replicator.logged, hwal]
    rfl
  rw [← covered_push_iff hwal hwal']
  refine ⟨Repaired.logged, fun h => ⟨?_, h⟩⟩
  intro item hitem
  rw [hinFlight, List.mem_filter, decide_eq_true_eq] at hitem
  exact UInt64.lt_of_le_of_lt ha hitem.2

/-- **When a later packet repairs it.** After an acknowledgement `a` the log refused, and any
    calls, a packet that acknowledges `a` or more, on a disk that works: everything up to `a` is
    released and logged exactly when it was before, or the acknowledgement is above the watermark
    and the log covers `a` or takes a record that does. -/
theorem failed_ack_repaired_iff {a : UInt64} {r r' : Replicator} {c c' : Call} {p : SyncPacket}
    (hfailed : AckFailed a r c) (hrun : Reaches steps (r.call c).2 r')
    (hreceived : (r'.call c').1.received = some p) (hack : a ≤ p.ack)
    (hdisk : c'.disk = .complete) :
    (r'.call c').2.Repaired a ↔ r'.Repaired a ∨
      r'.lastAckSent < p.ack ∧ (r'.Covered a ∨ r'.TakesAck a p.ack) := by
  have hwal := isSome_wal_of_reaches hrun ((r.effect_call c).isSome_wal hfailed.isSome_wal)
  rcases (r'.effect_call c').received_cases hreceived with
    ⟨hle, h⟩ | ⟨hnew, -, ⟨hlogged, hinFlight⟩ | ⟨wal', hspoils⟩⟩
  · -- an old acknowledgement: only `last_received` moves
    rw [h, or_iff_left fun hnew => UInt64.not_lt.mpr hle hnew.1]
    exact ⟨fun h => ⟨h.released, h.logged⟩, fun h => ⟨h.released, h.logged⟩⟩
  · rw [repaired_logged_iff hack hwal hinFlight hlogged, and_iff_right hnew]
    exact ⟨.inr, fun h => h.elim (fun h => .inl h.logged) id⟩
  · rw [hdisk] at hspoils
    exact absurd hspoils not_spoils_ack

/-- **The acknowledgement repeated is never new** while the session lasts. -/
theorem watermark_of_failed_ack {a : UInt64} {r r' : Replicator} {c : Call}
    (hfailed : AckFailed a r c)
    (hrun : Reaches (Guarded (fun _ c => c.changesSession = false) steps) (r.call c).2 r') :
    a ≤ r'.lastAckSent := by
  refine hrun.invariant (fun r => a ≤ r.lastAckSent) ?_ ?_
  · show a ≤ (r.call c).2.lastAckSent
    rw [hfailed.lastAckSent]
    exact UInt64.le_refl a
  · intro s c' t hs hstep
    exact UInt64.le_trans hs ((effect_of_steps hstep.2).lastAckSent_le hstep.1)

/-- The sibling that reports its failure can be called again, with the same acknowledgement. -/
theorem tryAcknowledge_repairs {r : Replicator} (hwal : r.wal.isSome) {a : UInt64}
    (htakes : r.TakesAck a a) : (r.tryAcknowledge .complete a).2.Repaired a := by
  rcases r.tryAcknowledge_cases .complete a with ⟨-, h⟩ | ⟨wal', hspoils, -⟩
  · rw [h]
    exact (repaired_logged_iff (UInt64.le_refl a) hwal rfl rfl).mpr (.inr htakes)
  · exact absurd hspoils not_spoils_ack

/-- Event 1 is in flight. -/
def awaiting : Replicator :=
  [.setMode .online, .enqueue .complete (.event 7 [9]), .pump [.ok ()] 0].foldl
    (fun r c => (r.call c).2) (opened .default emptyLog [])

/-- It is acknowledged, and the disk fails after some bytes. -/
def failingAck (written : Nat) : Call := .receive (.failed written) ⟨1, 1, .event, 0, [5]⟩

theorem ackFailed_awaiting (written : Nat) : AckFailed 1 awaiting (failingAck written) where
  received := ⟨⟨1, 1, .event, 0, [5]⟩, rfl, rfl⟩
  new := by decide
  refused := ⟨_, _, _, rfl, rfl⟩

/-- No byte was written: the log ends with the record of the event, and a higher acknowledgement
    repairs it. -/
theorem repaired_by_higher_ack : ((awaiting.call (failingAck 0)).2.call
    (.receive .complete ⟨2, 2, .event, 0, [5]⟩)).2.Repaired 1 :=
  (failed_ack_repaired_iff (ackFailed_awaiting 0) .refl rfl (by decide) rfl).mpr
    (.inr ⟨by decide, .inr (takesAck_of_whole rfl (by decide) rfl (by decide))⟩)

/-- The next packet acknowledges 1 again, and the disk works: event 1 is still in flight, and
    nothing but its own record is in the log. -/
theorem not_repaired_by_same_ack : AckFailed 1 awaiting (failingAck 0) ∧
    ((awaiting.call (failingAck 0)).2.call (.receive .complete ⟨2, 1, .event, 0, [5]⟩)).1.received
        = some ⟨2, 1, .event, 0, [5]⟩ ∧
      ¬ ((awaiting.call (failingAck 0)).2.call
        (.receive .complete ⟨2, 1, .event, 0, [5]⟩)).2.Repaired 1 := by
  refine ⟨ackFailed_awaiting 0, rfl, ?_⟩
  intro hrepaired
  have hitem := hrepaired.released ⟨⟨1, 0, .event, 7, [9]⟩, 0, 0⟩ (by decide)
  exact absurd hitem (by decide)

/-- Five bytes of the failed record reached the file. A higher acknowledgement releases event 1,
    and its record is written whole, and still `replay` reads no ACK record: what it meets behind
    the event is refused. -/
theorem not_repaired_behind_torn : AckFailed 1 awaiting (failingAck 5) ∧
    ((awaiting.call (failingAck 5)).2.call (.receive .complete ⟨2, 2, .event, 0, [5]⟩)).2.wal.map
        SyncWal.replay = some (.error .recordTooLarge) ∧
      ¬ ((awaiting.call (failingAck 5)).2.call
        (.receive .complete ⟨2, 2, .event, 0, [5]⟩)).2.Repaired 1 := by
  refine ⟨ackFailed_awaiting 5, rfl, ?_⟩
  intro hrepaired
  obtain ⟨wal, s, hwal, -, hmem⟩ := hrepaired.logged
  have hread : ((awaiting.call (failingAck 5)).2.call
      (.receive .complete ⟨2, 2, .event, 0, [5]⟩)).2.wal.map (fun wal => wal.read.1) =
        some [.packet ⟨1, 0, .event, 7, [9]⟩] := rfl
  rw [hwal, Option.map_some, Option.some.injEq] at hread
  rw [hread] at hmem
  simp at hmem

end Replicator

end Sync
end EngineKit
