import EngineKit.Sync.Live

/-!
# Compaction

`compact` writes the live packets into a temporary file, one record each, syncs it and renames
it over the log. The rename is atomic and the temporary file is another file than the log, so a
compaction that fails anywhere leaves the log as it was (`compact_cases`).

A compacted log has another history than the log it replaces, and the same future. `Alike` says
of two logs that nothing written behind them tells them apart; `append` and `acknowledge` keep
it (`Alike.perform`), and a log of whole records is `Alike` to its compaction.
-/

set_option autoImplicit false

namespace EngineKit
namespace Sync

open Lib

/-! ## `compact` -/

/-- What the file system does with a compaction. -/
inductive DiskRewrite
  /-- The temporary file is written and synced, and takes the log's place. -/
  | complete
  /-- The temporary file could not be opened. -/
  | unopened
  /-- An I/O error, after `written` bytes of the temporary file at most: in a write, or in the
      sync or the rename at the end. -/
  | failed (written : Nat)
  deriving DecidableEq, Repr

/-- The disk takes a record that ends at this byte of the temporary file. -/
def DiskRewrite.takes : DiskRewrite → Nat → Bool
  | .complete, _ => true
  | .unopened, _ => false
  | .failed written, size => size ≤ written

/-- The loop of `compact`, from the temporary file as far as it is written. -/
def SyncWal.compactRecords (wal : SyncWal) (disk : DiskRewrite) :
    List SyncPacket → List UInt8 → Except WalError (List UInt8)
  | [], file => .ok file
  | packet :: packets, file =>
    if packet.payload.isEmpty ∨ wal.maxPayloadBytes < packet.payload.length then
      .error .recordTooLarge
    else
      match encodePacket packet with
      | .error .allocationFailed => .error .allocationFailed
      | .error _ => .error .recordTooLarge
      | .ok body =>
        if body.isEmpty ∨ u32Max < body.length then .error .recordTooLarge
        else if disk.takes (file ++ walRecordBytes walPacket body).length then
          wal.compactRecords disk packets (file ++ walRecordBytes walPacket body)
        else .error .io

def SyncWal.compact (wal : SyncWal) (disk : DiskRewrite) (packets : List SyncPacket) :
    Except WalError Unit × SyncWal :=
  if wal.maxRecords < packets.length then (.error .tooManyRecords, wal)
  else if disk = .unopened then (.error .io, wal)
  else
    match wal.compactRecords disk packets [] with
    | .error error => (.error error, wal)
    | .ok file => if disk = .complete then (.ok (), { wal with file }) else (.error .io, wal)

/-- **One round of the loop.** -/
theorem SyncWal.compactRecords_cons (wal : SyncWal) (disk : DiskRewrite) (p : SyncPacket)
    (packets : List SyncPacket) (file : List UInt8) :
    wal.compactRecords disk (p :: packets) file =
      if (WalRecord.packet p).Fits wal.maxPayloadBytes then
        if disk.takes (file ++ (WalRecord.packet p).bytes).length then
          wal.compactRecords disk packets (file ++ (WalRecord.packet p).bytes)
        else .error .io
      else .error .recordTooLarge := by
  rw [compactRecords]
  rcases p.gate wal.maxPayloadBytes with
    ⟨hnot, hguard | ⟨hguard, hlarge | ⟨hbody, hlong⟩⟩⟩ | ⟨hfits, hguard, hbody, hmax⟩
  · rw [if_pos hguard, if_neg hnot]
  · rw [if_neg hguard, hlarge, if_neg hnot]
  · rw [if_neg hguard, hbody, if_neg hnot]
    simp only [if_pos hlong]
  · rw [if_neg hguard, hbody, if_pos hfits]
    simp only [if_neg hmax]
    rfl

/-- Packets the handle admits are written one behind the other. -/
theorem SyncWal.compactRecords_complete (wal : SyncWal) {packets : List SyncPacket}
    (hfits : ∀ p ∈ packets, (WalRecord.packet p).Fits wal.maxPayloadBytes) (file : List UInt8) :
    wal.compactRecords .complete packets file =
      .ok (file ++ encodeAll WalRecord.bytes (packets.map .packet)) := by
  induction packets generalizing file with
  | nil => simp [compactRecords]
  | cons p packets ih =>
    have htakes : DiskRewrite.complete.takes (file ++ (WalRecord.packet p).bytes).length = true :=
      rfl
    rw [compactRecords_cons, if_pos (hfits p List.mem_cons_self), if_pos htakes,
      ih fun q hq => hfits q (List.mem_cons_of_mem _ hq)]
    simp [encodeAll]

/-- **A compaction leaves the log as it was, or compacts it.** -/
theorem SyncWal.compact_cases (wal : SyncWal) (disk : DiskRewrite) {packets : List SyncPacket}
    (hfits : ∀ p ∈ packets, (WalRecord.packet p).Fits wal.maxPayloadBytes)
    (hle : packets.length ≤ wal.maxRecords) :
    (disk ≠ .complete ∧ ∃ error, wal.compact disk packets = (.error error, wal)) ∨
      (disk = .complete ∧ wal.compact disk packets =
        (.ok (), { wal with file := encodeAll WalRecord.bytes (packets.map .packet) })) := by
  unfold compact
  rw [if_neg (Nat.not_lt.mpr hle)]
  cases disk with
  | complete =>
    refine Or.inr ⟨rfl, ?_⟩
    rw [wal.compactRecords_complete hfits]
    simp
  | unopened => exact Or.inl ⟨by simp, .io, rfl⟩
  | failed written =>
    refine Or.inl ⟨by simp, ?_⟩
    rw [if_neg (by simp)]
    cases wal.compactRecords (.failed written) packets [] with
    | error error => exact ⟨error, rfl⟩
    | ok file => exact ⟨.io, rfl⟩

/-! ## Logs that cannot be told apart -/

/-- What a call leaves behind on the disk, under the handle's limit. -/
def bytesWritten (limit : Nat) (disk : DiskWrite) (r : WalRecord) : List UInt8 :=
  if r.Fits limit then
    match disk with
    | .complete => r.bytes
    | .failed n => r.bytes.take n
  else []

theorem SyncWal.perform_snd (wal : SyncWal) (disk : DiskWrite) (r : WalRecord) :
    (wal.perform disk r).2 =
      { wal with file := wal.file ++ bytesWritten wal.maxPayloadBytes disk r } := by
  rcases wal.perform_cases disk r with ⟨hf, h⟩ | ⟨hf, n, rfl, h⟩ | ⟨hf, rfl, h⟩
  · simp only [h, bytesWritten, if_neg hf, List.append_nil]
  · simp only [h, bytesWritten, if_pos hf]
  · simp only [h, bytesWritten, if_pos hf, push]

/-- Nothing written behind the two logs tells them apart. -/
structure SyncWal.Alike (wal wal' : SyncWal) : Prop where
  maxPayloadBytes : wal.maxPayloadBytes = wal'.maxPayloadBytes
  replay : ∀ suffix, SyncWal.replay { wal with file := wal.file ++ suffix } =
    SyncWal.replay { wal' with file := wal'.file ++ suffix }

theorem SyncWal.Alike.refl (wal : SyncWal) : wal.Alike wal := ⟨rfl, fun _ => rfl⟩

theorem SyncWal.Alike.replay_eq {wal wal' : SyncWal} (h : wal.Alike wal') :
    wal.replay = wal'.replay := by
  simpa using h.replay []

/-- **A call keeps two logs alike.** -/
theorem SyncWal.Alike.perform {wal wal' : SyncWal} (h : wal.Alike wal') (disk : DiskWrite)
    (r : WalRecord) : (wal.perform disk r).2.Alike (wal'.perform disk r).2 := by
  have hsame : bytesWritten wal'.maxPayloadBytes disk r =
      bytesWritten wal.maxPayloadBytes disk r := by rw [h.maxPayloadBytes]
  rw [wal.perform_snd, wal'.perform_snd, hsame]
  refine ⟨h.maxPayloadBytes, ?_⟩
  intro suffix
  simp only [List.append_assoc]
  exact h.replay (bytesWritten wal.maxPayloadBytes disk r ++ suffix)

/-- `append` and `acknowledge` calls one after the other, whatever each returns. -/
def SyncWal.performEach (wal : SyncWal) (calls : List (DiskWrite × WalRecord)) : SyncWal :=
  calls.foldl (fun wal call => (wal.perform call.1 call.2).2) wal

/-- **A run of calls keeps two logs alike.** -/
theorem SyncWal.Alike.performEach {wal wal' : SyncWal} (h : wal.Alike wal')
    (calls : List (DiskWrite × WalRecord)) :
    (wal.performEach calls).Alike (wal'.performEach calls) := by
  induction calls generalizing wal wal' with
  | nil => exact h
  | cons call calls ih => exact ih (h.perform call.1 call.2)

/-! ## A log and its compaction -/

/-- A record some handle wrote and this one could not have is refused wherever it stands. -/
theorem readRecord_bytes_of_not_fits {limit limit' : Nat} {r : WalRecord} (hr : r.Fits limit')
    (hnot : ¬ r.Fits limit) (rest : List UInt8) :
    ∃ error, readRecord limit (r.bytes ++ rest) = .corrupt error := by
  by_cases hlimit : limit + 30 < 2 ^ 64
  · obtain ⟨hpos, hmax, -⟩ := r.body_bounds hr
    have hlen : frameLen (r.bytes ++ rest) = r.body.length :=
      frameLen_walRecordBytes r.kind hmax rest
    have hmagic : (r.bytes ++ rest).take 4 = walMagic := (frame_walRecordBytes r.kind hmax rest).1
    have htotal : (r.bytes ++ rest).length = r.bytes.length + rest.length := List.length_append
    rw [r.length_bytes] at htotal
    -- Only a packet is ever too long, and then its record is too.
    have hlong : limit + 30 < r.body.length := by
      cases r with
      | ack s => exact absurd trivial hnot
      | packet p =>
        obtain ⟨⟨hne, -⟩, hu32⟩ := hr
        have hle : ¬ p.payload.length ≤ limit := fun hle => hnot ⟨⟨hne, hle⟩, hu32⟩
        rw [WalRecord.body, p.length_bytes]
        omega
    refine ⟨.recordTooLarge, ?_⟩
    rw [readRecord_eq hlimit, if_neg (by omega), if_neg (not_not.mpr hmagic),
      if_pos (Or.inr (hlen ▸ hlong))]
  · refine readRecord_of_overflow hlimit ?_
    rw [List.length_append, r.length_bytes]
    omega

/-- A log of whole records that replays has only records its handle could have written. -/
theorem fits_of_scan {limit max : Nat} (hlimit : limit + 30 < 2 ^ 64) {rs : List WalRecord}
    (hwhole : ∀ r ∈ rs, ∃ limit', r.Fits limit') {ps ps' : List SyncPacket}
    (h : scan (readRecord limit) (applyRecord max) ps (encodeAll WalRecord.bytes rs) =
      .ok ps') : ∀ r ∈ rs, r.Fits limit := by
  induction rs generalizing ps with
  | nil => simp
  | cons r rs ih =>
    rw [encodeAll, List.flatMap_cons] at h
    obtain ⟨limit', hr⟩ := hwhole r List.mem_cons_self
    by_cases hfits : r.Fits limit
    · rw [scan_frame (readRecord_consumes hlimit) (readRecord_bytes hlimit r _ hfits)] at h
      cases ha : applyRecord max ps r with
      | error error => rw [ha] at h; exact absurd h (by simp)
      | ok ps₁ =>
        rw [ha] at h
        have hrest := ih (fun q hq => hwhole q (List.mem_cons_of_mem _ hq)) h
        exact List.forall_mem_cons.mpr ⟨hfits, hrest⟩
    · obtain ⟨error, hbad⟩ := readRecord_bytes_of_not_fits hr hfits (encodeAll WalRecord.bytes rs)
      rw [scan_corrupt hbad] at h
      exact absurd h (by simp)

/-- Packets of distinct sequence numbers, no more than the bound, are replayed as they are. -/
theorem liveAfter_packets {max : Nat} {ps qs : List SyncPacket}
    (hnodup : (sequences (qs ++ ps)).Nodup) (hle : (qs ++ ps).length ≤ max) :
    liveAfter qs (ps.map .packet) = qs ++ ps ∧ WithinRecords max qs (ps.map .packet) := by
  induction ps generalizing qs with
  | nil => exact ⟨by simp, by simpa [WithinRecords] using hle⟩
  | cons p ps ih =>
    have hsplit : qs ++ p :: ps = (qs ++ [p]) ++ ps := by simp
    have hnew : p.sequence ∉ sequences qs := by
      intro hmem
      rw [sequences, List.map_append, List.nodup_append] at hnodup
      exact hnodup.2.2 _ hmem _ (by simp) rfl
    rw [hsplit] at hnodup hle
    obtain ⟨hlive, hwithin⟩ := ih hnodup hle
    simp only [List.map_cons, liveAfter_cons, WithinRecords, liveStep_packet_of_not_mem hnew]
    refine ⟨hlive.trans hsplit.symm, ?_, hwithin⟩
    simp only [List.length_append] at hle
    omega

/-- A live packet was written. -/
theorem mem_of_mem_liveAfter {ps : List SyncPacket} {rs : List WalRecord} {p : SyncPacket}
    (h : p ∈ liveAfter ps rs) : p ∈ ps ∨ .packet p ∈ rs := by
  induction rs generalizing ps with
  | nil => exact Or.inl h
  | cons r rs ih =>
    rcases ih h with hp | hp
    · cases r with
      | ack s => exact Or.inl (List.mem_filter.mp hp).1
      | packet q =>
        by_cases hold : q.sequence ∈ sequences ps
        · rw [liveStep_packet_of_mem hold] at hp
          obtain ⟨p', hp', rfl⟩ := List.mem_map.mp hp
          by_cases hsame : p'.sequence = q.sequence
          · simp [hsame]
          · simp [hsame, hp']
        · rw [liveStep_packet_of_not_mem hold] at hp
          rcases List.mem_append.mp hp with hp | hp
          · exact Or.inl hp
          · rw [List.mem_singleton.mp hp]
            exact Or.inr List.mem_cons_self
    · exact Or.inr (List.mem_cons_of_mem _ hp)

/-- **What a replay of whole records found.** Only records the handle could have written, whose
    live packets it could write again. -/
theorem SyncWal.fold_of_replay {wal : SyncWal} (hlimit : wal.maxPayloadBytes + 30 < 2 ^ 64)
    {rs : List WalRecord} (hwhole : ∀ r ∈ rs, ∃ limit, r.Fits limit)
    (hfile : wal.file = encodeAll WalRecord.bytes rs) {recovered : List SyncPacket}
    (hreplay : wal.replay = .ok recovered) :
    (∀ r ∈ rs, r.Fits wal.maxPayloadBytes) ∧
      applyAll (applyRecord wal.maxRecords) [] rs = .ok recovered ∧
      (sequences recovered).Nodup ∧ recovered.length ≤ wal.maxRecords ∧
      ∀ p ∈ recovered, (WalRecord.packet p).Fits wal.maxPayloadBytes := by
  have hfits : ∀ r ∈ rs, r.Fits wal.maxPayloadBytes := by
    rw [replay, hfile] at hreplay
    exact fits_of_scan hlimit hwhole hreplay
  obtain ⟨hlive, hwithin⟩ : recovered = live rs ∧ WithinRecords wal.maxRecords [] rs := by
    rcases wal.replay_eq_live_of_whole hlimit hfits hfile with ⟨h, hwithin⟩ | ⟨h, -⟩
    · exact ⟨Except.ok.inj (hreplay.symm.trans h), hwithin⟩
    · exact absurd (hreplay.symm.trans h) (by simp)
  subst hlive
  refine ⟨hfits, ?_, nodup_live rs, ?_, ?_⟩
  · rcases @applyAll_eq wal.maxRecords rs [] (by simp) (Nat.zero_le _) with ⟨h, -⟩ | ⟨-, h⟩
    · exact h
    · exact absurd hwithin h
  · have hend : WithinRecords wal.maxRecords [] (rs ++ []) := by rwa [List.append_nil]
    exact (withinRecords_append.mp hend).2
  · intro p hp
    rcases mem_of_mem_liveAfter hp with h | h
    · exact absurd h (by simp)
    · exact hfits _ h

theorem readRecord_nil {limit : Nat} : readRecord limit [] = .stop := rfl

/-- **A log of whole records is alike to its compaction**, whatever became of the
    compaction. -/
theorem SyncWal.alike_compact {wal : SyncWal} {rs : List WalRecord}
    (hwhole : ∀ r ∈ rs, ∃ limit, r.Fits limit)
    (hfile : wal.file = encodeAll WalRecord.bytes rs) {recovered : List SyncPacket}
    (hreplay : wal.replay = .ok recovered) (disk : DiskRewrite) :
    (disk = .complete → (wal.compact disk recovered).1 = .ok ()) ∧
      (wal.compact disk recovered).2.Alike wal := by
  by_cases hlimit : wal.maxPayloadBytes + 30 < 2 ^ 64
  · obtain ⟨hfits, hfold, hnodup, hlen, hrecovered⟩ := fold_of_replay hlimit hwhole hfile hreplay
    rcases wal.compact_cases disk hrecovered hlen with ⟨hdisk, error, h⟩ | ⟨-, h⟩
    · rw [h]
      exact ⟨fun hc => absurd hc hdisk, .refl wal⟩
    · rw [h]
      refine ⟨fun _ => rfl, rfl, ?_⟩
      intro suffix
      have hagain : applyAll (applyRecord wal.maxRecords) [] (recovered.map .packet) =
          .ok recovered := by
        obtain ⟨hlive, hwithin⟩ := @liveAfter_packets wal.maxRecords recovered [] hnodup hlen
        rcases @applyAll_eq wal.maxRecords (recovered.map .packet) []
          (by simp) (Nat.zero_le _) with ⟨h, -⟩ | ⟨-, h⟩
        · exact h.trans (congrArg _ hlive)
        · exact absurd hwithin h
      have hfits' : ∀ r ∈ recovered.map WalRecord.packet, r.Fits wal.maxPayloadBytes := by
        intro r hr
        obtain ⟨p, hp, rfl⟩ := List.mem_map.mp hr
        exact hrecovered p hp
      -- The two histories fold to the same packets, and that is all a scan goes on with.
      simp only [replay, hfile]
      exact scan_append_congr (readRecord_consumes hlimit) (readRecord_bytes hlimit) hfits'
        hfits hagain hfold suffix
  · -- No header is ever accepted under such a limit, so the log is empty, and stays so.
    cases rs with
    | nil =>
      have hempty : wal.file = [] := hfile
      have hsame : { wal with file := [] } = wal := by rw [← hempty]
      rw [replay, hfile, encodeAll, List.flatMap_nil, scan_stop readRecord_nil] at hreplay
      cases Except.ok.inj hreplay
      rcases @SyncWal.compact_cases wal disk [] (by simp) (Nat.zero_le _) with
        ⟨hdisk, error, h⟩ | ⟨-, h⟩
      · rw [h]
        exact ⟨fun hc => absurd hc hdisk, .refl wal⟩
      · rw [h]
        exact ⟨fun _ => rfl, hsame.symm ▸ .refl wal⟩
    | cons r rs =>
      have hlong : walHeader ≤ wal.file.length := by
        rw [hfile, encodeAll, List.flatMap_cons, List.length_append, r.length_bytes]
        omega
      obtain ⟨error, hbad⟩ := readRecord_of_overflow hlimit hlong
      rw [replay, scan_corrupt hbad] at hreplay
      exact absurd hreplay (by simp)

/-- **Compaction is invisible.** The packets replayed from a log of whole records can be written
    back, and are then replayed as the same list; and whatever is appended and acknowledged
    afterwards, however the disk fares, the log replays as it would have without. -/
theorem SyncWal.replay_compact {wal : SyncWal} {rs : List WalRecord}
    (hwhole : ∀ r ∈ rs, ∃ limit, r.Fits limit)
    (hfile : wal.file = encodeAll WalRecord.bytes rs) {recovered : List SyncPacket}
    (hreplay : wal.replay = .ok recovered) :
    (∃ wal', wal.compact .complete recovered = (.ok (), wal') ∧ wal'.replay = .ok recovered) ∧
      ∀ (disk : DiskRewrite) (calls : List (DiskWrite × WalRecord)),
        ((wal.compact disk recovered).2.performEach calls).replay =
          (wal.performEach calls).replay := by
  constructor
  · obtain ⟨hok, halike⟩ := alike_compact hwhole hfile hreplay .complete
    refine ⟨(wal.compact .complete recovered).2, ?_, halike.replay_eq.trans hreplay⟩
    exact Prod.ext (hok rfl) rfl
  · intro disk calls
    obtain ⟨-, halike⟩ := alike_compact hwhole hfile hreplay disk
    exact (halike.performEach calls).replay_eq

/-- Two packets appended, the first again under its number, and then acknowledged. -/
def ackedRecords : List WalRecord :=
  [.packet ⟨1, 0, .delta, 7, [1, 2, 3]⟩, .packet ⟨2, 0, .event, 8, [4]⟩,
    .packet ⟨1, 0, .delta, 7, [5]⟩, .ack 1]

def ackedLog : SyncWal where
  maxPayloadBytes := 64
  maxRecords := 4
  maxRecords_pos := Nat.succ_pos 3
  file := encodeAll WalRecord.bytes ackedRecords

theorem ackedRecords_fit : ∀ r ∈ ackedRecords, r.Fits 64 := by decide

theorem ackedLog_replay : ackedLog.replay = .ok [⟨2, 0, .event, 8, [4]⟩] := by
  rcases ackedLog.replay_eq_live_of_whole (by decide) ackedRecords_fit rfl with ⟨h, -⟩ | ⟨-, h⟩
  · exact h
  · exact absurd (by decide) h

/-- The log compacted, and then another packet appended and everything acknowledged. -/
theorem ackedLog_compact :
    ((ackedLog.compact .complete [⟨2, 0, .event, 8, [4]⟩]).2.performEach
        [(.complete, .packet ⟨3, 0, .event, 9, [6]⟩), (.complete, .ack 2)]).replay =
      (ackedLog.performEach
        [(.complete, .packet ⟨3, 0, .event, 9, [6]⟩), (.complete, .ack 2)]).replay :=
  (@SyncWal.replay_compact ackedLog _ (fun r hr => ⟨64, ackedRecords_fit r hr⟩) rfl _
    ackedLog_replay).2 .complete [(.complete, .packet ⟨3, 0, .event, 9, [6]⟩), (.complete, .ack 2)]

end Sync
end EngineKit
