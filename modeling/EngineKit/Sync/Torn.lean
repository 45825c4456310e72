import EngineKit.Sync.Live

/-!
# Appending behind a torn record

`append_record` opens the file for append and writes at its end, whatever the end is. After a
crash the end is a record cut short, so the next record's bytes are read as the rest of the torn
one. This file says exactly what `replay` then makes of the log.

There are two ways out, and both are accidents (`replay_after_torn`):

* the torn frame **swallows** everything behind it — the length it declares is admissible and
  runs past the end of the file — and the records lost that way happened to change nothing; or
* the later bytes **complete** the torn frame, its four checksum bytes included, and from there
  on happen to split into records with the effect of the ones written.

Otherwise the log is refused or records are lost. With fewer than four bytes left of the torn
record neither can happen, since `RKW1` never lines up with a prefix of itself
(`not_rejoins_of_short`).
-/

set_option autoImplicit false

namespace EngineKit
namespace Sync

open Lib

/-- The frame that starts with the torn bytes declares an admissible length and ends behind
    everything that was written after them. -/
def Swallows (limit : Nat) (torn : List UInt8) (later : List WalRecord) : Prop :=
  (torn ++ encodeAll WalRecord.bytes later).take 4 = walMagic ∧
    0 < frameLen (torn ++ encodeAll WalRecord.bytes later) ∧
    frameLen (torn ++ encodeAll WalRecord.bytes later) ≤ limit + 30 ∧
    torn.length + (encodeAll WalRecord.bytes later).length <
      walHeader + frameLen (torn ++ encodeAll WalRecord.bytes later) + walTrailer

instance (limit : Nat) (torn : List UInt8) (later : List WalRecord) :
    Decidable (Swallows limit torn later) :=
  inferInstanceAs (Decidable (_ ∧ _))

/-- The bytes written after the torn ones complete its frame to a record with a matching
    checksum, and the bytes from there on split into whole records and an incomplete end, such
    that the live packets come out as if the later records had been read. -/
def Rejoins (limit max : Nat) (ps : List SyncPacket) (torn : List UInt8)
    (later : List WalRecord) : Prop :=
  ∃ r rs tail, (∀ r' ∈ r :: rs, r'.Fits limit) ∧
    torn ++ encodeAll WalRecord.bytes later = encodeAll WalRecord.bytes (r :: rs) ++ tail ∧
    Incomplete limit tail ∧ WithinRecords max ps (r :: rs) ∧
    liveAfter ps (r :: rs) = liveAfter ps later

theorem length_encodeAll_of_ne_nil {rs : List WalRecord} (h : rs ≠ []) :
    walHeader ≤ (encodeAll WalRecord.bytes rs).length := by
  cases rs with
  | nil => exact absurd rfl h
  | cons r rs =>
    have := r.length_bytes
    simp only [encodeAll, List.flatMap_cons, List.length_append]
    omega

/-- The scan of a tail, from whatever live packets the records before it left. -/
theorem scan_eq_ok_iff_swallows_or_rejoins {limit max : Nat} (hlimit : limit + 30 < 2 ^ 64)
    {ps : List SyncPacket} (hnd : (sequences ps).Nodup) (hle : ps.length ≤ max)
    {torn : List UInt8} {later : List WalRecord} (hlater : later ≠ []) :
    scan (readRecord limit) (applyRecord max) ps (torn ++ encodeAll WalRecord.bytes later) =
        .ok (liveAfter ps later) ↔
      (Swallows limit torn later ∧ liveAfter ps later = ps) ∨
        Rejoins limit max ps torn later := by
  have hlong : walHeader ≤ (torn ++ encodeAll WalRecord.bytes later).length := by
    have := length_encodeAll_of_ne_nil hlater
    rw [List.length_append]
    omega
  rw [scan_eq_ok_iff (readRecord_consumes hlimit) (readRecord_bytes hlimit)
    (readRecord_canonical hlimit)]
  constructor
  · intro hex
    obtain ⟨rs, tail, hfits, heq, hstop, happ⟩ := hex
    have htail := (readRecord_eq_stop_iff hlimit).mp hstop
    cases rs with
    | nil =>
      -- Nothing was read: the torn frame covers all that was written.
      have hsame : torn ++ encodeAll WalRecord.bytes later = tail := heq
      rw [← hsame] at htail
      refine Or.inl ⟨?_, ?_⟩
      · rcases htail with hshort | hframe
        · exact absurd hshort (by omega)
        · simpa only [Swallows, List.length_append] using hframe
      · exact (Except.ok.inj happ).symm
    | cons r rs =>
      rcases applyAll_eq (r :: rs) hnd hle with ⟨hok, hw⟩ | ⟨herr, -⟩
      · rw [hok] at happ
        exact Or.inr ⟨r, rs, tail, hfits, heq, htail, hw, Except.ok.inj happ⟩
      · rw [herr] at happ
        exact absurd happ (by simp)
  · rintro (⟨hsw, hsame⟩ | ⟨r, rs, tail, hfits, heq, htail, hw, hlive⟩)
    · refine ⟨[], torn ++ encodeAll WalRecord.bytes later, by simp, rfl, ?_, by
        rw [hsame]; rfl⟩
      refine (readRecord_eq_stop_iff hlimit).mpr (Or.inr ?_)
      simpa only [Swallows, List.length_append] using hsw
    · refine ⟨r :: rs, tail, hfits, heq, (readRecord_eq_stop_iff hlimit).mpr htail, ?_⟩
      rcases applyAll_eq (r :: rs) hnd hle with ⟨hok, -⟩ | ⟨-, hbad⟩
      · rw [hok, hlive]
      · exact absurd hw hbad

/-- **Fewer than four bytes of the torn record never line up.** -/
theorem not_rejoins_of_short (limit max : Nat) (ps : List SyncPacket) {r : WalRecord} {n : Nat}
    (hpos : 0 < n) (hshort : n < 4) {later : List WalRecord} (hlater : later ≠ []) :
    ¬ Swallows limit (r.bytes.take n) later ∧ ¬ Rejoins limit max ps (r.bytes.take n) later := by
  have hmagic : (r.bytes.take n ++ encodeAll WalRecord.bytes later).take 4 ≠ walMagic := by
    cases later with
    | nil => exact absurd rfl hlater
    | cons r' rs =>
      -- One, two or three bytes of `RKW1` in front of another `RKW1`.
      have hn : n = 1 ∨ n = 2 ∨ n = 3 := by omega
      rcases hn with rfl | rfl | rfl <;>
        simp [WalRecord.bytes, walRecordBytes, walMagic, encodeAll]
  refine ⟨fun h => hmagic h.1, ?_⟩
  intro hex
  obtain ⟨r', rs, tail, -, heq, -⟩ := hex
  rw [heq] at hmagic
  exact hmagic rfl

/-- Once the torn record's header is whole, swallowing is a matter of how many bytes came
    after it. -/
theorem swallows_iff_of_header {limit : Nat} {r : WalRecord} (hr : r.Fits limit) {n : Nat}
    (hhead : walHeader ≤ n) (hcut : n < r.bytes.length) (later : List WalRecord) :
    Swallows limit (r.bytes.take n) later ↔
      n + (encodeAll WalRecord.bytes later).length < r.bytes.length := by
  obtain ⟨hpos, hmax, hle⟩ := r.body_bounds hr
  have hn : (r.bytes.take n).length = n := by rw [List.length_take]; omega
  unfold walHeader at hhead
  have hhd : (r.bytes.take n ++ encodeAll WalRecord.bytes later).take 9 = r.bytes.take 9 := by
    rw [List.take_append_of_le_length (by omega), List.take_take, Nat.min_eq_left (by omega)]
  have hlen : frameLen (r.bytes.take n ++ encodeAll WalRecord.bytes later) = r.body.length := by
    have hext : ∀ file : List UInt8, file.extract 5 9 = (file.take 9).extract 5 9 := by
      intro file
      simp [List.extract, List.drop_take, List.take_take]
    have := frameLen_walRecordBytes r.kind hmax []
    rw [List.append_nil, frameLen, hext] at this
    rw [frameLen, hext, hhd]
    exact this
  have hmagic : (r.bytes.take n ++ encodeAll WalRecord.bytes later).take 4 = walMagic := by
    have h4 := congrArg (List.take 4) hhd
    rw [List.take_take, List.take_take] at h4
    exact h4
  rw [r.length_bytes, Swallows, hlen, hn]
  exact ⟨fun h => h.2.2.2, fun h => ⟨hmagic, hpos, hle, h⟩⟩

/-- **When a log survives an append behind a torn record.** The file is whole records, then a
    non-empty prefix of one more; then any calls that all return `Ok`, at least one, with the
    live packets within bounds. Replay answers the fold of the whole records and the later ones
    exactly when the torn frame swallows later records that change nothing, or the bytes rejoin
    (and the limit is one `replay` can add 30 to). -/
theorem SyncWal.replay_after_torn (wal : SyncWal) {wal' : SyncWal} {rs : List WalRecord}
    (hfits : ∀ r ∈ rs, r.Fits wal.maxPayloadBytes) (r : WalRecord) {n : Nat} (hpos : 0 < n)
    (hfile : wal.file = encodeAll WalRecord.bytes rs ++ r.bytes.take n)
    (calls : List (DiskWrite × WalRecord)) (hcalls : wal.performAll calls = .ok wal')
    (hne : calls ≠ [])
    (hwithin : WithinRecords wal.maxRecords [] (rs ++ calls.map Prod.snd)) :
    wal'.replay = .ok (live (rs ++ calls.map Prod.snd)) ↔
      wal.maxPayloadBytes + 30 < 2 ^ 64 ∧ 4 ≤ n ∧
        ((Swallows wal.maxPayloadBytes (r.bytes.take n) (calls.map Prod.snd) ∧
            live (rs ++ calls.map Prod.snd) = live rs) ∨
          Rejoins wal.maxPayloadBytes wal.maxRecords (live rs) (r.bytes.take n)
            (calls.map Prod.snd)) := by
  have hlater : calls.map Prod.snd ≠ [] := by simpa using hne
  obtain ⟨-, rfl⟩ := performAll_eq_ok hcalls
  by_cases hlimit : wal.maxPayloadBytes + 30 < 2 ^ 64
  case neg =>
    -- `replay` cannot even form its bound: the first header is refused.
    have hlong : walHeader ≤
        (wal.file ++ encodeAll WalRecord.bytes (calls.map Prod.snd)).length := by
      have := length_encodeAll_of_ne_nil hlater
      rw [List.length_append]
      omega
    obtain ⟨error, hbad⟩ := readRecord_of_overflow hlimit hlong
    rw [replay, scan_corrupt hbad]
    exact ⟨fun h => absurd h (by simp), fun h => absurd h.1 hlimit⟩
  case pos =>
    obtain ⟨hw, hw'⟩ := withinRecords_append.mp hwithin
    have hle : (live rs).length ≤ wal.maxRecords := withinRecords_length hw'
    have hlive : applyAll (applyRecord wal.maxRecords) [] rs = .ok (live rs) := by
      have hnil : (sequences []).Nodup := List.nodup_nil
      rcases applyAll_eq rs hnil (Nat.zero_le wal.maxRecords) with ⟨h, -⟩ | ⟨-, h⟩
      · exact h
      · exact absurd hw h
    have hscan : SyncWal.replay
        { wal with file := wal.file ++ encodeAll WalRecord.bytes (calls.map Prod.snd) } =
          scan (readRecord wal.maxPayloadBytes) (applyRecord wal.maxRecords) (live rs)
            (r.bytes.take n ++ encodeAll WalRecord.bytes (calls.map Prod.snd)) := by
      rw [replay, hfile, List.append_assoc,
        scan_append (readRecord_consumes hlimit) (readRecord_bytes hlimit) _ _ hfits, hlive]
    rw [hscan, live_append,
      scan_eq_ok_iff_swallows_or_rejoins hlimit (nodup_live rs) hle hlater]
    refine ⟨fun h => ⟨hlimit, ?_, h⟩, fun h => h.2.2⟩
    by_contra hshort
    obtain ⟨h1, h2⟩ : ¬ Swallows _ (r.bytes.take n) _ ∧ ¬ Rejoins _ _ _ (r.bytes.take n) _ :=
      not_rejoins_of_short wal.maxPayloadBytes wal.maxRecords (live rs) hpos
        (Nat.lt_of_not_le hshort) hlater
    rcases h with ⟨h, -⟩ | h
    · exact h1 h
    · exact h2 h

/-- One byte of a torn record is enough: the next append leaves a log `replay` refuses. -/
theorem SyncWal.torn_append_refused :
    ∃ (wal wal' : SyncWal) (r : WalRecord) (n : Nat) (calls : List (DiskWrite × WalRecord)),
      wal.file = r.bytes.take n ∧ r.Fits wal.maxPayloadBytes ∧ 0 < n ∧ n < r.bytes.length ∧
        calls ≠ [] ∧ wal.performAll calls = .ok wal' ∧
        WithinRecords wal.maxRecords [] (calls.map Prod.snd) ∧
        wal'.replay = .error .invalidRecord ∧
        live (calls.map Prod.snd) = [⟨2, 0, .event, 8, [4]⟩] :=
  ⟨{ maxPayloadBytes := 64, maxRecords := 4, maxRecords_pos := by decide, file := [0x52] },
    { maxPayloadBytes := 64, maxRecords := 4, maxRecords_pos := by decide,
      file := 0x52 :: (WalRecord.packet ⟨2, 0, .event, 8, [4]⟩).bytes },
    .packet ⟨1, 0, .event, 7, [1, 2, 3]⟩, 1, [(.complete, .packet ⟨2, 0, .event, 8, [4]⟩)],
    rfl, by decide, by decide, by decide, by decide, rfl, by decide, rfl, rfl⟩

/-- A torn packet record whose header is whole swallows an ACK of nothing, and the log is none
    the worse for it. -/
theorem SyncWal.replay_after_torn_ack :
    SyncWal.replay
        { maxPayloadBytes := 64, maxRecords := 4, maxRecords_pos := by decide,
          file := (WalRecord.packet ⟨1, 0, .event, 7, List.replicate 40 0⟩).bytes.take 10 ++
            (WalRecord.ack 0).bytes } = .ok [] :=
  (SyncWal.replay_after_torn
    { maxPayloadBytes := 64, maxRecords := 4, maxRecords_pos := by decide,
      file := (WalRecord.packet ⟨1, 0, .event, 7, List.replicate 40 0⟩).bytes.take 10 }
    (show ∀ r ∈ ([] : List WalRecord), r.Fits 64 by simp)
    (.packet ⟨1, 0, .event, 7, List.replicate 40 0⟩) (show 0 < 10 by decide) rfl
    [(.complete, .ack 0)] rfl (by simp) (by decide)).mpr
    ⟨by decide, by decide, Or.inl ⟨by decide, rfl⟩⟩

end Sync
end EngineKit
