import EngineKit.Sync.Wal

/-!
# The log as a framed format

What `replay`'s reader does with the bytes in front of it, said once (`readRecord_eq`) and then
used to place the log under the theory of `Lib/FramedLog.lean`: a record that was written reads
back whatever follows it (`readRecord_bytes`), and nothing else reads as a record
(`readRecord_canonical`).

The third answer a reader can give is the one crash tolerance rests on. `Incomplete` says of
bytes alone when the scan ends there without an error: fewer than a header's worth, or a header
with the right magic whose declared length is admissible and runs past the end of the file. A
record cut short is `Incomplete` (`incomplete_take_bytes`) — but so is a great deal else, and
that is what an append after a torn record runs into.

`limit` below is the handle's `max_payload_bytes`; `replay` adds 30 to it with a checked
addition, so every lemma assumes the sum fits.
-/

set_option autoImplicit false

namespace EngineKit
namespace Sync

open Lib

/-! ## The fields of the frame at the front -/

/-- The declared body length. -/
def frameLen (file : List UInt8) : Nat := (u32OfLe (file.extract 5 9)).toNat

def frameKind (file : List UInt8) : UInt8 := file.getD 4 0

def frameBody (file : List UInt8) : List UInt8 := file.extract 9 (9 + frameLen file)

def frameChecksum (file : List UInt8) : UInt32 :=
  u32OfLe (file.extract (9 + frameLen file) (13 + frameLen file))

/-- **The reader, as one decision list over the fields of the front frame.** -/
theorem readRecord_eq {limit : Nat} (hlimit : limit + 30 < 2 ^ 64) (file : List UInt8) :
    readRecord limit file =
      if file.length < walHeader then .stop
      else if file.take 4 ≠ walMagic then .corrupt .invalidRecord
      else if frameLen file = 0 ∨ limit + 30 < frameLen file then .corrupt .recordTooLarge
      else if file.length < walHeader + frameLen file + walTrailer then .stop
      else if walChecksum (frameKind file) (frameBody file) ≠ frameChecksum file then
        .corrupt .invalidRecord
      else
        match parseRecord limit (frameKind file) (frameBody file) with
        | .error error => .corrupt error
        | .ok record => .frame record (file.drop (walHeader + frameLen file + walTrailer)) := by
  unfold readRecord
  by_cases hlen : file.length < walHeader
  · rw [if_pos hlen, readExact, if_neg (by omega)]
  · rw [if_neg hlen, readExact, if_pos (by omega)]
    have htake : (file.take walHeader).take 4 = file.take 4 := by
      rw [List.take_take]; rfl
    have hkind : (file.take walHeader).getD 4 0 = frameKind file := by
      simp [frameKind, walHeader, List.getD_eq_getElem?_getD]
    have hext : (file.take walHeader).extract 5 9 = file.extract 5 9 := by
      simp [walHeader, List.extract, List.drop_take, List.take_take]
    have hdeclared : (u32OfLe (file.extract 5 9)).toNat = frameLen file := rfl
    simp only [htake, hkind, hext, hdeclared, checkedAdd_of_lt hlimit]
    by_cases hmagic : file.take 4 ≠ walMagic
    · rw [if_pos hmagic, if_pos hmagic]
    · rw [if_neg hmagic, if_neg hmagic]
      by_cases hbound : frameLen file = 0 ∨ limit + 30 < frameLen file
      · rw [if_pos hbound, if_pos hbound]
      · rw [if_neg hbound, if_neg hbound]
        by_cases hbody : file.length < walHeader + frameLen file + walTrailer
        · rw [if_pos hbody]
          by_cases hfit : frameLen file ≤ (file.drop walHeader).length
          · -- The body is there and the checksum is cut short.
            have hcut : ¬ walTrailer ≤ ((file.drop walHeader).drop (frameLen file)).length := by
              rw [List.length_drop] at hfit
              simp only [List.length_drop]; omega
            simp only [readExact, if_pos hfit, if_neg hcut]
          · simp only [readExact, if_neg hfit]
        · rw [if_neg hbody]
          have hfit : frameLen file ≤ (file.drop walHeader).length := by
            rw [List.length_drop]; omega
          have htrail : walTrailer ≤ ((file.drop walHeader).drop (frameLen file)).length := by
            simp only [List.length_drop]; omega
          have hb : (file.drop walHeader).take (frameLen file) = frameBody file := by
            simp [frameBody, List.extract, walHeader]
          have hcrc : ((file.drop walHeader).drop (frameLen file)).take walTrailer
              = file.extract (9 + frameLen file) (13 + frameLen file) := by
            have h13 : 13 + frameLen file - (9 + frameLen file) = walTrailer := by
              simp only [walTrailer]; omega
            rw [List.drop_drop, List.extract, h13]; rfl
          have hrest : ((file.drop walHeader).drop (frameLen file)).drop walTrailer
              = file.drop (walHeader + frameLen file + walTrailer) := by
            rw [List.drop_drop, List.drop_drop, Nat.add_assoc]
          simp only [readExact, if_pos hfit, if_pos htrail, hb, hcrc, hrest]
          rfl

/-- With a limit so large that 30 more overflow `usize`, no header is ever accepted. -/
theorem readRecord_of_overflow {limit : Nat} (hlimit : ¬ limit + 30 < 2 ^ 64)
    {file : List UInt8} (hlen : walHeader ≤ file.length) :
    ∃ error, readRecord limit file = .corrupt error := by
  have hnone : checkedAdd limit 30 = none := if_neg hlimit
  unfold readRecord
  rw [readExact, if_pos hlen]
  simp only [hnone]
  split
  · exact ⟨_, rfl⟩
  · exact ⟨_, rfl⟩

/-! ## Where the scan ends -/

/-- **Nothing complete is left**: less than a header, or an admissible header whose record runs
    past the end of the file. -/
def Incomplete (limit : Nat) (file : List UInt8) : Prop :=
  file.length < walHeader ∨
    (file.take 4 = walMagic ∧ 0 < frameLen file ∧ frameLen file ≤ limit + 30 ∧
      file.length < walHeader + frameLen file + walTrailer)

theorem readRecord_eq_stop_iff {limit : Nat} (hlimit : limit + 30 < 2 ^ 64)
    {file : List UInt8} : readRecord limit file = .stop ↔ Incomplete limit file := by
  rw [readRecord_eq hlimit, Incomplete]
  by_cases hlen : file.length < walHeader
  · simp [hlen]
  · rw [if_neg hlen]
    by_cases hmagic : file.take 4 ≠ walMagic
    · simp [hmagic, hlen]
    · -- With the magic in place only the length and the size of the file are left to decide.
      rw [if_neg hmagic]
      have hm : file.take 4 = walMagic := not_not.mp hmagic
      by_cases hbound : frameLen file = 0 ∨ limit + 30 < frameLen file
      · rw [if_pos hbound]
        constructor
        · intro h; exact absurd h (by simp)
        · rintro (h | ⟨-, h1, h2, -⟩) <;> omega
      · rw [if_neg hbound]
        by_cases hbody : file.length < walHeader + frameLen file + walTrailer
        · rw [if_pos hbody]
          exact ⟨fun _ => Or.inr ⟨hm, by omega, by omega, hbody⟩, fun _ => rfl⟩
        · rw [if_neg hbody]
          constructor
          · intro h
            split at h
            · exact absurd h (by simp)
            · split at h <;> exact absurd h (by simp)
          · rintro (h | ⟨-, -, -, h⟩) <;> omega

/-- What a record at the front was read from. -/
theorem readRecord_eq_frame {limit : Nat} (hlimit : limit + 30 < 2 ^ 64)
    {file rest : List UInt8} {r : WalRecord} (h : readRecord limit file = .frame r rest) :
    file.take 4 = walMagic ∧ walHeader + frameLen file + walTrailer ≤ file.length ∧
      walChecksum (frameKind file) (frameBody file) = frameChecksum file ∧
      parseRecord limit (frameKind file) (frameBody file) = .ok r ∧
      rest = file.drop (walHeader + frameLen file + walTrailer) := by
  rw [readRecord_eq hlimit] at h
  split at h
  · exact absurd h (by simp)
  · split at h
    · exact absurd h (by simp)
    · next hmagic =>
      split at h
      · exact absurd h (by simp)
      · split at h
        · exact absurd h (by simp)
        · next hbody =>
          split at h
          · exact absurd h (by simp)
          · next hsum =>
            split at h
            · exact absurd h (by simp)
            · next hparse =>
              obtain ⟨rfl, rfl⟩ := Front.frame.inj h
              exact ⟨not_not.mp hmagic, by omega, not_not.mp hsum, hparse, rfl⟩

theorem readRecord_consumes {limit : Nat} (hlimit : limit + 30 < 2 ^ 64) :
    Consumes (readRecord limit) := by
  intro file r rest h
  obtain ⟨-, hlen, -, -, rfl⟩ := readRecord_eq_frame hlimit h
  rw [List.length_drop]
  unfold walHeader walTrailer at *
  omega

/-! ## Writing and reading back -/

/-- The records a call on a handle with this limit can write: an admissible packet whose body a
    `u32` can measure, or any ACK. -/
def WalRecord.Fits (limit : Nat) : WalRecord → Prop
  | .packet p => p.Fits limit ∧ 30 + p.payload.length ≤ u32Max
  | .ack _ => True

instance (limit : Nat) : (r : WalRecord) → Decidable (r.Fits limit)
  | .packet _ => inferInstanceAs (Decidable (_ ∧ _))
  | .ack _ => inferInstanceAs (Decidable True)

@[simp] theorem length_walRecordBytes (kind : UInt8) (body : List UInt8) :
    (walRecordBytes kind body).length = walHeader + body.length + walTrailer := by
  simp [walRecordBytes, walMagic, walHeader, walTrailer]
  omega

theorem frameLen_walRecordBytes (kind : UInt8) {body : List UInt8} (h : body.length ≤ u32Max)
    (rest : List UInt8) : frameLen (walRecordBytes kind body ++ rest) = body.length := by
  have hext : (walRecordBytes kind body ++ rest).extract 5 9
      = u32ToLe (UInt32.ofNat body.length) := by
    simp [walRecordBytes, walMagic, List.extract]
  rw [frameLen, hext, u32OfLe_u32ToLe]
  exact u32_toNat_ofNat h

/-- Every field of a written record's frame, whatever follows the record. -/
theorem frame_walRecordBytes (kind : UInt8) {body : List UInt8} (h : body.length ≤ u32Max)
    (rest : List UInt8) :
    (walRecordBytes kind body ++ rest).take 4 = walMagic ∧
      frameKind (walRecordBytes kind body ++ rest) = kind ∧
      frameBody (walRecordBytes kind body ++ rest) = body ∧
      frameChecksum (walRecordBytes kind body ++ rest) = walChecksum kind body ∧
      (walRecordBytes kind body ++ rest).drop
        (walHeader + frameLen (walRecordBytes kind body ++ rest) + walTrailer) = rest := by
  have hlen := frameLen_walRecordBytes kind h rest
  refine ⟨rfl, rfl, ?_, ?_, ?_⟩
  · rw [frameBody, hlen]
    simp [walRecordBytes, walMagic, List.extract]
  · have hcrc : (walRecordBytes kind body ++ rest).extract (9 + body.length) (13 + body.length)
        = u32ToLe (walChecksum kind body) := by
      have h4 : 13 + body.length - (9 + body.length) = 4 := by omega
      rw [List.extract, h4]
      simp [walRecordBytes, walMagic, List.drop_append, List.drop_of_length_le,
        Nat.add_comm 9]
    rw [frameChecksum, hlen, hcrc, u32OfLe_u32ToLe]
  · rw [hlen, ← length_walRecordBytes kind body]
    simp

theorem WalRecord.body_bounds {limit : Nat} {r : WalRecord} (h : r.Fits limit) :
    0 < r.body.length ∧ r.body.length ≤ u32Max ∧ r.body.length ≤ limit + 30 := by
  cases r with
  | packet p =>
    obtain ⟨⟨-, hle⟩, hmax⟩ := h
    simp only [WalRecord.body, SyncPacket.length_bytes]
    omega
  | ack s =>
    simp only [WalRecord.body, length_u64ToLe]
    unfold u32Max
    omega

theorem parseRecord_body {limit : Nat} {r : WalRecord} (h : r.Fits limit) :
    parseRecord limit r.kind r.body = .ok r := by
  cases r with
  | packet p =>
    obtain ⟨hp, hmax⟩ := h
    simp [parseRecord, WalRecord.kind, WalRecord.body, decodePacket_bytes hp (by omega)]
  | ack s =>
    simp [parseRecord, WalRecord.kind, WalRecord.body, walAck, walPacket]

theorem parseRecord_eq_ok {limit : Nat} {kind : UInt8} {body : List UInt8} {r : WalRecord}
    (h : parseRecord limit kind body = .ok r) (hlen : body.length ≤ u32Max) :
    r.Fits limit ∧ kind = r.kind ∧ body = r.body := by
  unfold parseRecord at h
  split at h
  · next hkind =>
    split at h
    · exact absurd h (by simp)
    · next p hdec =>
      cases Except.ok.inj h
      obtain ⟨hfits, -, rfl⟩ := bytes_of_decodePacket hdec
      rw [SyncPacket.length_bytes] at hlen
      exact ⟨⟨hfits, hlen⟩, hkind, rfl⟩
  · split at h
    · next hkind =>
      split at h
      · exact absurd h (by simp)
      · next h8 =>
        cases Except.ok.inj h
        exact ⟨trivial, hkind, (u64ToLe_u64OfLe (not_not.mp h8)).symm⟩
    · exact absurd h (by simp)

@[simp] theorem WalRecord.length_bytes (r : WalRecord) :
    r.bytes.length = walHeader + r.body.length + walTrailer :=
  length_walRecordBytes r.kind r.body

/-- **A written record reads back, whatever follows it.** -/
theorem readRecord_bytes {limit : Nat} (hlimit : limit + 30 < 2 ^ 64) :
    Writes (readRecord limit) WalRecord.bytes (WalRecord.Fits limit) := by
  intro r rest hr
  obtain ⟨hpos, hmax, hle⟩ := r.body_bounds hr
  obtain ⟨hmagic, hkind, hbody, hsum, hrest⟩ := frame_walRecordBytes r.kind hmax rest
  have hlen := frameLen_walRecordBytes r.kind hmax rest
  have htotal : (r.bytes ++ rest).length = r.bytes.length + rest.length := List.length_append
  rw [r.length_bytes] at htotal
  change readRecord limit (walRecordBytes r.kind r.body ++ rest) = _
  change (walRecordBytes r.kind r.body ++ rest).length = _ at htotal
  rw [readRecord_eq hlimit, if_neg (by omega), if_neg (by simp [hmagic]), if_neg (by omega),
    if_neg (by omega), hkind, hbody, hsum, if_neg (by simp), parseRecord_body hr]
  simp only [hrest]

theorem length_extract {α : Type} {a b : Nat} {l : List α} (h : b ≤ l.length) :
    (l.extract a b).length = b - a := by
  rw [List.extract, List.length_take, List.length_drop]
  omega

/-- A file at least as long as its front frame is that frame's bytes and what follows. -/
theorem eq_walRecordBytes_append {file : List UInt8} (hmagic : file.take 4 = walMagic)
    (hlen : walHeader + frameLen file + walTrailer ≤ file.length)
    (hsum : walChecksum (frameKind file) (frameBody file) = frameChecksum file) :
    file = walRecordBytes (frameKind file) (frameBody file) ++
      file.drop (walHeader + frameLen file + walTrailer) := by
  have h17 : walHeader + frameLen file + walTrailer = 13 + frameLen file := by
    unfold walHeader walTrailer; omega
  rw [h17] at hlen ⊢
  have hbody : (frameBody file).length = frameLen file := by
    rw [frameBody, length_extract (by omega)]; omega
  have hcast : UInt32.ofNat (frameBody file).length = u32OfLe (file.extract 5 9) := by
    rw [hbody, frameLen, UInt32.ofNat_toNat]
  have hcrc : u32ToLe (frameChecksum file)
      = file.extract (9 + frameLen file) (13 + frameLen file) :=
    u32ToLe_u32OfLe (by rw [length_extract hlen]; omega)
  have hkind : file.drop 4 = frameKind file :: file.drop 5 := by
    have hlt : 4 < file.length := by omega
    rw [List.drop_eq_getElem_cons hlt, frameKind, List.getD_eq_getElem?_getD,
      List.getElem?_eq_getElem hlt, Option.getD_some]
  -- Front to back: magic, kind, length, body, checksum, rest.
  have hsplit : file = file.take 4 ++ (frameKind file :: (file.extract 5 9 ++
      (file.extract 9 (9 + frameLen file) ++
        (file.extract (9 + frameLen file) (13 + frameLen file) ++
          file.drop (13 + frameLen file))))) := by
    rw [extract_append_drop file (by omega), extract_append_drop file (by omega),
      extract_append_drop file (by omega), ← hkind, List.take_append_drop]
  rw [walRecordBytes, hcast, u32ToLe_u32OfLe (by rw [length_extract (by omega)]), hsum, hcrc,
    ← hmagic]
  simp only [List.append_assoc, List.cons_append]
  exact hsplit

/-- **Nothing but a written record reads as a record.** -/
theorem readRecord_canonical {limit : Nat} (hlimit : limit + 30 < 2 ^ 64) :
    Canonical (readRecord limit) WalRecord.bytes (WalRecord.Fits limit) := by
  intro file r rest h
  obtain ⟨hmagic, hlen, hsum, hparse, rfl⟩ := readRecord_eq_frame hlimit h
  have hu32 : frameLen file ≤ u32Max := by
    have := (u32OfLe (file.extract 5 9)).toNat_lt
    unfold frameLen u32Max
    omega
  have hbody : (frameBody file).length = frameLen file := by
    rw [frameBody, length_extract (by unfold walHeader walTrailer at hlen; omega)]; omega
  obtain ⟨hfits, hkind, hb⟩ := parseRecord_eq_ok hparse (by omega)
  refine ⟨hfits, ?_⟩
  have heq := eq_walRecordBytes_append hmagic hlen hsum
  rw [hkind, hb] at heq
  exact heq

/-- **A record cut short reads as nothing complete**, wherever the cut falls. -/
theorem incomplete_take_bytes {limit : Nat} {r : WalRecord} (h : r.Fits limit) {n : Nat}
    (hn : n < r.bytes.length) : Incomplete limit (r.bytes.take n) := by
  have hcut : (r.bytes.take n).length = n := by rw [List.length_take]; omega
  by_cases hhead : n < walHeader
  · exact Or.inl (by omega)
  · -- The header is whole, so it still declares the record's own length.
    obtain ⟨hpos, hmax, hle⟩ := r.body_bounds h
    unfold walHeader at hhead
    have hlen : frameLen (r.bytes.take n) = r.body.length := by
      have hext : (r.bytes.take n).extract 5 9 = r.bytes.extract 5 9 := by
        simp only [List.extract, List.drop_take, List.take_take]
        congr 1
        omega
      have := frameLen_walRecordBytes r.kind hmax []
      rw [List.append_nil] at this
      rw [frameLen, hext]
      exact this
    rw [r.length_bytes] at hn
    refine Or.inr ⟨?_, by omega, by omega, by omega⟩
    rw [List.take_take, Nat.min_eq_left (by omega)]
    rfl

/-! ## The calls -/

/-- A record is appended to the file by a call that has nothing else to do with the handle. -/
def SyncWal.push (wal : SyncWal) (r : WalRecord) : SyncWal :=
  { wal with file := wal.file ++ r.bytes }

/-- **The checks a packet passes on its way into a log.** The first refuses a payload the limit
    does not admit, the others a record its length field cannot measure; past all of them the
    record fits. -/
theorem SyncPacket.gate (limit : Nat) (p : SyncPacket) :
    (¬ (WalRecord.packet p).Fits limit ∧
      ((p.payload.isEmpty = true ∨ limit < p.payload.length) ∨
        (¬ (p.payload.isEmpty = true ∨ limit < p.payload.length) ∧
          (encodePacket p = .error .payloadTooLarge ∨
            (encodePacket p = .ok p.bytes ∧
              (p.bytes.isEmpty = true ∨ u32Max < p.bytes.length)))))) ∨
      ((WalRecord.packet p).Fits limit ∧ ¬ (p.payload.isEmpty = true ∨ limit < p.payload.length) ∧
        encodePacket p = .ok p.bytes ∧ ¬ (p.bytes.isEmpty = true ∨ u32Max < p.bytes.length)) := by
  by_cases hguard : p.payload.isEmpty = true ∨ limit < p.payload.length
  · refine Or.inl ⟨fun hfits => ?_, Or.inl hguard⟩
    obtain ⟨⟨hne, hle⟩, -⟩ := hfits
    rcases hguard with h | h
    · exact hne (List.isEmpty_iff.mp h)
    · exact absurd hle (Nat.not_le.mpr h)
  · obtain ⟨hnil, hlt⟩ := not_or.mp hguard
    have hne : p.payload ≠ [] := fun h => hnil (List.isEmpty_iff.mpr h)
    by_cases hmax : 30 + p.payload.length ≤ u32Max
    · have hbody : ¬ (p.bytes.isEmpty = true ∨ u32Max < p.bytes.length) := by
        rw [List.isEmpty_iff_length_eq_zero, p.length_bytes]
        omega
      exact Or.inr ⟨⟨⟨hne, by omega⟩, hmax⟩, hguard, encodePacket_of_fits ⟨hne, by omega⟩, hbody⟩
    · -- The payload is admissible and its record is too long for the `u32` length field.
      refine Or.inl ⟨fun hfits => hmax hfits.2, Or.inr ⟨hguard, ?_⟩⟩
      by_cases hu : p.payload.length ≤ u32Max
      · exact Or.inr ⟨encodePacket_of_fits ⟨hne, hu⟩, Or.inr (by rw [p.length_bytes]; omega)⟩
      · exact Or.inl (by rw [encodePacket, if_neg hnil, if_pos (by omega)])

/-- **What a call on the log does.** It is refused with the file as it was, or the write fails
    partway, or the whole record is at the end of the file. -/
theorem SyncWal.perform_cases (wal : SyncWal) (disk : DiskWrite) (r : WalRecord) :
    (¬ r.Fits wal.maxPayloadBytes ∧ wal.perform disk r = (.error .recordTooLarge, wal)) ∨
      (r.Fits wal.maxPayloadBytes ∧ ∃ written, disk = .failed written ∧
        wal.perform disk r =
          (.error .io, { wal with file := wal.file ++ r.bytes.take written })) ∨
      (r.Fits wal.maxPayloadBytes ∧ disk = .complete ∧
        wal.perform disk r = (.ok (), wal.push r)) := by
  -- Both calls end in `append_record`: what it can measure it writes, as far as the disk lets it.
  have happend : ∀ kind body, body ≠ [] → body.length ≤ u32Max →
      (∃ written, disk = .failed written ∧ wal.appendRecord disk kind body =
        (.error .io, { wal with file := wal.file ++ (walRecordBytes kind body).take written })) ∨
      (disk = .complete ∧ wal.appendRecord disk kind body =
        (.ok (), { wal with file := wal.file ++ walRecordBytes kind body })) := by
    intro kind body hne hle
    have hguard : ¬ (body.isEmpty = true ∨ u32Max < body.length) := by
      simp only [List.isEmpty_iff]
      rintro (h | h)
      · exact hne h
      · omega
    cases disk with
    | complete => exact Or.inr ⟨rfl, by rw [appendRecord, if_neg hguard]⟩
    | failed written => exact Or.inl ⟨written, rfl, by rw [appendRecord, if_neg hguard]⟩
  cases r with
  | ack s =>
    refine Or.inr ?_
    have hne : u64ToLe s ≠ [] := fun h => by simpa using congrArg List.length h
    have hle : (u64ToLe s).length ≤ u32Max := by simp [u32Max]
    rcases happend walAck (u64ToLe s) hne hle with ⟨n, rfl, hs⟩ | ⟨rfl, hs⟩
    · exact Or.inl ⟨trivial, n, rfl, hs⟩
    · exact Or.inr ⟨trivial, rfl, hs⟩
  | packet p =>
    change (_ ∧ wal.append disk p = _) ∨ (_ ∧ ∃ n, _ ∧ wal.append disk p = _) ∨
      (_ ∧ _ ∧ wal.append disk p = _)
    rcases p.gate wal.maxPayloadBytes with
      ⟨hnot, hguard | ⟨hguard, hlarge | ⟨hbody, hlong⟩⟩⟩ | ⟨hfits, hguard, hbody, hmax⟩
    · exact Or.inl ⟨hnot, by rw [append, if_pos hguard]⟩
    · exact Or.inl ⟨hnot, by rw [append, if_neg hguard, hlarge]⟩
    · refine Or.inl ⟨hnot, ?_⟩
      rw [append, if_neg hguard, hbody]
      simp only [appendRecord]
      rw [if_pos hlong]
    · obtain ⟨hempty, hlt⟩ := not_or.mp hmax
      have hne : p.bytes ≠ [] := fun h => hempty (List.isEmpty_iff.mpr h)
      rw [append, if_neg hguard, hbody]
      rcases happend walPacket p.bytes hne (Nat.not_lt.mp hlt) with ⟨n, rfl, hs⟩ | ⟨rfl, hs⟩
      · exact Or.inr (Or.inl ⟨hfits, n, rfl, hs⟩)
      · exact Or.inr (Or.inr ⟨hfits, rfl, hs⟩)

theorem SyncWal.perform_eq_ok_iff {wal wal' : SyncWal} {disk : DiskWrite} {r : WalRecord} :
    wal.perform disk r = (.ok (), wal') ↔
      r.Fits wal.maxPayloadBytes ∧ disk = .complete ∧ wal' = wal.push r := by
  rcases wal.perform_cases disk r with ⟨hf, h⟩ | ⟨hf, n, rfl, h⟩ | ⟨hf, rfl, h⟩ <;>
    simp [h, hf, eq_comm]

/-- Calls that all return `Ok` leave a log of whole records behind. -/
theorem SyncWal.performAll_eq_ok {wal wal' : SyncWal} {calls : List (DiskWrite × WalRecord)}
    (h : wal.performAll calls = .ok wal') :
    (∀ r ∈ calls.map Prod.snd, r.Fits wal.maxPayloadBytes) ∧
      wal' = { wal with
        file := wal.file ++ encodeAll WalRecord.bytes (calls.map Prod.snd) } := by
  induction calls generalizing wal with
  | nil =>
    cases Except.ok.inj h
    simp
  | cons call calls ih =>
    obtain ⟨disk, r⟩ := call
    unfold performAll at h
    split at h
    · exact absurd h (by simp)
    · next wal₁ hr =>
      obtain ⟨hfits, -, rfl⟩ := perform_eq_ok_iff.mp hr
      obtain ⟨hall, rfl⟩ := ih h
      refine ⟨?_, by simp [push, encodeAll, List.append_assoc]⟩
      intro r' hr'
      rcases List.mem_cons.mp hr' with rfl | hr'
      · exact hfits
      · exact hall r' hr'

end Sync
end EngineKit
