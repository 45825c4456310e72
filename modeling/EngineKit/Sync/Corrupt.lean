import EngineKit.Lib.Checksum
import EngineKit.Sync.Live

/-!
# One changed byte

What `replay` makes of a log it would have accepted, after one byte of one whole record of it
was overwritten. Which byte decides.

The checksum covers the kind and the body, and the magic is compared outright: a change there,
or in the checksum itself, is found when the scan comes to the record, and it comes to it,
because the length says where the record ends as before (`replay_overwrite`).

The length is covered by nothing. A changed length that is not refused outright frames other
bytes as the body. Their checksum may even match, but a packet carries its own length and an ACK
is eight bytes, so what is framed is never a record (`readRecord_relength`). What is left is a
length that runs past the end of the file: that reads as a torn record, and the scan ends there
without an error, the record and everything behind it dropped (`replay_relength_iff`).
-/

set_option autoImplicit false

namespace EngineKit
namespace Sync

open Lib

/-! ## Frames as they lie in the file -/

/-- Whatever the fields say. -/
def rawFrame (magic : List UInt8) (kind : UInt8) (len body checksum : List UInt8) : List UInt8 :=
  magic ++ (kind :: (len ++ (body ++ checksum)))

/-- The four bytes of the length field. -/
def WalRecord.lenBytes (r : WalRecord) : List UInt8 := u32ToLe (UInt32.ofNat r.body.length)

def WalRecord.checksumBytes (r : WalRecord) : List UInt8 := u32ToLe (walChecksum r.kind r.body)

theorem WalRecord.bytes_eq_rawFrame (r : WalRecord) :
    r.bytes = rawFrame walMagic r.kind r.lenBytes r.body r.checksumBytes := rfl

@[simp] theorem WalRecord.length_lenBytes (r : WalRecord) : r.lenBytes.length = 4 :=
  length_u32ToLe _

@[simp] theorem WalRecord.length_checksumBytes (r : WalRecord) : r.checksumBytes.length = 4 :=
  length_u32ToLe _

/-- The length field says how long the body is. -/
theorem WalRecord.toNat_lenBytes {limit : Nat} (r : WalRecord) (hr : r.Fits limit) :
    (u32OfLe r.lenBytes).toNat = r.body.length := by
  obtain ⟨-, hmax, -⟩ := r.body_bounds hr
  rw [lenBytes, u32OfLe_u32ToLe]
  exact u32_toNat_ofNat hmax

theorem length_rawFrame (magic : List UInt8) (kind : UInt8) (len body checksum : List UInt8) :
    (rawFrame magic kind len body checksum).length
      = magic.length + 1 + len.length + body.length + checksum.length := by
  simp only [rawFrame, List.length_append, List.length_cons]
  omega

theorem length_walMagic : walMagic.length = 4 := rfl

/-- What the reader finds in the fields of a raw frame with a magic and a length of four bytes
    each. -/
theorem fields_rawFrame {magic len : List UInt8} (hmagic : magic.length = 4)
    (hlen : len.length = 4) (kind : UInt8) (body checksum rest : List UInt8) :
    (rawFrame magic kind len body checksum ++ rest).take 4 = magic ∧
      frameKind (rawFrame magic kind len body checksum ++ rest) = kind ∧
      frameLen (rawFrame magic kind len body checksum ++ rest) = (u32OfLe len).toNat ∧
      (rawFrame magic kind len body checksum ++ rest).drop 9 = body ++ checksum ++ rest := by
  have hfile : rawFrame magic kind len body checksum ++ rest
      = magic ++ ([kind] ++ (len ++ (body ++ checksum ++ rest))) := by
    simp [rawFrame, List.append_assoc]
  have hkind : magic ++ ([kind] ++ (len ++ (body ++ checksum ++ rest)))
      = (magic ++ [kind]) ++ (len ++ (body ++ checksum ++ rest)) :=
    (List.append_assoc ..).symm
  have hfive : (magic ++ [kind]).length = 5 := by
    rw [List.length_append, hmagic, List.length_singleton]
  rw [hfile]
  refine ⟨?_, ?_, ?_, ?_⟩
  · exact List.take_left' hmagic
  · rw [frameKind, List.getD_eq_getElem?_getD, List.getElem?_append_right (by omega), hmagic]
    rfl
  · rw [frameLen, hkind, List.extract, List.drop_left' hfive, List.take_left' hlen]
  · rw [hkind, ← List.append_assoc]
    exact List.drop_left' (by rw [List.length_append, hfive, hlen])

/-- A raw frame whose length is its body's, four bytes of checksum behind it. -/
theorem frameBody_rawFrame {magic len : List UInt8} (hmagic : magic.length = 4)
    (hlen : len.length = 4) (kind : UInt8) {body checksum : List UInt8}
    (hbody : (u32OfLe len).toNat = body.length) (hsum : checksum.length = 4) (rest : List UInt8) :
    frameBody (rawFrame magic kind len body checksum ++ rest) = body ∧
      frameChecksum (rawFrame magic kind len body checksum ++ rest) = u32OfLe checksum := by
  obtain ⟨-, -, hdeclared, hdrop⟩ := fields_rawFrame hmagic hlen kind body checksum rest
  rw [hbody] at hdeclared
  have hb : (body ++ checksum ++ rest).take body.length = body := by
    rw [List.append_assoc]
    exact List.take_left' rfl
  have hc : ((body ++ checksum ++ rest).drop body.length).take 4 = checksum := by
    rw [List.append_assoc, List.drop_left' rfl]
    exact List.take_left' hsum
  constructor
  · rw [frameBody, hdeclared, List.extract, hdrop, Nat.add_sub_cancel_left, hb]
  · have h4 : 13 + body.length - (9 + body.length) = 4 := by omega
    rw [frameChecksum, hdeclared, List.extract, h4, ← List.drop_drop, hdrop, hc]

/-! ## The checksum -/

/-- FNV's prime has an inverse. -/
theorem lossless_fnv :
    Lossless fun (hash : UInt32) (byte : UInt8) => (hash ^^^ byte.toUInt32) * 16777619 :=
  lossless_mul (q := 899433627) (by decide)

theorem walChecksum_set {body : List UInt8} {i : Nat} {byte : UInt8} (h : body.set i byte ≠ body)
    (kind : UInt8) : walChecksum kind (body.set i byte) ≠ walChecksum kind body :=
  lossless_fnv.foldl_set h _

theorem walChecksum_kind {kind kind' : UInt8} (h : kind' ≠ kind) (body : List UInt8) :
    walChecksum kind' body ≠ walChecksum kind body := by
  intro heq
  have hseed := lossless_fnv.foldl_injective body heq
  exact h (UInt8.toUInt32_inj.mp ((UInt32.xor_right_inj _).mp hseed))

theorem u32OfLe_ne {bs bs' : List UInt8} (h : bs.length = 4) (h' : bs'.length = 4)
    (hne : bs ≠ bs') : u32OfLe bs ≠ u32OfLe bs' := by
  intro heq
  rw [← u32ToLe_u32OfLe h, heq, u32ToLe_u32OfLe h'] at hne
  exact hne rfl

/-! ## A byte of a frame -/

section Overwritten

variable {magic len body checksum : List UInt8} {kind byte : UInt8}

theorem set_magic {i : Nat} (hi : i < magic.length) :
    (rawFrame magic kind len body checksum).set i byte
      = rawFrame (magic.set i byte) kind len body checksum := by
  rw [rawFrame, List.set_append, if_pos hi]
  rfl

theorem set_kind (hmagic : magic.length = 4) :
    (rawFrame magic kind len body checksum).set 4 byte
      = rawFrame magic byte len body checksum := by
  rw [rawFrame, List.set_append, if_neg (by omega), hmagic]
  rfl

theorem set_len (hmagic : magic.length = 4) {j : Nat} (hj : j < len.length) :
    (rawFrame magic kind len body checksum).set (j + 5) byte
      = rawFrame magic kind (len.set j byte) body checksum := by
  have hone : j + 5 - 4 = j + 1 := by omega
  rw [rawFrame, List.set_append, if_neg (by omega), hmagic, hone, List.set_cons_succ,
    List.set_append, if_pos hj]
  rfl

theorem set_body (hmagic : magic.length = 4) (hlen : len.length = 4) {j : Nat}
    (hj : j < body.length) :
    (rawFrame magic kind len body checksum).set (j + 9) byte
      = rawFrame magic kind len (body.set j byte) checksum := by
  have hone : j + 9 - 4 = j + 4 + 1 := by omega
  rw [rawFrame, List.set_append, if_neg (by omega), hmagic, hone, List.set_cons_succ,
    List.set_append, if_neg (by omega), hlen, Nat.add_sub_cancel, List.set_append, if_pos hj]
  rfl

theorem set_checksum (hmagic : magic.length = 4) (hlen : len.length = 4) (j : Nat) :
    (rawFrame magic kind len body checksum).set (j + body.length + 9) byte
      = rawFrame magic kind len body (checksum.set j byte) := by
  have hone : j + body.length + 9 - 4 = j + body.length + 4 + 1 := by omega
  rw [rawFrame, List.set_append, if_neg (by omega), hmagic, hone, List.set_cons_succ,
    List.set_append, if_neg (by omega), hlen, Nat.add_sub_cancel, List.set_append,
    if_neg (by omega), Nat.add_sub_cancel]
  rfl

end Overwritten

/-! ## A byte the reader checks -/

section Checked

variable {limit : Nat} (hlimit : limit + 30 < 2 ^ 64)

include hlimit

theorem readRecord_of_magic {file : List UInt8} (hlong : walHeader ≤ file.length)
    (hmagic : file.take 4 ≠ walMagic) : readRecord limit file = .corrupt .invalidRecord := by
  rw [readRecord_eq hlimit, if_neg (by omega), if_pos hmagic]

/-- A frame in order but for its checksum. -/
theorem readRecord_of_checksum {kind : UInt8} {len body checksum : List UInt8}
    (hlen : len.length = 4) (hbody : (u32OfLe len).toNat = body.length) (hpos : 0 < body.length)
    (hle : body.length ≤ limit + 30) (hsum : checksum.length = 4)
    (hne : walChecksum kind body ≠ u32OfLe checksum) (rest : List UInt8) :
    readRecord limit (rawFrame walMagic kind len body checksum ++ rest)
      = .corrupt .invalidRecord := by
  obtain ⟨hmagic, hkind, hdeclared, -⟩ :=
    fields_rawFrame length_walMagic hlen kind body checksum rest
  obtain ⟨hfound, hcrc⟩ := frameBody_rawFrame length_walMagic hlen kind hbody hsum rest
  have htotal : (rawFrame walMagic kind len body checksum ++ rest).length
      = 4 + 1 + 4 + body.length + 4 + rest.length := by
    rw [List.length_append, length_rawFrame, hlen, hsum]
    rfl
  rw [hbody] at hdeclared
  rw [readRecord_eq hlimit, htotal, hmagic, hkind, hdeclared, hfound, hcrc]
  unfold walHeader walTrailer
  rw [if_neg (by omega), if_neg (fun h => h rfl), if_neg (by omega), if_neg (by omega),
    if_pos hne]

/-- Other contents with the checksum of the record's own. -/
theorem readRecord_of_contents {r : WalRecord} (hr : r.Fits limit) {kind : UInt8}
    {body : List UInt8} (hsame : body.length = r.body.length)
    (hne : walChecksum kind body ≠ walChecksum r.kind r.body) (rest : List UInt8) :
    readRecord limit (rawFrame walMagic kind r.lenBytes body r.checksumBytes ++ rest)
      = .corrupt .invalidRecord := by
  obtain ⟨hpos, -, hle⟩ := r.body_bounds hr
  rw [← hsame] at hpos hle
  refine readRecord_of_checksum hlimit r.length_lenBytes ((r.toNat_lenBytes hr).trans hsame.symm)
    hpos hle r.length_checksumBytes ?_ rest
  rw [WalRecord.checksumBytes, u32OfLe_u32ToLe]
  exact hne

/-- Another checksum behind the record's own contents. -/
theorem readRecord_of_trailer {r : WalRecord} (hr : r.Fits limit) {checksum : List UInt8}
    (hfour : checksum.length = 4) (hne : checksum ≠ r.checksumBytes) (rest : List UInt8) :
    readRecord limit (rawFrame walMagic r.kind r.lenBytes r.body checksum ++ rest)
      = .corrupt .invalidRecord := by
  obtain ⟨hpos, -, hle⟩ := r.body_bounds hr
  refine readRecord_of_checksum hlimit r.length_lenBytes (r.toNat_lenBytes hr) hpos hle hfour
    ?_ rest
  have hsum := u32OfLe_ne hfour r.length_checksumBytes hne
  rw [WalRecord.checksumBytes, u32OfLe_u32ToLe] at hsum
  exact hsum.symm

/-- **A changed byte outside the length is found**, whatever follows the record. -/
theorem readRecord_set {r : WalRecord} (hr : r.Fits limit) {i : Nat} {byte : UInt8}
    (hchange : r.bytes.set i byte ≠ r.bytes) (hi : i < 5 ∨ 9 ≤ i) (rest : List UInt8) :
    readRecord limit (r.bytes.set i byte ++ rest) = .corrupt .invalidRecord := by
  rw [r.bytes_eq_rawFrame] at hchange ⊢
  by_cases hmagic : i < 4
  · rw [set_magic (show i < walMagic.length from hmagic)] at hchange ⊢
    have hfour : (walMagic.set i byte).length = 4 := List.length_set
    have htake := (fields_rawFrame hfour r.length_lenBytes r.kind r.body r.checksumBytes rest).1
    refine readRecord_of_magic hlimit ?_ ?_
    · rw [List.length_append, length_rawFrame, hfour, r.length_lenBytes]
      unfold walHeader
      omega
    · rw [htake]
      intro heq
      exact hchange (by rw [heq])
  by_cases hkind : i = 4
  · subst hkind
    rw [set_kind length_walMagic] at hchange ⊢
    refine readRecord_of_contents hlimit hr rfl (walChecksum_kind ?_ r.body) rest
    intro heq
    exact hchange (by rw [heq])
  obtain ⟨j, rfl⟩ := Nat.exists_eq_add_of_le' (show 9 ≤ i by omega)
  by_cases hbody : j < r.body.length
  · rw [set_body length_walMagic r.length_lenBytes hbody] at hchange ⊢
    refine readRecord_of_contents hlimit hr List.length_set (walChecksum_set ?_ r.kind) rest
    intro heq
    exact hchange (by rw [heq])
  · obtain ⟨k, rfl⟩ := Nat.exists_eq_add_of_le' (Nat.le_of_not_lt hbody)
    rw [set_checksum length_walMagic r.length_lenBytes] at hchange ⊢
    have hfour : (r.checksumBytes.set k byte).length = 4 := by
      rw [List.length_set, r.length_checksumBytes]
    refine readRecord_of_trailer hlimit hr hfour ?_ rest
    intro heq
    exact hchange (by rw [heq])

/-! ## A byte it does not check -/

omit hlimit in
/-- `len` is an admissible length and runs past a body of the record's own size with `behind`
    more bytes and a checksum. -/
def RunsOut (limit : Nat) (r : WalRecord) (len behind : Nat) : Prop :=
  0 < len ∧ len ≤ limit + 30 ∧ r.body.length + behind < len

omit hlimit in
/-- Two packets at the head of one file have payloads of one length: the packet says how long. -/
theorem SyncPacket.payload_length_eq {p p' : SyncPacket} (hmax : p.bytes.length ≤ u32Max)
    (hmax' : p'.bytes.length ≤ u32Max) {behind behind' : List UInt8}
    (h : p.bytes ++ behind = p'.bytes ++ behind') : p.payload.length = p'.payload.length := by
  have hhead {q : SyncPacket} {t : List UInt8} :
      (q.bytes ++ t).extract 26 30 = u32ToLe (UInt32.ofNat q.payload.length) := by
    have hlong : 30 ≤ q.bytes.length := by
      rw [q.length_bytes]
      omega
    rw [← q.extract_bytes.2.2.2.1, List.extract, List.extract,
      List.drop_append_of_le_length (by omega),
      List.take_append_of_le_length (by rw [List.length_drop]; omega)]
  have hsize := congrArg (fun bs => (u32OfLe (List.extract bs 26 30)).toNat) h
  simp only [hhead, u32OfLe_u32ToLe] at hsize
  rw [SyncPacket.length_bytes, u32Max] at hmax hmax'
  rwa [u32_toNat_ofNat (by omega), u32_toNat_ofNat (by omega)] at hsize

/-- Another length never frames a record: a packet says how long it is, an ACK is eight bytes. -/
theorem not_frame_of_len {r : WalRecord} (hr : r.Fits limit) {len : List UInt8}
    (hlen : len.length = 4) (hne : (u32OfLe len).toNat ≠ r.body.length) (checksum rest : List UInt8)
    (r' : WalRecord) (rest' : List UInt8) :
    readRecord limit (rawFrame walMagic r.kind len r.body checksum ++ rest) ≠ .frame r' rest' := by
  intro hframe
  obtain ⟨hr', hfile⟩ := readRecord_canonical hlimit _ _ _ hframe
  obtain ⟨-, hmax, -⟩ := r.body_bounds hr
  obtain ⟨-, hmax', -⟩ := r'.body_bounds hr'
  -- the fields of the one file, read as the changed frame and as the record found
  obtain ⟨-, hkind, hdeclared, hdrop⟩ :=
    fields_rawFrame length_walMagic hlen r.kind r.body checksum rest
  obtain ⟨-, hkind', hdeclared', hdrop'⟩ := fields_rawFrame length_walMagic
    r'.length_lenBytes r'.kind r'.body r'.checksumBytes rest'
  rw [hfile, r'.bytes_eq_rawFrame] at hkind hdeclared hdrop
  rw [hkind'] at hkind
  rw [hdeclared', r'.toNat_lenBytes hr'] at hdeclared
  rw [hdrop'] at hdrop
  rw [← hdeclared] at hne
  cases r with
  | ack s =>
    cases r' with
    | ack s' => exact hne ((length_u64ToLe s').trans (length_u64ToLe s).symm)
    | packet p' => exact absurd hkind (show walPacket ≠ walAck by decide)
  | packet p =>
    cases r' with
    | ack s' => exact absurd hkind (show walAck ≠ walPacket by decide)
    | packet p' =>
      simp only [WalRecord.body, List.append_assoc] at hdrop hmax hmax' hne
      have hpayload := SyncPacket.payload_length_eq hmax' hmax hdrop
      rw [SyncPacket.length_bytes, SyncPacket.length_bytes, hpayload] at hne
      exact hne rfl

/-- **A changed length** makes the record torn or the log invalid. -/
theorem readRecord_relength {r : WalRecord} (hr : r.Fits limit) {len : List UInt8}
    (hlen : len.length = 4) (hne : (u32OfLe len).toNat ≠ r.body.length) (rest : List UInt8) :
    (RunsOut limit r (u32OfLe len).toNat rest.length ∧
        readRecord limit (rawFrame walMagic r.kind len r.body r.checksumBytes ++ rest) = .stop) ∨
      (¬ RunsOut limit r (u32OfLe len).toNat rest.length ∧ ∃ error,
        readRecord limit (rawFrame walMagic r.kind len r.body r.checksumBytes ++ rest)
          = .corrupt error) := by
  obtain ⟨hmagic, -, hdeclared, -⟩ :=
    fields_rawFrame length_walMagic hlen r.kind r.body r.checksumBytes rest
  have htotal : (rawFrame walMagic r.kind len r.body r.checksumBytes ++ rest).length
      = walHeader + r.body.length + walTrailer + rest.length := by
    rw [List.length_append, length_rawFrame, hlen, r.length_checksumBytes]
    rfl
  have hstop : readRecord limit (rawFrame walMagic r.kind len r.body r.checksumBytes ++ rest)
      = .stop ↔ RunsOut limit r (u32OfLe len).toNat rest.length := by
    rw [readRecord_eq_stop_iff hlimit, Incomplete, hmagic, hdeclared, htotal, RunsOut]
    constructor
    · rintro (hshort | ⟨-, hpos, hle, hout⟩)
      · omega
      · exact ⟨hpos, hle, by omega⟩
    · intro hall
      obtain ⟨hpos, hle, hout⟩ := hall
      exact .inr ⟨rfl, hpos, hle, by omega⟩
  by_cases hout : RunsOut limit r (u32OfLe len).toNat rest.length
  · exact .inl ⟨hout, hstop.mpr hout⟩
  · refine .inr ⟨hout, ?_⟩
    cases hread : readRecord limit (rawFrame walMagic r.kind len r.body r.checksumBytes ++ rest)
      with
    | stop => exact absurd (hstop.mp hread) hout
    | corrupt error => exact ⟨error, rfl⟩
    | frame r' rest' => exact absurd hread (not_frame_of_len hlimit hr hlen hne _ _ _ _)

end Checked

/-! ## Logs -/

namespace SyncWal

/-- The file is these records, whole, and behind them at most a torn one. -/
structure HasRecords (wal : SyncWal) (rs : List WalRecord) (tail : List UInt8) : Prop where
  fits : ∀ r ∈ rs, r.Fits wal.maxPayloadBytes
  file : wal.file = encodeAll WalRecord.bytes rs ++ tail
  torn : Incomplete wal.maxPayloadBytes tail

/-- What calls that returned `Ok` wrote. -/
theorem hasRecords_of_performAll {wal wal' : SyncWal} (hempty : wal.file = [])
    {calls : List (DiskWrite × WalRecord)} (hcalls : wal.performAll calls = .ok wal') :
    wal'.HasRecords (calls.map Prod.snd) [] := by
  obtain ⟨hfits, rfl⟩ := performAll_eq_ok hcalls
  refine ⟨hfits, ?_, incomplete_nil _⟩
  simp only [hempty, List.nil_append, List.append_nil]

/-- The log with byte `i` of the record behind the records `before` overwritten. -/
def overwrite (wal : SyncWal) (before : List WalRecord) (i : Nat) (byte : UInt8) : SyncWal :=
  { wal with file := wal.file.set ((encodeAll WalRecord.bytes before).length + i) byte }

section Overwrite

variable {wal : SyncWal} {before after : List WalRecord} {r : WalRecord} {tail : List UInt8}
  {pending : List SyncPacket}

/-- The scan comes to the overwritten record with the packets the records before it leave. -/
theorem HasRecords.scan_overwrite (h : wal.HasRecords (before ++ r :: after) tail)
    (hok : wal.replay = .ok pending) {i : Nat} (hi : i < r.bytes.length) (byte : UInt8) :
    wal.maxPayloadBytes + 30 < 2 ^ 64 ∧ pending = live (before ++ r :: after) ∧
      (wal.overwrite before i byte).replay
        = scan (readRecord wal.maxPayloadBytes) (applyRecord wal.maxRecords) (live before)
            (r.bytes.set i byte ++ (encodeAll WalRecord.bytes after ++ tail)) := by
  have hfile : wal.file = encodeAll WalRecord.bytes before ++
      (r.bytes ++ (encodeAll WalRecord.bytes after ++ tail)) := by
    rw [h.file, encodeAll, List.flatMap_append, List.flatMap_cons, List.append_assoc,
      List.append_assoc]
  have hlong : walHeader ≤ wal.file.length := by
    have hbytes := r.length_bytes
    rw [hfile, List.length_append, List.length_append]
    omega
  have hlimit : wal.maxPayloadBytes + 30 < 2 ^ 64 := by
    by_contra hover
    obtain ⟨error, hbad⟩ := readRecord_of_overflow hover hlong
    rw [replay, scan_corrupt hbad] at hok
    exact absurd hok (by simp)
  obtain ⟨hpending, hwithin⟩ : pending = live (before ++ r :: after) ∧
      WithinRecords wal.maxRecords [] (before ++ r :: after) := by
    rcases wal.replay_eq_live hlimit h.fits h.torn h.file with ⟨hlive, hwithin⟩ | ⟨herror, -⟩
    · rw [hlive] at hok
      exact ⟨(Except.ok.inj hok).symm, hwithin⟩
    · rw [herror] at hok
      exact absurd hok (by simp)
  refine ⟨hlimit, hpending, ?_⟩
  have hset : (wal.overwrite before i byte).file = encodeAll WalRecord.bytes before ++
      (r.bytes.set i byte ++ (encodeAll WalRecord.bytes after ++ tail)) := by
    show wal.file.set _ byte = _
    rw [hfile, List.set_append, if_neg (by omega), Nat.add_sub_cancel_left, List.set_append,
      if_pos hi]
  have hbefore : applyAll (applyRecord wal.maxRecords) [] before = .ok (live before) := by
    have hnil : (sequences []).Nodup := List.nodup_nil
    rcases applyAll_eq before hnil (Nat.zero_le wal.maxRecords) with ⟨hlive, -⟩ | ⟨-, hout⟩
    · exact hlive
    · exact absurd (withinRecords_append.mp hwithin).1 hout
  rw [replay, hset]
  show scan (readRecord wal.maxPayloadBytes) (applyRecord wal.maxRecords) [] _ = _
  rw [scan_append (readRecord_consumes hlimit) (readRecord_bytes hlimit) _ _
    fun x hx => h.fits x (List.mem_append_left _ hx), hbefore]

/-- **A changed byte outside the length field** of any whole record of a log that replays:
    the log is refused. -/
theorem replay_overwrite (h : wal.HasRecords (before ++ r :: after) tail)
    (hok : wal.replay = .ok pending) {i : Nat} {byte : UInt8}
    (hchange : r.bytes.set i byte ≠ r.bytes) (hi : i < 5 ∨ 9 ≤ i) :
    (wal.overwrite before i byte).replay = .error .invalidRecord := by
  have hlt : i < r.bytes.length := by
    by_contra hout
    exact hchange (List.set_eq_of_length_le (Nat.le_of_not_lt hout))
  obtain ⟨hlimit, -, hscan⟩ := h.scan_overwrite hok hlt byte
  have hr : r.Fits wal.maxPayloadBytes :=
    h.fits r (List.mem_append_right _ List.mem_cons_self)
  rw [hscan]
  exact scan_corrupt (readRecord_set hlimit hr hchange hi _)

/-- **A changed byte of the length field**: the log replays to something else exactly when the
    length now runs past the end of the file and the records from there on made a difference. -/
theorem replay_relength_iff (h : wal.HasRecords (before ++ r :: after) tail)
    (hok : wal.replay = .ok pending) {j : Nat} (hj : j < 4) {byte : UInt8}
    (hchange : r.lenBytes.set j byte ≠ r.lenBytes) :
    (∀ found, (wal.overwrite before (j + 5) byte).replay = .ok found → found = pending) ↔
      ¬ RunsOut wal.maxPayloadBytes r (u32OfLe (r.lenBytes.set j byte)).toNat
          ((encodeAll WalRecord.bytes after).length + tail.length) ∨
        live (before ++ r :: after) = live before := by
  have hr : r.Fits wal.maxPayloadBytes :=
    h.fits r (List.mem_append_right _ List.mem_cons_self)
  have hlt : j + 5 < r.bytes.length := by
    rw [r.length_bytes]
    unfold walHeader walTrailer
    omega
  obtain ⟨hlimit, rfl, hscan⟩ := h.scan_overwrite hok hlt byte
  have hfour : (r.lenBytes.set j byte).length = 4 := by
    rw [List.length_set, r.length_lenBytes]
  have hne : (u32OfLe (r.lenBytes.set j byte)).toNat ≠ r.body.length := by
    intro heq
    refine u32OfLe_ne hfour r.length_lenBytes hchange ?_
    have hold : u32OfLe r.lenBytes = UInt32.ofNat r.body.length := u32OfLe_u32ToLe _
    rw [hold, ← heq, UInt32.ofNat_toNat]
  have hset : r.bytes.set (j + 5) byte
      = rawFrame walMagic r.kind (r.lenBytes.set j byte) r.body r.checksumBytes := by
    rw [r.bytes_eq_rawFrame, set_len length_walMagic (by rw [r.length_lenBytes]; exact hj)]
  rw [hscan, hset, ← List.length_append]
  rcases readRecord_relength hlimit hr hfour hne (encodeAll WalRecord.bytes after ++ tail) with
    ⟨hout, hstop⟩ | ⟨hin, error, hbad⟩
  · rw [scan_stop hstop]
    constructor
    · intro hsame
      exact .inr (hsame _ rfl).symm
    · intro hsame found hfound
      rw [← Except.ok.inj hfound]
      exact (hsame.resolve_left (not_not_intro hout)).symm
  · rw [scan_corrupt hbad]
    exact iff_of_true (fun found hfound => absurd hfound (by simp)) (.inl hin)

end Overwrite

/-- One event, appended. -/
def oneEvent : SyncWal where
  maxPayloadBytes := 1024
  maxRecords := 8
  maxRecords_pos := by decide
  file := (WalRecord.packet ⟨1, 0, .event, 7, [9]⟩).bytes

theorem hasRecords_oneEvent :
    oneEvent.HasRecords ([] ++ .packet ⟨1, 0, .event, 7, [9]⟩ :: []) [] :=
  ⟨by decide, by simp [oneEvent, encodeAll], incomplete_nil _⟩

/-- The payload byte of it overwritten. -/
theorem replay_overwrite_payload :
    (oneEvent.overwrite [] 39 8).replay = .error .invalidRecord :=
  replay_overwrite hasRecords_oneEvent rfl (by decide) (by decide)

/-- A length of 0 is refused. -/
theorem replay_zero_length :
    (oneEvent.overwrite [] 5 0).replay = .error .recordTooLarge ∧
      (∀ found, (oneEvent.overwrite [] 5 0).replay = .ok found →
        found = [⟨1, 0, .event, 7, [9]⟩]) := by
  refine ⟨rfl, (replay_relength_iff hasRecords_oneEvent rfl (show 0 < 4 by decide)
    (by decide)).mpr (.inl ?_)⟩
  intro hout
  exact absurd hout.1 (by decide)

/-- A length of 32 for a body of 31 bytes: the event is gone. -/
theorem replay_dropped_event :
    performAll { oneEvent with file := [] } [(.complete, .packet ⟨1, 0, .event, 7, [9]⟩)]
        = .ok oneEvent ∧
      oneEvent.replay = .ok [⟨1, 0, .event, 7, [9]⟩] ∧
      (WalRecord.packet ⟨1, 0, .event, 7, [9]⟩).lenBytes = [31, 0, 0, 0] ∧
      (oneEvent.overwrite [] 5 32).replay = .ok [] :=
  ⟨rfl, rfl, rfl, rfl⟩

end SyncWal

end Sync
end EngineKit
