import EngineKit.Lib.FileSystem
import EngineKit.Sync.Compact
import Mathlib.Data.List.TakeWhile

/-!
# Compaction, with the files it goes through

`compact` writes its records into another file and renames that over the log, so that, in the
words of its comment, a failed write does not corrupt the original log. `Sync/Compact.lean` takes
that other file for granted. Here it has a name, `path.with_extension("compact")`, in a file
system where names lead to files; what the system answers is an argument (`CompactIo`).

Where the name leads to another file the two models agree (`WalHandle.compact_refines`). Where it
leads to the log itself, as it does for a log whose extension is `compact` already, opening it
empties the log before the first record is looked at. There is one more way to lose a log: on
Windows a refused rename is answered by removing the log and renaming again. Nothing else does
(`failed_compact_iff`).

Paths are parent and file name, as given; a path without a file name cannot be opened as a file.
-/

set_option autoImplicit false

namespace EngineKit
namespace Sync

open Lib

/-! ## Paths -/

structure DiskPath where
  /-- The path up to its file name, separators included. -/
  parent : List UInt8
  name : List UInt8
  deriving DecidableEq, Repr

/-- `b'.'` -/
def dot : UInt8 := 46

/-- `"compact"` -/
def compactExtension : List UInt8 := [99, 111, 109, 112, 97, 99, 116]

/-- `Path::with_extension`. -/
def DiskPath.withExtension (path : DiskPath) (ext : List UInt8) : DiskPath :=
  { path with name := Lib.withExtension dot path.name ext }

theorem DiskPath.withExtension_compact_eq_self_iff (path : DiskPath) :
    path.withExtension compactExtension = path ↔
      extension dot path.name = some compactExtension := by
  rw [← withExtension_eq_self_iff (by decide), withExtension]
  constructor
  · intro h
    exact congrArg DiskPath.name h
  · intro h
    rw [h]

abbrev Disk : Type := FileSystem DiskPath UInt8

/-! ## The handle -/

/-- The fields of `SyncWal`. -/
structure WalHandle where
  path : DiskPath
  maxPayloadBytes : Nat
  maxRecords : Nat
  /-- `open_with_limits` refuses zero. -/
  maxRecords_pos : 0 < maxRecords

/-- `SyncWal::open_with_limits`, when the file can be opened. -/
def WalHandle.openWithLimits (fs : Disk) (path : DiskPath) (maxPayloadBytes maxRecords : Nat) :
    Except WalError (WalHandle × Disk) :=
  if h : maxRecords = 0 then .error .tooManyRecords
  else
    .ok ({ path, maxPayloadBytes, maxRecords, maxRecords_pos := Nat.pos_of_ne_zero h },
      (fs.openAppend path).2)

/-- The handle over what its path leads to. -/
def WalHandle.on (handle : WalHandle) (file : List UInt8) : SyncWal where
  maxPayloadBytes := handle.maxPayloadBytes
  maxRecords := handle.maxRecords
  maxRecords_pos := handle.maxRecords_pos
  file := file

def WalHandle.load (handle : WalHandle) (fs : Disk) : Option SyncWal :=
  (fs.contents handle.path).map handle.on

/-- `SyncWal::replay`; `File::open` is an error where there is no file. -/
def WalHandle.replay (handle : WalHandle) (fs : Disk) : Except WalError (List SyncPacket) :=
  match handle.load fs with
  | none => .error .io
  | some wal => wal.replay

/-- An opened log holds what its name led to, or nothing yet. -/
theorem WalHandle.load_of_openWithLimits {fs fs' : Disk} {path : DiskPath}
    {maxPayloadBytes maxRecords : Nat} {handle : WalHandle}
    (h : WalHandle.openWithLimits fs path maxPayloadBytes maxRecords = .ok (handle, fs')) :
    handle.load fs' = some (handle.on ((fs.contents path).getD [])) := by
  unfold openWithLimits at h
  by_cases hzero : maxRecords = 0
  · rw [dif_pos hzero] at h
    exact absurd h (by simp)
  · rw [dif_neg hzero] at h
    cases h
    rw [load, FileSystem.contents_openAppend_self]
    rfl

/-! ## `compact` -/

/-- `rename` over an existing file, as far as `compact` tells its errors apart. -/
inductive Renamed
  | ok
  | alreadyExists
  | failed
  deriving DecidableEq, Repr

/-- What the operating system answers to a compaction. -/
structure CompactIo where
  /-- Under `#[cfg(windows)]`. -/
  windows : Bool
  /-- The temporary file can be opened. -/
  opens : Bool
  /-- The bytes the disk takes before a write fails. -/
  room : Option Nat
  syncs : Bool
  rename : Renamed
  /-- What Windows answers to the `remove_file` and the second `rename`. -/
  removes : Bool
  renamesAgain : Bool

/-- `write_wal_record`, and the room it leaves. -/
def writeWalRecord (file : Nat) (room : Option Nat) (kind : UInt8) (body : List UInt8) (fs : Disk) :
    Except WalError (Option Nat) × Disk :=
  if body.isEmpty ∨ u32Max < body.length then (.error .recordTooLarge, fs)
  else
    match room with
    | none => (.ok none, fs.write file (walRecordBytes kind body))
    | some n =>
      if (walRecordBytes kind body).length ≤ n then
        (.ok (some (n - (walRecordBytes kind body).length)),
          fs.write file (walRecordBytes kind body))
      else (.error .io, fs.write file ((walRecordBytes kind body).take n))

/-- The loop of `compact`. -/
def WalHandle.writePackets (handle : WalHandle) (file : Nat) :
    List SyncPacket → Option Nat → Disk → Except WalError Unit × Disk
  | [], _, fs => (.ok (), fs)
  | packet :: packets, room, fs =>
    if packet.payload.isEmpty ∨ handle.maxPayloadBytes < packet.payload.length then
      (.error .recordTooLarge, fs)
    else
      match encodePacket packet with
      | .error .allocationFailed => (.error .allocationFailed, fs)
      | .error _ => (.error .recordTooLarge, fs)
      | .ok body =>
        match writeWalRecord file room walPacket body fs with
        | (.error error, fs) => (.error error, fs)
        | (.ok room, fs) => handle.writePackets file packets room fs

def WalHandle.tempPath (handle : WalHandle) : DiskPath :=
  handle.path.withExtension compactExtension

def WalHandle.compact (handle : WalHandle) (io : CompactIo) (fs : Disk)
    (packets : List SyncPacket) : Except WalError Unit × Disk :=
  if handle.maxRecords < packets.length then (.error .tooManyRecords, fs)
  else if ¬ io.opens then (.error .io, fs)
  else
    let (file, fs) := fs.openTruncate handle.tempPath
    match handle.writePackets file packets io.room fs with
    | (.error error, fs) => (.error error, fs)
    | (.ok (), fs) =>
      if ¬ io.syncs then (.error .io, fs)
      else
        match io.rename with
        | .ok => (.ok (), fs.rename handle.tempPath handle.path)
        | .failed => (.error .io, fs)
        | .alreadyExists =>
          if ¬ io.windows then (.error .io, fs)
          else if ¬ io.removes then (.error .io, fs)
          else
            let fs := fs.remove handle.path
            if ¬ io.renamesAgain then (.error .io, fs)
            else (.ok (), fs.rename handle.tempPath handle.path)

/-! ## What the loop writes -/

/-- What a disk with so much room takes of some bytes. -/
def roomTake : Option Nat → List UInt8 → List UInt8
  | none, bytes => bytes
  | some n, bytes => bytes.take n

/-- The records it takes whole. -/
def roomWhole : Option Nat → List WalRecord → List WalRecord
  | none, rs => rs
  | some n, rs => wholeRecords n rs

/-- It takes all of them. -/
def Roomy (room : Option Nat) (bytes : List UInt8) : Prop := ∀ n, room = some n → bytes.length ≤ n

/-- The packets before the first one `compact` refuses. -/
def WalHandle.admitted (handle : WalHandle) (packets : List SyncPacket) : List SyncPacket :=
  packets.takeWhile fun p => (WalRecord.packet p).Fits handle.maxPayloadBytes

/-- The records of these, one behind the other. -/
def WalHandle.admittedBytes (handle : WalHandle) (packets : List SyncPacket) : List UInt8 :=
  encodeAll WalRecord.bytes ((handle.admitted packets).map .packet)

theorem roomTake_of_roomy {room : Option Nat} {bytes : List UInt8} (h : Roomy room bytes) :
    roomTake room bytes = bytes := by
  cases room with
  | none => rfl
  | some n => exact List.take_of_length_le (h n rfl)

/-- **One record.** It is written whole, or as far as there is room. -/
theorem writeWalRecord_cases (file : Nat) (room : Option Nat) (kind : UInt8) {body : List UInt8}
    (hguard : ¬ (body.isEmpty = true ∨ u32Max < body.length)) (fs : Disk) :
    (Roomy room (walRecordBytes kind body) ∧
      writeWalRecord file room kind body fs =
        (.ok (room.map (· - (walRecordBytes kind body).length)),
          fs.write file (walRecordBytes kind body))) ∨
      ∃ n, room = some n ∧ n < (walRecordBytes kind body).length ∧
        writeWalRecord file room kind body fs =
          (.error .io, fs.write file ((walRecordBytes kind body).take n)) := by
  unfold writeWalRecord
  rw [if_neg hguard]
  cases room with
  | none => exact Or.inl ⟨fun n h => absurd h (by simp), rfl⟩
  | some n =>
    by_cases hle : (walRecordBytes kind body).length ≤ n
    · refine Or.inl ⟨fun m h => Option.some.inj h ▸ hle, ?_⟩
      simp only [if_pos hle, Option.map_some]
    · refine Or.inr ⟨n, rfl, Nat.lt_of_not_le hle, ?_⟩
      simp only [if_neg hle]

/-- **One round of the loop.** The packet is refused with nothing written, or its record is. -/
theorem WalHandle.writePackets_cons (handle : WalHandle) (file : Nat) (p : SyncPacket)
    (packets : List SyncPacket) (room : Option Nat) (fs : Disk) :
    (¬ (WalRecord.packet p).Fits handle.maxPayloadBytes ∧
      handle.writePackets file (p :: packets) room fs = (.error .recordTooLarge, fs)) ∨
    ((WalRecord.packet p).Fits handle.maxPayloadBytes ∧
      ((Roomy room (WalRecord.packet p).bytes ∧
        handle.writePackets file (p :: packets) room fs =
          handle.writePackets file packets (room.map (· - (WalRecord.packet p).bytes.length))
            (fs.write file (WalRecord.packet p).bytes)) ∨
      ∃ n, room = some n ∧ n < (WalRecord.packet p).bytes.length ∧
        handle.writePackets file (p :: packets) room fs =
          (.error .io, fs.write file ((WalRecord.packet p).bytes.take n)))) := by
  rw [writePackets]
  rcases p.gate handle.maxPayloadBytes with
    ⟨hnot, hguard | ⟨hguard, hlarge | ⟨hbody, hlong⟩⟩⟩ | ⟨hfits, hguard, hbody, hmax⟩
  · exact Or.inl ⟨hnot, by rw [if_pos hguard]⟩
  · exact Or.inl ⟨hnot, by rw [if_neg hguard, hlarge]⟩
  · refine Or.inl ⟨hnot, ?_⟩
    rw [if_neg hguard, hbody]
    simp only [writeWalRecord, if_pos hlong]
  · refine Or.inr ⟨hfits, ?_⟩
    rw [if_neg hguard, hbody]
    rcases writeWalRecord_cases file room walPacket hmax fs with ⟨hroom, h⟩ | ⟨n, hn, hlt, h⟩
    · refine Or.inl ⟨hroom, ?_⟩
      simp only [h]
      rfl
    · refine Or.inr ⟨n, hn, hlt, ?_⟩
      simp only [h]
      rfl

theorem WalHandle.admitted_cons_of_fits {handle : WalHandle} {p : SyncPacket}
    (h : (WalRecord.packet p).Fits handle.maxPayloadBytes) (packets : List SyncPacket) :
    handle.admittedBytes (p :: packets) =
      (WalRecord.packet p).bytes ++ handle.admittedBytes packets := by
  rw [admittedBytes, admitted, List.takeWhile_cons_of_pos (by simpa using h)]
  simp [admittedBytes, admitted, encodeAll]

theorem WalHandle.admittedBytes_of_fits (handle : WalHandle) {packets : List SyncPacket}
    (h : ∀ p ∈ packets, (WalRecord.packet p).Fits handle.maxPayloadBytes) :
    handle.admittedBytes packets = encodeAll WalRecord.bytes (packets.map .packet) := by
  rw [admittedBytes, admitted, List.takeWhile_eq_self_iff.mpr (by simpa using h)]

theorem WalHandle.admitted_cons_of_not_fits {handle : WalHandle} {p : SyncPacket}
    (h : ¬ (WalRecord.packet p).Fits handle.maxPayloadBytes) (packets : List SyncPacket) :
    handle.admitted (p :: packets) = [] := by
  rw [admitted, List.takeWhile_cons_of_neg (by simpa using h)]

/-- **The whole loop**, however it ends: the records of the packets before the first refused one
    are in the file, as far as there was room. -/
theorem WalHandle.writePackets_snd (handle : WalHandle) (file : Nat) (packets : List SyncPacket)
    (room : Option Nat) (fs : Disk) :
    (handle.writePackets file packets room fs).2 =
      fs.write file (roomTake room (handle.admittedBytes packets)) := by
  induction packets generalizing room fs with
  | nil => cases room <;> simp [writePackets, roomTake, admittedBytes, admitted, encodeAll]
  | cons p packets ih =>
    rcases handle.writePackets_cons file p packets room fs with
      ⟨hnot, h⟩ | ⟨hfits, ⟨hroom, h⟩ | ⟨n, hn, hlt, h⟩⟩
    · rw [h, admittedBytes, admitted_cons_of_not_fits hnot]
      cases room <;> simp [roomTake, encodeAll]
    · rw [h, ih, FileSystem.write_write, admitted_cons_of_fits hfits]
      cases room with
      | none => rfl
      | some n =>
        have hle := hroom n rfl
        simp only [roomTake, Option.map_some]
        rw [List.take_append, List.take_of_length_le hle]
    · rw [h, hn, admitted_cons_of_fits hfits]
      simp only [roomTake]
      rw [List.take_append_of_le_length (Nat.le_of_lt hlt)]

/-- The loop ends well when every packet is admitted and there is room for all of them. -/
theorem WalHandle.writePackets_fst (handle : WalHandle) (file : Nat) (packets : List SyncPacket)
    (room : Option Nat) (fs : Disk) :
    (handle.writePackets file packets room fs).1 = .ok () ↔
      (∀ p ∈ packets, (WalRecord.packet p).Fits handle.maxPayloadBytes) ∧
        Roomy room (handle.admittedBytes packets) := by
  induction packets generalizing room fs with
  | nil => simp [writePackets, Roomy, admittedBytes, admitted, encodeAll]
  | cons p packets ih =>
    rcases handle.writePackets_cons file p packets room fs with
      ⟨hnot, h⟩ | ⟨hfits, ⟨hroom, h⟩ | ⟨n, hn, hlt, h⟩⟩
    · rw [h]
      simp [hnot]
    · have hleft : Roomy (room.map (· - (WalRecord.packet p).bytes.length))
            (handle.admittedBytes packets) ↔
          Roomy room ((WalRecord.packet p).bytes ++ handle.admittedBytes packets) := by
        cases room with
        | none => simp [Roomy]
        | some n =>
          have hle := hroom n rfl
          simp only [Roomy, Option.map_some, Option.some.injEq, forall_eq', List.length_append]
          omega
      rw [h, ih, admitted_cons_of_fits hfits, hleft]
      simp [hfits]
    · rw [h, admitted_cons_of_fits hfits]
      have hfull : ¬ Roomy room ((WalRecord.packet p).bytes ++ handle.admittedBytes packets) := by
        intro hroom
        have hle := hroom n hn
        rw [List.length_append] at hle
        omega
      simp [hfull]

/-! ## How a compaction ends -/

/-- It is given up before the temporary file is opened. -/
def WalHandle.Untouched (handle : WalHandle) (io : CompactIo) (packets : List SyncPacket) : Prop :=
  handle.maxRecords < packets.length ∨ io.opens = false

/-- It comes to the second rename, the log removed. -/
structure WalHandle.Removes (handle : WalHandle) (io : CompactIo) (packets : List SyncPacket) :
    Prop where
  fits : ∀ p ∈ packets, (WalRecord.packet p).Fits handle.maxPayloadBytes
  roomy : Roomy io.room (handle.admittedBytes packets)
  syncs : io.syncs = true
  alreadyExists : io.rename = .alreadyExists
  windows : io.windows = true
  removes : io.removes = true

/-- The disk when the loop ends. -/
def WalHandle.rewritten (handle : WalHandle) (io : CompactIo) (fs : Disk)
    (packets : List SyncPacket) : Disk :=
  (fs.openTruncate handle.tempPath).2.write (fs.openTruncate handle.tempPath).1
    (roomTake io.room (handle.admittedBytes packets))

/-- The rest of `compact`, with the temporary file written. -/
def WalHandle.replace (handle : WalHandle) (io : CompactIo) (fs : Disk) :
    Except WalError Unit × Disk :=
  if ¬ io.syncs then (.error .io, fs)
  else
    match io.rename with
    | .ok => (.ok (), fs.rename handle.tempPath handle.path)
    | .failed => (.error .io, fs)
    | .alreadyExists =>
      if ¬ io.windows then (.error .io, fs)
      else if ¬ io.removes then (.error .io, fs)
      else if ¬ io.renamesAgain then (.error .io, fs.remove handle.path)
      else (.ok (), (fs.remove handle.path).rename handle.tempPath handle.path)

/-- It fails or renames with the log in place, or removes the log first. -/
theorem WalHandle.replace_cases (handle : WalHandle) (io : CompactIo) (fs : Disk) :
    (¬ (io.syncs = true ∧ io.rename = .alreadyExists ∧ io.windows = true ∧ io.removes = true) ∧
      (handle.replace io fs = (.error .io, fs) ∨
        handle.replace io fs = (.ok (), fs.rename handle.tempPath handle.path))) ∨
    ((io.syncs = true ∧ io.rename = .alreadyExists ∧ io.windows = true ∧ io.removes = true) ∧
      ((io.renamesAgain = false ∧ handle.replace io fs = (.error .io, fs.remove handle.path)) ∨
        (io.renamesAgain = true ∧ handle.replace io fs =
          (.ok (), (fs.remove handle.path).rename handle.tempPath handle.path)))) := by
  unfold replace
  cases io.syncs with
  | false => exact Or.inl ⟨by simp, Or.inl (by simp)⟩
  | true =>
    cases io.rename with
    | ok => exact Or.inl ⟨by simp, Or.inr (by simp)⟩
    | failed => exact Or.inl ⟨by simp, Or.inl (by simp)⟩
    | alreadyExists =>
      cases io.windows with
      | false => exact Or.inl ⟨by simp, Or.inl (by simp)⟩
      | true =>
        cases io.removes with
        | false => exact Or.inl ⟨by simp, Or.inl (by simp)⟩
        | true =>
          refine Or.inr ⟨by simp, ?_⟩
          cases io.renamesAgain with
          | false => exact Or.inl ⟨rfl, by simp⟩
          | true => exact Or.inr ⟨rfl, by simp⟩

theorem WalHandle.compact_of_untouched {handle : WalHandle} {io : CompactIo}
    {packets : List SyncPacket} (h : handle.Untouched io packets) (fs : Disk) :
    handle.compact io fs packets =
      (.error (if handle.maxRecords < packets.length then .tooManyRecords else .io), fs) := by
  unfold compact
  by_cases hlen : handle.maxRecords < packets.length
  · rw [if_pos hlen, if_pos hlen]
  · have hclosed : ¬ io.opens = true := by
      rw [h.resolve_left hlen]
      exact Bool.false_ne_true
    rw [if_neg hlen, if_pos hclosed, if_neg hlen]

/-- Once the temporary file is open: the loop, and the rest if it went well. -/
theorem WalHandle.compact_of_opened {handle : WalHandle} {io : CompactIo}
    {packets : List SyncPacket} (h : ¬ handle.Untouched io packets) (fs : Disk) :
    handle.compact io fs packets =
      match (handle.writePackets (fs.openTruncate handle.tempPath).1 packets io.room
        (fs.openTruncate handle.tempPath).2).1 with
      | .error error => (.error error, handle.rewritten io fs packets)
      | .ok () => handle.replace io (handle.rewritten io fs packets) := by
  obtain ⟨hlen, hopens⟩ := not_or.mp h
  rw [Bool.not_eq_false] at hopens
  rw [compact, if_neg hlen, if_neg (not_not_intro hopens), rewritten, ← writePackets_snd]
  rcases fs.openTruncate handle.tempPath with ⟨file, opened⟩
  dsimp only
  rcases handle.writePackets file packets io.room opened with ⟨error | done, written⟩
  · rfl
  · rfl

/-- **How a compaction ends.** With nothing touched, in the temporary file, with the log removed,
    or well. -/
theorem WalHandle.compact_ends (handle : WalHandle) (io : CompactIo) (fs : Disk)
    (packets : List SyncPacket) :
    (handle.Untouched io packets ∧
      handle.compact io fs packets =
        (.error (if handle.maxRecords < packets.length then .tooManyRecords else .io), fs)) ∨
    (¬ handle.Untouched io packets ∧
      ((¬ handle.Removes io packets ∧
        ∃ error, (error = .io ∨
            (handle.writePackets (fs.openTruncate handle.tempPath).1 packets io.room
              (fs.openTruncate handle.tempPath).2).1 = .error error) ∧
          handle.compact io fs packets = (.error error, handle.rewritten io fs packets)) ∨
      (handle.Removes io packets ∧ io.renamesAgain = false ∧
        handle.compact io fs packets =
          (.error .io, (handle.rewritten io fs packets).remove handle.path)) ∨
      (handle.Removes io packets ∧ io.renamesAgain = true ∧
        handle.compact io fs packets =
          (.ok (), ((handle.rewritten io fs packets).remove handle.path).rename
            handle.tempPath handle.path)) ∨
      (¬ handle.Removes io packets ∧
        (∀ p ∈ packets, (WalRecord.packet p).Fits handle.maxPayloadBytes) ∧
        Roomy io.room (handle.admittedBytes packets) ∧
        handle.compact io fs packets =
          (.ok (), (handle.rewritten io fs packets).rename handle.tempPath handle.path)))) := by
  by_cases huntouched : handle.Untouched io packets
  · exact Or.inl ⟨huntouched, compact_of_untouched huntouched fs⟩
  refine Or.inr ⟨huntouched, ?_⟩
  rw [compact_of_opened huntouched]
  have hfst := handle.writePackets_fst (fs.openTruncate handle.tempPath).1 packets io.room
    (fs.openTruncate handle.tempPath).2
  cases hloop : (handle.writePackets (fs.openTruncate handle.tempPath).1 packets io.room
    (fs.openTruncate handle.tempPath).2).1 with
  | error error =>
    refine Or.inl ⟨fun h => ?_, error, Or.inr rfl, rfl⟩
    rw [hfst.mpr ⟨h.fits, h.roomy⟩] at hloop
    exact absurd hloop (by simp)
  | ok done =>
    obtain ⟨hfits, hroomy⟩ := hfst.mp hloop
    rcases handle.replace_cases io (handle.rewritten io fs packets) with
      ⟨hnot, h⟩ | ⟨⟨hsyncs, hrename, hwindows, hremoves⟩, h⟩
    · have hkept : ¬ handle.Removes io packets := fun hr =>
        hnot ⟨hr.syncs, hr.alreadyExists, hr.windows, hr.removes⟩
      rcases h with h | h
      · exact Or.inl ⟨hkept, .io, Or.inl rfl, h⟩
      · exact Or.inr (Or.inr (Or.inr ⟨hkept, hfits, hroomy, h⟩))
    · have hr : handle.Removes io packets :=
        ⟨hfits, hroomy, hsyncs, hrename, hwindows, hremoves⟩
      rcases h with ⟨hagain, h⟩ | ⟨hagain, h⟩
      · exact Or.inr (Or.inl ⟨hr, hagain, h⟩)
      · exact Or.inr (Or.inr (Or.inl ⟨hr, hagain, h⟩))

/-! ## What a replay finds afterwards -/

/-- What the name of the log leads to once the temporary file is written. -/
theorem WalHandle.contents_rewritten {handle : WalHandle} {io : CompactIo} {fs : Disk} {i : Nat}
    (hentry : fs.entry handle.path = some i) (packets : List SyncPacket) :
    (handle.rewritten io fs packets).contents handle.path =
      if fs.entry handle.tempPath = fs.entry handle.path then
        some (roomTake io.room (handle.admittedBytes packets))
      else fs.contents handle.path := by
  obtain ⟨hkept, hsame⟩ := @FileSystem.entry_openTruncate _ _ _ fs handle.tempPath _ _ hentry
  rw [rewritten, FileSystem.contents_write, hkept, FileSystem.contents_openTruncate hentry, hentry]
  by_cases htemp : fs.entry handle.tempPath = some i
  · rw [if_pos (congrArg some (hsame.mpr htemp).symm), if_pos htemp, if_pos htemp]
    rfl
  · have hother : ¬ some i = some (fs.openTruncate handle.tempPath).1 :=
      fun h => htemp (hsame.mp (Option.some.inj h).symm)
    rw [if_neg hother, if_neg htemp, if_neg htemp]

/-- What the temporary file holds then. -/
theorem WalHandle.contents_tempPath (handle : WalHandle) (io : CompactIo) (fs : Disk)
    (packets : List SyncPacket) :
    (handle.rewritten io fs packets).contents handle.tempPath =
      some (roomTake io.room (handle.admittedBytes packets)) := by
  rw [rewritten, FileSystem.contents_write, FileSystem.entry_openTruncate_self, if_pos rfl,
    FileSystem.contents_openTruncate_self]
  rfl

/-- Packets alone never outgrow their number. -/
theorem withinRecords_packets {max : Nat} {ps qs : List SyncPacket}
    (h : qs.length + ps.length ≤ max) : WithinRecords max qs (ps.map .packet) := by
  induction ps generalizing qs with
  | nil => exact h
  | cons p ps ih =>
    rw [List.length_cons] at h
    have hstep : (liveStep qs (.packet p)).length ≤ qs.length + 1 := by
      by_cases hmem : p.sequence ∈ sequences qs
      · rw [liveStep_packet_of_mem hmem, List.length_map]
        exact Nat.le_succ _
      · rw [liveStep_packet_of_not_mem hmem, List.length_append, List.length_singleton]
    exact ⟨by omega, ih (by omega)⟩

theorem withinRecords_prefix {max : Nat} {rs rs' : List WalRecord} (hpre : rs' <+: rs)
    (h : WithinRecords max [] rs) : WithinRecords max [] rs' := by
  obtain ⟨rest, rfl⟩ := hpre
  exact (withinRecords_append.mp h).1

theorem roomWhole_initial (room : Option Nat) (rs : List WalRecord) : roomWhole room rs <+: rs := by
  cases room with
  | none => exact List.prefix_refl _
  | some n => exact wholeRecords_initial n rs

theorem roomTake_encodeAll {limit : Nat} (room : Option Nat) {rs : List WalRecord}
    (hfits : ∀ r ∈ rs, r.Fits limit) :
    ∃ tail, roomTake room (encodeAll WalRecord.bytes rs) =
        encodeAll WalRecord.bytes (roomWhole room rs) ++ tail ∧ Incomplete limit tail := by
  cases room with
  | none => exact ⟨[], (List.append_nil _).symm, incomplete_nil limit⟩
  | some n => exact take_encodeAll n rs hfits

/-- What reached the file replays to these packets: they are the live ones of the records written
    whole. Under a limit no record can be read back with, nothing as long as a header may have
    reached it. -/
def WalHandle.Rewrote (handle : WalHandle) (room : Option Nat)
    (packets recovered : List SyncPacket) : Prop :=
  live (roomWhole room ((handle.admitted packets).map .packet)) = recovered ∧
    (handle.maxPayloadBytes + 30 < 2 ^ 64 ∨
      (roomTake room (handle.admittedBytes packets)).length < walHeader)

theorem WalHandle.fits_admitted {handle : WalHandle} {packets : List SyncPacket} {r : WalRecord}
    (h : r ∈ (handle.admitted packets).map .packet) : r.Fits handle.maxPayloadBytes := by
  obtain ⟨p, hp, rfl⟩ := List.mem_map.mp h
  simpa using List.mem_takeWhile_imp hp

/-- Less than a header replays to nothing, under any limit. -/
theorem SyncWal.replay_of_short {wal : SyncWal} (h : wal.file.length < walHeader) :
    wal.replay = .ok [] := by
  refine scan_stop ?_
  unfold readRecord
  rw [readExact, if_neg (Nat.not_le.mpr h)]

/-- A record is longer than a header, so none is whole in less. -/
theorem roomWhole_of_short {room : Option Nat} {rs : List WalRecord}
    (h : (roomTake room (encodeAll WalRecord.bytes rs)).length < walHeader) :
    roomWhole room rs = [] := by
  cases rs with
  | nil => cases room <;> rfl
  | cons r rs =>
    rw [encodeAll, List.flatMap_cons] at h
    cases room with
    | none =>
      rw [roomTake, List.length_append, r.length_bytes] at h
      omega
    | some n =>
      rw [roomTake, List.length_take, List.length_append, r.length_bytes] at h
      have hlong : ¬ r.bytes.length ≤ n := by
        rw [r.length_bytes]
        omega
      rw [roomWhole, wholeRecords, if_neg hlong]

/-- **What the rewritten bytes replay to**, in the place of the log. -/
theorem WalHandle.replay_rewritten_iff {handle : WalHandle} {packets : List SyncPacket}
    (hlen : packets.length ≤ handle.maxRecords) (room : Option Nat)
    (recovered : List SyncPacket) :
    (handle.on (roomTake room (handle.admittedBytes packets))).replay = .ok recovered ↔
      handle.Rewrote room packets recovered := by
  by_cases hlimit : handle.maxPayloadBytes + 30 < 2 ^ 64
  · have hpre := roomWhole_initial room ((handle.admitted packets).map .packet)
    obtain ⟨tail, htake, htail⟩ := roomTake_encodeAll room fun r (hr : r ∈ _) => fits_admitted hr
    have hadmitted : (handle.admitted packets).length ≤ packets.length :=
      (List.takeWhile_prefix _).length_le
    have hwithin : WithinRecords handle.maxRecords []
        (roomWhole room ((handle.admitted packets).map .packet)) := by
      refine withinRecords_prefix hpre (withinRecords_packets ?_)
      rw [List.length_nil, Nat.zero_add]
      exact Nat.le_trans hadmitted hlen
    have hreplay : (handle.on (roomTake room (handle.admittedBytes packets))).replay =
        .ok (live (roomWhole room ((handle.admitted packets).map .packet))) := by
      rcases SyncWal.replay_eq_live (handle.on (roomTake room (handle.admittedBytes packets)))
          hlimit (fun r hr => fits_admitted (hpre.subset hr)) htail htake with ⟨h, -⟩ | ⟨-, h⟩
      · exact h
      · exact absurd hwithin h
    rw [hreplay, Except.ok.injEq]
    constructor
    · intro h
      exact ⟨h, Or.inl hlimit⟩
    · intro h
      exact h.1
  · by_cases hshort : (roomTake room (handle.admittedBytes packets)).length < walHeader
    · rw [SyncWal.replay_of_short hshort, Except.ok.injEq, Rewrote, roomWhole_of_short hshort]
      constructor
      · intro h
        exact ⟨h, Or.inr hshort⟩
      · intro h
        exact h.1
    · obtain ⟨error, hbad⟩ := readRecord_of_overflow hlimit (Nat.not_lt.mp hshort)
      have hreplay : (handle.on (roomTake room (handle.admittedBytes packets))).replay =
          .error error := scan_corrupt hbad
      rw [hreplay]
      constructor
      · intro h
        exact absurd h (by simp)
      · intro h
        rcases h.2 with h | h
        · exact absurd h hlimit
        · exact absurd h hshort

/-- **When a failed compaction spares the log.** Nothing was touched; or the log was not removed
    on the way to a second rename, and the temporary file is another file than the log, or what
    was rewritten of it replays to the same packets. -/
def WalHandle.Spares (handle : WalHandle) (io : CompactIo) (fs : Disk)
    (packets recovered : List SyncPacket) : Prop :=
  handle.Untouched io packets ∨
    (¬ handle.Removes io packets ∧
      (fs.entry handle.tempPath ≠ fs.entry handle.path ∨
        handle.Rewrote io.room packets recovered))

/-- A log named `compact` is its own temporary file. -/
theorem WalHandle.entry_tempPath_of_extension {handle : WalHandle}
    (h : extension dot handle.path.name = some compactExtension) (fs : Disk) :
    fs.entry handle.tempPath = fs.entry handle.path := by
  rw [tempPath, (DiskPath.withExtension_compact_eq_self_iff _).mpr h]

/-- A log that can be loaded is there. -/
theorem WalHandle.exists_of_load {handle : WalHandle} {fs : Disk} {wal : SyncWal}
    (h : handle.load fs = some wal) :
    ∃ i file, fs.entry handle.path = some i ∧ fs.contents handle.path = some file ∧
      handle.on file = wal := by
  unfold load at h
  cases he : fs.entry handle.path with
  | none =>
    rw [FileSystem.contents, he] at h
    exact absurd h (by simp)
  | some i =>
    cases hc : fs.contents handle.path with
    | none =>
      rw [hc] at h
      exact absurd h (by simp)
    | some file =>
      rw [hc] at h
      exact ⟨i, file, rfl, rfl, Option.some.inj h⟩

/-- So is one that replays. -/
theorem WalHandle.exists_of_replay {handle : WalHandle} {fs : Disk} {recovered : List SyncPacket}
    (h : handle.replay fs = .ok recovered) :
    ∃ i file, fs.entry handle.path = some i ∧ fs.contents handle.path = some file ∧
      (handle.on file).replay = .ok recovered := by
  unfold replay at h
  cases hload : handle.load fs with
  | none =>
    rw [hload] at h
    exact absurd h (by simp)
  | some wal =>
    obtain ⟨i, file, hentry, hfile, rfl⟩ := exists_of_load hload
    rw [hload] at h
    exact ⟨i, file, hentry, hfile, h⟩

theorem WalHandle.replay_of_contents {handle : WalHandle} {fs : Disk} {file : List UInt8}
    (h : fs.contents handle.path = some file) : handle.replay fs = (handle.on file).replay := by
  rw [replay, load, h]
  rfl

theorem WalHandle.replay_of_none {handle : WalHandle} {fs : Disk}
    (h : fs.contents handle.path = none) : handle.replay fs = .error .io := by
  rw [replay, load, h]
  rfl

/-- **A failed compaction and the log.** Of any log that replays, however the compaction fails:
    the same packets are replayed from it afterwards exactly when it was spared. -/
theorem WalHandle.failed_compact_iff {handle : WalHandle} {fs : Disk}
    {recovered : List SyncPacket} (hreplay : handle.replay fs = .ok recovered) (io : CompactIo)
    (packets : List SyncPacket) {error : WalError}
    (herror : (handle.compact io fs packets).1 = .error error) :
    handle.replay (handle.compact io fs packets).2 = .ok recovered ↔
      handle.Spares io fs packets recovered := by
  obtain ⟨i, file, hentry, hfile, hlog⟩ := exists_of_replay hreplay
  rcases handle.compact_ends io fs packets with
    ⟨huntouched, h⟩ | ⟨htouched, ⟨hkept, e, -, h⟩ | ⟨hremoves, -, h⟩ | ⟨-, -, h⟩ | ⟨-, -, -, h⟩⟩
  · -- Refused before the file is opened.
    rw [h]
    exact ⟨fun _ => Or.inl huntouched, fun _ => hreplay⟩
  · have hlen : packets.length ≤ handle.maxRecords :=
      Nat.not_lt.mp fun hlt => htouched (Or.inl hlt)
    have hafter := @contents_rewritten handle io fs i hentry packets
    rw [h]
    by_cases hsame : fs.entry handle.tempPath = fs.entry handle.path
    · -- The temporary file is the log.
      rw [if_pos hsame] at hafter
      rw [replay_of_contents hafter, replay_rewritten_iff hlen]
      constructor
      · intro hrewrote
        exact Or.inr ⟨hkept, Or.inr hrewrote⟩
      · intro hspares
        rcases hspares with hu | ⟨-, hother | hrewrote⟩
        · exact absurd hu htouched
        · exact absurd hsame hother
        · exact hrewrote
    · rw [if_neg hsame, hfile] at hafter
      rw [replay_of_contents hafter]
      exact ⟨fun _ => Or.inr ⟨hkept, Or.inl hsame⟩, fun _ => hlog⟩
  · -- The log is gone.
    rw [h, replay_of_none (FileSystem.contents_remove_self _ _)]
    constructor
    · intro hlost
      exact absurd hlost (by simp)
    · intro hspares
      rcases hspares with hu | ⟨hkept, -⟩
      · exact absurd hu htouched
      · exact absurd hremoves hkept
  · rw [h] at herror
    exact absurd herror (by simp)
  · rw [h] at herror
    exact absurd herror (by simp)

/-! ## The model without names -/

/-- The disk of `SyncWal.compactRecords` with so much room behind `written` bytes. -/
def roomDisk (written : Nat) : Option Nat → DiskRewrite
  | none => .complete
  | some n => .failed (written + n)

/-- It takes what there is room for. -/
theorem takes_roomDisk (room : Option Nat) (written bytes : List UInt8) :
    (roomDisk written.length room).takes (written ++ bytes).length = true ↔ Roomy room bytes := by
  cases room with
  | none => simp [roomDisk, DiskRewrite.takes, Roomy]
  | some n => simp [roomDisk, DiskRewrite.takes, Roomy]

theorem roomDisk_append {room : Option Nat} {bytes : List UInt8} (h : Roomy room bytes)
    (written : List UInt8) :
    roomDisk (written ++ bytes).length (room.map (· - bytes.length)) =
      roomDisk written.length room := by
  cases room with
  | none => rfl
  | some n =>
    have hle := h n rfl
    simp only [roomDisk, Option.map_some, List.length_append, DiskRewrite.failed.injEq]
    omega

/-- The loop of the other model answers the same error. -/
theorem WalHandle.compactRecords_error {handle : WalHandle} {file : Nat}
    {packets : List SyncPacket} {room : Option Nat} {fs : Disk} {error : WalError}
    (h : (handle.writePackets file packets room fs).1 = .error error) (log written : List UInt8) :
    (handle.on log).compactRecords (roomDisk written.length room) packets written =
      .error error := by
  induction packets generalizing room fs written with
  | nil => exact absurd h (by simp [writePackets])
  | cons p packets ih =>
    -- The two handles have one limit.
    have hround := (handle.on log).compactRecords_cons (roomDisk written.length room) p packets
      written
    have hlimit : (handle.on log).maxPayloadBytes = handle.maxPayloadBytes := rfl
    rw [hlimit] at hround
    rcases handle.writePackets_cons file p packets room fs with
      ⟨hnot, hw⟩ | ⟨hfits, ⟨hroom, hw⟩ | ⟨n, hn, hlt, hw⟩⟩
    · rw [hw] at h
      cases Except.error.inj h
      rw [hround, if_neg hnot]
    · rw [hw] at h
      have hrest := ih h (written ++ (WalRecord.packet p).bytes)
      rw [roomDisk_append hroom] at hrest
      rw [hround, if_pos hfits, if_pos ((takes_roomDisk _ _ _).mpr hroom), hrest]
    · rw [hw] at h
      have hfull : ¬ Roomy room (WalRecord.packet p).bytes := fun hroom =>
        absurd (hroom n hn) (Nat.not_le.mpr hlt)
      cases Except.error.inj h
      rw [hround, if_pos hfits, if_neg (mt (takes_roomDisk _ _ _).mp hfull)]

theorem SyncWal.compact_unopened (wal : SyncWal) (packets : List SyncPacket) :
    wal.compact .unopened packets =
      (.error (if wal.maxRecords < packets.length then .tooManyRecords else .io), wal) := by
  unfold compact
  by_cases hlen : wal.maxRecords < packets.length
  · rw [if_pos hlen, if_pos hlen]
  · rw [if_neg hlen, if_neg hlen, if_pos rfl]

/-- The log replaced by a file with the records of all packets is the one compacted. -/
theorem WalHandle.load_of_replaced {handle : WalHandle} {packets : List SyncPacket}
    {room : Option Nat} {fs : Disk}
    (hcontents : fs.contents handle.path = some (roomTake room (handle.admittedBytes packets)))
    (hfits : ∀ p ∈ packets, (WalRecord.packet p).Fits handle.maxPayloadBytes)
    (hroomy : Roomy room (handle.admittedBytes packets))
    (hlen : packets.length ≤ handle.maxRecords) (log : List UInt8) :
    ((handle.on log).compact .complete packets).1 = .ok () ∧
      handle.load fs = some ((handle.on log).compact .complete packets).2 := by
  rcases (handle.on log).compact_cases .complete hfits hlen with ⟨hne, -⟩ | ⟨-, hcompact⟩
  · exact absurd rfl hne
  · rw [hcompact, load, hcontents, roomTake_of_roomy hroomy, handle.admittedBytes_of_fits hfits]
    exact ⟨rfl, rfl⟩

/-- A refused packet, or a write that fails, is one of the other model too. -/
theorem WalHandle.compact_roomDisk {handle : WalHandle} {file : Nat} {packets : List SyncPacket}
    {room : Option Nat} {fs : Disk} {error : WalError}
    (hloop : (handle.writePackets file packets room fs).1 = .error error)
    (hlen : packets.length ≤ handle.maxRecords) (log : List UInt8) :
    (handle.on log).compact (roomDisk 0 room) packets = (.error error, handle.on log) := by
  have hopened : roomDisk 0 room ≠ .unopened := by
    cases room with
    | none => simp [roomDisk]
    | some n => simp [roomDisk]
  have herror := handle.compactRecords_error hloop log []
  simp only [List.length_nil] at herror
  have hlimit : ¬ (handle.on log).maxRecords < packets.length := Nat.not_lt.mpr hlen
  rw [SyncWal.compact, if_neg hlimit, if_neg hopened, herror]

/-- **With a file of its own to write, and the log still there when it is renamed, a compaction is
    the one without names.** -/
theorem WalHandle.compact_refines {handle : WalHandle} {fs : Disk} {wal : SyncWal}
    (hload : handle.load fs = some wal) (io : CompactIo) (packets : List SyncPacket)
    (hother : fs.entry handle.tempPath ≠ fs.entry handle.path)
    (hkept : handle.Removes io packets → io.renamesAgain = true) :
    ∃ disk, (handle.compact io fs packets).1 = (wal.compact disk packets).1 ∧
      handle.load (handle.compact io fs packets).2 = some (wal.compact disk packets).2 := by
  obtain ⟨i, file, hentry, hfile, rfl⟩ := exists_of_load hload
  have hlog := @contents_rewritten handle io fs i hentry packets
  rw [if_neg hother, hfile] at hlog
  have htemp := handle.contents_tempPath io fs packets
  have hunopened := (handle.on file).compact_unopened packets
  rcases handle.compact_ends io fs packets with
    ⟨-, h⟩ | ⟨htouched, hends⟩
  · refine ⟨.unopened, ?_, ?_⟩
    · rw [h, hunopened]
      rfl
    · rw [h, hunopened, hload]
  have hlen : packets.length ≤ handle.maxRecords :=
    Nat.not_lt.mp fun hlt => htouched (Or.inl hlt)
  rcases hends with
    ⟨-, e, rfl | he, h⟩ | ⟨hremoves, hagain, -⟩ | ⟨hremoves, -, h⟩ | ⟨-, hfits, hroomy, h⟩
  · have hlimit : ¬ (handle.on file).maxRecords < packets.length := Nat.not_lt.mpr hlen
    rw [if_neg hlimit] at hunopened
    refine ⟨.unopened, ?_, ?_⟩
    · rw [h, hunopened]
    · rw [h, hunopened, load, hlog]
      rfl
  · have hcompact := compact_roomDisk he hlen file
    refine ⟨roomDisk 0 io.room, ?_, ?_⟩
    · rw [h, hcompact]
    · rw [h, hcompact, load, hlog]
      rfl
  · rw [hkept hremoves] at hagain
    exact absurd hagain (by simp)
  · -- Windows's second rename.
    have hne : handle.tempPath ≠ handle.path := fun heq => hother (by rw [heq])
    rw [← FileSystem.contents_remove_of_ne _ hne, ← FileSystem.contents_rename_target] at htemp
    obtain ⟨hok, hloaded⟩ := load_of_replaced htemp hremoves.fits hremoves.roomy hlen file
    refine ⟨.complete, ?_, ?_⟩
    · rw [h, hok]
    · rw [h, hloaded]
  · rw [← FileSystem.contents_rename_target] at htemp
    obtain ⟨hok, hloaded⟩ := load_of_replaced htemp hfits hroomy hlen file
    refine ⟨.complete, ?_, ?_⟩
    · rw [h, hok]
    · rw [h, hloaded]

/-! ## Two logs -/

/-- A handle on `log` with this extension. -/
def logHandle (ext : List UInt8) : WalHandle where
  path := ⟨[], [108, 111, 103, dot] ++ ext⟩
  maxPayloadBytes := 64
  maxRecords := 6
  maxRecords_pos := Nat.succ_pos 5

def loggedEvent : SyncPacket := ⟨1, 0, .event, 7, [9]⟩

/-- The log is the only file and holds one event. -/
def logDisk (ext : List UInt8) : Disk where
  files := [(WalRecord.packet loggedEvent).bytes]
  entry := fun path => if path = (logHandle ext).path then some 0 else none
  entry_lt {path i} h := by
    by_cases hp : path = (logHandle ext).path
    · rw [if_pos hp] at h
      cases Option.some.inj h
      exact Nat.one_pos
    · rw [if_neg hp] at h
      exact absurd h (by simp)

/-- No call fails, and this is not Windows. -/
def calmIo : CompactIo where
  windows := false
  opens := true
  room := none
  syncs := true
  rename := .ok
  removes := true
  renamesAgain := true

theorem logDisk_replay (ext : List UInt8) :
    (logHandle ext).replay (logDisk ext) = .ok [loggedEvent] := by
  have hfile : (logDisk ext).contents (logHandle ext).path =
      some (WalRecord.packet loggedEvent).bytes := by
    simp [FileSystem.contents, logDisk]
  rw [WalHandle.replay_of_contents hfile]
  have hlimit : 64 + 30 < 2 ^ 64 := by decide
  have hfits : ∀ r ∈ [WalRecord.packet loggedEvent], r.Fits 64 := by decide
  have hwithin : WithinRecords 6 [] [.packet loggedEvent] := by decide
  rcases ((logHandle ext).on (WalRecord.packet loggedEvent).bytes).replay_eq_live_of_whole hlimit
      hfits (List.append_nil _).symm with ⟨h, -⟩ | ⟨-, h⟩
  · exact h
  · exact absurd hwithin h

/-- `log.wal` survives a packet without a payload behind a good one. -/
theorem WalHandle.failed_compact_wal :
    (logHandle [119, 97, 108]).replay ((logHandle [119, 97, 108]).compact calmIo
      (logDisk [119, 97, 108]) [loggedEvent, ⟨2, 0, .event, 8, []⟩]).2 = .ok [loggedEvent] :=
  (WalHandle.failed_compact_iff (logDisk_replay [119, 97, 108]) calmIo
    [loggedEvent, ⟨2, 0, .event, 8, []⟩] rfl).mpr
    (Or.inr ⟨fun h => absurd h.windows (by decide), Or.inl (by decide)⟩)

/-- `log.compact` does not: the same packet alone, and the event is gone. -/
theorem WalHandle.compact_empties_log :
    ((logHandle compactExtension).compact calmIo (logDisk compactExtension)
        [⟨2, 0, .event, 8, []⟩]).1 = .error .recordTooLarge ∧
      (logHandle compactExtension).replay (logDisk compactExtension) = .ok [loggedEvent] ∧
      (logHandle compactExtension).replay ((logHandle compactExtension).compact calmIo
        (logDisk compactExtension) [⟨2, 0, .event, 8, []⟩]).2 = .ok [] := by
  refine ⟨rfl, logDisk_replay _, ?_⟩
  have hafter : ((logHandle compactExtension).compact calmIo (logDisk compactExtension)
      [⟨2, 0, .event, 8, []⟩]).2.contents (logHandle compactExtension).path = some [] := by decide
  rw [WalHandle.replay_of_contents hafter]
  exact SyncWal.replay_of_short (by decide)

end Sync
end EngineKit
