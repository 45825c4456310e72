import EngineKit.Lib.FirstMatch
import EngineKit.Lib.FramedLog
import EngineKit.Sync.Packet

/-!
# The write-ahead log

`SyncWal` of `src/kernel/sync.rs`: an append-only file of checksummed records,

    magic "RKW1" | kind | body length u32 | body | FNV-1a checksum u32

written by `append` and `acknowledge` and folded back into the live packets by `replay`.

A `SyncWal` here is the handle together with the bytes of the file it names, and it is the
file's only user. What the file system does with one write is part of the call: `DiskWrite`
is `complete`, or the write failed after some number of the record's bytes reached the file —
which also covers a file that could not be opened (no bytes) and a `sync_data` that failed
(all of them). Reading the file does not fail, and allocation succeeds.

The file is the *definitions* of the log. What they satisfy is in `Sync/WalFacts.lean`.
-/

set_option autoImplicit false

namespace EngineKit
namespace Sync

open Lib

/-! ## The constants of `SyncWal` -/

/-- `SyncWal::MAGIC`, the bytes of `RKW1`. -/
def walMagic : List UInt8 := [0x52, 0x4B, 0x57, 0x31]

def walPacket : UInt8 := 1

def walAck : UInt8 := 2

def walHeader : Nat := 4 + 1 + 4

def walTrailer : Nat := 4

/-! ## The handle and its file -/

structure SyncWal where
  maxPayloadBytes : Nat
  maxRecords : Nat
  /-- `open_with_limits` refuses zero. -/
  maxRecords_pos : 0 < maxRecords
  /-- The bytes of the file at the handle's path. -/
  file : List UInt8

/-- `SyncWal::open_with_limits` on a file with the given contents (empty when it creates one). -/
def SyncWal.openWithLimits (file : List UInt8) (maxPayloadBytes maxRecords : Nat) :
    Except WalError SyncWal :=
  if h : maxRecords = 0 then .error .tooManyRecords
  else .ok { maxPayloadBytes, maxRecords, maxRecords_pos := Nat.pos_of_ne_zero h, file }

/-- What the file system does with the bytes of one record. -/
inductive DiskWrite
  /-- All of them reach the file, and the sync succeeds. -/
  | complete
  /-- An I/O error after `written` of them reached the file. -/
  | failed (written : Nat)
  deriving DecidableEq, Repr

/-! ## Writing -/

/-- `wal_checksum`: FNV-1a over the body, seeded with the record kind. -/
def walChecksum (kind : UInt8) (body : List UInt8) : UInt32 :=
  body.foldl (fun hash byte => (hash ^^^ byte.toUInt32) * 16777619)
    (2166136261 ^^^ kind.toUInt32)

/-- The bytes `write_wal_record` writes. -/
def walRecordBytes (kind : UInt8) (body : List UInt8) : List UInt8 :=
  walMagic ++ (kind :: (u32ToLe (UInt32.ofNat body.length) ++
    (body ++ u32ToLe (walChecksum kind body))))

/-- `SyncWal::append_record`, with the `write_wal_record` and the `sync_data` it ends in. -/
def SyncWal.appendRecord (wal : SyncWal) (disk : DiskWrite) (kind : UInt8)
    (body : List UInt8) : Except WalError Unit × SyncWal :=
  if body.isEmpty ∨ u32Max < body.length then (.error .recordTooLarge, wal)
  else
    match disk with
    | .complete => (.ok (), { wal with file := wal.file ++ walRecordBytes kind body })
    | .failed written =>
      (.error .io, { wal with file := wal.file ++ (walRecordBytes kind body).take written })

def SyncWal.append (wal : SyncWal) (disk : DiskWrite) (packet : SyncPacket) :
    Except WalError Unit × SyncWal :=
  if packet.payload.isEmpty ∨ wal.maxPayloadBytes < packet.payload.length then
    (.error .recordTooLarge, wal)
  else
    match encodePacket packet with
    | .error .allocationFailed => (.error .allocationFailed, wal)
    | .error _ => (.error .recordTooLarge, wal)
    | .ok body => wal.appendRecord disk walPacket body

def SyncWal.acknowledge (wal : SyncWal) (disk : DiskWrite) (sequence : UInt64) :
    Except WalError Unit × SyncWal :=
  wal.appendRecord disk walAck (u64ToLe sequence)

/-! ## Records, and the calls that write them -/

/-- What one record says: a packet was appended, or everything up to a sequence number was
    acknowledged. -/
inductive WalRecord
  | packet (packet : SyncPacket)
  | ack (sequence : UInt64)
  deriving DecidableEq, Repr

def WalRecord.kind : WalRecord → UInt8
  | .packet _ => walPacket
  | .ack _ => walAck

def WalRecord.body : WalRecord → List UInt8
  | .packet p => p.bytes
  | .ack s => u64ToLe s

def WalRecord.bytes (r : WalRecord) : List UInt8 := walRecordBytes r.kind r.body

/-- The call that writes a record: `append` for a packet, `acknowledge` for an ACK. -/
def SyncWal.perform (wal : SyncWal) (disk : DiskWrite) : WalRecord → Except WalError Unit × SyncWal
  | .packet p => wal.append disk p
  | .ack s => wal.acknowledge disk s

/-- A sequence of `append` and `acknowledge` calls, stopped at the first one that fails. -/
def SyncWal.performAll : SyncWal → List (DiskWrite × WalRecord) → Except WalError SyncWal
  | wal, [] => .ok wal
  | wal, (disk, r) :: calls =>
    match wal.perform disk r with
    | (.error error, _) => .error error
    | (.ok (), wal') => wal'.performAll calls

/-! ## Replay -/

/-- `read_exact` into a buffer of `n` bytes: the bytes and what is left to read, or `none` for
    `UnexpectedEof`. -/
def readExact (n : Nat) (file : List UInt8) : Option (List UInt8 × List UInt8) :=
  if n ≤ file.length then some (file.take n, file.drop n) else none

/-- What `replay` makes of a record whose checksum matched. -/
def parseRecord (maxPayloadBytes : Nat) (kind : UInt8) (body : List UInt8) :
    Except WalError WalRecord :=
  if kind = walPacket then
    match decodePacket body maxPayloadBytes with
    | .error error => .error error
    | .ok packet => .ok (.packet packet)
  else if kind = walAck then
    if body.length ≠ 8 then .error .invalidRecord
    else .ok (.ack (u64OfLe body))
  else .error .invalidRecord

/-- One round of `replay`'s loop up to the record it reads. Each of the three reads that meets
    the end of the file is the source's `break`. -/
def readRecord (maxPayloadBytes : Nat) (file : List UInt8) : Front WalRecord WalError UInt8 :=
  match readExact walHeader file with
  | none => .stop
  | some (header, afterHeader) =>
    if header.take 4 ≠ walMagic then .corrupt .invalidRecord
    else
      let kind := header.getD 4 0
      let len := (u32OfLe (header.extract 5 9)).toNat
      match checkedAdd maxPayloadBytes 30 with
      | none => .corrupt .recordTooLarge
      | some maxRecord =>
        if len = 0 ∨ maxRecord < len then .corrupt .recordTooLarge
        else
          match readExact len afterHeader with
          | none => .stop
          | some (body, afterBody) =>
            match readExact walTrailer afterBody with
            | none => .stop
            | some (checksum, rest) =>
              if walChecksum kind body ≠ u32OfLe checksum then .corrupt .invalidRecord
              else
                match parseRecord maxPayloadBytes kind body with
                | .error error => .corrupt error
                | .ok record => .frame record rest

/-- The rest of the round: a packet overwrites the live entry of its sequence or joins the end,
    an ACK drops every entry up to its sequence. -/
def applyRecord (maxRecords : Nat) (pending : List SyncPacket) :
    WalRecord → Except WalError (List SyncPacket)
  | .packet packet =>
    match updateFirst (fun p => p.sequence = packet.sequence) (fun _ => packet) pending with
    | some pending => .ok pending
    | none =>
      if maxRecords ≤ pending.length then .error .tooManyRecords
      else .ok (pending ++ [packet])
  | .ack sequence => .ok (pending.filter fun p => sequence < p.sequence)

def SyncWal.replay (wal : SyncWal) : Except WalError (List SyncPacket) :=
  scan (readRecord wal.maxPayloadBytes) (applyRecord wal.maxRecords) [] wal.file

/-- The records `replay` reads before it answers, and, if it answers `Ok`, the bytes it leaves
    behind them. -/
def SyncWal.read (wal : SyncWal) : List WalRecord × Option (List UInt8) :=
  scanned (readRecord wal.maxPayloadBytes) (applyRecord wal.maxRecords) [] wal.file

end Sync
end EngineKit
