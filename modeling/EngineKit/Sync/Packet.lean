import EngineKit.Lib.LittleEndian

/-!
# Replication packets and their bytes

The data of `src/kernel/sync.rs` — modes, kinds, configuration, packets, the two error types —
and the wire form of a packet: `Replicator::encode_packet` and the WAL's own `decode_packet`.

A packet is thirty header bytes and its payload:

    version 1 | kind | sequence u64 | ack u64 | key u64 | payload length u32 | payload

`usize` values (lengths and limits) are natural numbers on a 64-bit target; sequence numbers,
acknowledgements and keys are `UInt64`, as in the source. Allocation is taken to succeed: the
`AllocationFailed` variants are kept, and no function here answers them. Here and in the other
modules of definitions, what is named after a function of the source is that function.

`decodePacket_bytes` and `bytes_of_decodePacket` are the two directions of the wire format:
what was encoded decodes to itself, and nothing else decodes at all.
-/

set_option autoImplicit false

namespace EngineKit
namespace Sync

open Lib

inductive SyncMode
  | offline
  | online
  deriving DecidableEq, Repr

inductive SyncKind
  | snapshot
  | delta
  | event
  deriving DecidableEq, Repr

structure SyncConfig where
  maxPending : Nat
  maxPayloadBytes : Nat
  maxInFlight : Nat
  resendAfterFrames : UInt64
  maxRetries : UInt8
  deriving DecidableEq, Repr

def SyncConfig.default : SyncConfig where
  maxPending := 4096
  maxPayloadBytes := 256 * 1024
  maxInFlight := 128
  resendAfterFrames := 3
  maxRetries := 8

structure SyncPacket where
  sequence : UInt64
  ack : UInt64
  kind : SyncKind
  key : UInt64
  payload : List UInt8
  deriving DecidableEq, Repr

inductive SyncError
  | emptyPayload
  | payloadTooLarge
  | backpressure
  | allocationFailed
  | invalidPacket
  | receiveTooLarge
  | persistenceFailed
  | invalidConfig
  | noSession
  | authenticationFailed
  deriving DecidableEq, Repr

inductive WalError
  | io
  | invalidRecord
  | recordTooLarge
  | tooManyRecords
  | allocationFailed
  deriving DecidableEq, Repr

def u32Max : Nat := 4294967295

/-! ## The kind byte -/

/-- The byte `encode_packet` writes for a kind. -/
def SyncKind.tag : SyncKind → UInt8
  | .snapshot => 0
  | .delta => 1
  | .event => 2

/-- The kind both decoders read from that byte. -/
def SyncKind.ofTag (b : UInt8) : Option SyncKind :=
  if b = 0 then some .snapshot
  else if b = 1 then some .delta
  else if b = 2 then some .event
  else none

@[simp] theorem SyncKind.ofTag_tag (k : SyncKind) : SyncKind.ofTag k.tag = some k := by
  cases k <;> rfl

theorem SyncKind.tag_of_ofTag {b : UInt8} {k : SyncKind} (h : SyncKind.ofTag b = some k) :
    k.tag = b := by
  unfold SyncKind.ofTag at h
  split at h
  · next hb => cases Option.some.inj h; exact hb.symm
  · split at h
    · next hb => cases Option.some.inj h; exact hb.symm
    · split at h
      · next hb => cases Option.some.inj h; exact hb.symm
      · exact absurd h (by simp)

/-! ## Encoding -/

/-- The bytes `encode_packet` assembles. -/
def SyncPacket.bytes (p : SyncPacket) : List UInt8 :=
  [1, p.kind.tag] ++ (u64ToLe p.sequence ++ (u64ToLe p.ack ++ (u64ToLe p.key ++
    (u32ToLe (UInt32.ofNat p.payload.length) ++ p.payload))))

def encodePacket (packet : SyncPacket) : Except SyncError (List UInt8) :=
  if packet.payload.isEmpty then .error .emptyPayload
  else if u32Max < packet.payload.length then .error .payloadTooLarge
  else
    match checkedAdd 30 packet.payload.length with
    | none => .error .payloadTooLarge
    | some _ => .ok packet.bytes

@[simp] theorem SyncPacket.length_bytes (p : SyncPacket) :
    p.bytes.length = 30 + p.payload.length := by
  simp [SyncPacket.bytes]
  omega

/-- The payloads a limit admits: not empty, and no longer than the limit. -/
def SyncPacket.Fits (limit : Nat) (p : SyncPacket) : Prop :=
  p.payload ≠ [] ∧ p.payload.length ≤ limit

instance (limit : Nat) (p : SyncPacket) : Decidable (p.Fits limit) :=
  inferInstanceAs (Decidable (_ ∧ _))

theorem encodePacket_of_fits {p : SyncPacket} (h : p.Fits u32Max) :
    encodePacket p = .ok p.bytes := by
  obtain ⟨hne, hle⟩ := h
  have hsum : 30 + p.payload.length < 2 ^ 64 := by unfold u32Max at hle; omega
  unfold encodePacket
  rw [if_neg (by simpa using hne), if_neg (by omega), checkedAdd_of_lt hsum]

/-- `encode_packet` answers bytes exactly for the packets whose payload it can measure. -/
theorem encodePacket_eq_ok_iff {p : SyncPacket} {bs : List UInt8} :
    encodePacket p = .ok bs ↔ p.Fits u32Max ∧ bs = p.bytes := by
  constructor
  · intro h
    have hfits : p.Fits u32Max := by
      unfold encodePacket at h
      split at h
      · exact absurd h (by simp)
      · next hne =>
        split at h
        · exact absurd h (by simp)
        · next hle => exact ⟨by simpa using hne, by omega⟩
    rw [encodePacket_of_fits hfits] at h
    exact ⟨hfits, (Except.ok.inj h).symm⟩
  · intro hall
    obtain ⟨hfits, rfl⟩ := hall
    exact encodePacket_of_fits hfits

/-! ## Decoding -/

/-- `decode_packet`, the decoder `SyncWal::replay` applies to a packet record's body. -/
def decodePacket (bytes : List UInt8) (maxPayloadBytes : Nat) : Except WalError SyncPacket :=
  if bytes.length < 30 ∨ bytes.getD 0 0 ≠ 1 then .error .invalidRecord
  else
    match SyncKind.ofTag (bytes.getD 1 0) with
    | none => .error .invalidRecord
    | some kind =>
      let sequence := u64OfLe (bytes.extract 2 10)
      let ack := u64OfLe (bytes.extract 10 18)
      let key := u64OfLe (bytes.extract 18 26)
      let len := (u32OfLe (bytes.extract 26 30)).toNat
      match checkedAdd 30 len with
      | none => .error .recordTooLarge
      | some total =>
        if len = 0 ∨ maxPayloadBytes < len ∨ total ≠ bytes.length then .error .recordTooLarge
        else .ok { sequence, ack, kind, key, payload := bytes.drop 30 }

/-- The fields of an encoded packet, at the offsets both decoders read them from. -/
theorem SyncPacket.extract_bytes (p : SyncPacket) :
    p.bytes.extract 2 10 = u64ToLe p.sequence ∧ p.bytes.extract 10 18 = u64ToLe p.ack ∧
      p.bytes.extract 18 26 = u64ToLe p.key ∧
      p.bytes.extract 26 30 = u32ToLe (UInt32.ofNat p.payload.length) ∧
      p.bytes.drop 30 = p.payload := by
  refine ⟨?_, ?_, ?_, ?_, ?_⟩ <;>
    simp [SyncPacket.bytes, List.extract, List.drop_append,
      List.drop_of_length_le]

theorem extract_append_drop {α : Type} {a b : Nat} (l : List α) (h : a ≤ b) :
    l.extract a b ++ l.drop b = l.drop a := by
  have hb : l.drop b = (l.drop a).drop (b - a) := by rw [List.drop_drop, Nat.add_sub_cancel' h]
  rw [List.extract, hb, List.take_append_drop]

theorem split_header {bs : List UInt8} (h : 30 ≤ bs.length) :
    bs = [bs.getD 0 0, bs.getD 1 0] ++ (bs.extract 2 10 ++ (bs.extract 10 18 ++
      (bs.extract 18 26 ++ (bs.extract 26 30 ++ bs.drop 30)))) := by
  rw [extract_append_drop bs (by omega), extract_append_drop bs (by omega),
    extract_append_drop bs (by omega), extract_append_drop bs (by omega)]
  cases bs with
  | nil => exact absurd h (by simp)
  | cons b₀ bs =>
    cases bs with
    | nil => exact absurd h (by simp)
    | cons b₁ bs => rfl

/-- **A packet within the limit decodes to itself.** -/
theorem decodePacket_bytes {limit : Nat} {p : SyncPacket} (hp : p.Fits limit)
    (hlen : p.payload.length ≤ u32Max) : decodePacket p.bytes limit = .ok p := by
  obtain ⟨hne, hle⟩ := hp
  obtain ⟨hseq, hack, hkey, hlength, hpayload⟩ := p.extract_bytes
  have hpos : p.payload.length ≠ 0 := by simpa using hne
  have hlen' : (u32OfLe (p.bytes.extract 26 30)).toNat = p.payload.length := by
    rw [hlength, u32OfLe_u32ToLe]
    exact u32_toNat_ofNat hlen
  have hversion : p.bytes.getD 0 0 = 1 := rfl
  have htag : p.bytes.getD 1 0 = p.kind.tag := rfl
  have hsum : 30 + p.payload.length < 2 ^ 64 := by unfold u32Max at hlen; omega
  unfold decodePacket
  rw [if_neg (by rw [hversion, p.length_bytes]; simp), htag, SyncKind.ofTag_tag]
  simp only [hlen', checkedAdd_of_lt hsum, hseq, hack, hkey, hpayload, u64OfLe_u64ToLe,
    p.length_bytes]
  rw [if_neg (by simp [hpos]; omega)]

/-- **Nothing but an encoded packet decodes.** -/
theorem bytes_of_decodePacket {limit : Nat} {bs : List UInt8} {p : SyncPacket}
    (h : decodePacket bs limit = .ok p) :
    p.Fits limit ∧ p.payload.length ≤ u32Max ∧ bs = p.bytes := by
  unfold decodePacket at h
  split at h
  · exact absurd h (by simp)
  · next hshort =>
    obtain ⟨hlong, hversion⟩ := not_or.mp hshort
    split at h
    · exact absurd h (by simp)
    · next kind hkind =>
      simp only at h
      split at h
      · exact absurd h (by simp)
      · next total htotal =>
        split at h
        · exact absurd h (by simp)
        · next hbad =>
          have hsum := eq_of_checkedAdd htotal
          have hplen : (bs.drop 30).length = (u32OfLe (bs.extract 26 30)).toNat := by
            rw [List.length_drop]; omega
          have hcast : UInt32.ofNat (bs.drop 30).length = u32OfLe (bs.extract 26 30) := by
            rw [hplen, UInt32.ofNat_toNat]
          have hlt := (u32OfLe (bs.extract 26 30)).toNat_lt
          cases Except.ok.inj h
          refine ⟨⟨?_, ?_⟩, ?_, ?_⟩
          · intro (hnil : bs.drop 30 = [])
            rw [hnil] at hplen
            exact hbad (Or.inl hplen.symm)
          · change (bs.drop 30).length ≤ limit
            omega
          · change (bs.drop 30).length ≤ u32Max
            unfold u32Max; omega
          · have hb : 30 ≤ bs.length := by omega
            have h8 : ∀ a b, a + 8 = b → b ≤ 30 → (bs.extract a b).length = 8 := by
              intro a b hab hb30
              rw [List.extract, List.length_take, List.length_drop]; omega
            have h4 : (bs.extract 26 30).length = 4 := by
              rw [List.extract, List.length_take, List.length_drop]; omega
            conv_lhs => rw [split_header hb]
            simp only [SyncPacket.bytes, SyncKind.tag_of_ofTag hkind, hcast,
              u64ToLe_u64OfLe (h8 2 10 rfl (by omega)), u64ToLe_u64OfLe (h8 10 18 rfl (by omega)),
              u64ToLe_u64OfLe (h8 18 26 rfl (by omega)), u32ToLe_u32OfLe h4]
            rw [not_not.mp hversion]

end Sync
end EngineKit
