import EngineKit.Sync.Replicator

/-!
# One wire format, two decoders

A packet is encoded in one place and decoded in two: `decode_packet` reads the body of a log
record, and `receive_bytes` reads what comes off the network, with the checks in another order
and other errors. `decodeBytes` is the part of `receive_bytes` ahead of its call of `receive`
(`receiveBytes_eq`).

The two disagree about nothing but the error (`toOption_decodeBytes`), so the laws of
`Sync/Packet.lean` are laws of both.
-/

set_option autoImplicit false

namespace EngineKit
namespace Sync

open Lib

/-- `receive_bytes` up to the packet it hands to `receive`. -/
def decodeBytes (bytes : List UInt8) (maxPayloadBytes : Nat) : Except SyncError SyncPacket :=
  if bytes.length < 30 then .error .invalidPacket
  else
    match SyncKind.ofTag (bytes.getD 1 0) with
    | none => .error .invalidPacket
    | some kind =>
      if bytes.getD 0 0 ≠ 1 then .error .invalidPacket
      else
        let sequence := u64OfLe (bytes.extract 2 10)
        let ack := u64OfLe (bytes.extract 10 18)
        let key := u64OfLe (bytes.extract 18 26)
        let len := (u32OfLe (bytes.extract 26 30)).toNat
        match checkedAdd 30 len with
        | none => .error .receiveTooLarge
        | some total =>
          if len = 0 then .error .emptyPayload
          else if maxPayloadBytes < len ∨ total ≠ bytes.length then .error .receiveTooLarge
          else .ok { sequence, ack, kind, key, payload := bytes.drop 30 }

/-- **What `receive_bytes` is.** It decodes, counts what does not decode, and passes on what
    does. The refusal it does not count, of a length that overflows `usize`, does not occur. -/
theorem Replicator.receiveBytes_eq (r : Replicator) (disk : DiskWrite) (bytes : List UInt8) :
    r.receiveBytes disk bytes =
      match decodeBytes bytes r.config.maxPayloadBytes with
      | .error error => (.error error, r.rejectReceive)
      | .ok packet => (.ok (r.receive disk packet).1, (r.receive disk packet).2) := by
  unfold receiveBytes decodeBytes
  by_cases hshort : bytes.length < 30
  · simp only [if_pos hshort]
  · cases SyncKind.ofTag (bytes.getD 1 0) with
    | none => simp only [if_neg hshort]
    | some kind =>
      have hlt := (u32OfLe (bytes.extract 26 30)).toNat_lt
      have hsum : 30 + (u32OfLe (bytes.extract 26 30)).toNat < 2 ^ 64 := by omega
      simp only [if_neg hshort, checkedAdd_of_lt hsum]
      by_cases hversion : bytes.getD 0 0 ≠ 1
      · simp only [if_pos hversion]
      · simp only [if_neg hversion]
        by_cases hzero : (u32OfLe (bytes.extract 26 30)).toNat = 0
        · simp only [if_pos hzero]
        · simp only [if_neg hzero]
          split <;> rfl

/-- **The decoders accept the same bytes, as the same packet.** -/
theorem toOption_decodeBytes (bytes : List UInt8) (maxPayloadBytes : Nat) :
    (decodeBytes bytes maxPayloadBytes).toOption =
      (decodePacket bytes maxPayloadBytes).toOption := by
  unfold decodeBytes decodePacket
  by_cases hshort : bytes.length < 30
  · rw [if_pos hshort, if_pos (Or.inl hshort)]
    rfl
  rw [if_neg hshort]
  by_cases hversion : bytes.getD 0 0 = 1
  · rw [if_neg (not_or.mpr ⟨hshort, not_not.mpr hversion⟩)]
    cases SyncKind.ofTag (bytes.getD 1 0) with
    | none => rfl
    | some kind =>
      simp only [if_neg (not_not.mpr hversion)]
      cases checkedAdd 30 (u32OfLe (bytes.extract 26 30)).toNat with
      | none => rfl
      | some total =>
        -- One test of three here, two tests there.
        by_cases hzero : (u32OfLe (bytes.extract 26 30)).toNat = 0
        · simp only [if_pos hzero, if_pos (Or.inl hzero)]
          rfl
        · simp only [hzero, false_or, if_false]
          split <;> rfl
  · rw [if_pos (show bytes.length < 30 ∨ bytes.getD 0 0 ≠ 1 from Or.inr hversion)]
    -- The kind is looked at first there, and refused the same.
    cases SyncKind.ofTag (bytes.getD 1 0) with
    | none => rfl
    | some kind =>
      simp only [if_pos hversion]
      rfl

theorem Except.toOption_eq_some_iff {ε α : Type} {x : Except ε α} {a : α} :
    x.toOption = some a ↔ x = .ok a := by
  cases x with
  | error error => simp [Except.toOption]
  | ok b => simp [Except.toOption]

theorem decodeBytes_eq_ok_iff {bytes : List UInt8} {maxPayloadBytes : Nat} {p : SyncPacket} :
    decodeBytes bytes maxPayloadBytes = .ok p ↔ decodePacket bytes maxPayloadBytes = .ok p := by
  rw [← Except.toOption_eq_some_iff, toOption_decodeBytes, Except.toOption_eq_some_iff]

/-- What decodes is what encodes, within the limit. -/
theorem decodePacket_eq_ok_iff {bytes : List UInt8} {maxPayloadBytes : Nat} {p : SyncPacket} :
    decodePacket bytes maxPayloadBytes = .ok p ↔
      p.Fits maxPayloadBytes ∧ encodePacket p = .ok bytes := by
  rw [encodePacket_eq_ok_iff]
  constructor
  · intro h
    obtain ⟨hfits, hlen, rfl⟩ := bytes_of_decodePacket h
    exact ⟨hfits, ⟨hfits.1, hlen⟩, rfl⟩
  · intro hall
    obtain ⟨hfits, ⟨-, hlen⟩, rfl⟩ := hall
    exact decodePacket_bytes hfits hlen

/-- **The wire format.** Every packet the limit and the length field admit comes back from its
    encoding, through either decoder; the decoders accept the same byte strings, each as the
    same packet, and what they accept encodes to the byte string it came from. What
    `receive_bytes` goes on with is what its decoder answers. -/
theorem wire_format (maxPayloadBytes : Nat) :
    (∀ p : SyncPacket, 1 ≤ p.payload.length → p.payload.length ≤ maxPayloadBytes →
      p.payload.length ≤ u32Max → ∃ bytes, encodePacket p = .ok bytes ∧
        decodePacket bytes maxPayloadBytes = .ok p ∧
        decodeBytes bytes maxPayloadBytes = .ok p) ∧
    (∀ (bytes : List UInt8) (p : SyncPacket),
      (decodePacket bytes maxPayloadBytes = .ok p ↔ decodeBytes bytes maxPayloadBytes = .ok p) ∧
      (decodePacket bytes maxPayloadBytes = .ok p → encodePacket p = .ok bytes)) ∧
    ∀ (r : Replicator) (disk : DiskWrite) (bytes : List UInt8),
      r.receiveBytes disk bytes =
        match decodeBytes bytes r.config.maxPayloadBytes with
        | .error error => (.error error, r.rejectReceive)
        | .ok packet => (.ok (r.receive disk packet).1, (r.receive disk packet).2) := by
  refine ⟨?_, ?_, ?_⟩
  · intro p hpos hle hlen
    have hne : p.payload ≠ [] := List.ne_nil_of_length_pos hpos
    have hdecode := decodePacket_bytes ⟨hne, hle⟩ hlen
    exact ⟨p.bytes, encodePacket_of_fits ⟨hne, hlen⟩, hdecode, decodeBytes_eq_ok_iff.mpr hdecode⟩
  · intro bytes p
    exact ⟨decodeBytes_eq_ok_iff.symm, fun h => (decodePacket_eq_ok_iff.mp h).2⟩
  · exact Replicator.receiveBytes_eq

/-- A packet of one byte under a limit of four. -/
theorem wire_format_one_byte :
    ∃ bytes, encodePacket ⟨1, 0, .event, 7, [9]⟩ = .ok bytes ∧
      decodePacket bytes 4 = .ok ⟨1, 0, .event, 7, [9]⟩ ∧
      decodeBytes bytes 4 = .ok ⟨1, 0, .event, 7, [9]⟩ :=
  (wire_format 4).1 ⟨1, 0, .event, 7, [9]⟩ (Nat.le_refl 1) (Nat.le_add_left 1 3)
    (Nat.le_add_left 1 4294967294)

end Sync
end EngineKit
