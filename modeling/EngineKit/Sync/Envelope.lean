import EngineKit.Sync.Attach

/-!
# The authenticated envelope

    session nonce, 16 bytes | packet | tag of both, 32 bytes

`encode_authenticated_packet` seals a packet (`sealed`), `receive_authenticated_bytes` opens one.
The tag function is abstract and nothing is assumed of it; its comparison is the trait's default,
which is equality (`defaultVerifyTag_iff`). With that, opening inverts sealing on the bytes alone
(`receiveAuthenticatedBytes_sealed`, `receiveAuthenticatedBytes_cases`), and what is left is the
wire format of `Sync/Wire.lean` and the checks of `receive`.

That a tag cannot be forged is no part of this, and neither is needed for the last law: while
the session lasts `last_received` only grows, so no sequence number is returned twice.

Opening is stated on bytes: either they are the sealing of some body in this session, or the answer
is an error. The two lemmas together say that the function is the partial inverse of `sealed`, and
after them no proof takes an envelope apart again.
-/

set_option autoImplicit false

namespace EngineKit
namespace Sync

open Lib

/-! ## Tags -/

/-- No difference was found in any pair. -/
theorem foldl_difference_eq_zero_iff (pairs : List (UInt8 × UInt8)) (different : UInt8) :
    pairs.foldl (fun different pair => different ||| (pair.1 ^^^ pair.2)) different = 0 ↔
      different = 0 ∧ ∀ pair ∈ pairs, pair.1 = pair.2 := by
  induction pairs generalizing different with
  | nil => simp
  | cons pair pairs ih =>
    rw [List.foldl_cons, ih, UInt8.or_eq_zero_iff, UInt8.xor_eq_zero_iff, List.forall_mem_cons,
      and_assoc]

/-- Two lists of one length, byte by byte. -/
theorem eq_iff_forall_mem_zip {xs ys : List UInt8} (h : xs.length = ys.length) :
    (∀ pair ∈ xs.zip ys, pair.1 = pair.2) ↔ xs = ys := by
  induction xs generalizing ys with
  | nil =>
    cases ys with
    | nil => simp
    | cons y ys => exact absurd h (by simp)
  | cons x xs ih =>
    cases ys with
    | nil => exact absurd h (by simp)
    | cons y ys =>
      rw [List.zip_cons_cons, List.forall_mem_cons, ih (Nat.succ.inj h), List.cons.injEq]

/-- **The comparison without an early exit is equality.** -/
theorem defaultVerifyTag_iff {tag : List UInt8 → Vector UInt8 32} {message : List UInt8}
    {expected : Vector UInt8 32} :
    defaultVerifyTag tag message expected = true ↔ tag message = expected := by
  rw [defaultVerifyTag, beq_iff_eq, foldl_difference_eq_zero_iff,
    eq_iff_forall_mem_zip (by simp), Vector.toList_inj]
  exact ⟨fun h => h.2, fun h => ⟨rfl, h⟩⟩

/-! ## Sealing -/

/-- `encode_authenticated_packet`. -/
def encodeAuthenticatedPacket (packet : SyncPacket) (nonce : Vector UInt8 16)
    (authenticator : SyncAuthenticator) : Except SyncError (List UInt8) :=
  match encodePacket packet with
  | .error error => .error error
  | .ok encoded =>
    match checkedAdd 16 encoded.length with
    | none => .error .payloadTooLarge
    | some signedLen =>
      match checkedAdd signedLen 32 with
      | none => .error .payloadTooLarge
      | some _ =>
        let signed := nonce.toList ++ encoded
        .ok (signed ++ (authenticator.authenticationTag signed).toList)

def sealed (tag : List UInt8 → Vector UInt8 32) (nonce : Vector UInt8 16) (body : List UInt8) :
    List UInt8 :=
  nonce.toList ++ body ++ (tag (nonce.toList ++ body)).toList

/-- What is encoded is sealed. -/
theorem encodeAuthenticatedPacket_eq_ok {p : SyncPacket} {nonce : Vector UInt8 16}
    {authenticator : SyncAuthenticator} {bytes : List UInt8}
    (h : encodeAuthenticatedPacket p nonce authenticator = .ok bytes) :
    ∃ encoded, encodePacket p = .ok encoded ∧
      bytes = sealed authenticator.authenticationTag nonce encoded := by
  unfold encodeAuthenticatedPacket at h
  split at h
  · exact absurd h (by simp)
  · next encoded hencoded =>
    split at h
    · exact absurd h (by simp)
    · split at h
      · exact absurd h (by simp)
      · exact ⟨encoded, hencoded, (Except.ok.inj h).symm⟩

/-! ## Opening -/

namespace Replicator

variable {tag : List UInt8 → Vector UInt8 32}

/-- **What is sealed opens**, in the session it was sealed for. -/
theorem receiveAuthenticatedBytes_sealed {r : Replicator} {nonce : Vector UInt8 16}
    (hsession : r.sessionNonce = some nonce) (disk : DiskWrite) (body : List UInt8) :
    r.receiveAuthenticatedBytes disk { authenticationTag := tag } (sealed tag nonce body) =
      r.receiveBytes disk body := by
  have hsigned : (nonce.toList ++ body).length = 16 + body.length := by simp
  have hlen : (sealed tag nonce body).length = 16 + body.length + 32 := by
    simp [sealed, Nat.add_assoc]
  have hend : (sealed tag nonce body).length - 32 = (nonce.toList ++ body).length := by omega
  have hnonce : (sealed tag nonce body).take 16 = nonce.toList := by simp [sealed]
  have htake : (sealed tag nonce body).take (nonce.toList ++ body).length =
      nonce.toList ++ body := List.take_left
  have hdrop : (sealed tag nonce body).drop (nonce.toList ++ body).length =
      (tag (nonce.toList ++ body)).toList := List.drop_left
  have hbody : (sealed tag nonce body).extract 16 (nonce.toList ++ body).length = body := by
    rw [List.extract, hsigned, Nat.add_sub_cancel_left, sealed, List.append_assoc,
      List.drop_left' (by simp), List.take_left]
  unfold receiveAuthenticatedBytes
  rw [dif_neg (by omega), hsession]
  simp only [hnonce, ne_eq, not_true_eq_false, if_false, hend, htake, hbody]
  rw [if_neg]
  simp only [Bool.not_eq_true', Bool.not_eq_false]
  refine defaultVerifyTag_iff.mpr (Vector.toList_inj.mp ?_)
  simpa using hdrop.symm

/-- **Nothing else opens.** -/
theorem receiveAuthenticatedBytes_cases (r : Replicator)
    (tag : List UInt8 → Vector UInt8 32) (disk : DiskWrite) (bytes : List UInt8) :
    (∃ nonce body, r.sessionNonce = some nonce ∧ bytes = sealed tag nonce body) ∨
      ∃ error, r.receiveAuthenticatedBytes disk { authenticationTag := tag } bytes =
          (.error error, r) ∨
        r.receiveAuthenticatedBytes disk { authenticationTag := tag } bytes =
          (.error error, r.rejectReceive) := by
  unfold receiveAuthenticatedBytes
  -- Too short, no session, another nonce, another tag; and if none of these, sealed.
  split
  · exact Or.inr ⟨_, Or.inr rfl⟩
  · next hlong =>
    cases hnonce : r.sessionNonce with
    | none => exact Or.inr ⟨_, Or.inl rfl⟩
    | some nonce =>
      simp only
      split
      · exact Or.inr ⟨_, Or.inr rfl⟩
      · next hprefix =>
        split
        · exact Or.inr ⟨_, Or.inr rfl⟩
        · next htag =>
          refine Or.inl ⟨nonce, bytes.extract 16 (bytes.length - 32), rfl, ?_⟩
          simp only [Bool.not_eq_true', Bool.not_eq_false] at htag
          have hsigned : bytes.take (bytes.length - 32) =
              nonce.toList ++ bytes.extract 16 (bytes.length - 32) := by
            rw [← List.take_append_drop 16 (bytes.take (bytes.length - 32)), List.take_take,
              Nat.min_eq_left (by omega), not_not.mp hprefix, List.drop_take]
          have heq := defaultVerifyTag_iff.mp htag
          rw [sealed, ← hsigned, heq]
          simp

/-! ## Receiving -/

/-- The packet that is returned is the one that was admissible. -/
theorem receive_fst (r : Replicator) (disk : DiskWrite) (p : SyncPacket) :
    (r.receive disk p).1 = if r.Accepts p then some p else none := by
  unfold receive
  -- The checks in the order of the source. What fails one of them gives no packet.
  by_cases hpayload : p.payload.isEmpty ∨ r.config.maxPayloadBytes < p.payload.length
  · rw [if_pos hpayload, if_neg]
    intro hall
    obtain ⟨hne, hle, -⟩ := hall
    rcases hpayload with h | h
    · exact hne (by simpa using h)
    · omega
  · rw [if_neg hpayload]
    simp only [List.isEmpty_iff, not_or, Nat.not_lt] at hpayload
    by_cases hseq : p.sequence ≤ r.lastReceived
    · rw [if_pos hseq, if_neg]
      exact fun h => absurd h.2.2 (UInt64.not_lt.mpr hseq)
    · have haccepts : r.Accepts p := ⟨hpayload.1, hpayload.2, UInt64.not_le.mp hseq⟩
      rw [if_neg hseq, if_pos haccepts]
      simp only
      split
      · rfl
      · rfl

/-- **What authenticates is a packet this session's nonce was sealed with**, newer than what was
    received. -/
theorem eq_sealed_of_receiveAuthenticatedBytes {r : Replicator} {disk : DiskWrite}
    {bytes : List UInt8} {p : SyncPacket}
    (h : (r.receiveAuthenticatedBytes disk { authenticationTag := tag } bytes).1 =
      .ok (some p)) :
    ∃ nonce encoded, r.sessionNonce = some nonce ∧ encodePacket p = .ok encoded ∧
      bytes = sealed tag nonce encoded ∧ r.lastReceived < p.sequence := by
  -- What is sealed is decoded and received; the rest is an error and no packet.
  rcases r.receiveAuthenticatedBytes_cases tag disk bytes with
    ⟨nonce, body, hnonce, rfl⟩ | ⟨error, herror | herror⟩
  · rw [receiveAuthenticatedBytes_sealed hnonce, receiveBytes_eq] at h
    cases hdecode : decodeBytes body r.config.maxPayloadBytes with
    | error error =>
      rw [hdecode] at h
      exact absurd h (by simp)
    | ok q =>
      simp only [hdecode, receive_fst, Except.ok.injEq] at h
      split at h
      · next haccepts =>
        cases Option.some.inj h
        have hencode := (decodePacket_eq_ok_iff.mp (decodeBytes_eq_ok_iff.mp hdecode)).2
        exact ⟨nonce, body, hnonce, hencode, rfl, haccepts.2.2⟩
      · exact absurd h (by simp)
  · rw [herror] at h
    exact absurd h (by simp)
  · rw [herror] at h
    exact absurd h (by simp)

/-- **What is sealed for this session is received**, if it is admissible and new. -/
theorem receiveAuthenticatedBytes_encode {r : Replicator} {nonce : Vector UInt8 16}
    {p : SyncPacket} {bytes : List UInt8}
    (hencode : encodeAuthenticatedPacket p nonce { authenticationTag := tag } = .ok bytes)
    (hsession : r.sessionNonce = some nonce) (haccepts : r.Accepts p) (disk : DiskWrite) :
    (r.receiveAuthenticatedBytes disk { authenticationTag := tag } bytes).1 = .ok (some p) := by
  obtain ⟨encoded, hencoded, rfl⟩ := encodeAuthenticatedPacket_eq_ok hencode
  have hdecode : decodeBytes encoded r.config.maxPayloadBytes = .ok p :=
    decodeBytes_eq_ok_iff.mpr (decodePacket_eq_ok_iff.mpr
      ⟨⟨haccepts.1, haccepts.2.1⟩, hencoded⟩)
  rw [receiveAuthenticatedBytes_sealed hsession, receiveBytes_eq, hdecode]
  simp only [receive_fst, if_pos haccepts]

/-- **An error changes nothing but a count.** -/
theorem receiveAuthenticatedBytes_error {r : Replicator} {disk : DiskWrite} {bytes : List UInt8}
    {error : SyncError}
    (h : (r.receiveAuthenticatedBytes disk { authenticationTag := tag } bytes).1 =
      .error error) :
    ∃ n, (r.receiveAuthenticatedBytes disk { authenticationTag := tag } bytes).2 =
      { r with stats.rejectedReceive := n } := by
  rcases r.receiveAuthenticatedBytes_cases tag disk bytes with
    ⟨nonce, body, hnonce, rfl⟩ | ⟨error, herror | herror⟩
  · rw [receiveAuthenticatedBytes_sealed hnonce, receiveBytes_eq] at h ⊢
    cases hdecode : decodeBytes body r.config.maxPayloadBytes with
    | error error => exact ⟨_, rfl⟩
    | ok q =>
      rw [hdecode] at h
      exact absurd h (by simp)
  · rw [herror]
    exact ⟨r.stats.rejectedReceive, rfl⟩
  · rw [herror]
    exact ⟨r.stats.rejectedReceive + 1, rfl⟩

/-! ## Returned once -/

/-- The packets returned along a run, first to last. -/
def returned : Replicator → List Event → List SyncPacket
  | _, [] => []
  | r, e :: events => (r.react e).1.received.toList ++ (r.react e).2.returned events

/-- **What an event does to `last_received`**, other than change the session. -/
theorem react_lastReceived_cases (r : Replicator) (e : Event) (he : e.changesSession = false) :
    ((r.react e).1.received = none ∧ (r.react e).2.lastReceived = r.lastReceived) ∨
      ∃ p, (r.react e).1.received = some p ∧ r.lastReceived < p.sequence ∧
        (r.react e).2.lastReceived = p.sequence := by
  have hcall : ∀ c : Call, c.changesSession = false →
      ((r.call c).1.received = none ∧ (r.call c).2.lastReceived = r.lastReceived) ∨
        ∃ p, (r.call c).1.received = some p ∧ r.lastReceived < p.sequence ∧
          (r.call c).2.lastReceived = p.sequence := by
    intro c hc
    rcases (r.effect_call c).lastReceived_cases hc with h | ⟨p, -, haccepts, ho, hlast⟩
    · exact Or.inl h
    · exact Or.inr ⟨p, ho, haccepts.2.2, hlast⟩
  have hreaction := r.reaction_react e
  generalize r.react e = result, r.recoveredBy e = recovered at hreaction
  obtain ⟨o, r'⟩ := result
  -- Only a call can receive a packet, and only `receive` does.
  cases hreaction with
  | call c => exact hcall c he
  | received disk bytes p => exact hcall (.receive disk p) rfl
  | rejected disk bytes => exact Or.inl ⟨rfl, rfl⟩
  | refused wal => exact Or.inl ⟨rfl, rfl⟩
  | attached h => exact Or.inl ⟨rfl, rfl⟩

/-- **While a session lasts, the numbers returned grow.** -/
theorem returned_increasing (r : Replicator) (events : List Event)
    (hsession : ∀ e ∈ events, e.changesSession = false) :
    (sequences (r.returned events)).Pairwise (· < ·) ∧
      ∀ p ∈ r.returned events, r.lastReceived < p.sequence := by
  -- On the events: what is returned later is newer than what was received by now.
  induction events generalizing r with
  | nil => exact ⟨.nil, by simp [returned]⟩
  | cons e events ih =>
    obtain ⟨he, hrest⟩ := List.forall_mem_cons.mp hsession
    obtain ⟨hpairwise, hbelow⟩ := ih (r.react e).2 hrest
    unfold returned
    rcases r.react_lastReceived_cases e he with ⟨hnone, hlast⟩ | ⟨p, hsome, hlt, hlast⟩
    · rw [hnone, ← hlast]
      exact ⟨hpairwise, hbelow⟩
    · rw [hlast] at hbelow
      rw [hsome]
      refine ⟨List.pairwise_cons.mpr ⟨?_, hpairwise⟩, List.forall_mem_cons.mpr ⟨hlt, ?_⟩⟩
      · intro s hs
        obtain ⟨q, hq, rfl⟩ := List.mem_map.mp hs
        exact hbelow q hq
      · exact fun q hq => UInt64.lt_trans hlt (hbelow q hq)

end Replicator

/-- **The authenticated wire.** For any tag function: what is returned was sealed with the
    session's nonce and is newer than what was received; what was sealed so, and is admissible
    and newer, is returned; an error changes nothing but the count of rejected packets; and no
    sequence number is returned twice while the session lasts. -/
theorem authenticated_receive (tag : List UInt8 → Vector UInt8 32) :
    (∀ (r : Replicator) (disk : DiskWrite) (bytes : List UInt8) (p : SyncPacket),
      (r.receiveAuthenticatedBytes disk { authenticationTag := tag } bytes).1 = .ok (some p) →
      ∃ nonce encoded, r.sessionNonce = some nonce ∧ encodePacket p = .ok encoded ∧
        bytes = nonce.toList ++ encoded ++ (tag (nonce.toList ++ encoded)).toList ∧
        r.lastReceived < p.sequence) ∧
    (∀ (r : Replicator) (disk : DiskWrite) (nonce : Vector UInt8 16) (p : SyncPacket)
      (bytes : List UInt8),
      encodeAuthenticatedPacket p nonce { authenticationTag := tag } = .ok bytes →
      r.sessionNonce = some nonce → p.payload ≠ [] →
      p.payload.length ≤ r.config.maxPayloadBytes → r.lastReceived < p.sequence →
      (r.receiveAuthenticatedBytes disk { authenticationTag := tag } bytes).1 = .ok (some p)) ∧
    (∀ (r : Replicator) (disk : DiskWrite) (bytes : List UInt8) (error : SyncError),
      (r.receiveAuthenticatedBytes disk { authenticationTag := tag } bytes).1 = .error error →
      ∃ n, (r.receiveAuthenticatedBytes disk { authenticationTag := tag } bytes).2 =
        { r with stats.rejectedReceive := n }) ∧
    ∀ (r : Replicator) (events : List Event), (∀ e ∈ events, e.changesSession = false) →
      (sequences (r.returned events)).Nodup := by
  refine ⟨?_, ?_, ?_, ?_⟩
  · intro r disk bytes p h
    exact Replicator.eq_sealed_of_receiveAuthenticatedBytes h
  · intro r disk nonce p bytes hencode hsession hne hle hlt
    exact Replicator.receiveAuthenticatedBytes_encode hencode hsession ⟨hne, hle, hlt⟩ disk
  · intro r disk bytes error h
    exact Replicator.receiveAuthenticatedBytes_error h
  · intro r events hsession
    exact (r.returned_increasing events hsession).1.imp fun hlt heq =>
      absurd (heq ▸ hlt) (UInt64.lt_irrefl _)

/-- A tag of the message's bytes, all added up. -/
def sumTag (message : List UInt8) : Vector UInt8 32 :=
  Vector.replicate 32 (message.foldl (· + ·) 0)

def pairedReplicator : Replicator :=
  (Replicator.blank SyncConfig.default).setSessionNonce (Vector.replicate 16 5)

/-- A packet sealed for the session, and received. -/
theorem pairedReplicator_receives :
    (pairedReplicator.receiveAuthenticatedBytes .complete { authenticationTag := sumTag }
        (sealed sumTag (Vector.replicate 16 5)
          (SyncPacket.bytes ⟨1, 0, .event, 9, [7, 8]⟩))).1 =
      .ok (some ⟨1, 0, .event, 9, [7, 8]⟩) :=
  (authenticated_receive sumTag).2.1 pairedReplicator .complete (Vector.replicate 16 5)
    ⟨1, 0, .event, 9, [7, 8]⟩ _ rfl rfl (List.cons_ne_nil 7 [8]) (by decide) (by decide)

end Sync
end EngineKit
