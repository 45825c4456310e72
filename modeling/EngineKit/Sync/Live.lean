import EngineKit.Sync.WalFacts

/-!
# What a log means: its live packets

The purpose of the log, stated without bytes. A list of records denotes the packets still owed
to the peer: a packet with a new sequence number joins at the end, a packet whose sequence is
already live takes that entry's place, an ACK removes everything up to its sequence
(`liveStep`, folded by `liveAfter`; `live` starts from nothing).

`replay` computes exactly this (`replay_eq_live`), up to the one thing the abstract fold does
not know, the handle's bound on the number of live entries (`WithinRecords`). The bridge needs
one invariant — live sequence numbers are pairwise distinct (`nodup_liveAfter`) — because the
code overwrites the *first* entry of a sequence and the fold overwrites *the* entry.

`replay_take` is the crash-prefix law: a log cut at any byte replays to the fold of the records
the cut left whole.
-/

set_option autoImplicit false

namespace EngineKit
namespace Sync

open Lib

/-! ## The fold -/

abbrev sequences (ps : List SyncPacket) : List UInt64 := ps.map SyncPacket.sequence

/-- One record's effect on the live packets. -/
def liveStep (ps : List SyncPacket) : WalRecord → List SyncPacket
  | .packet p =>
    if p.sequence ∈ sequences ps then
      ps.map fun q => if q.sequence = p.sequence then p else q
    else ps ++ [p]
  | .ack s => ps.filter fun p => s < p.sequence

def liveAfter (ps : List SyncPacket) (rs : List WalRecord) : List SyncPacket :=
  rs.foldl liveStep ps

/-- **The live packets of a log.** -/
def live (rs : List WalRecord) : List SyncPacket := liveAfter [] rs

/-- The number of live packets never exceeds `max` along the fold. -/
def WithinRecords (max : Nat) : List SyncPacket → List WalRecord → Prop
  | ps, [] => ps.length ≤ max
  | ps, r :: rs => ps.length ≤ max ∧ WithinRecords max (liveStep ps r) rs

instance WithinRecords.instDecidable (max : Nat) :
    (ps : List SyncPacket) → (rs : List WalRecord) → Decidable (WithinRecords max ps rs)
  | ps, [] => inferInstanceAs (Decidable (ps.length ≤ max))
  | ps, r :: rs =>
    have := WithinRecords.instDecidable max (liveStep ps r) rs
    inferInstanceAs (Decidable (_ ∧ _))

theorem liveStep_packet_of_mem {ps : List SyncPacket} {p : SyncPacket}
    (h : p.sequence ∈ sequences ps) :
    liveStep ps (.packet p) = ps.map fun q => if q.sequence = p.sequence then p else q :=
  if_pos h

theorem liveStep_packet_of_not_mem {ps : List SyncPacket} {p : SyncPacket}
    (h : p.sequence ∉ sequences ps) : liveStep ps (.packet p) = ps ++ [p] :=
  if_neg h

@[simp] theorem liveStep_ack (ps : List SyncPacket) (s : UInt64) :
    liveStep ps (.ack s) = ps.filter fun p => s < p.sequence := rfl

@[simp] theorem liveAfter_nil (ps : List SyncPacket) : liveAfter ps [] = ps := rfl

@[simp] theorem liveAfter_cons (ps : List SyncPacket) (r : WalRecord) (rs : List WalRecord) :
    liveAfter ps (r :: rs) = liveAfter (liveStep ps r) rs := rfl

theorem liveAfter_append (ps : List SyncPacket) (rs rs' : List WalRecord) :
    liveAfter ps (rs ++ rs') = liveAfter (liveAfter ps rs) rs' :=
  List.foldl_append

theorem live_append (rs rs' : List WalRecord) : live (rs ++ rs') = liveAfter (live rs) rs' :=
  liveAfter_append [] rs rs'

theorem live_snoc (rs : List WalRecord) (r : WalRecord) :
    live (rs ++ [r]) = liveStep (live rs) r :=
  live_append rs [r]

/-! ## Live sequence numbers are distinct -/

theorem sequences_overwrite (ps : List SyncPacket) (p : SyncPacket) :
    sequences (ps.map fun q => if q.sequence = p.sequence then p else q) = sequences ps := by
  rw [sequences, List.map_map]
  refine List.map_congr_left ?_
  intro q _
  by_cases hq : q.sequence = p.sequence <;> simp [hq]

theorem nodup_liveStep {ps : List SyncPacket} (h : (sequences ps).Nodup) (r : WalRecord) :
    (sequences (liveStep ps r)).Nodup := by
  cases r with
  | packet p =>
    by_cases hold : p.sequence ∈ sequences ps
    · rw [liveStep_packet_of_mem hold, sequences_overwrite]
      exact h
    · rw [liveStep_packet_of_not_mem hold, sequences, List.map_append, List.nodup_append]
      refine ⟨h, by simp, ?_⟩
      rintro a ha b hb rfl
      simp only [List.map_cons, List.map_nil, List.mem_singleton] at hb
      exact hold (hb ▸ ha)
  | ack s => exact h.sublist (List.filter_sublist.map _)

theorem nodup_liveAfter {ps : List SyncPacket} (h : (sequences ps).Nodup)
    (rs : List WalRecord) : (sequences (liveAfter ps rs)).Nodup := by
  induction rs generalizing ps with
  | nil => exact h
  | cons r rs ih => exact ih (nodup_liveStep h r)

theorem nodup_live (rs : List WalRecord) : (sequences (live rs)).Nodup :=
  nodup_liveAfter (by simp) rs

/-! ## The code's step is the abstract one -/

theorem updateFirst_eq_map {ps ps' : List SyncPacket} {p : SyncPacket}
    (hnd : (sequences ps).Nodup)
    (h : updateFirst (fun q => decide (q.sequence = p.sequence)) (fun _ => p) ps = some ps') :
    p.sequence ∈ sequences ps ∧
      ps' = ps.map fun q => if q.sequence = p.sequence then p else q := by
  obtain ⟨pre, x, post, rfl, hpre, hx, rfl⟩ := updateFirst_eq_some_iff.mp h
  have hxp : x.sequence = p.sequence := by simpa using hx
  simp only [sequences, List.map_append, List.map_cons] at hnd ⊢
  have hpost : ∀ q ∈ post, q.sequence ≠ p.sequence := by
    intro q hq heq
    have hnot := (List.nodup_cons.mp (List.nodup_append.mp hnd).2.1).1
    exact hnot (hxp ▸ heq ▸ List.mem_map_of_mem hq)
  have hpre' : pre.map (fun q => if q.sequence = p.sequence then p else q) = pre :=
    (List.map_congr_left fun q hq => if_neg (by simpa using hpre q hq)).trans (List.map_id _)
  have hpost' : post.map (fun q => if q.sequence = p.sequence then p else q) = post :=
    (List.map_congr_left fun q hq => if_neg (hpost q hq)).trans (List.map_id _)
  refine ⟨by simp [hxp], ?_⟩
  rw [hpre', hpost', if_pos hxp]

/-- **The refinement step.** `replay`'s arm for a record is the abstract step, or the bound on
    live entries refused a new one. -/
theorem applyRecord_eq {max : Nat} {ps : List SyncPacket} (hnd : (sequences ps).Nodup)
    (hle : ps.length ≤ max) (r : WalRecord) :
    (applyRecord max ps r = .ok (liveStep ps r) ∧ (liveStep ps r).length ≤ max) ∨
      (applyRecord max ps r = .error .tooManyRecords ∧ ¬ (liveStep ps r).length ≤ max) := by
  cases r with
  | ack s =>
    refine Or.inl ⟨rfl, Nat.le_trans ?_ hle⟩
    exact List.length_filter_le _ _
  | packet p =>
    simp only [applyRecord]
    cases hu : updateFirst (fun q => decide (q.sequence = p.sequence)) (fun _ => p) ps with
    | some ps' =>
      obtain ⟨hmem, rfl⟩ := updateFirst_eq_map hnd hu
      rw [liveStep_packet_of_mem hmem, List.length_map]
      exact Or.inl ⟨rfl, hle⟩
    | none =>
      have hnew : p.sequence ∉ sequences ps := by
        intro hmem
        obtain ⟨q, hq, heq⟩ := List.mem_map.mp hmem
        simpa [heq] using updateFirst_eq_none_iff.mp hu q hq
      rw [liveStep_packet_of_not_mem hnew, List.length_append, List.length_singleton]
      -- A new entry is the one thing the bound can refuse.
      by_cases hfull : max ≤ ps.length
      · exact Or.inr ⟨if_pos hfull, by omega⟩
      · exact Or.inl ⟨if_neg hfull, by omega⟩

theorem withinRecords_length {max : Nat} {ps : List SyncPacket} {rs : List WalRecord}
    (h : WithinRecords max ps rs) : ps.length ≤ max := by
  cases rs with
  | nil => exact h
  | cons r rs => exact h.1

/-- **The refinement run.** Folding records as `replay` does gives the live packets when the
    bound is kept along the way, and otherwise the one error the bound has. -/
theorem applyAll_eq {max : Nat} (rs : List WalRecord) {ps : List SyncPacket}
    (hnd : (sequences ps).Nodup) (hle : ps.length ≤ max) :
    (applyAll (applyRecord max) ps rs = .ok (liveAfter ps rs) ∧ WithinRecords max ps rs) ∨
      (applyAll (applyRecord max) ps rs = .error .tooManyRecords ∧
        ¬ WithinRecords max ps rs) := by
  induction rs generalizing ps with
  | nil => exact Or.inl ⟨rfl, hle⟩
  | cons r rs ih =>
    rw [applyAll]
    rcases applyRecord_eq hnd hle r with ⟨hok, hlen⟩ | ⟨herr, hlen⟩
    · rw [hok]
      rcases ih (nodup_liveStep hnd r) hlen with ⟨h, hw⟩ | ⟨h, hw⟩
      · exact Or.inl ⟨h, hle, hw⟩
      · exact Or.inr ⟨h, fun hc => hw hc.2⟩
    · rw [herr]
      exact Or.inr ⟨rfl, fun hc => hlen (withinRecords_length hc.2)⟩

theorem withinRecords_append {max : Nat} {rs rs' : List WalRecord} {ps : List SyncPacket} :
    WithinRecords max ps (rs ++ rs') ↔
      WithinRecords max ps rs ∧ WithinRecords max (liveAfter ps rs) rs' := by
  induction rs generalizing ps with
  | nil => exact ⟨fun h => ⟨withinRecords_length h, h⟩, fun h => h.2⟩
  | cons r rs ih =>
    simp only [List.cons_append, WithinRecords, liveAfter_cons, ih, and_assoc]

/-! ## Replay -/

/-- **Replay of whole records and an incomplete end is the fold of the records.** -/
theorem SyncWal.replay_eq_live (wal : SyncWal) (hlimit : wal.maxPayloadBytes + 30 < 2 ^ 64)
    {rs : List WalRecord} (hfits : ∀ r ∈ rs, r.Fits wal.maxPayloadBytes) {tail : List UInt8}
    (htail : Incomplete wal.maxPayloadBytes tail)
    (hfile : wal.file = encodeAll WalRecord.bytes rs ++ tail) :
    (wal.replay = .ok (live rs) ∧ WithinRecords wal.maxRecords [] rs) ∨
      (wal.replay = .error .tooManyRecords ∧ ¬ WithinRecords wal.maxRecords [] rs) := by
  have hscan : wal.replay = applyAll (applyRecord wal.maxRecords) [] rs := by
    rw [replay, hfile, scan_append (readRecord_consumes hlimit) (readRecord_bytes hlimit) _ _
      hfits]
    cases applyAll (applyRecord wal.maxRecords) [] rs with
    | error error => rfl
    | ok ps => exact scan_stop ((readRecord_eq_stop_iff hlimit).mpr htail)
  rw [hscan]
  exact applyAll_eq rs (by simp) (Nat.zero_le _)

theorem incomplete_nil (limit : Nat) : Incomplete limit [] := Or.inl (by simp [walHeader])

theorem SyncWal.replay_eq_live_of_whole (wal : SyncWal)
    (hlimit : wal.maxPayloadBytes + 30 < 2 ^ 64) {rs : List WalRecord}
    (hfits : ∀ r ∈ rs, r.Fits wal.maxPayloadBytes)
    (hfile : wal.file = encodeAll WalRecord.bytes rs) :
    (wal.replay = .ok (live rs) ∧ WithinRecords wal.maxRecords [] rs) ∨
      (wal.replay = .error .tooManyRecords ∧ ¬ WithinRecords wal.maxRecords [] rs) :=
  wal.replay_eq_live hlimit hfits (incomplete_nil _) (by simpa using hfile)

/-! ## A crash at any byte -/

/-- The records wholly contained in the first `n` bytes of a log. -/
def wholeRecords : Nat → List WalRecord → List WalRecord
  | _, [] => []
  | n, r :: rs =>
    if r.bytes.length ≤ n then r :: wholeRecords (n - r.bytes.length) rs else []

theorem wholeRecords_initial (n : Nat) (rs : List WalRecord) : wholeRecords n rs <+: rs := by
  induction rs generalizing n with
  | nil => exact List.nil_prefix
  | cons r rs ih =>
    unfold wholeRecords
    split
    · exact (List.prefix_cons_inj r).mpr (ih _)
    · exact List.nil_prefix

/-- Cutting a log leaves its whole records and something incomplete. -/
theorem take_encodeAll {limit : Nat} (n : Nat) (rs : List WalRecord)
    (hfits : ∀ r ∈ rs, r.Fits limit) :
    ∃ tail, (encodeAll WalRecord.bytes rs).take n =
        encodeAll WalRecord.bytes (wholeRecords n rs) ++ tail ∧ Incomplete limit tail := by
  induction rs generalizing n with
  | nil => exact ⟨[], by simp [wholeRecords], incomplete_nil limit⟩
  | cons r rs ih =>
    rw [encodeAll, List.flatMap_cons, wholeRecords]
    by_cases hle : r.bytes.length ≤ n
    · obtain ⟨tail, htake, htail⟩ :=
        ih (n - r.bytes.length) fun r' hr' => hfits r' (List.mem_cons_of_mem _ hr')
      refine ⟨tail, ?_, htail⟩
      rw [if_pos hle, encodeAll, List.flatMap_cons, List.append_assoc, List.take_append,
        List.take_of_length_le hle]
      exact congrArg (r.bytes ++ ·) htake
    · -- The cut falls inside `r`, and nothing behind it is left.
      refine ⟨r.bytes.take n, ?_, incomplete_take_bytes (hfits r List.mem_cons_self) (by omega)⟩
      rw [if_neg hle, List.take_append_of_le_length (by omega)]
      rfl

/-- **The crash-prefix law.** Whatever sequence of `append` and `acknowledge` calls succeeded
    on an empty log, and wherever the file is then cut, replay answers the fold of the records
    the cut left whole. -/
theorem SyncWal.replay_take (wal : SyncWal) {wal' : SyncWal} (hempty : wal.file = [])
    (hlimit : wal.maxPayloadBytes ≤ u32Max) (calls : List (DiskWrite × WalRecord))
    (hcalls : wal.performAll calls = .ok wal') (n : Nat)
    (hwithin : WithinRecords wal.maxRecords [] (wholeRecords n (calls.map Prod.snd))) :
    SyncWal.replay { wal' with file := wal'.file.take n } =
      .ok (live (wholeRecords n (calls.map Prod.snd))) := by
  obtain ⟨hfits, rfl⟩ := performAll_eq_ok hcalls
  obtain ⟨tail, htake, htail⟩ := take_encodeAll n (calls.map Prod.snd) hfits
  have hsum : wal.maxPayloadBytes + 30 < 2 ^ 64 := by unfold u32Max at hlimit; omega
  have hwhole : ∀ r ∈ wholeRecords n (calls.map Prod.snd), r.Fits wal.maxPayloadBytes :=
    fun r hr => hfits r ((wholeRecords_initial n _).subset hr)
  simp only [hempty, List.nil_append]
  rcases SyncWal.replay_eq_live
      { wal with file := (encodeAll WalRecord.bytes (calls.map Prod.snd)).take n } hsum hwhole
      htail htake with ⟨h, -⟩ | ⟨-, h⟩
  · exact h
  · exact absurd hwithin h

/-- A packet appended and acknowledged, and the file cut inside the second record. -/
theorem SyncWal.replay_take_torn_ack :
    SyncWal.replay
        { maxPayloadBytes := 64, maxRecords := 4, maxRecords_pos := by decide,
          file := (encodeAll WalRecord.bytes
            [.packet ⟨1, 0, .event, 7, [1, 2, 3]⟩, .ack 1]).take 60 } =
      .ok [⟨1, 0, .event, 7, [1, 2, 3]⟩] :=
  SyncWal.replay_take
    { maxPayloadBytes := 64, maxRecords := 4, maxRecords_pos := by decide, file := [] }
    rfl (by decide) [(.complete, .packet ⟨1, 0, .event, 7, [1, 2, 3]⟩), (.complete, .ack 1)]
    rfl 60 (by decide)

end Sync
end EngineKit
