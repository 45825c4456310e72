import EngineKit.Sync.Opened

/-!
# First transmissions and the queue, as one list

A packet is numbered when it is queued, waits in the queue, is transmitted for the first time
when a pump moves it in flight, and may be transmitted again from there. Put what was
transmitted for the first time (`first`, in that order) in front of the queue: a pump moves
the boundary between the two and nothing else, an enqueue appends, and coalescing replaces a
payload in place. So the sequence numbers of `first ++ r.pending` only ever grow at the end
(`Effect.numbers`), and a retransmission is of a packet of `first` (`Effect.taken_eq`).

`Numbered` is the invariant this gives while `next_sequence` does not wrap: the numbers are
pairwise distinct and below the next one.
-/

set_option autoImplicit false

namespace EngineKit
namespace Sync

open Lib

def Output.taken (o : Output) : List SyncPacket :=
  (o.handed.filter fun x => x.2).map Prod.fst

namespace Replicator

variable {r r' : Replicator} {c : Call} {o : Output}

/-- **What a call does to the numbers.** What leaves the queue leaves it at the front, and only a
    new packet changes the numbers: it takes the next one, at the end. -/
theorem Effect.numbers (h : Effect r c o r') :
    (sequences (o.fresh ++ r'.pending) = sequences r.pending ∧
        (r'.nextSequence = r.nextSequence ∨
          (∃ disk update, c = .enqueue disk update ∧ r.Takes update) ∧
            r'.nextSequence = r.successor)) ∨
      (∃ disk update, c = .enqueue disk update ∧ r.Takes update) ∧
        sequences (o.fresh ++ r'.pending) = sequences r.pending ++ [r.nextSequence] ∧
        r'.nextSequence = r.successor := by
  cases h with
  | idle mode stats hc => exact Or.inl ⟨rfl, Or.inl rfl⟩
  | burned htakes hspoils => exact Or.inl ⟨rfl, Or.inr ⟨⟨_, _, rfl, htakes⟩, rfl⟩⟩
  | spoiled hc hspoils => exact Or.inl ⟨rfl, Or.inl rfl⟩
  | enqueued stats htakes hlogs =>
    exact Or.inr ⟨⟨_, _, rfl, htakes⟩, by simp [sequences, nextPacket], rfl⟩
  | coalesced stats hpending hpre hold hlogs =>
    exact Or.inl ⟨by simp [sequences, hpending], Or.inl rfl⟩
  | pumped stats hpending hinFlight hrest =>
    exact Or.inl ⟨by rw [hpending], Or.inl rfl⟩
  | acknowledged stats hlogs => exact Or.inl ⟨rfl, Or.inl rfl⟩
  | received hcarries haccepts hle => exact Or.inl ⟨rfl, Or.inl rfl⟩
  | receivedAck stats hcarries haccepts hlt hlogs => exact Or.inl ⟨rfl, Or.inl rfl⟩
  | receivedSpoiled hcarries haccepts hlt hspoils => exact Or.inl ⟨rfl, Or.inl rfl⟩
  | session nonce hc => exact Or.inl ⟨rfl, Or.inl rfl⟩

/-- **What a call does to the queue**, in terms of the updates it accepts: it appends the packet of
    a new one, writes a coalesced one over the packet it coalesces with, and otherwise changes
    nothing. -/
theorem Effect.queue (h : Effect r c o r') :
    (o.accepted = none ∧ o.fresh ++ r'.pending = r.pending) ∨
      (∃ disk update, c = .enqueue disk update ∧ r.Takes update ∧
        o.accepted = some r.nextSequence ∧
        o.fresh ++ r'.pending = r.pending ++ [r.nextPacket update]) ∨
      ∃ disk key payload pre old post, c = .enqueue disk (.delta key payload) ∧
        r.pending = pre ++ old :: post ∧ (∀ p ∈ pre, isDelta key p = false) ∧
        isDelta key old = true ∧ o.accepted = some old.sequence ∧
        o.fresh ++ r'.pending = pre ++ { old with payload } :: post := by
  cases h with
  | enqueued stats htakes hlogs => exact Or.inr (Or.inl ⟨_, _, rfl, htakes, rfl, rfl⟩)
  | coalesced stats hpending hpre hold hlogs =>
    exact Or.inr (Or.inr ⟨_, _, _, _, _, _, rfl, hpending, hpre, hold, rfl, rfl⟩)
  | pumped stats hpending hinFlight hrest => exact Or.inl ⟨rfl, hpending.symm⟩
  | _ => exact Or.inl ⟨rfl, rfl⟩

/-- What is in flight after a call was in flight before it, or was just transmitted. -/
theorem Effect.inFlight_subset (h : Effect r c o r') :
    r'.inFlight.map InFlight.packet ⊆ r.inFlight.map InFlight.packet ++ o.fresh := by
  have hfilter : ∀ s : UInt64,
      (r.inFlight.filter fun item => s < item.packet.sequence).map InFlight.packet ⊆
        r.inFlight.map InFlight.packet ++ [] := by
    intro s
    rw [List.append_nil]
    exact (List.filter_sublist.map _).subset
  cases h with
  | pumped stats hpending hinFlight hrest => exact hinFlight.subset
  | acknowledged stats hlogs => exact hfilter _
  | receivedAck stats hcarries haccepts hlt hlogs => exact hfilter _
  | _ => simp

/-- What a transport takes was in flight, or is transmitted for the first time; and what is
    transmitted for the first time is taken before anything is transmitted again. -/
theorem Effect.taken_eq (h : Effect r c o r') :
    ∃ again, o.taken = o.fresh ++ again ∧
      again ⊆ r.inFlight.map InFlight.packet ++ o.fresh := by
  cases h with
  | @pumped answers frame moved left inFlight rest stats hpending hinFlight hrest =>
    refine ⟨(rest.filter fun x => x.2).map Prod.fst, ?_, ?_⟩
    · have hall : (moved.map (·, true)).filter (fun x => x.2) = moved.map (·, true) :=
        List.filter_eq_self.mpr fun x hx => by
          obtain ⟨p, -, rfl⟩ := List.mem_map.mp hx
          rfl
      rw [Output.taken, List.filter_append, List.map_append, hall, List.map_map]
      exact congrArg (· ++ _) (List.map_id moved)
    · intro p hp
      obtain ⟨x, hx, rfl⟩ := List.mem_map.mp hp
      obtain ⟨hx, htaken⟩ := List.mem_filter.mp hx
      rcases hrest x hx with hin | ⟨-, hrefused⟩
      · exact hin
      · exact absurd (htaken.symm.trans hrefused) (by simp)
  | _ => exact ⟨[], rfl, by simp⟩

/-! ## The order on the wire -/

/-- Every packet taken was transmitted for the first time, and before it everything that was
    transmitted for the first time before it. -/
structure Transmitted (first wire : List SyncPacket) : Prop where
  subset : first ⊆ wire
  ordered : ∀ before p after, wire = before ++ p :: after →
    ∃ f g : List SyncPacket, first = f ++ p :: g ∧ f ⊆ before

theorem transmitted_nil : Transmitted [] [] := ⟨List.nil_subset _, by simp⟩

theorem Transmitted.again {first wire : List SyncPacket} (h : Transmitted first wire)
    {p : SyncPacket} (hp : p ∈ first) : Transmitted first (wire ++ [p]) := by
  refine ⟨fun q hq => List.mem_append_left _ (h.subset hq), ?_⟩
  intro before q after heq
  -- The packet looked at is the last one on the wire, or the wire had it before.
  rcases List.eq_nil_or_concat after with rfl | ⟨after, z, rfl⟩
  · obtain ⟨rfl, hpq⟩ := List.append_inj' heq rfl
    cases hpq
    obtain ⟨f, g, rfl⟩ := List.append_of_mem hp
    exact ⟨f, g, rfl, fun q hq => h.subset (List.mem_append_left _ hq)⟩
  · rw [List.concat_eq_append, ← List.cons_append, ← List.append_assoc] at heq
    exact h.ordered before q after (List.append_inj' heq rfl).1

theorem Transmitted.fresh {first wire : List SyncPacket} (h : Transmitted first wire)
    (p : SyncPacket) : Transmitted (first ++ [p]) (wire ++ [p]) := by
  refine ⟨?_, ?_⟩
  · intro q hq
    exact List.mem_append.mpr ((List.mem_append.mp hq).imp (fun hq => h.subset hq) id)
  intro before q after heq
  rcases List.eq_nil_or_concat after with rfl | ⟨after, z, rfl⟩
  · obtain ⟨rfl, hpq⟩ := List.append_inj' heq rfl
    cases hpq
    exact ⟨first, [], rfl, h.subset⟩
  · rw [List.concat_eq_append, ← List.cons_append, ← List.append_assoc] at heq
    obtain ⟨f, g, rfl, hf⟩ := h.ordered before q after (List.append_inj' heq rfl).1
    exact ⟨f, g ++ [p], by simp, hf⟩

/-- **One call keeps the order on the wire.** -/
theorem Transmitted.step {first wire : List SyncPacket} (h : Transmitted first wire)
    (hin : r.inFlight.map InFlight.packet ⊆ first) (heffect : Effect r c o r') :
    Transmitted (first ++ o.fresh) (wire ++ o.taken) := by
  have hfresh : ∀ (ps first wire : List SyncPacket), Transmitted first wire →
      Transmitted (first ++ ps) (wire ++ ps) := by
    intro ps
    induction ps with
    | nil => exact fun first wire h => by simpa using h
    | cons p ps ih => exact fun first wire h => by simpa using ih _ _ (h.fresh p)
  have hagain : ∀ (ps first wire : List SyncPacket), Transmitted first wire → ps ⊆ first →
      Transmitted first (wire ++ ps) := by
    intro ps
    induction ps with
    | nil => exact fun first wire h _ => by simpa using h
    | cons p ps ih =>
      intro first wire h hps
      have hp := List.cons_subset.mp hps
      simpa using ih _ _ (h.again hp.1) hp.2
  -- The first transmissions of a pump come before its retransmissions.
  obtain ⟨again, htaken, hsub⟩ := heffect.taken_eq
  rw [htaken, ← List.append_assoc]
  refine hagain again _ _ (hfresh o.fresh first wire h) ?_
  intro p hp
  exact List.mem_append.mpr ((List.mem_append.mp (hsub hp)).imp (fun hp => hin hp) id)

/-! ## Numbers that do not repeat -/

/-- No new packet takes the last sequence number. -/
def Unwrapped (r : Replicator) (c : Call) : Prop :=
  ∀ disk update, c = .enqueue disk update → r.Takes update → r.nextSequence ≠ lastSequence

/-- What was transmitted and what is queued is numbered without repetition, below the next
    number, and what is in flight was transmitted. -/
structure Numbered (first : List SyncPacket) (r : Replicator) : Prop where
  nodup : (sequences (first ++ r.pending)).Nodup
  below : ∀ s ∈ sequences (first ++ r.pending), s < r.nextSequence
  inFlight : r.inFlight.map InFlight.packet ⊆ first

theorem lt_successor (h : r.nextSequence ≠ lastSequence) : r.nextSequence < r.successor := by
  have := toNat_successor h
  exact UInt64.lt_iff_toNat_lt.mpr (by omega)

/-- **One call keeps the numbering.** -/
theorem Numbered.step {first : List SyncPacket} (h : Numbered first r)
    (hlast : r.Unwrapped c) (heffect : Effect r c o r') : Numbered (first ++ o.fresh) r' := by
  have hsplit : sequences (first ++ o.fresh ++ r'.pending) =
      sequences first ++ sequences (o.fresh ++ r'.pending) := by
    rw [List.append_assoc, sequences, List.map_append]
  have hbefore : sequences (first ++ r.pending) = sequences first ++ sequences r.pending :=
    List.map_append
  have hin : r'.inFlight.map InFlight.packet ⊆ first ++ o.fresh := by
    intro p hp
    rcases List.mem_append.mp (heffect.inFlight_subset hp) with hp | hp
    · exact List.mem_append_left _ (h.inFlight hp)
    · exact List.mem_append_right _ hp
  have hnodup := hbefore ▸ h.nodup
  have hbelow := hbefore ▸ h.below
  rcases heffect.numbers with ⟨hseq, hnext⟩ | ⟨⟨disk, update, rfl, htakes⟩, hseq, hnext⟩
  · refine ⟨by rw [hsplit, hseq]; exact hnodup, ?_, hin⟩
    rw [hsplit, hseq]
    rcases hnext with hnext | ⟨⟨disk, update, rfl, htakes⟩, hnext⟩
    · rw [hnext]
      exact hbelow
    · -- A number was taken and its packet not queued: the log refused the record.
      rw [hnext]
      exact fun s hs => UInt64.lt_trans (hbelow s hs) (lt_successor (hlast _ _ rfl htakes))
  · have hlt := lt_successor (hlast _ _ rfl htakes)
    refine ⟨?_, ?_, hin⟩
    · rw [hsplit, hseq, ← List.append_assoc, List.nodup_append]
      refine ⟨hnodup, by simp, ?_⟩
      rintro a ha b hb rfl
      rw [List.mem_singleton.mp hb] at ha
      exact absurd (hbelow _ ha) (UInt64.lt_irrefl _)
    · rw [hsplit, hseq, hnext, ← List.append_assoc]
      intro s hs
      rcases List.mem_append.mp hs with hs | hs
      · exact UInt64.lt_trans (hbelow s hs) hlt
      · rw [List.mem_singleton.mp hs]
        exact hlt

/-- A fresh replicator is numbered, unless it recovered the last sequence number. -/
theorem Fresh.numbered {recovered : List SyncPacket} (h : r.Fresh recovered)
    (hnodup : (sequences recovered).Nodup) (hlast : ∀ p ∈ recovered, p.sequence ≠ lastSequence) :
    Numbered [] r where
  nodup := by rw [List.nil_append, h.pending]; exact hnodup
  below := by
    rw [List.nil_append, h.pending, h.nextSequence]
    intro s hs
    obtain ⟨p, hp, rfl⟩ := List.mem_map.mp hs
    have hle := le_recoveredNext hp
    rw [toNat_saturatingAdd] at hle
    have hne : p.sequence.toNat ≠ 18446744073709551615 :=
      fun hc => hlast p hp (UInt64.toNat_inj.mp hc)
    have hlt := p.sequence.toNat_lt
    have hone : (1 : UInt64).toNat = 1 := rfl
    exact UInt64.lt_iff_toNat_lt.mpr (by omega)
  inFlight := by rw [h.inFlight]; simp

end Replicator

end Sync
end EngineKit
