import Mathlib.Data.List.Nodup
import Mathlib.Logic.Function.Basic
import EngineKit.Sync.Order

/-!
# Coalescing and snapshots

`enqueue_delta` looks through the whole queue for a pending delta of its key and writes the new
payload over the old one, in the old one's place. Coalescing is meant to drop a value that a
later one replaces. But the place is an earlier one: a snapshot queued in between is overtaken,
the peer gets the delta first and the snapshot after it, and the delta is gone
(`delta_overtakes_snapshot`).

`Mirror` is the peer's state in these terms — a snapshot replaces it, a delta sets its key, an
event leaves it alone — and the law has two halves, for the runs in which coalescing moves a
payload past no snapshot and no other delta of its key (`no_overtaking`). A delta is on the wire
only after every snapshot accepted before it; and transmitting what there is, in order, leaves the
peer in the state the calls describe, in the order they were made.
-/

set_option autoImplicit false

namespace EngineKit
namespace Sync

open Lib

/-! ## What the peer makes of it -/

def SyncPacket.update (p : SyncPacket) : Update :=
  match p.kind with
  | .snapshot => .snapshot p.payload
  | .delta => .delta p.key p.payload
  | .event => .event p.key p.payload

/-- The peer's state: the last snapshot, and the value set for each key since. -/
@[ext] structure Mirror where
  base : Option (List UInt8)
  entries : UInt64 → Option (List UInt8)

namespace Mirror

def empty : Mirror := { base := none, entries := fun _ => none }

/-- A snapshot replaces the state, a delta sets its key, an event is not state. -/
def apply (m : Mirror) : Update → Mirror
  | .snapshot payload => { base := some payload, entries := fun _ => none }
  | .delta key payload => { m with entries := Function.update m.entries key (some payload) }
  | .event _ _ => m

def applyAll (m : Mirror) (us : List Update) : Mirror := us.foldl apply m

theorem applyAll_append (m : Mirror) (us us' : List Update) :
    m.applyAll (us ++ us') = (m.applyAll us).applyAll us' :=
  List.foldl_append

/-- The update is neither a snapshot nor a delta of the key. -/
def Spares (key : UInt64) : Update → Prop
  | .snapshot _ => False
  | .delta key' _ => key' ≠ key
  | .event _ _ => True

instance (key : UInt64) : (u : Update) → Decidable (Spares key u)
  | .snapshot _ => .isFalse id
  | .delta key' _ => inferInstanceAs (Decidable (key' ≠ key))
  | .event _ _ => .isTrue trivial

/-- **A delta moves past what spares its key.** -/
theorem applyAll_delta_comm {key : UInt64} (payload : List UInt8) {us : List Update}
    (h : ∀ u ∈ us, Spares key u) (m : Mirror) :
    (m.apply (.delta key payload)).applyAll us = (m.applyAll us).apply (.delta key payload) := by
  induction us generalizing m with
  | nil => rfl
  | cons u us ih =>
    have hu := h u List.mem_cons_self
    have hcomm : (m.apply (.delta key payload)).apply u =
        (m.apply u).apply (.delta key payload) := by
      cases u with
      | snapshot _ => exact hu.elim
      | delta key' payload' =>
        exact Mirror.ext rfl (Function.update_comm (Ne.symm hu) _ _ _)
      | event _ _ => rfl
    simp only [applyAll, List.foldl_cons] at ih ⊢
    rw [hcomm]
    exact ih (fun u hu => h u (List.mem_cons_of_mem _ hu)) _

theorem apply_delta_delta (m : Mirror) (key : UInt64) (payload payload' : List UInt8) :
    (m.apply (.delta key payload)).apply (.delta key payload') = m.apply (.delta key payload') :=
  Mirror.ext rfl (Function.update_idem _ _ _)

/-- **Coalescing, to the peer.** A delta replaced in its place is the delta followed, in the end,
    by its replacement, when what stands in between spares its key. -/
theorem applyAll_replace {key : UInt64} (payload payload' : List UInt8) {us : List Update}
    (h : ∀ u ∈ us, Spares key u) (pre : List Update) (m : Mirror) :
    m.applyAll (pre ++ .delta key payload' :: us) =
      (m.applyAll (pre ++ .delta key payload :: us)).apply (.delta key payload') := by
  rw [applyAll_append, applyAll_append]
  change ((m.applyAll pre).apply (.delta key payload')).applyAll us =
    (((m.applyAll pre).apply (.delta key payload)).applyAll us).apply (.delta key payload')
  rw [applyAll_delta_comm payload' h, applyAll_delta_comm payload h, apply_delta_delta]

end Mirror

/-! ## Two elements of one list -/

theorem split_cases {α : Type} {pre post front back : List α} {x y : α}
    (h : pre ++ x :: post = front ++ y :: back) :
    (∃ mid, front = pre ++ x :: mid) ∨ (pre = front ∧ x = y) ∨
      ∃ mid, pre = front ++ y :: mid ∧ back = mid ++ x :: post := by
  rcases List.append_eq_append_iff.mp h with ⟨mid, rfl, hmid⟩ | ⟨mid, rfl, hmid⟩
  · rcases List.cons_eq_append_iff.mp hmid with ⟨rfl, hy⟩ | ⟨mid', rfl, -⟩
    · exact Or.inr (Or.inl ⟨by simp, (List.cons.inj hy).1.symm⟩)
    · exact Or.inl ⟨mid', rfl⟩
  · rcases List.cons_eq_append_iff.mp hmid with ⟨rfl, hx⟩ | ⟨mid', rfl, hback⟩
    · exact Or.inr (Or.inl ⟨by simp, (List.cons.inj hx).1⟩)
    · exact Or.inr (Or.inr ⟨mid', rfl, hback⟩)

/-- In these packets, the one accepted as `a` comes first, and `b`'s number only behind it. -/
def Behind (ps : List SyncPacket) (a b : UInt64 × Update) : Prop :=
  ∃ pre x post, ps = pre ++ x :: post ∧ x.sequence = a.1 ∧ x.update = a.2 ∧
    b.1 ∉ sequences (pre ++ [x])

theorem Behind.append {ps : List SyncPacket} {a b : UInt64 × Update} (h : Behind ps a b)
    (qs : List SyncPacket) : Behind (ps ++ qs) a b := by
  obtain ⟨pre, x, post, rfl, hx⟩ := h
  exact ⟨pre, x, post ++ qs, by simp, hx⟩

theorem Behind.overwrite {front back : List SyncPacket} {old new : SyncPacket}
    {a b : UInt64 × Update} (h : Behind (front ++ old :: back) a b) (hold : old.update ≠ a.2)
    (hseq : new.sequence = old.sequence) : Behind (front ++ new :: back) a b := by
  obtain ⟨pre, x, post, heq, hxs, hxu, hb⟩ := h
  rcases split_cases heq.symm with ⟨mid, rfl⟩ | ⟨-, rfl⟩ | ⟨mid, rfl, rfl⟩
  · exact ⟨pre, x, mid ++ new :: back, by simp, hxs, hxu, hb⟩
  · exact absurd hxu hold
  · refine ⟨front ++ new :: mid, x, post, by simp, hxs, hxu, ?_⟩
    simpa [sequences, hseq] using hb

/-! ## What the packets say -/

/-- The packets say to the peer, from nothing, what the calls said to it from `start`; they hold
    every snapshot accepted, and no delta in front of a snapshot accepted before it. -/
structure Tells (start : Mirror) (calls : List (UInt64 × Update)) (ps : List SyncPacket) :
    Prop where
  snapshots : ∀ a ∈ calls, ∀ payload, a.2 = .snapshot payload →
    ∃ q ∈ ps, q.sequence = a.1 ∧ q.update = a.2
  behind : calls.Pairwise fun a b => ∀ payload key payload', a.2 = .snapshot payload →
    b.2 = .delta key payload' → Behind ps a b
  mirror : Mirror.empty.applyAll (ps.map SyncPacket.update) = start.applyAll (calls.map Prod.snd)

theorem mem_sequences_of_split {pre post : List SyncPacket} {x : SyncPacket} {n : UInt64}
    (h : n ∈ sequences (pre ++ [x])) : n ∈ sequences (pre ++ x :: post) := by
  rw [show pre ++ x :: post = pre ++ [x] ++ post by simp]
  exact List.map_subset _ (List.subset_append_left _ _) h

variable {start : Mirror} {calls : List (UInt64 × Update)}

/-- **A new packet at the end**, under a number no packet has. -/
theorem Tells.push {ps : List SyncPacket} (h : Tells start calls ps) {p : SyncPacket}
    (hnew : p.sequence ∉ sequences ps) :
    Tells start (calls ++ [(p.sequence, p.update)]) (ps ++ [p]) where
  snapshots := by
    intro a ha payload hpayload
    rcases List.mem_append.mp ha with ha | ha
    · obtain ⟨q, hq, hqa⟩ := h.snapshots a ha payload hpayload
      exact ⟨q, List.mem_append_left _ hq, hqa⟩
    · rw [List.mem_singleton.mp ha]
      exact ⟨p, List.mem_append_right _ List.mem_cons_self, rfl, rfl⟩
  behind := by
    rw [List.pairwise_append]
    refine ⟨h.behind.imp fun hab p k p' ha hb => (hab p k p' ha hb).append _, by simp, ?_⟩
    intro a ha b hb payload key payload' hsnap hdelta
    rw [List.mem_singleton.mp hb]
    obtain ⟨x, hx, hxs, hxu⟩ := h.snapshots a ha payload hsnap
    obtain ⟨f, g, rfl⟩ := List.append_of_mem hx
    exact Behind.append ⟨f, x, g, rfl, hxs, hxu, fun hmem => hnew (mem_sequences_of_split hmem)⟩ _
  mirror := by
    rw [List.map_append, Mirror.applyAll_append, h.mirror, List.map_append,
      Mirror.applyAll_append]
    rfl

/-- **A delta replaced where it stands**, behind every snapshot of the list and every other delta
    of its key. -/
theorem Tells.replace {front back : List SyncPacket} {old new : SyncPacket} {key : UInt64}
    {payload payload' : List UInt8} (h : Tells start calls (front ++ old :: back))
    (hnodup : (sequences (front ++ old :: back)).Nodup) (hold : old.update = .delta key payload)
    (hspares : ∀ q ∈ back, Mirror.Spares key q.update) (hseq : new.sequence = old.sequence)
    (hnew : new.update = .delta key payload') :
    Tells start (calls ++ [(old.sequence, .delta key payload')]) (front ++ new :: back) := by
  -- What stands behind the slot spares the key, so the snapshots all stand in front of it.
  have hfront : ∀ q ∈ front ++ old :: back, ∀ snapshot, q.update = .snapshot snapshot →
      q ∈ front := by
    intro q hq snapshot hsnap
    rcases List.mem_append.mp hq with hq | hq
    · exact hq
    · rcases List.mem_cons.mp hq with rfl | hq
      · exact absurd (hold.symm.trans hsnap) (by simp)
      · have := hspares q hq
        rw [hsnap] at this
        exact this.elim
  refine ⟨?_, ?_, ?_⟩
  · intro a ha snapshot hsnap
    rcases List.mem_append.mp ha with ha | ha
    · obtain ⟨q, hq, hqs, hqu⟩ := h.snapshots a ha snapshot hsnap
      exact ⟨q, List.mem_append_left _ (hfront q hq snapshot (hqu.trans hsnap)), hqs, hqu⟩
    · rw [List.mem_singleton.mp ha] at hsnap
      exact absurd hsnap (by simp)
  · rw [List.pairwise_append]
    refine ⟨h.behind.imp fun hab p k p' ha hb => ?_, by simp, ?_⟩
    · refine (hab p k p' ha hb).overwrite ?_ hseq
      rw [hold, ha]
      simp
    · intro a ha b hb snapshot key' payload₁ hsnap hdelta
      rw [List.mem_singleton.mp hb]
      obtain ⟨x, hx, hxs, hxu⟩ := h.snapshots a ha snapshot hsnap
      obtain ⟨f, g, rfl⟩ := List.append_of_mem (hfront x hx snapshot (hxu.trans hsnap))
      have hnot : old.sequence ∉ sequences (f ++ x :: g) := by
        rw [sequences, List.map_append, List.map_cons] at hnodup
        exact fun hmem => (List.nodup_append.mp hnodup).2.2 _ hmem _ List.mem_cons_self rfl
      exact ⟨f, x, g ++ new :: back, by simp, hxs, hxu,
        fun hmem => hnot (mem_sequences_of_split hmem)⟩
  · have hmirror := h.mirror
    rw [List.map_append, List.map_cons, hold] at hmirror
    rw [List.map_append, List.map_cons, hnew, Mirror.applyAll_replace payload payload' ?_,
      hmirror, List.map_append, Mirror.applyAll_append]
    · rfl
    · intro u hu
      obtain ⟨q, hq, rfl⟩ := List.mem_map.mp hu
      exact hspares q hq

/-! ## The system -/

/-- A sender with its history: the updates it accepted, in the order of the calls and with the
    sequence numbers it answered, its first transmissions, and all it transmitted. -/
structure Outbox where
  replicator : Replicator
  calls : List (UInt64 × Update) := []
  first : List SyncPacket := []
  wire : List SyncPacket := []

/-- The update a call was accepted with. -/
def Call.accepted (c : Call) (o : Output) : List (UInt64 × Update) :=
  match c with
  | .enqueue _ update => o.accepted.toList.map (·, update)
  | _ => []

def Outbox.step (s : Outbox) (c : Call) (t : Outbox) : Prop :=
  t = { replicator := (s.replicator.call c).2
        calls := s.calls ++ c.accepted (s.replicator.call c).1
        first := s.first ++ (s.replicator.call c).1.fresh
        wire := s.wire ++ (s.replicator.call c).1.taken }

/-- The packets queued behind the first pending delta of a key. -/
def Replicator.behindSlot (r : Replicator) (key : UInt64) : List SyncPacket :=
  (r.pending.dropWhile fun p => ! Replicator.isDelta key p).drop 1

theorem Replicator.behindSlot_eq {r : Replicator} {key : UInt64} {pre post : List SyncPacket}
    {old : SyncPacket} (h : r.pending = pre ++ old :: post)
    (hpre : ∀ p ∈ pre, Replicator.isDelta key p = false)
    (hold : Replicator.isDelta key old = true) : r.behindSlot key = post := by
  rw [Replicator.behindSlot, h, List.dropWhile_append_of_pos (by simpa using hpre),
    List.dropWhile_cons_of_neg (by simp [hold])]
  rfl

/-- Coalescing moves the payload past no snapshot and no delta of its key. -/
def Replicator.InPlace (r : Replicator) (c : Call) : Prop :=
  ∀ disk key payload, c = .enqueue disk (.delta key payload) →
    ∀ q ∈ r.behindSlot key, Mirror.Spares key q.update

/-- The calls that keep the order of the updates. -/
def Outbox.Keeps (s : Outbox) (c : Call) : Prop :=
  s.replicator.Unwrapped c ∧ s.replicator.InPlace c

/-! ## Runs -/

theorem update_of_isDelta {key : UInt64} {p : SyncPacket}
    (h : Replicator.isDelta key p = true) : p.update = .delta key p.payload := by
  obtain ⟨hkind, hkey⟩ : p.kind = .delta ∧ p.key = key := by simpa [Replicator.isDelta] using h
  rw [SyncPacket.update, hkind, hkey]

theorem update_nextPacket (r : Replicator) (update : Update) :
    (r.nextPacket update).update = update := by
  cases update <;> rfl

/-- What was transmitted and what is queued, together, say what the calls said. -/
structure Outbox.Faithful (start : Mirror) (s : Outbox) : Prop where
  numbered : Replicator.Numbered s.first s.replicator
  transmitted : Replicator.Transmitted s.first s.wire
  tells : Tells start s.calls (s.first ++ s.replicator.pending)

/-- **One call keeps it.** -/
theorem Outbox.Faithful.step {s t : Outbox} (h : s.Faithful start) {c : Call} (hc : s.Keeps c)
    (hst : s.step c t) : t.Faithful start := by
  obtain rfl := hst
  have heffect := s.replicator.effect_call c
  refine ⟨h.numbered.step hc.1 heffect, h.transmitted.step h.numbered.inFlight heffect, ?_⟩
  have htells := h.tells
  simp only [List.append_assoc]
  rcases heffect.queue with ⟨hnone, hq⟩ | ⟨disk, update, rfl, htakes, hsome, hq⟩ |
    ⟨disk, key, payload, pre, old, post, rfl, hpending, hpre, hold, hsome, hq⟩
  · have hcalls : c.accepted (s.replicator.call c).1 = [] := by
      cases c <;> simp [Call.accepted, hnone]
    rw [hq, hcalls, List.append_nil]
    exact htells
  · have hcalls : (Call.enqueue disk update).accepted
        (s.replicator.call (.enqueue disk update)).1 =
        [(s.replicator.nextSequence, (s.replicator.nextPacket update).update)] := by
      simp [Call.accepted, hsome, update_nextPacket]
    rw [hq, hcalls, ← List.append_assoc]
    refine htells.push (p := s.replicator.nextPacket update) ?_
    intro hmem
    exact absurd (h.numbered.below _ hmem) (UInt64.lt_irrefl _)
  · have hcalls : (Call.enqueue disk (.delta key payload)).accepted
        (s.replicator.call (.enqueue disk (.delta key payload))).1 =
        [(old.sequence, .delta key payload)] := by
      simp [Call.accepted, hsome]
    have hnodup := h.numbered.nodup
    have hspares := hc.2 disk key payload rfl
    rw [Replicator.behindSlot_eq hpending hpre hold] at hspares
    rw [hpending, ← List.append_assoc] at htells hnodup
    rw [hq, hcalls, ← List.append_assoc]
    exact htells.replace hnodup (update_of_isDelta hold) hspares rfl
      (update_of_isDelta (p := { old with payload }) hold)

theorem Outbox.faithful_start {r : Replicator} {recovered : List SyncPacket}
    (h : r.Fresh recovered) (hnodup : (sequences recovered).Nodup)
    (hlast : ∀ p ∈ recovered, p.sequence ≠ Replicator.lastSequence) :
    Outbox.Faithful (Mirror.empty.applyAll (r.pending.map SyncPacket.update))
      { replicator := r } where
  numbered := h.numbered hnodup hlast
  transmitted := Replicator.transmitted_nil
  tells := ⟨by simp, .nil, rfl⟩

/-- **No update overtakes a snapshot**, in runs that coalesce in place: when a delta was accepted
    after a snapshot, every transmission under the delta's number comes after a transmission of
    the snapshot. And the peer that takes the first transmissions, and then the queue, in order
    ends in the state of the calls, in the order they were made. -/
theorem Outbox.no_overtaking {r : Replicator}
    (hstart : Replicator.Starts (fun ps => ∀ p ∈ ps, p.sequence ≠ Replicator.lastSequence) r)
    {t : Outbox} (hrun : Reaches (Guarded Outbox.Keeps Outbox.step) { replicator := r } t) :
    (t.calls.Pairwise fun a b => ∀ payload key payload', a.2 = .snapshot payload →
        b.2 = .delta key payload' → ∀ before p after, t.wire = before ++ p :: after →
          p.sequence = b.1 → ∃ q ∈ before, q.sequence = a.1 ∧ q.update = a.2) ∧
      Mirror.empty.applyAll ((t.first ++ t.replicator.pending).map SyncPacket.update) =
        (Mirror.empty.applyAll (r.pending.map SyncPacket.update)).applyAll
          (t.calls.map Prod.snd) := by
  obtain ⟨recovered, hlast, hfresh⟩ := hstart.fresh (by simp)
  have hfaithful : t.Faithful (Mirror.empty.applyAll (r.pending.map SyncPacket.update)) := by
    refine Reaches.invariant (Outbox.Faithful _) hrun
      (Outbox.faithful_start hfresh (hfresh.pending ▸ hstart.nodup_pending) hlast) ?_
    rintro s c t h ⟨hc, hst⟩
    exact h.step hc hst
  refine ⟨hfaithful.tells.behind.imp ?_, hfaithful.tells.mirror⟩
  intro a b hab payload key payload' hsnap hdelta before p after hwire hp
  obtain ⟨pre, x, post, heq, hxs, hxu, hb⟩ := hab payload key payload' hsnap hdelta
  obtain ⟨f, g, hfirst, hbefore⟩ := hfaithful.transmitted.ordered before p after hwire
  rw [hfirst, List.append_assoc, List.cons_append] at heq
  -- `p` is at or in front of the snapshot only if the delta's number is not behind it.
  rcases split_cases heq with ⟨mid, rfl⟩ | ⟨rfl, rfl⟩ | ⟨mid, rfl, -⟩
  · exact absurd (by simp [sequences, hp]) hb
  · exact absurd (by simp [sequences, hp]) hb
  · exact ⟨x, hbefore (by simp), hxs, hxu⟩

/-- A snapshot, a delta and its replacement, and then a pump. -/
theorem Outbox.no_overtaking_in_place : ∃ t : Outbox,
    t.calls = [(1, .snapshot [0]), (2, .delta 7 [1]), (2, .delta 7 [2])] ∧
      t.wire = [⟨1, 0, .snapshot, 0, [0]⟩, ⟨2, 0, .delta, 7, [2]⟩] ∧
      Mirror.empty.applyAll ((t.first ++ t.replicator.pending).map SyncPacket.update) =
        Mirror.empty.applyAll (t.calls.map Prod.snd) := by
  have hkeeps : ∀ {s : Outbox} {c : Call},
      s.replicator.nextSequence ≠ Replicator.lastSequence →
      (∀ q ∈ s.replicator.behindSlot 7, Mirror.Spares 7 q.update) →
      (∀ disk key payload, c = .enqueue disk (.delta key payload) → key = 7) → s.Keeps c := by
    intro s c hnext hspares hkey
    refine ⟨fun _ _ _ _ => hnext, ?_⟩
    intro disk key payload hc
    rw [hkey disk key payload hc]
    exact hspares
  refine ⟨_, ?_, ?_, (Outbox.no_overtaking
    (.tryNew (Replicator.tryNew_eq_ok_iff.mpr ⟨(by decide : SyncConfig.default.Valid), rfl⟩))
    (.head ⟨.enqueue .complete (.snapshot [0]), hkeeps (by decide) (by decide) (by simp), rfl⟩
      (.head ⟨.enqueue .complete (.delta 7 [1]), hkeeps (by decide) (by decide) (by simp), rfl⟩
        (.head ⟨.enqueue .complete (.delta 7 [2]), hkeeps (by decide) (by decide) (by simp), rfl⟩
          (.head ⟨.setMode .online, hkeeps (by decide) (by decide) (by simp), rfl⟩
            (.single ⟨.pump [.ok (), .ok ()] 0, hkeeps (by decide) (by decide) (by simp),
              rfl⟩)))))).2⟩
  · decide
  · decide

/-- **A delta overtakes a snapshot.** The snapshot was accepted between the two deltas of a key,
    and the second is transmitted before it, in the first one's place. -/
theorem Outbox.delta_overtakes_snapshot : ∃ t : Outbox,
    Reaches Outbox.step { replicator := Replicator.blank .default } t ∧
      t.calls = [(1, .delta 7 [1]), (2, .snapshot [0]), (1, .delta 7 [2])] ∧
      t.wire = [⟨1, 0, .delta, 7, [2]⟩, ⟨2, 0, .snapshot, 0, [0]⟩] := by
  refine ⟨_,
    .head ⟨.enqueue .complete (.delta 7 [1]), rfl⟩
      (.head ⟨.enqueue .complete (.snapshot [0]), rfl⟩
        (.head ⟨.enqueue .complete (.delta 7 [2]), rfl⟩
          (.head ⟨.setMode .online, rfl⟩
            (.single ⟨.pump [.ok (), .ok ()] 0, rfl⟩)))), by decide, by decide⟩

end Sync
end EngineKit
