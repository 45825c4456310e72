import EngineKit.Sync.Attach
import EngineKit.Sync.Compact
import EngineKit.Sync.Order

/-!
# The order of what is still to be acknowledged

What is in flight and behind it what is pending form one line, front to back, in the order it
is or was first transmitted. A call takes numbers out of the line or puts the next one at its
end (`Effect.line_cases`), so as long as `next_sequence` has not wrapped the line increases.

`attach_wal` puts a log's live packets at the end of the line under the numbers they have in the
log, and nothing compares these with the numbers already there; it only sees to it that packets
queued later are numbered above them. `increasing_attached_iff` says when the line still
increases afterwards. `Admits` asks that of every log attached, and `increasing_of_reaches`
concludes it of every state.
-/

set_option autoImplicit false

namespace EngineKit
namespace Sync

open Lib

namespace Replicator

variable {r r' : Replicator} {c : Call} {o : Output}

/-- The numbers in flight and pending, front to back. -/
def line (r : Replicator) : List UInt64 :=
  sequences (r.inFlight.map InFlight.packet ++ r.pending)

/-! ## What a call does to the line -/

theorem nextSequence_enqueue {kind : SyncKind} {key : UInt64} {payload : List UInt8}
    (hvalid : r.validate payload = .ok ()) (hroom : r.pending.length < r.config.maxPending)
    (disk : DiskWrite) : (r.enqueue disk kind key payload).2.nextSequence = r.successor := by
  rcases r.enqueue_cases disk kind key payload with
    ⟨error, rejected, -, hrefused⟩ | ⟨-, -, ⟨-, h⟩ | ⟨wal', -, h⟩⟩
  · exact absurd ⟨hvalid, hroom⟩ hrefused
  · rw [h]
  · rw [h]

/-- An update that is taken takes a number, whether or not the log then takes the packet. -/
theorem nextSequence_enqueueUpdate {update : Update} (htakes : r.Takes update)
    (disk : DiskWrite) : (r.enqueueUpdate disk update).2.nextSequence = r.successor := by
  obtain ⟨hvalid, hroom, hnew⟩ := htakes
  cases update with
  | snapshot payload => exact nextSequence_enqueue hvalid hroom disk
  | event key payload => exact nextSequence_enqueue hvalid hroom disk
  | delta key payload =>
    rw [enqueueUpdate]
    rcases r.enqueueDelta_cases disk key payload with
      ⟨error, hinvalid, -⟩ | ⟨-, h⟩ | ⟨pre, old, post, hpending, -, hold, -⟩
    · exact absurd (hvalid.symm.trans hinvalid) (by simp)
    · rw [h]
      exact nextSequence_enqueue hvalid hroom disk
    · exact absurd ⟨old, by simp [hpending], hold⟩ hnew

/-- **What a call does to the line.** Numbers leave it, or the next one joins its end. -/
theorem Effect.line_cases (h : Effect r c o r') :
    (r'.line.Sublist r.line ∧ r'.nextSequence = r.nextSequence) ∨
      ∃ disk update, c = .enqueue disk update ∧ r.Takes update ∧
        r'.line.Sublist (r.line ++ [r.nextSequence]) := by
  have hfilter : ∀ s : UInt64, (sequences ((r.inFlight.filter fun item =>
      s < item.packet.sequence).map InFlight.packet ++ r.pending)).Sublist r.line := by
    intro s
    exact ((List.filter_sublist.map _).append (.refl _)).map _
  cases h with
  | idle mode stats hc => exact Or.inl ⟨.refl _, rfl⟩
  | burned htakes hspoils =>
    exact Or.inr ⟨_, _, rfl, htakes, List.sublist_append_left _ _⟩
  | enqueued stats htakes hlogs =>
    refine Or.inr ⟨_, _, rfl, htakes, ?_⟩
    simp [line, sequences, nextPacket]
  | spoiled hc hspoils => exact Or.inl ⟨.refl _, rfl⟩
  | coalesced stats hpending hpre hold hlogs =>
    refine Or.inl ⟨?_, rfl⟩
    simp [line, sequences, hpending]
  | @pumped answers frame moved left inFlight rest stats hpending hinFlight hrest =>
    refine Or.inl ⟨?_, rfl⟩
    show (sequences (inFlight.map InFlight.packet ++ left)).Sublist r.line
    rw [line, hpending, ← List.append_assoc]
    exact (hinFlight.append (.refl _)).map _
  | acknowledged stats hlogs => exact Or.inl ⟨hfilter _, rfl⟩
  | received hcarries haccepts hle => exact Or.inl ⟨.refl _, rfl⟩
  | receivedAck stats hcarries haccepts hlt hlogs => exact Or.inl ⟨hfilter _, rfl⟩
  | receivedSpoiled hcarries haccepts hlt hspoils => exact Or.inl ⟨.refl _, rfl⟩
  | session nonce hc => exact Or.inl ⟨.refl _, rfl⟩

/-! ## What `attach_wal` does to the line -/

theorem line_attached (r : Replicator) (wal : SyncWal) (recovered : List SyncPacket) :
    (r.attached wal recovered).line = r.line ++ sequences recovered := by
  simp [line, attached, sequences]

/-- **When a log may be attached.** An increasing line goes on increasing exactly when the log's
    live packets do and all stand above it. -/
theorem increasing_attached_iff {wal : SyncWal} {recovered : List SyncPacket} :
    (r.attached wal recovered).line.Pairwise (· < ·) ↔
      r.line.Pairwise (· < ·) ∧ (sequences recovered).Pairwise (· < ·) ∧
        ∀ m ∈ r.line, ∀ n ∈ sequences recovered, m < n := by
  rw [line_attached, List.pairwise_append]

theorem le_nextAfter (next : UInt64) (recovered : List SyncPacket) :
    next ≤ nextAfter next recovered :=
  UInt64.le_iff_toNat_le.mpr (le_foldl_next recovered next)

/-- What is numbered from now on is numbered above what was recovered, unless the last sequence
    number was. -/
theorem lt_nextAfter {next : UInt64} {recovered : List SyncPacket} {p : SyncPacket}
    (hp : p ∈ recovered) (hlast : p.sequence ≠ lastSequence) :
    p.sequence < nextAfter next recovered := by
  obtain ⟨pre, post, rfl⟩ := List.append_of_mem hp
  have hne : p.sequence.toNat ≠ 18446744073709551615 := fun hc => hlast (UInt64.toNat_inj.mp hc)
  have hlt := p.sequence.toNat_lt
  have hone : (1 : UInt64).toNat = 1 := rfl
  have hle := le_foldl_next post (max (nextAfter next pre) (max (saturatingAdd p.sequence 1) 1))
  rw [u64_toNat_max, u64_toNat_max, toNat_saturatingAdd] at hle
  rw [nextAfter, List.foldl_append, List.foldl_cons]
  refine UInt64.lt_iff_toNat_lt.mpr (Nat.lt_of_lt_of_le ?_ hle)
  omega

/-! ## What an event does to the line -/

/-- **What an event does to the line, and to the numbers used.** Numbers leave it and none is
    used; or the next one is used, and may join the end; or a log's packets join the end. -/
theorem react_line_cases (r : Replicator) (e : Event) :
    ((r.react e).2.line.Sublist r.line ∧ (r.react e).2.nextSequence = r.nextSequence ∧
        r.numbersBy e = []) ∨
      (∃ disk update, e = .call (.enqueue disk update) ∧ r.Takes update ∧
        (r.react e).2.line.Sublist (r.line ++ [r.nextSequence]) ∧
        (r.react e).2.nextSequence = r.successor ∧ r.numbersBy e = [r.nextSequence]) ∨
      ∃ wal recovered, e = .attach wal ∧ r.Recovers wal recovered ∧
        (r.react e).2 = r.attached wal recovered ∧ r.numbersBy e = sequences recovered := by
  have hcall : ∀ c : Call, (∀ disk update, c = .enqueue disk update → ¬ r.Takes update) →
      (r.call c).2.line.Sublist r.line ∧ (r.call c).2.nextSequence = r.nextSequence := by
    intro c hc
    rcases (r.effect_call c).line_cases with h | ⟨disk, update, rfl, htakes, -⟩
    · exact h
    · exact absurd htakes (hc disk update rfl)
  cases e with
  | call c =>
    by_cases htake : ∃ disk update, c = .enqueue disk update ∧ r.Takes update
    · obtain ⟨disk, update, rfl, htakes⟩ := htake
      refine Or.inr (Or.inl ⟨disk, update, rfl, htakes, ?_, ?_, if_pos htakes⟩)
      · rcases (r.effect_call (.enqueue disk update)).line_cases with ⟨h, -⟩ | ⟨_, _, -, -, h⟩
        · exact h.trans (List.sublist_append_left _ _)
        · exact h
      · exact nextSequence_enqueueUpdate htakes disk
    · have hnot : ∀ disk update, c = .enqueue disk update → ¬ r.Takes update :=
        fun disk update hc htakes => htake ⟨disk, update, hc, htakes⟩
      obtain ⟨hline, hnext⟩ := hcall c hnot
      refine Or.inl ⟨hline, hnext, ?_⟩
      cases c with
      | enqueue disk update => exact if_neg (hnot disk update rfl)
      | _ => rfl
  | receiveBytes disk bytes =>
    have hreaction := r.reaction_react (.receiveBytes disk bytes)
    generalize r.react (.receiveBytes disk bytes) = result at hreaction ⊢
    obtain ⟨o, r'⟩ := result
    cases hreaction with
    | received disk bytes p =>
      obtain ⟨hline, hnext⟩ := hcall (.receive disk p) (by simp)
      exact Or.inl ⟨hline, hnext, rfl⟩
    | rejected disk bytes => exact Or.inl ⟨.refl _, rfl, rfl⟩
  | attach wal =>
    rcases r.attachWal_cases wal with ⟨error, h⟩ | ⟨recovered, hrecovers, h⟩
    · refine Or.inl ?_
      simp only [react, numbersBy, recoveredBy, h]
      exact ⟨.refl _, trivial, rfl⟩
    · refine Or.inr (Or.inr ⟨wal, recovered, rfl, hrecovers, ?_, ?_⟩)
      · simp only [react, h]
      · simp only [numbersBy, recoveredBy, h, hrecovers.1]
        rfl

end Replicator

/-! ## Every run -/

theorem foldl_max_spec (m : UInt64) (ns : List UInt64) :
    ns.foldl max m ∈ m :: ns ∧ ∀ n ∈ m :: ns, n ≤ ns.foldl max m := by
  have hmax : Std.LawfulOrderMax UInt64 := by
    refine .of_max_le_iff ?_ ?_
    · intro a b c
      simp only [UInt64.le_iff_toNat_le, u64_toNat_max]
      omega
    · intro a b
      simp only [← UInt64.toNat_inj, u64_toNat_max]
      omega
  exact List.max?_eq_some_iff.mp List.max?_cons'

namespace Ledger

/-- The condition on a step: a log is attached only if its live packets stand in increasing order
    above everything in the line; and once the last sequence number has been taken or recovered, a
    new packet is queued only if the next number is above everything in the line. -/
def Admits (s : Ledger) : Event → Prop
  | .call (.enqueue _ update) => s.replicator.Takes update →
      s.highest = Replicator.lastSequence →
        ∀ n ∈ s.replicator.line, n < s.replicator.nextSequence
  | .attach wal => ∀ recovered, s.replicator.Recovers wal recovered →
      (sequences recovered).Pairwise (· < ·) ∧
        ∀ m ∈ s.replicator.line, ∀ n ∈ sequences recovered, m < n
  | _ => True

/-- The line increases, up to the highest number used, and goes on above it. -/
structure Orderly (s : Ledger) : Prop where
  increasing : s.replicator.line.Pairwise (· < ·)
  below : ∀ n ∈ s.replicator.line, n ≤ s.highest
  next : s.highest ≠ Replicator.lastSequence → s.highest < s.replicator.nextSequence

/-- The line stays orderly when new numbers join its end in increasing order and the next number
    moves on past them. -/
theorem Orderly.grow {s t : Ledger} (h : Orderly s) (ns : List UInt64)
    (hline : t.replicator.line.Sublist (s.replicator.line ++ ns))
    (hincreasing : (s.replicator.line ++ ns).Pairwise (· < ·))
    (hhighest : t.highest = ns.foldl max s.highest)
    (hnext : t.highest ≠ Replicator.lastSequence →
      s.replicator.nextSequence ≤ t.replicator.nextSequence)
    (habove : ∀ n ∈ ns, n ≠ Replicator.lastSequence → n < t.replicator.nextSequence) :
    Orderly t := by
  obtain ⟨hmem, hmax⟩ := foldl_max_spec s.highest ns
  rw [← hhighest] at hmem hmax
  refine ⟨hincreasing.sublist hline, ?_, ?_⟩
  · intro n hn
    rcases List.mem_append.mp (hline.subset hn) with hn | hn
    · exact UInt64.le_trans (h.below n hn) (hmax _ List.mem_cons_self)
    · exact hmax n (List.mem_cons_of_mem _ hn)
  · intro hlast
    -- The highest number was used before, or is one of the new ones.
    rcases List.mem_cons.mp hmem with heq | hin
    · have hlt : t.highest < s.replicator.nextSequence := by
        rw [heq] at hlast ⊢
        exact h.next hlast
      exact UInt64.lt_of_lt_of_le hlt (hnext hlast)
    · exact habove _ hin hlast

theorem Orderly.step {s : Ledger} (h : Orderly s) {e : Event} (he : s.Admits e) :
    Orderly (s.step e) := by
  rcases s.replicator.react_line_cases e with
    ⟨hline, hnext, hnumbers⟩ | ⟨disk, update, rfl, htakes, hline, hnext, hnumbers⟩ |
      ⟨wal, recovered, rfl, hrecovers, hreact, hnumbers⟩
  · refine h.grow [] ?_ ?_ (by rw [Ledger.step, hnumbers]) ?_ (by simp)
    · rw [List.append_nil]
      exact hline
    · rw [List.append_nil]
      exact h.increasing
    · intro _
      exact UInt64.le_of_eq hnext.symm
  · have hbelow : ∀ n ∈ s.replicator.line, n < s.replicator.nextSequence := by
      intro n hn
      by_cases hlast : s.highest = Replicator.lastSequence
      · exact he htakes hlast n hn
      · exact UInt64.lt_of_le_of_lt (h.below n hn) (h.next hlast)
    have hsuccessor : (s.step (.call (.enqueue disk update))).replicator.nextSequence =
        s.replicator.successor := hnext
    have hhighest : (s.step (.call (.enqueue disk update))).highest =
        [s.replicator.nextSequence].foldl max s.highest := by rw [Ledger.step, hnumbers]
    refine h.grow [s.replicator.nextSequence] hline ?_ hhighest ?_ ?_
    · refine List.pairwise_append.mpr ⟨h.increasing, List.pairwise_singleton _ _, ?_⟩
      intro m hm n hn
      rw [List.mem_singleton.mp hn]
      exact hbelow m hm
    · intro hlast
      have hle := (foldl_max_spec s.highest [s.replicator.nextSequence]).2 s.replicator.nextSequence
        (List.mem_cons_of_mem _ List.mem_cons_self)
      have hne : s.replicator.nextSequence ≠ Replicator.lastSequence := by
        intro heq
        rw [← hhighest, heq] at hle
        exact hlast (UInt64.le_antisymm (Replicator.le_lastSequence _) hle)
      rw [hsuccessor]
      exact UInt64.le_of_lt (Replicator.lt_successor hne)
    · intro n hn hlast
      rw [List.mem_singleton.mp hn] at hlast ⊢
      rw [hsuccessor]
      exact Replicator.lt_successor hlast
  · obtain ⟨hrecovered, habove⟩ := he recovered hrecovers
    have hreplicator : (s.step (.attach wal)).replicator =
        s.replicator.attached wal recovered := hreact
    refine h.grow (sequences recovered) ?_ ?_ (by rw [Ledger.step, hnumbers]) ?_ ?_
    · rw [hreplicator, Replicator.line_attached]
    · rw [← Replicator.line_attached s.replicator wal]
      exact Replicator.increasing_attached_iff.mpr ⟨h.increasing, hrecovered, habove⟩
    · intro _
      rw [hreplicator]
      exact Replicator.le_nextAfter _ _
    · intro n hn hlast
      obtain ⟨p, hp, rfl⟩ := List.mem_map.mp hn
      rw [hreplicator]
      exact Replicator.lt_nextAfter hp hlast

theorem Orderly.new {config : SyncConfig} {r : Replicator}
    (h : Replicator.tryNew config = .ok r) : Orderly (new r) := by
  obtain ⟨-, rfl⟩ := Replicator.tryNew_eq_ok_iff.mp h
  exact ⟨.nil, by simp [Replicator.line, Ledger.new, Replicator.blank],
    fun _ => Replicator.recoveredNext_pos []⟩

/-- **The line increases**, in every run that attaches logs only above it and does not number
    past the end. `with_wal` is `try_new` and one log attached, so its runs are among these. -/
theorem increasing_of_reaches {config : SyncConfig} {r : Replicator} {s : Ledger}
    (hnew : Replicator.tryNew config = .ok r)
    (hr : Reaches (Guarded Admits steps) (new r) s) :
    (sequences (s.replicator.inFlight.map InFlight.packet ++ s.replicator.pending)).Pairwise
      (· < ·) := by
  have horderly : Orderly s := by
    refine Reaches.invariant Orderly hr (.new hnew) ?_
    rintro s e s' hs ⟨hadmits, hstep⟩
    rw [hstep]
    exact hs.step hadmits
  exact horderly.increasing

/-- One update queued under the number 1, and a log attached whose live packet has the
    number 2. -/
theorem queued_then_attached_increasing :
    let s := (new (Replicator.blank SyncConfig.default)).step
      (.call (.enqueue .complete (.event 1 [5])))
    let t := s.step (.attach ackedLog)
    (sequences (t.replicator.inFlight.map InFlight.packet ++ t.replicator.pending)).Pairwise
      (· < ·) :=
  increasing_of_reaches (Replicator.tryNew_eq_ok_iff.mpr ⟨by decide, rfl⟩)
    (.tail
      (.single ⟨.call (.enqueue .complete (.event 1 [5])), fun _ hlast => absurd hlast (by decide),
        rfl⟩)
      ⟨.attach ackedLog, by
        intro recovered hrecovers
        cases Except.ok.inj (hrecovers.1.symm.trans ackedLog_replay)
        refine ⟨List.pairwise_singleton _ _, ?_⟩
        intro m hm n hn
        rw [List.mem_singleton.mp (show m ∈ [(1 : UInt64)] from hm), List.mem_singleton.mp hn]
        decide, rfl⟩)

/-- A log an earlier replicator left: its first packet, still to be acknowledged. -/
def leftLog : SyncWal :=
  { ackedLog with file := encodeAll WalRecord.bytes [.packet ⟨1, 0, .event, 7, [1, 2, 3]⟩] }

theorem leftLog_replay : leftLog.replay = .ok [⟨1, 0, .event, 7, [1, 2, 3]⟩] := by
  rcases @SyncWal.replay_eq_live_of_whole leftLog (by decide)
    [.packet ⟨1, 0, .event, 7, [1, 2, 3]⟩] (by decide) rfl with ⟨h, -⟩ | ⟨-, h⟩
  · exact h
  · exact absurd (by decide) h

/-- **Attached behind what is queued.** A new replicator queues an update, as number 1, and then
    a log with a packet of the same number is attached. The number stands in the line twice, and
    the peer that received it once discards the other packet as a duplicate. -/
theorem attached_behind_queued :
    let s := (new (Replicator.blank SyncConfig.default)).step
      (.call (.enqueue .complete (.event 1 [5])))
    let t := s.step (.attach leftLog)
    let peer := Replicator.blank SyncConfig.default
    Replicator.tryNew SyncConfig.default = .ok (Replicator.blank SyncConfig.default) ∧
      Reaches steps (new (Replicator.blank SyncConfig.default)) t ∧
      (s.replicator.attachWal leftLog).1 = .ok () ∧
      t.replicator.inFlight.map InFlight.packet ++ t.replicator.pending =
        [⟨1, 0, .event, 1, [5]⟩, ⟨1, 0, .event, 7, [1, 2, 3]⟩] ∧
      ¬ (sequences (t.replicator.inFlight.map InFlight.packet ++
        t.replicator.pending)).Pairwise (· < ·) ∧
      ((peer.receive .complete ⟨1, 0, .event, 1, [5]⟩).2.receive .complete
        ⟨1, 0, .event, 7, [1, 2, 3]⟩).1 = none := by
  intro s t peer
  have hattach : s.replicator.attachWal leftLog =
      (.ok (), s.replicator.attached leftLog [⟨1, 0, .event, 7, [1, 2, 3]⟩]) :=
    Replicator.attachWal_of_recovers ⟨leftLog_replay, by decide⟩
  have hline : t.replicator.inFlight.map InFlight.packet ++ t.replicator.pending =
      [⟨1, 0, .event, 1, [5]⟩, ⟨1, 0, .event, 7, [1, 2, 3]⟩] := by
    rw [step_attach s leftLog, hattach]
    rfl
  refine ⟨rfl, .tail (.single ⟨_, rfl⟩) ⟨_, rfl⟩, by rw [hattach], hline, ?_, rfl⟩
  rw [hline]
  decide

end Ledger

end Sync
end EngineKit
