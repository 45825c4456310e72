import EngineKit.Sync.Opened

/-!
# Restarting on the same log

What a crash and a second `with_wal` on the same log have to deliver, beyond the packets
themselves:

* the restart **succeeds** — `with_wal` accepts the log of a replicator it built. Its bound is
  `max_pending` on the live packets of the log, and the running replicator bounds its queue
  only: what is in flight, and what was given up, is live in the log too. `withWal_reopen` is the
  law for runs that write a new entry only while the log has room for it; `reopen_refused` is a
  run of three calls that ends in a log `with_wal` refuses.

* sequence numbers are **not used twice** — what is assigned after the restart lies above what
  was assigned before. The next number is rebuilt from the packets that are still live, so an
  acknowledged one leaves no trace (`assigned_twice`); `assigned_increasing` is the law for
  restarts that find a live packet at least as high as every number assigned.
-/

set_option autoImplicit false

namespace EngineKit
namespace Sync

open Lib

namespace Replicator

/-! ## The restart succeeds -/

/-- The sequence number an accepted update will be logged under: the next one, or that of the
    pending delta it replaces. -/
def WritesPacket (r : Replicator) (update : Update) (s : UInt64) : Prop :=
  (r.Takes update ∧ s = r.nextSequence) ∨
    ∃ key payload old, update = .delta key payload ∧
      r.pending.find? (isDelta key) = some old ∧ s = old.sequence

/-- The calls that leave a log `with_wal` accepts: the disk works, and a packet is logged over
    a live entry or while fewer than `max_pending` are live. -/
def Roomy (r : Replicator) (c : Call) : Prop :=
  c.disk = .complete ∧
    ∀ disk update s, c = .enqueue disk update → r.WritesPacket update s →
      ∀ wal recovered, r.wal = some wal → wal.replay = .ok recovered →
        s ∈ sequences recovered ∨ recovered.length < r.config.maxPending

/-- The log is whole, within its own bound, and holds no more than the queue may. -/
structure Reopens (config : SyncConfig) (wal : SyncWal) (r : Replicator)
    (rs : List WalRecord) : Prop where
  config_eq : r.config = config
  whole : r.Whole wal rs
  length_le : (live rs).length ≤ config.maxPending
  within : WithinRecords wal.maxRecords [] rs

variable {config : SyncConfig} {wal : SyncWal} {r : Replicator} {rs : List WalRecord}

theorem length_liveStep_ack (ps : List SyncPacket) (s : UInt64) :
    (liveStep ps (.ack s)).length ≤ ps.length :=
  List.length_filter_le _ _

theorem length_liveStep_packet {ps : List SyncPacket} {p : SyncPacket} {bound : Nat}
    (h : ps.length ≤ bound) (hroom : p.sequence ∈ sequences ps ∨ ps.length < bound) :
    (liveStep ps (.packet p)).length ≤ bound := by
  by_cases hmem : p.sequence ∈ sequences ps
  · rw [liveStep_packet_of_mem hmem, List.length_map]
    exact h
  · rw [liveStep_packet_of_not_mem hmem, List.length_append, List.length_singleton]
    exact hroom.resolve_left hmem

/-- One more record, after which the log still holds no more than the queue may. -/
theorem Reopens.log (h : Reopens config wal r rs) (hmax : config.maxPending ≤ wal.maxRecords)
    {record : WalRecord} {r' : Replicator} (hconfig : r'.config = r.config)
    (hwhole : r'.Whole wal (rs ++ [record]))
    (hle : (liveStep (live rs) record).length ≤ config.maxPending) :
    Reopens config wal r' (rs ++ [record]) where
  config_eq := hconfig.trans h.config_eq
  whole := hwhole
  length_le := by rw [live_snoc]; exact hle
  within := by
    rw [withinRecords_append]
    exact ⟨h.within, Nat.le_trans h.length_le hmax, Nat.le_trans hle hmax⟩

theorem Reopens.same (h : Reopens config wal r rs) {r' : Replicator}
    (hconfig : r'.config = r.config) (hwhole : r'.Whole wal rs) : Reopens config wal r' rs :=
  ⟨hconfig.trans h.config_eq, hwhole, h.length_le, h.within⟩

theorem Reopens.replay (h : Reopens config wal r rs) (hlimit : wal.maxPayloadBytes + 30 < 2 ^ 64) :
    SyncWal.replay { wal with file := encodeAll WalRecord.bytes rs } = .ok (live rs) := by
  rcases h.whole.replay hlimit with ⟨hreplay, -⟩ | ⟨-, hbad⟩
  · exact hreplay
  · exact absurd h.within hbad

/-- **One call keeps it.** -/
theorem Reopens.step (h : Reopens config wal r rs) (hmax : config.maxPending ≤ wal.maxRecords)
    (hlimit : wal.maxPayloadBytes + 30 < 2 ^ 64) {c : Call} (hc : r.Roomy c) {o : Output}
    {r' : Replicator} (heffect : Effect r c o r') : ∃ rs', Reopens config wal r' rs' := by
  obtain ⟨hdisk, hroom⟩ := hc
  have hreplay := h.replay hlimit
  have hack : ∀ s, (liveStep (live rs) (.ack s)).length ≤ config.maxPending :=
    fun s => Nat.le_trans (length_liveStep_ack _ s) h.length_le
  cases heffect with
  | idle mode stats hc => exact ⟨rs, h.same rfl (h.whole.congr rfl)⟩
  | burned htakes hspoils => exact ⟨rs, h.same rfl (h.whole.spoiled hdisk hspoils rfl)⟩
  | spoiled hc hspoils => exact ⟨rs, h.same rfl (h.whole.spoiled hdisk hspoils rfl)⟩
  | @enqueued disk update stats htakes hlogs =>
    refine ⟨_, h.log hmax rfl (h.whole.logged hlogs rfl) (length_liveStep_packet h.length_le ?_)⟩
    rw [← h.config_eq]
    exact hroom disk update r.nextSequence rfl (Or.inl ⟨htakes, rfl⟩) _ _ h.whole.1 hreplay
  | @coalesced disk key payload pre post old stats hpending hpre hold hlogs =>
    refine ⟨_, h.log hmax rfl (h.whole.logged hlogs rfl) (length_liveStep_packet h.length_le ?_)⟩
    have hfind : r.pending.find? (isDelta key) = some old :=
      List.find?_eq_some_iff_append.mpr ⟨hold, pre, post, hpending, by simpa using hpre⟩
    rw [← h.config_eq]
    exact hroom disk _ old.sequence rfl (Or.inr ⟨key, payload, old, rfl, hfind, rfl⟩) _ _
      h.whole.1 hreplay
  | pumped stats hpending hinFlight hrest => exact ⟨rs, h.same rfl (h.whole.congr rfl)⟩
  | acknowledged stats hlogs => exact ⟨_, h.log hmax rfl (h.whole.logged hlogs rfl) (hack _)⟩
  | received hcarries haccepts hle => exact ⟨rs, h.same rfl (h.whole.congr rfl)⟩
  | receivedAck stats hcarries haccepts hlt hlogs =>
    exact ⟨_, h.log hmax rfl (h.whole.logged hlogs rfl) (hack _)⟩
  | receivedSpoiled hcarries haccepts hlt hspoils =>
    exact ⟨rs, h.same rfl (h.whole.spoiled hdisk hspoils rfl)⟩
  | session nonce hc => exact ⟨rs, h.same rfl (h.whole.congr rfl)⟩

/-- **The restart succeeds** after every run that logs a new packet only while the log has room
    for it. -/
theorem withWal_reopen {config : SyncConfig} {wal : SyncWal} {rs : List WalRecord}
    {r r' : Replicator} (hopen : withWal config wal = .ok r)
    (hmax : config.maxPending ≤ wal.maxRecords)
    (hlimit : wal.maxPayloadBytes + 30 < 2 ^ 64)
    (hfits : ∀ record ∈ rs, record.Fits wal.maxPayloadBytes)
    (hfile : wal.file = encodeAll WalRecord.bytes rs)
    (hrun : Reaches (Guarded Roomy steps) r r') :
    ∃ wal' r'', r'.wal = some wal' ∧
      withWal config { wal with file := wal'.file } = .ok r'' := by
  have hvalid := (withWal_eq_ok_iff.mp hopen).1
  have hreopens : ∃ rs', Reopens config wal r' rs' := by
    refine Reaches.invariant (fun r => ∃ rs, Reopens config wal r rs) hrun ?_ ?_
    · obtain ⟨hwhole, rfl, hle, hwithin⟩ := whole_of_withWal hopen hlimit hfits hfile
      exact ⟨rs, rfl, hwhole, hle, hwithin⟩
    · rintro r c r' ⟨rs, h⟩ ⟨hroomy, hstep⟩
      exact h.step hmax hlimit hroomy (effect_of_steps hstep)
  obtain ⟨rs', h⟩ := hreopens
  exact ⟨_, _, h.whole.1,
    withWal_eq_ok_iff.mpr ⟨hvalid, live rs', h.replay hlimit, h.length_le, rfl⟩⟩

def tight : SyncConfig where
  maxPending := 1
  maxPayloadBytes := 64
  maxInFlight := 1
  resendAfterFrames := 3
  maxRetries := 8

/-- One packet queued on an empty log. -/
theorem withWal_reopen_queued :
    ∃ wal' r'', ((opened tight emptyLog []).call
        (.enqueue .complete (.event 7 [9]))).2.wal = some wal' ∧
      withWal tight { emptyLog with file := wal'.file } = .ok r'' := by
  have hroomy : (opened tight emptyLog []).Roomy (.enqueue .complete (.event 7 [9])) := by
    refine ⟨rfl, ?_⟩
    intro disk update s hc hwrites wal recovered hwal hreplay
    cases Option.some.inj hwal
    cases Except.ok.inj hreplay
    exact Or.inr (by decide)
  exact withWal_reopen (withWal_emptyLog (by decide)) (by decide) (by decide)
    (show ∀ record ∈ ([] : List WalRecord), record.Fits 64 by simp) rfl
    (.single ⟨_, hroomy, rfl⟩)

/-- **A log `with_wal` refuses.** One packet in flight and one queued are two live packets,
    where the queue holds one. -/
theorem reopen_refused :
    ∃ r r' wal', withWal tight emptyLog = .ok r ∧
      Reaches (Guarded (fun _ c => c.disk = .complete) steps) r r' ∧ r'.wal = some wal' ∧
      withWal tight { emptyLog with file := wal'.file } = .error .backpressure := by
  refine ⟨opened tight emptyLog [], _, _, withWal_emptyLog (by decide),
    Reaches.foldl _ _ (show ∀ c ∈ [Call.enqueue .complete (.event 7 [9]), .setMode .online,
      .pump [.ok ()] 0, .enqueue .complete (.event 8 [5])], c.disk = .complete by
        simp [Call.disk]), rfl, rfl⟩

end Replicator

/-! ## Sequence numbers are not used twice -/

/-- A replicator with the history of the sequence numbers its enqueues assigned, a coalesced
    delta assigning none. -/
structure Life where
  replicator : Replicator
  assigned : List UInt64

/-- The sequence number a call assigns. -/
def Life.assigns (r : Replicator) : Call → List UInt64
  | .enqueue disk update =>
    if r.Coalesces update then [] else (r.call (.enqueue disk update)).1.accepted.toList
  | _ => []

def Life.step (s : Life) : LifeEvent → Life → Prop
  | .call c, t =>
    t = { replicator := (s.replicator.call c).2,
          assigned := s.assigned ++ Life.assigns s.replicator c }
  | .restart config, t =>
    t.assigned = s.assigned ∧
      ∃ wal, s.replicator.wal = some wal ∧ Replicator.withWal config wal = .ok t.replicator

/-- No new packet takes the last sequence number, and a restart finds a live packet at least as
    high as every number assigned. -/
def Life.Remembers (s : Life) : LifeEvent → Prop
  | .call c =>
    ∀ disk update, c = .enqueue disk update → s.replicator.Takes update →
      s.replicator.nextSequence ≠ Replicator.lastSequence
  | .restart _ =>
    ∀ wal recovered, s.replicator.wal = some wal → wal.replay = .ok recovered →
      ∀ a ∈ s.assigned, ∃ p ∈ recovered, a ≤ p.sequence

namespace Replicator

/-- **What a call does to the sequence numbers.** It assigns none, or the next one. -/
theorem assigns_cases {r r' : Replicator} {c : Call} {o : Output} (heffect : Effect r c o r')
    (ho : o = (r.call c).1) :
    (Life.assigns r c = [] ∧ r'.nextSequence = r.nextSequence) ∨
      ((Life.assigns r c = [] ∨ Life.assigns r c = [r.nextSequence]) ∧
        (∃ disk update, c = .enqueue disk update ∧ r.Takes update) ∧
        r'.nextSequence = r.successor) := by
  have hnone : o.accepted = none → Life.assigns r c = [] := by
    intro h
    cases c with
    | enqueue disk update =>
      rw [Life.assigns, ← ho, h]
      simp
    | _ => rfl
  cases heffect with
  | idle mode stats hc => exact Or.inl ⟨hnone rfl, rfl⟩
  | burned htakes hspoils => exact Or.inr ⟨Or.inl (hnone rfl), ⟨_, _, rfl, htakes⟩, rfl⟩
  | spoiled hc hspoils => exact Or.inl ⟨hnone rfl, rfl⟩
  | enqueued stats htakes hlogs =>
    refine Or.inr ⟨Or.inr ?_, ⟨_, _, rfl, htakes⟩, rfl⟩
    rw [Life.assigns, if_neg htakes.2.2, ← ho]
    rfl
  | @coalesced disk key payload pre post old stats hpending hpre hold hlogs =>
    -- The number answered is the old delta's: nothing is assigned.
    refine Or.inl ⟨if_pos ?_, rfl⟩
    exact ⟨old, by simp [hpending], hold⟩
  | pumped stats hpending hinFlight hrest => exact Or.inl ⟨hnone rfl, rfl⟩
  | acknowledged stats hlogs => exact Or.inl ⟨hnone rfl, rfl⟩
  | received hcarries haccepts hle => exact Or.inl ⟨hnone rfl, rfl⟩
  | receivedAck stats hcarries haccepts hlt hlogs => exact Or.inl ⟨hnone rfl, rfl⟩
  | receivedSpoiled hcarries haccepts hlt hspoils => exact Or.inl ⟨hnone rfl, rfl⟩
  | session nonce hc => exact Or.inl ⟨hnone rfl, rfl⟩

end Replicator

/-- The assigned numbers increase, and the next one is above them. -/
structure Life.Increasing (s : Life) : Prop where
  pairwise : s.assigned.Pairwise (· < ·)
  below : ∀ a ∈ s.assigned, a < s.replicator.nextSequence

theorem Life.Increasing.step {s t : Life} (h : s.Increasing) {e : LifeEvent}
    (he : s.Remembers e) (hst : s.step e t) : t.Increasing := by
  cases e with
  | call c =>
    obtain rfl := hst
    rcases Replicator.assigns_cases (s.replicator.effect_call c) rfl with
      ⟨hassigns, hnext⟩ | ⟨hassigns, ⟨disk, update, rfl, htakes⟩, hnext⟩
    · refine ⟨?_, ?_⟩ <;> simp only [hassigns, List.append_nil]
      · exact h.pairwise
      · rw [hnext]
        exact h.below
    · have hsucc := Replicator.toNat_successor (he disk update rfl htakes)
      have hlt : s.replicator.nextSequence < s.replicator.successor :=
        UInt64.lt_iff_toNat_lt.mpr (by omega)
      rcases hassigns with hassigns | hassigns
      · refine ⟨?_, ?_⟩ <;> simp only [hassigns, List.append_nil]
        · exact h.pairwise
        · rw [hnext]
          exact fun a ha => UInt64.lt_trans (h.below a ha) hlt
      · refine ⟨?_, ?_⟩ <;> simp only [hassigns]
        · rw [List.pairwise_append]
          refine ⟨h.pairwise, by simp, ?_⟩
          intro a ha b hb
          rw [List.mem_singleton.mp hb]
          exact h.below a ha
        · rw [hnext]
          intro a ha
          rcases List.mem_append.mp ha with ha | ha
          · exact UInt64.lt_trans (h.below a ha) hlt
          · rw [List.mem_singleton.mp ha]
            exact hlt
  | restart config =>
    obtain ⟨hassigned, wal, hwal, hopen⟩ := hst
    obtain ⟨-, recovered, hreplay, -, hr⟩ := Replicator.withWal_eq_ok_iff.mp hopen
    refine ⟨hassigned ▸ h.pairwise, ?_⟩
    rw [hassigned, hr]
    intro a ha
    -- The recovered packet at or above `a` lifts the next number above `a`, unless `a` is the
    -- last number there is, which no next number lies below.
    obtain ⟨p, hp, hle⟩ := he wal recovered hwal hreplay a ha
    have hnext := Replicator.le_recoveredNext hp
    rw [toNat_saturatingAdd] at hnext
    have hone : (1 : UInt64).toNat = 1 := rfl
    have hbelow := UInt64.lt_iff_toNat_lt.mp (h.below a ha)
    have hle := UInt64.le_iff_toNat_le.mp hle
    have hmax := s.replicator.nextSequence.toNat_lt
    refine UInt64.lt_iff_toNat_lt.mpr (Nat.lt_of_lt_of_le ?_ hnext)
    omega

namespace Replicator

/-- **Sequence numbers increase for the life of the log**, across restarts, in runs whose
    restarts find a live packet at least as high as every number assigned. The run starts from
    any replicator, one that `with_wal` opened or another. -/
theorem assigned_increasing {r : Replicator} {t : Life}
    (hrun : Reaches (Guarded Life.Remembers Life.step) { replicator := r, assigned := [] } t) :
    t.assigned.Pairwise (· < ·) := by
  have h : t.Increasing := by
    refine Reaches.invariant Life.Increasing hrun ⟨.nil, by simp⟩ ?_
    rintro s e t h ⟨he, hst⟩
    exact h.step he hst
  exact h.pairwise

def oneQueued : SyncWal := emptyLog.push (.packet ⟨1, 0, .event, 7, [9]⟩)

/-- A packet queued, a restart, and another packet queued. -/
theorem assigned_increasing_restart : ∃ t,
    Reaches (Guarded Life.Remembers Life.step)
        { replicator := opened .default emptyLog [], assigned := [] } t ∧
      t.assigned = [1, 2] ∧ t.assigned.Pairwise (· < ·) := by
  let s₀ : Life := { replicator := opened .default emptyLog [], assigned := [] }
  let s₁ : Life :=
    { replicator := (s₀.replicator.call (.enqueue .complete (.event 7 [9]))).2, assigned := [1] }
  let s₂ : Life :=
    { replicator := opened .default oneQueued [⟨1, 0, .event, 7, [9]⟩], assigned := [1] }
  let s₃ : Life :=
    { replicator := (s₂.replicator.call (.enqueue .complete (.event 8 [5]))).2,
      assigned := [1, 2] }
  have h₁ : s₀.Remembers (.call (.enqueue .complete (.event 7 [9]))) :=
    fun disk update hc htakes => by decide
  have h₂ : s₁.Remembers (.restart .default) := by
    intro wal recovered hwal hreplay
    cases Option.some.inj hwal
    have hrecovered : oneQueued.replay = .ok [⟨1, 0, .event, 7, [9]⟩] := rfl
    cases Except.ok.inj (hrecovered.symm.trans hreplay)
    simp [s₁]
  have h₃ : s₂.Remembers (.call (.enqueue .complete (.event 8 [5]))) :=
    fun disk update hc htakes => by decide
  have hreopen : s₁.step (.restart .default) s₂ :=
    ⟨rfl, oneQueued, rfl, withWal_eq_ok_iff.mpr ⟨by decide, _, rfl, by decide, rfl⟩⟩
  have hrun : Reaches (Guarded Life.Remembers Life.step) s₀ s₃ :=
    .tail (.tail (.single ⟨_, h₁, rfl⟩) ⟨_, h₂, hreopen⟩) ⟨_, h₃, rfl⟩
  exact ⟨s₃, hrun, rfl, assigned_increasing hrun⟩

def oneAcknowledged : SyncWal := oneQueued.push (.ack 1)

/-- **A sequence number assigned twice.** A packet is queued, sent and acknowledged; the log
    holds nothing live, and the replicator opened on it starts over at 1. -/
theorem assigned_twice :
    ∃ r t, withWal .default emptyLog = .ok r ∧
      Reaches (Guarded (fun _ e => ∀ c, e = .call c → c.disk = .complete) Life.step)
        { replicator := r, assigned := [] } t ∧
      t.assigned = [1, 1] := by
  let s₀ : Life := { replicator := opened .default emptyLog [], assigned := [] }
  let s₁ : Life :=
    { replicator := (s₀.replicator.call (.enqueue .complete (.event 7 [9]))).2, assigned := [1] }
  let s₂ : Life := { s₁ with replicator := (s₁.replicator.call (.setMode .online)).2 }
  let s₃ : Life := { s₂ with replicator := (s₂.replicator.call (.pump [.ok ()] 0)).2 }
  let s₄ : Life := { s₃ with replicator := (s₃.replicator.call (.acknowledge .complete 1)).2 }
  let s₅ : Life := { replicator := opened .default oneAcknowledged [], assigned := [1] }
  let s₆ : Life :=
    { replicator := (s₅.replicator.call (.enqueue .complete (.event 8 [5]))).2,
      assigned := [1, 1] }
  have hreopen : s₄.step (.restart .default) s₅ :=
    ⟨rfl, oneAcknowledged, rfl, withWal_eq_ok_iff.mpr ⟨by decide, _, rfl, by decide, rfl⟩⟩
  have hcall : ∀ c : Call, c.disk = .complete →
      ∀ c', LifeEvent.call c = .call c' → c'.disk = .complete := by
    rintro c hc c' ⟨⟩
    exact hc
  refine ⟨s₀.replicator, s₆, withWal_emptyLog (by decide), ?_, rfl⟩
  refine .head (b := s₁) ⟨.call (.enqueue .complete (.event 7 [9])), hcall _ rfl, rfl⟩ ?_
  refine .head (b := s₂) ⟨.call (.setMode .online), hcall _ rfl, rfl⟩ ?_
  refine .head (b := s₃) ⟨.call (.pump [.ok ()] 0), hcall _ rfl, rfl⟩ ?_
  refine .head (b := s₄) ⟨.call (.acknowledge .complete 1), hcall _ rfl, rfl⟩ ?_
  refine .head (b := s₅) ⟨.restart .default, fun c hc => by simp at hc, hreopen⟩ ?_
  exact .single ⟨.call (.enqueue .complete (.event 8 [5])), hcall _ rfl, rfl⟩

end Replicator

end Sync
end EngineKit
