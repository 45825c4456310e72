import EngineKit.Bus.Ring

/-!
# The frame tracer

`FrameTracer` of `src/kernel/trace/frame_tracer.rs`. Samples go into a ring, and what finds it full
is counted and dropped; a frame that comes when the interval has passed empties the ring into a
report. So a report is about the first samples of its window, as many as the ring has cells, and
says how many came after them (`reportOf`).

The count of the dropped is a `u64` that wraps in a release build. A report is sound, and so is the
gate that passes if it has nothing over budget and nothing dropped, exactly if fewer than `2 ^ 64`
samples of its window were dropped (`flushes_sound_iff`).
-/

set_option autoImplicit false

namespace EngineKit
namespace Trace

open Lib
open Bus (SpscRing RingError exists_of_map_eq_ok)

structure TraceSample where
  subsystemIdx : UInt32
  frameIndex : UInt64
  durationNs : UInt64
  budgetNs : UInt64
  overBudget : Bool
deriving DecidableEq

structure BudgetReport where
  samples : UInt64
  overBudget : UInt64
  dropped : UInt64
deriving DecidableEq

def BudgetReport.empty : BudgetReport := ⟨0, 0, 0⟩

def BudgetReport.withinBudget (report : BudgetReport) : Bool :=
  report.overBudget == 0 && report.dropped == 0

/-- Times are in nanoseconds. -/
structure FrameTracer (w : PointerWidth) where
  log : SpscRing w TraceSample
  dropped : UInt64
  flushInterval : Nat
  lastFlush : Nat
  lastReport : BudgetReport

/-- What a flush counts on its way through the ring. -/
structure Tally where
  total : UInt64
  overCount : UInt64
  maxDur : UInt64
  maxIdx : UInt32

def Tally.start : Tally := ⟨0, 0, 0, UInt32.ofNat (2 ^ 32 - 1)⟩

def Tally.add (tally : Tally) (sample : TraceSample) : Tally where
  total := tally.total + 1
  overCount := if sample.overBudget then tally.overCount + 1 else tally.overCount
  maxDur := if tally.maxDur < sample.durationNs then sample.durationNs else tally.maxDur
  maxIdx := if tally.maxDur < sample.durationNs then sample.subsystemIdx else tally.maxIdx

/-- The line a flush writes: the length of the window in milliseconds, the counts, and the slowest
    subsystem with its nanoseconds. -/
structure Summary where
  windowMs : Nat
  samples : UInt64
  overBudget : UInt64
  dropped : UInt64
  maxIdx : UInt32
  maxDur : UInt64

variable {w : PointerWidth}

/-- The loop of `flush`, with fuel for so many turns. -/
def drain : Nat → SpscRing w TraceSample → Tally → Tally × SpscRing w TraceSample
  | 0, log, tally => (tally, log)
  | fuel + 1, log, tally =>
    match log.pop with
    | (none, log) => (tally, log)
    | (some sample, log) => drain fuel log (tally.add sample)

namespace FrameTracer

/-- `new` panics where this is an error. `now` is the time. -/
def new (room : Bool) (sampleCapacity : w.Usize) (flushInterval now : Nat) :
    Except RingError (FrameTracer w) :=
  (SpscRing.tryWithCapacity room sampleCapacity).map fun log =>
    { log, dropped := 0, flushInterval, lastFlush := now, lastReport := .empty }

def record (tracer : FrameTracer w) (sample : TraceSample) : FrameTracer w :=
  match tracer.log.push sample with
  | (.ok (), log) => { tracer with log }
  | (.error _, log) => { tracer with log, dropped := tracer.dropped + 1 }

def flush (tracer : FrameTracer w) (now : Nat) : Summary × FrameTracer w :=
  let (tally, log) := drain (tracer.log.buf.length + 1) tracer.log .start
  ({ windowMs := tracer.flushInterval / 1000000
     samples := tally.total
     overBudget := tally.overCount
     dropped := tracer.dropped
     maxIdx := tally.maxIdx
     maxDur := tally.maxDur },
    { tracer with
      log
      dropped := 0
      lastFlush := now
      lastReport := ⟨tally.total, tally.overCount, tracer.dropped⟩ })

/-- `now.duration_since(self.last_flush) >= self.flush_interval`, which is zero for a time in the
    past. -/
def Due (tracer : FrameTracer w) (now : Nat) : Prop :=
  tracer.flushInterval ≤ now - tracer.lastFlush

instance (tracer : FrameTracer w) (now : Nat) : Decidable (tracer.Due now) :=
  inferInstanceAs (Decidable (_ ≤ _))

def frame (tracer : FrameTracer w) (now : Nat) : FrameTracer w :=
  if tracer.Due now then (tracer.flush now).2 else tracer

theorem eq_of_new {room : Bool} {sampleCapacity : w.Usize} {flushInterval now : Nat}
    {tracer : FrameTracer w} (h : new room sampleCapacity flushInterval now = .ok tracer) :
    ∃ log, SpscRing.tryWithCapacity room sampleCapacity = .ok log ∧
      tracer = ⟨log, 0, flushInterval, now, .empty⟩ := by
  obtain ⟨log, hlog, rfl⟩ := exists_of_map_eq_ok h
  exact ⟨log, hlog, rfl⟩

end FrameTracer

/-! ## The loop -/

/-- **The loop empties the ring**, and counts what was in it. -/
theorem drain_spec {log : SpscRing w TraceSample} {taken fuel : Nat} {xs : List TraceSample}
    (h : log.Holds taken xs) (hfuel : xs.length < fuel) (tally : Tally) :
    ∃ taken' log', drain fuel log tally = (xs.foldl Tally.add tally, log') ∧
      log'.Holds taken' [] ∧ log'.buf.length = log.buf.length := by
  induction xs generalizing log taken fuel tally with
  | nil =>
    cases fuel with
    | zero => exact absurd hfuel (Nat.lt_irrefl 0)
    | succ fuel => exact ⟨taken, log, by rw [drain, h.pop_nil]; rfl, h, rfl⟩
  | cons x xs ih =>
    cases fuel with
    | zero => exact absurd hfuel (Nat.not_lt_zero _)
    | succ fuel =>
      obtain ⟨log', hpop, h', hsize⟩ := h.pop_cons
      obtain ⟨taken', log'', hdrain, h'', hsize'⟩ :=
        ih h' (Nat.lt_of_succ_lt_succ hfuel) (tally.add x)
      refine ⟨taken', log'', ?_, h'', hsize'.trans hsize⟩
      rw [drain, hpop]
      exact hdrain

theorem foldl_add (tally : Tally) (xs : List TraceSample) :
    (xs.foldl Tally.add tally).total = tally.total + UInt64.ofNat xs.length ∧
      (xs.foldl Tally.add tally).overCount =
        tally.overCount + UInt64.ofNat (xs.countP TraceSample.overBudget) := by
  induction xs generalizing tally with
  | nil => simp
  | cons x xs ih =>
    obtain ⟨htotal, hover⟩ := ih (tally.add x)
    rw [List.foldl_cons, htotal, hover, List.length_cons, List.countP_cons, UInt64.ofNat_add]
    refine ⟨?_, ?_⟩
    · show tally.total + 1 + _ = _
      rw [UInt64.add_assoc, UInt64.add_comm 1]
      rfl
    · cases hx : x.overBudget with
      | false => simp [Tally.add, hx]
      | true => simp [Tally.add, hx, UInt64.ofNat_add, UInt64.add_assoc, UInt64.add_comm 1]

/-! ## Windows -/

/-- What a flush reports of the samples recorded since the one before. -/
def reportOf (capacity : Nat) (window : List TraceSample) : BudgetReport where
  samples := UInt64.ofNat (window.take capacity).length
  overBudget := UInt64.ofNat ((window.take capacity).countP TraceSample.overBudget)
  dropped := UInt64.ofNat (window.length - capacity)

/-- A flush that was made: the samples recorded since the one before, and its report. -/
structure Flush where
  window : List TraceSample
  report : BudgetReport
deriving DecidableEq

/-- The report adds up to the records, counts those over budget among the retained, and passes only
    if no sample of the window was over budget. -/
structure Flush.Sound (capacity : Nat) (flush : Flush) : Prop where
  total : flush.report.samples.toNat + flush.report.dropped.toNat = flush.window.length
  overBudget : flush.report.overBudget.toNat =
    (flush.window.take capacity).countP TraceSample.overBudget
  gate : flush.report.withinBudget = true → ∀ sample ∈ flush.window, sample.overBudget = false

/-- The first two counts fit their type, and the third is kept modulo `2 ^ 64`. -/
theorem toNat_reportOf {capacity : Nat} (h : capacity < 2 ^ 64) (window : List TraceSample) :
    (reportOf capacity window).samples.toNat = min capacity window.length ∧
      (reportOf capacity window).overBudget.toNat =
        (window.take capacity).countP TraceSample.overBudget ∧
      (reportOf capacity window).dropped.toNat = (window.length - capacity) % 2 ^ 64 := by
  have hretained : (window.take capacity).length = min capacity window.length := List.length_take
  have hcount := List.countP_le_length (p := TraceSample.overBudget) (l := window.take capacity)
  refine ⟨?_, ?_, UInt64.toNat_ofNat'⟩
  · rw [reportOf, hretained]
    exact UInt64.toNat_ofNat_of_lt' (by change _ < 2 ^ 64; omega)
  · exact UInt64.toNat_ofNat_of_lt' (by change _ < 2 ^ 64; omega)

/-- **The gate**, of a window that the ring has room for. -/
theorem gate_of_short {capacity : Nat} (h : capacity < 2 ^ 64) {window : List TraceSample}
    (hshort : window.length ≤ capacity)
    (hgate : (reportOf capacity window).withinBudget = true) :
    ∀ sample ∈ window, sample.overBudget = false := by
  obtain ⟨-, hover, -⟩ := toNat_reportOf h window
  simp only [BudgetReport.withinBudget, Bool.and_eq_true, beq_iff_eq] at hgate
  rw [hgate.1, List.take_of_length_le hshort] at hover
  have hall := List.countP_eq_zero.mp hover.symm
  intro sample hsample
  exact Bool.eq_false_iff.mpr (hall sample hsample)

theorem sound_iff {capacity : Nat} (hcapacity : capacity < 2 ^ 64) (window : List TraceSample) :
    Flush.Sound capacity ⟨window, reportOf capacity window⟩ ↔
      window.length < capacity + 2 ^ 64 := by
  obtain ⟨hsamples, hover, hdropped⟩ := toNat_reportOf hcapacity window
  constructor
  · intro h
    have htotal := h.total
    simp only [hsamples, hdropped] at htotal
    omega
  · intro hlt
    refine ⟨?_, hover, ?_⟩
    · simp only [hsamples, hdropped]
      omega
    · intro hgate
      -- Nothing was dropped, so what was retained is the window.
      have hnone : (reportOf capacity window).dropped.toNat = 0 := by
        simp only [BudgetReport.withinBudget, Bool.and_eq_true, beq_iff_eq] at hgate
        rw [hgate.2]
        rfl
      have hshort : window.length ≤ capacity := by omega
      exact gate_of_short hcapacity hshort hgate

/-! ## Runs -/

inductive TraceCall where
  | record (sample : TraceSample)
  | frame (now : Nat)

def TraceCall.sample? : TraceCall → Option TraceSample
  | .record sample => some sample
  | .frame _ => none

/-- The tracer and its history: what was recorded since the last flush, and the flushes so far. -/
structure Traced (w : PointerWidth) where
  tracer : FrameTracer w
  window : List TraceSample
  flushed : List Flush

namespace Traced

def call (s : Traced w) : TraceCall → Traced w
  | .record sample => { s with tracer := s.tracer.record sample, window := s.window ++ [sample] }
  | .frame now =>
    if s.tracer.Due now then
      { tracer := s.tracer.frame now
        window := []
        flushed := s.flushed ++ [⟨s.window, (s.tracer.frame now).lastReport⟩] }
    else { s with tracer := s.tracer.frame now }

def run (tracer : FrameTracer w) (calls : List TraceCall) : Traced w :=
  calls.foldl call ⟨tracer, [], []⟩

theorem run_concat (tracer : FrameTracer w) (calls : List TraceCall) (c : TraceCall) :
    run tracer (calls ++ [c]) = (run tracer calls).call c := by
  rw [run, List.foldl_append]
  rfl

/-- The ring holds the first samples of the window, and the others are counted. -/
structure Ok (capacity : Nat) (s : Traced w) : Prop where
  size : s.tracer.log.buf.length = capacity
  log : ∃ taken, s.tracer.log.Holds taken (s.window.take capacity)
  dropped : s.tracer.dropped = UInt64.ofNat (s.window.length - capacity)
  reports : ∀ flush ∈ s.flushed, flush.report = reportOf capacity flush.window
  last : s.tracer.lastReport = (s.flushed.getLast?.map Flush.report).getD .empty

variable {capacity : Nat} {s : Traced w}

theorem Ok.record (h : s.Ok capacity) (sample : TraceSample) :
    (s.call (.record sample)).Ok capacity := by
  obtain ⟨taken, hlog⟩ := h.log
  have hsize := h.size
  have hlen : (s.window ++ [sample]).length = s.window.length + 1 := List.length_append
  have hretained : (s.window.take capacity).length = min capacity s.window.length :=
    List.length_take
  by_cases hroom : s.window.length < capacity
  · -- The ring has room, and nothing of the window was dropped before.
    obtain ⟨log, hpush, hholds, hkept⟩ := hlog.push_room (by omega) sample
    have hcall : s.call (.record sample) =
        { s with tracer := { s.tracer with log }, window := s.window ++ [sample] } := by
      simp only [call, FrameTracer.record, hpush]
    have htake : s.window.take capacity ++ [sample] = (s.window ++ [sample]).take capacity := by
      rw [List.take_of_length_le hroom.le, List.take_of_length_le (by omega)]
    rw [hcall]
    refine ⟨hkept.trans hsize, ⟨taken, htake ▸ hholds⟩, ?_, h.reports, h.last⟩
    show s.tracer.dropped = _
    rw [h.dropped, hlen, Nat.sub_eq_zero_of_le hroom.le, Nat.sub_eq_zero_of_le (by omega)]
  · -- The ring is full, with the first of the window, and stays as it is.
    have hfull : (s.window.take capacity).length = s.tracer.log.buf.length := by omega
    have hcall : s.call (.record sample) =
        { s with
          tracer := { s.tracer with dropped := s.tracer.dropped + 1 }
          window := s.window ++ [sample] } := by
      simp only [call, FrameTracer.record, hlog.push_full hfull sample]
    have htake : (s.window ++ [sample]).take capacity = s.window.take capacity :=
      List.take_append_of_le_length (Nat.not_lt.mp hroom)
    have hone : s.window.length + 1 - capacity = s.window.length - capacity + 1 := by omega
    rw [hcall]
    refine ⟨hsize, ⟨taken, htake.symm ▸ hlog⟩, ?_, h.reports, h.last⟩
    show s.tracer.dropped + 1 = _
    rw [h.dropped, hlen, hone, UInt64.ofNat_add]
    rfl

theorem Ok.frame (h : s.Ok capacity) (now : Nat) : (s.call (.frame now)).Ok capacity := by
  by_cases hdue : s.tracer.Due now
  · obtain ⟨taken, hlog⟩ := h.log
    have hfits := hlog.cells.fits
    obtain ⟨taken', log, hdrain, hholds, hkept⟩ := drain_spec hlog (Nat.lt_succ_of_le hfits) .start
    obtain ⟨htotal, hover⟩ := foldl_add .start (s.window.take capacity)
    have hframe : s.tracer.frame now =
        { s.tracer with
          log
          dropped := 0
          lastFlush := now
          lastReport := reportOf capacity s.window } := by
      rw [FrameTracer.frame, if_pos hdue]
      simp only [FrameTracer.flush, hdrain, htotal, hover, h.dropped]
      simp [reportOf, Tally.start]
    simp only [call, if_pos hdue, hframe]
    refine ⟨hkept.trans h.size, ⟨taken', ?_⟩, ?_, ?_, ?_⟩
    · rw [List.take_nil]
      exact hholds
    · rw [List.length_nil, Nat.zero_sub]
      rfl
    · intro flush hflush
      rcases List.mem_append.mp hflush with hbefore | hnow
      · exact h.reports flush hbefore
      · rw [List.mem_singleton.mp hnow]
    · simp
  · have hframe : s.tracer.frame now = s.tracer := by rw [FrameTracer.frame, if_neg hdue]
    simp only [call, if_neg hdue, hframe]
    exact h

theorem Ok.run {tracer : FrameTracer w} (h : Ok capacity ⟨tracer, [], []⟩)
    (calls : List TraceCall) : (Traced.run tracer calls).Ok capacity := by
  induction calls using List.reverseRecOn with
  | nil => exact h
  | append_singleton calls c ih =>
    rw [run_concat]
    cases c with
    | record sample => exact Ok.record ih sample
    | frame now => exact Ok.frame ih now

theorem Ok.new {room : Bool} {sampleCapacity : w.Usize} {flushInterval now : Nat}
    {tracer : FrameTracer w}
    (h : FrameTracer.new room sampleCapacity flushInterval now = .ok tracer) :
    Ok (max (nextPowerOfTwo sampleCapacity.toNat) 2) ⟨tracer, [], []⟩ ∧
      max (nextPowerOfTwo sampleCapacity.toNat) 2 < 2 ^ w.bits := by
  obtain ⟨log, hlog, rfl⟩ := FrameTracer.eq_of_new h
  obtain ⟨hholds, hsize⟩ := SpscRing.tryWithCapacity_spec hlog
  refine ⟨⟨hsize, ⟨0, ?_⟩, ?_, by simp, rfl⟩, hsize ▸ hholds.sized.lt⟩
  · rw [List.take_nil]
    exact hholds
  · rw [List.length_nil, Nat.zero_sub]
    rfl

/-- **No record is lost or counted twice**: the windows of the flushes, and what was recorded
    since, are the records of the run. -/
theorem windows_run (tracer : FrameTracer w) (calls : List TraceCall) :
    ((run tracer calls).flushed.map Flush.window).flatten ++ (run tracer calls).window =
      calls.filterMap TraceCall.sample? := by
  induction calls using List.reverseRecOn with
  | nil => rfl
  | append_singleton calls c ih =>
    rw [run_concat, List.filterMap_append, ← ih]
    cases c with
    | record sample => simp [call, TraceCall.sample?]
    | frame now =>
      simp only [call]
      split
      · simp [TraceCall.sample?]
      · simp [TraceCall.sample?]

/-! ## A window of any length -/

theorem run_record (tracer : FrameTracer w) (xs : List TraceSample) :
    (run tracer (xs.map .record)).window = xs ∧ (run tracer (xs.map .record)).flushed = [] ∧
      (run tracer (xs.map .record)).tracer.flushInterval = tracer.flushInterval := by
  induction xs using List.reverseRecOn with
  | nil => exact ⟨rfl, rfl, rfl⟩
  | append_singleton xs x ih =>
    obtain ⟨hwindow, hflushed, hinterval⟩ := ih
    rw [List.map_append, List.map_singleton, run_concat]
    refine ⟨congrArg (· ++ [x]) hwindow, hflushed, ?_⟩
    rw [← hinterval]
    simp only [call, FrameTracer.record]
    split
    · rfl
    · rfl

/-- A frame that is always due makes one report of all that was recorded. -/
theorem flushed_of_new {room : Bool} {sampleCapacity : w.Usize} {now : Nat}
    {tracer : FrameTracer w} (hnew : FrameTracer.new room sampleCapacity 0 now = .ok tracer)
    (xs : List TraceSample) (later : Nat) :
    (run tracer (xs.map .record ++ [.frame later])).flushed =
      [⟨xs, reportOf (max (nextPowerOfTwo sampleCapacity.toNat) 2) xs⟩] := by
  obtain ⟨hwindow, hflushed, hsame⟩ := run_record tracer xs
  have hdue : (run tracer (xs.map .record)).tracer.Due later := by
    obtain ⟨log, _, hstart⟩ := FrameTracer.eq_of_new hnew
    rw [FrameTracer.Due, hsame, hstart]
    exact Nat.zero_le _
  have hok := ((Ok.new hnew).1.run (xs.map .record)).frame later
  rw [run_concat]
  have hreports := hok.reports
  simp only [call, if_pos hdue, hwindow, hflushed, List.nil_append,
    List.mem_singleton] at hreports ⊢
  have hreport := hreports _ rfl
  exact congrArg (fun report => [Flush.mk xs report]) hreport

/-! ## Reports -/

/-- **When a report is sound.** After any records and frames at any times, the report of a flush is
    sound exactly if fewer than `2 ^ 64` samples of its window were dropped; and the last report is
    that of the last flush. -/
theorem flushes_sound_iff (hw : w.bits ≤ 64) {room : Bool} {sampleCapacity : w.Usize}
    {flushInterval now : Nat} {tracer : FrameTracer w}
    (hnew : FrameTracer.new room sampleCapacity flushInterval now = .ok tracer)
    (calls : List TraceCall) :
    (∀ flush ∈ (run tracer calls).flushed,
      flush.Sound (max (nextPowerOfTwo sampleCapacity.toNat) 2) ↔
        flush.window.length < max (nextPowerOfTwo sampleCapacity.toNat) 2 + 2 ^ 64) ∧
      (run tracer calls).tracer.lastReport =
        ((run tracer calls).flushed.getLast?.map Flush.report).getD .empty := by
  obtain ⟨hstart, hlt⟩ := Ok.new hnew
  have hok := hstart.run calls
  have hcapacity : max (nextPowerOfTwo sampleCapacity.toNat) 2 < 2 ^ 64 :=
    Nat.lt_of_lt_of_le hlt (Nat.pow_le_pow_right (by decide) hw)
  refine ⟨?_, hok.last⟩
  intro flush hflush
  have hreport := hok.reports flush hflush
  obtain ⟨window, report⟩ := flush
  obtain rfl : report = reportOf _ window := hreport
  exact sound_iff hcapacity window

/-- Two samples that a small ring keeps and one that it drops. -/
def threeSamples : List TraceSample :=
  [⟨0, 0, 1, 2, false⟩, ⟨1, 0, 5, 1, true⟩, ⟨2, 0, 1, 2, false⟩]

/-- The flush sums up the two samples that were kept and counts the third as dropped. -/
theorem flushes_sound_three :
    ∃ tracer : FrameTracer .sixtyFour, FrameTracer.new true 2 0 0 = .ok tracer ∧
      ⟨threeSamples, ⟨2, 1, 1⟩⟩ ∈ (run tracer (threeSamples.map .record ++ [.frame 0])).flushed ∧
      Flush.Sound 2 ⟨threeSamples, ⟨2, 1, 1⟩⟩ := by
  have hnew : FrameTracer.new (w := .sixtyFour) true 2 0 0 = .ok _ := rfl
  have hcapacity : max (nextPowerOfTwo (2 : BitVec 64).toNat) 2 = 2 := by decide +kernel
  have hflush := flushed_of_new hnew threeSamples 0
  have hsound := (flushes_sound_iff (by decide) hnew (threeSamples.map .record ++ [.frame 0])).1
  rw [hflush, hcapacity] at hsound
  have hreport := (hsound _ List.mem_cons_self).mpr (by decide)
  refine ⟨_, hnew, ?_, hreport⟩
  rw [hflush, hcapacity]
  exact List.mem_cons_self

/-- Two samples in time, and `2 ^ 64` that are over budget. -/
def burst : List TraceSample :=
  List.replicate 2 ⟨0, 0, 1, 2, false⟩ ++ List.replicate (2 ^ 64) ⟨0, 0, 2, 1, true⟩

/-- **The count comes around to zero**, and the gate passes. -/
theorem dropped_wraps :
    ∃ tracer : FrameTracer .sixtyFour, FrameTracer.new true 2 0 0 = .ok tracer ∧
      (run tracer (burst.map .record ++ [.frame 0])).flushed = [⟨burst, ⟨2, 0, 0⟩⟩] ∧
      burst.length = 2 ^ 64 + 2 ∧ BudgetReport.withinBudget ⟨2, 0, 0⟩ = true ∧
      ∃ sample ∈ burst, sample.overBudget = true := by
  have hlen : burst.length = 2 ^ 64 + 2 := by
    rw [burst, List.length_append, List.length_replicate, List.length_replicate, Nat.add_comm]
  have htake : burst.take 2 = List.replicate 2 ⟨0, 0, 1, 2, false⟩ :=
    List.take_left' List.length_replicate
  have hnew : FrameTracer.new (w := .sixtyFour) true 2 0 0 = .ok _ := rfl
  refine ⟨_, hnew, ?_, hlen, by decide, ⟨0, 0, 2, 1, true⟩, ?_, rfl⟩
  · rw [flushed_of_new hnew]
    have hcapacity : max (nextPowerOfTwo (2 : BitVec 64).toNat) 2 = 2 := by decide +kernel
    rw [hcapacity, reportOf, htake, hlen]
    rfl
  · rw [burst, List.mem_append, List.mem_replicate]
    exact Or.inr (List.mem_replicate.mpr ⟨by decide, rfl⟩)

end Traced

end Trace
end EngineKit
