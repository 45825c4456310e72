import EngineKit.Core.Kernel
import EngineKit.Lib.Reach

/-!
# The trace of a kernel's life

The callbacks of any run of `register`, `init`, `run_until` and `shutdown` fall into rounds, one
for each `init` that did initialise: every subsystem the registry had then, in the order fixed
then, is initialised once, ticked once a frame, and shut down once, backwards. Only the round in
progress is open, and there is one exactly while the kernel is initialised.

An `init` that fails, a run of a kernel that is not initialised and a second `shutdown` leave no
trace. What is registered meanwhile waits for the next round.

A round carries the proofs about its order (`once`, `first`), because the registry it was made from
is gone when the round is spoken of: subsystems are registered between rounds, and the plan of an
earlier one is not that of the registry now. What can be said later is that the earlier registries
are prefixes of this one (`Traced.kept`).

The trace is claimed to be a concatenation of rounds and not merely to be ordered, so the invariant
has the rounds themselves. Each operation extends it in one way: `init` opens a round, `run_until`
lengthens the open one, `shutdown` closes it, and the rest leaves it.
-/

set_option autoImplicit false

namespace EngineKit
namespace Core

open Lib Schedule Bus

variable {w : PointerWidth} {P : Type}

/-- A round: what was registered at its `init`, in what order it is called, how many frames it
    has run and whether it is over. The order has every subsystem once, behind all that it
    depends on. -/
structure Round where
  entries : List Subsystem
  order : List Nat
  frames : Nat
  closed : Bool
  once : order.Perm (List.range entries.length)
  first (v : Nat) (subsystem : Subsystem) (dep : String) :
    entries[v]? = some subsystem → dep ∈ subsystem.dependencies →
      ∃ u provider, entries[u]? = some provider ∧ provider.name = dep ∧
        order.idxOf u < order.idxOf v

namespace Round

def calls (r : Round) : List (Phase × Nat) :=
  r.order.map (fun idx => (.init, idx)) ++
    (List.replicate r.frames (r.order.map fun idx => (.tick, idx))).flatten ++
      if r.closed then r.order.reverse.map fun idx => (.shutdown, idx) else []

/-- The callbacks of one subsystem. -/
def own (r : Round) (idx : Nat) : List Phase :=
  if idx < r.entries.length then
    .init :: List.replicate r.frames .tick ++ if r.closed then [.shutdown] else []
  else []

/-- So many frames more. -/
def run (r : Round) (count : Nat) : Round := { r with frames := r.frames + count }

def close (r : Round) : Round := { r with closed := true }

/-- The place in the plan, by the number of the subsystem. -/
theorem idxOf_map_val {n : Nat} (order : List (Fin n)) (v : Fin n) :
    (order.map Fin.val).idxOf v.val = order.idxOf v := by
  induction order with
  | nil => rfl
  | cons u order ih =>
    have hbeq : (u.val == v.val) = (u == v) := by
      rw [Bool.eq_iff_iff, beq_iff_eq, beq_iff_eq, Fin.val_inj]
    rw [List.map_cons, List.idxOf_cons, List.idxOf_cons, ih, hbeq]

/-- The round of a plan. -/
def start {r : Registry} (h : r.Distinct) {deps : List (List (Fin r.entries.length))}
    (hdeps : r.resolveDependencies = .ok deps) {plan : SchedulePlan r.entries.length}
    (hplan : r.plan deps = .ok plan) : Round where
  entries := r.entries
  order := plan.order.map Fin.val
  frames := 0
  closed := false
  once := by
    have hperm := ((h.plan_spec hdeps hplan).1).map Fin.val
    rwa [List.map_coe_finRange_eq_range] at hperm
  first := by
    intro v subsystem dep hv hdep
    obtain ⟨hlt, rfl⟩ := List.getElem?_eq_some_iff.mp hv
    have hschedulable := h.schedulable_iff.mpr ⟨deps, plan, hdeps, hplan⟩
    obtain ⟨u, hu⟩ := hschedulable.known ⟨v, hlt⟩ dep hdep
    refine ⟨u.val, r.entries[u], List.getElem?_eq_getElem u.isLt, hu, ?_⟩
    have hidx := (h.plan_spec hdeps hplan).2 ⟨v, hlt⟩ u (hu ▸ hdep)
    rw [← idxOf_map_val, ← idxOf_map_val] at hidx
    exact hidx

/-- More frames come at the end of an open round. -/
theorem calls_run {r : Round} (hopen : r.closed = false) (count : Nat) :
    (r.run count).calls =
      r.calls ++ (List.replicate count (r.order.map fun idx => (Phase.tick, idx))).flatten := by
  simp only [calls, run, hopen, Bool.false_eq_true, if_false, List.append_nil, List.replicate_add,
    List.flatten_append, List.append_assoc]

/-- And so does the shutdown. -/
theorem calls_close {r : Round} (hopen : r.closed = false) :
    r.close.calls = r.calls ++ r.order.reverse.map fun idx => (.shutdown, idx) := by
  simp only [calls, close, hopen, Bool.false_eq_true, if_false, if_true, List.append_nil]

end Round

/-- The phases a subsystem went through. -/
def phasesOf (idx : Nat) (trace : List (Phase × Nat)) : List Phase :=
  (trace.filter fun call => call.2 = idx).map Prod.fst

theorem phasesOf_append (idx : Nat) (trace more : List (Phase × Nat)) :
    phasesOf idx (trace ++ more) = phasesOf idx trace ++ phasesOf idx more := by
  rw [phasesOf, List.filter_append, List.map_append]
  rfl

theorem phasesOf_flatten (idx : Nat) (traces : List (List (Phase × Nat))) :
    phasesOf idx traces.flatten = (traces.map (phasesOf idx)).flatten := by
  rw [phasesOf, List.filter_flatten, List.map_flatten, List.map_map]
  rfl

/-- A sweep over distinct subsystems calls each of them once. -/
theorem phasesOf_sweep (idx : Nat) (phase : Phase) {order : List Nat} (hnd : order.Nodup) :
    phasesOf idx (order.map fun i => (phase, i)) = if idx ∈ order then [phase] else [] := by
  induction order with
  | nil => rfl
  | cons i order ih =>
    obtain ⟨hnot, hnd⟩ := List.nodup_cons.mp hnd
    have hrest := ih hnd
    rw [phasesOf] at hrest ⊢
    rw [List.map_cons]
    by_cases hi : i = idx
    · rw [List.filter_cons_of_pos (by simpa using hi), List.map_cons, hrest, if_neg (hi ▸ hnot),
        if_pos (hi ▸ List.mem_cons_self)]
    · have hiff : idx ∈ i :: order ↔ idx ∈ order := by simp [Ne.symm hi]
      rw [List.filter_cons_of_neg (by simpa using hi), hrest, if_congr hiff rfl rfl]

/-- **What one subsystem sees** of a round. -/
theorem Round.phasesOf_calls (r : Round) (idx : Nat) : phasesOf idx r.calls = r.own idx := by
  have hnd : r.order.Nodup := r.once.nodup_iff.mpr List.nodup_range
  have hmem : idx ∈ r.order ↔ idx < r.entries.length := r.once.mem_iff.trans List.mem_range
  have hclose : phasesOf idx
        (if r.closed then r.order.reverse.map fun i => (.shutdown, i) else []) =
      if r.closed then (if idx < r.entries.length then [.shutdown] else []) else [] := by
    -- An open round has nothing at its end.
    cases r.closed with
    | true =>
      rw [if_pos rfl, if_pos rfl, phasesOf_sweep _ _ (List.nodup_reverse.mpr hnd),
        if_congr (List.mem_reverse.trans hmem) rfl rfl]
    | false => rfl
  rw [calls, phasesOf_append, phasesOf_append, phasesOf_flatten, List.map_replicate,
    phasesOf_sweep _ _ hnd, phasesOf_sweep _ _ hnd, hclose, own]
  -- A subsystem of the round, or one that was registered later.
  by_cases hidx : idx < r.entries.length
  · simp only [hmem, hidx, if_true, List.flatten_replicate_singleton, List.cons_append,
      List.nil_append]
  · simp only [hmem, hidx, if_false, List.flatten_replicate_nil, List.append_nil, ite_self]

/-! ## A kernel and its history -/

/-- A kernel, what it observably did, and the registries its `init`s have scheduled. -/
structure Life (w : PointerWidth) (P : Type) where
  kernel : Kernel w P
  events : List (Event P)
  scheduled : List (List Subsystem)

namespace Life

/-- A kernel just built. -/
def Starts (s : Life w P) : Prop :=
  ∃ room bus, MessageBus.tryNew room = .ok bus ∧ s = ⟨Kernel.new bus, [], []⟩

def step (s : Life w P) (op : Op P) : Life w P :=
  let (kernel, events) := s.kernel.apply op
  { kernel
    events := s.events ++ events
    scheduled :=
      if kernel.initialized && ! s.kernel.initialized then
        s.scheduled ++ [s.kernel.registry.entries]
      else s.scheduled }

def steps : Life w P → Op P → Life w P → Prop := fun s op t => t = s.step op

theorem calls_step (s : Life w P) (op : Op P) :
    calls (s.step op).events = calls s.events ++ calls (s.kernel.apply op).2 := calls_append _ _

/-- What initialises nothing schedules nothing. -/
theorem scheduled_step {s : Life w P} {op : Op P}
    (h : (s.kernel.apply op).1.initialized = true → s.kernel.initialized = true) :
    (s.step op).scheduled = s.scheduled := by
  refine if_neg ?_
  rw [Bool.and_eq_true, Bool.not_eq_true']
  intro hall
  obtain ⟨hnow, hbefore⟩ := hall
  exact Bool.false_ne_true (hbefore.symm.trans (h hnow))

/-- The rounds over, and the one in progress. -/
structure Rounds (s : Life w P) (past : List Round) (current : Option Round) : Prop where
  closed (r : Round) : r ∈ past → r.closed = true
  opened (r : Round) : r ∈ current → r.closed = false ∧ r.order = s.kernel.order
  initialized : current.isSome = s.kernel.initialized
  trace : calls s.events = ((past ++ current.toList).map Round.calls).flatten
  scheduled : (past ++ current.toList).map Round.entries = s.scheduled

structure Traced (s : Life w P) : Prop where
  distinct : s.kernel.registry.Distinct
  kept (entries : List Subsystem) : entries ∈ s.scheduled → entries <+: s.kernel.registry.entries
  rounds : ∃ past current, s.Rounds past current

section Steps

variable {s : Life w P}

/-- A kernel just built has no history. -/
theorem Traced.start (h : s.Starts) : s.Traced := by
  obtain ⟨room, bus, -, rfl⟩ := h
  exact ⟨List.nodup_nil, nofun, [], none, nofun, nofun, rfl, rfl, rfl⟩

/-- What changes no schedule and calls nobody leaves the history as it is. -/
theorem Traced.still (h : s.Traced) {op : Op P} (hsame : s.kernel.Unscheduled (s.kernel.apply op).1)
    (hcalls : calls (s.kernel.apply op).2 = []) : (s.step op).Traced := by
  obtain ⟨hregistry, horder, hinit⟩ := hsame
  obtain ⟨hdistinct, hkept, past, current, hclosed, hopened, hcurrent, htrace, hscheduled⟩ := h
  have hnew : (s.step op).scheduled = s.scheduled := scheduled_step fun hnow => hinit ▸ hnow
  refine ⟨?_, ?_, past, current, hclosed, ?_, hcurrent.trans hinit.symm, ?_, ?_⟩
  · exact hregistry.symm ▸ hdistinct
  · intro entries hentries
    rw [hnew] at hentries
    exact hregistry.symm ▸ hkept entries hentries
  · intro r hr
    exact ⟨(hopened r hr).1, (hopened r hr).2.trans horder.symm⟩
  · rw [calls_step, hcalls, List.append_nil, htrace]
  · exact hscheduled.trans hnew.symm

theorem Traced.register (h : s.Traced) (subsystem : Subsystem) :
    (s.step (.register subsystem)).Traced := by
  obtain ⟨hdistinct, hkept, past, current, hclosed, hopened, hcurrent, htrace, hscheduled⟩ := h
  have hnew : (s.step (.register subsystem)).scheduled = s.scheduled := scheduled_step id
  refine ⟨hdistinct.register subsystem, ?_, past, current, hclosed, hopened, hcurrent, ?_,
    hscheduled.trans hnew.symm⟩
  · intro entries hentries
    rw [hnew] at hentries
    exact (hkept entries hentries).trans (Registry.entries_register _ _)
  · rw [calls_step, ← htrace]
    exact List.append_nil _

/-- **An `init`**: the round it opens has been initialised and has run no frame. -/
theorem Traced.init (h : s.Traced) (room : Room) (programs : Nat → Callback P) :
    (s.step (.init room programs)).Traced := by
  -- Nothing was initialised, or a round is opened.
  rcases s.kernel.init_cases room programs with ⟨hsame, hnone, -⟩ |
    ⟨hfresh, -, deps, plan, edges, hdeps, hplan, -, -, hregistry, -, horder, hinit, hevents⟩
  · exact h.still hsame (congrArg calls hnone)
  · obtain ⟨hdistinct, hkept, past, current, hclosed, -, hcurrent, htrace, hscheduled⟩ := h
    obtain rfl : current = none := Option.isNone_iff_eq_none.mp (by
      rw [← Option.not_isSome, hcurrent, hfresh]
      rfl)
    have hnew : (s.step (.init room programs)).scheduled =
        s.scheduled ++ [s.kernel.registry.entries] := by
      simp only [step, Kernel.apply, hinit, hfresh, Bool.not_false, Bool.and_self, if_true]
    refine ⟨hregistry.symm ▸ hdistinct, ?_, past, some (Round.start hdistinct hdeps hplan), hclosed,
      ?_, hinit.symm, ?_, ?_⟩
    · intro entries hentries
      show entries <+: (s.kernel.init room programs).2.1.registry.entries
      rw [hregistry]
      rw [hnew] at hentries
      -- An earlier registry, or this one.
      cases List.mem_append.mp hentries with
      | inl hold => exact hkept entries hold
      | inr hlast => exact (List.mem_singleton.mp hlast) ▸ List.prefix_rfl
    · rintro _ ⟨⟩
      exact ⟨rfl, horder.symm⟩
    · have hcalls : calls (s.kernel.init room programs).2.2 =
          (Round.start hdistinct hdeps hplan).calls := by
        rw [hevents, calls_callAll]
        exact (by simp [Round.calls, Round.start])
      rw [calls_step, htrace]
      simp only [Kernel.apply, hcalls, Option.toList_none, Option.toList_some, List.append_nil,
        List.map_append, List.flatten_append, List.map_singleton, List.flatten_singleton]
    · rw [hnew, ← hscheduled]
      simp only [Option.toList_none, Option.toList_some, List.append_nil, List.map_append]
      rfl

/-- **Frames** are those of the open round. -/
theorem Traced.runUntil (h : s.Traced) (count : UInt64) (keepRunning : Nat → Bool)
    (ticks : Nat → Nat → Callback P) : (s.step (.runUntil count keepRunning ticks)).Traced := by
  -- Nothing ran, or so many frames of the open round.
  obtain ⟨hsame, ⟨-, hnone⟩ | ⟨hinit, n, hcalls⟩⟩ := s.kernel.runUntil_spec count keepRunning ticks
  · exact h.still hsame (congrArg calls hnone)
  · obtain ⟨hdistinct, hkept, past, current, hclosed, hopened, hcurrent, htrace, hscheduled⟩ := h
    obtain ⟨hregistry, horder, hstays⟩ := hsame
    obtain ⟨r, rfl⟩ := Option.isSome_iff_exists.mp (hcurrent.trans hinit)
    obtain ⟨hopen, hr⟩ := hopened r rfl
    have hnew : (s.step (.runUntil count keepRunning ticks)).scheduled = s.scheduled :=
      scheduled_step fun _ => hinit
    refine ⟨hregistry.symm ▸ hdistinct, ?_, past, some (r.run n), hclosed, ?_,
      (hstays.trans hinit).symm, ?_, ?_⟩
    · intro entries hentries
      rw [hnew] at hentries
      exact hregistry.symm ▸ hkept entries hentries
    · rintro _ ⟨⟩
      exact ⟨hopen, hr.trans horder.symm⟩
    · rw [calls_step, htrace, Kernel.apply, hcalls, ← hr]
      simp only [Option.toList_some, List.map_append, List.flatten_append, List.map_singleton,
        List.flatten_singleton, Round.calls_run hopen, List.append_assoc]
    · rw [hnew, ← hscheduled]
      simp only [Option.toList_some, List.map_append]
      rfl

/-- **A shutdown** goes backwards through the order of its round. -/
theorem Traced.shutdown (h : s.Traced) (programs : Nat → Callback P) :
    (s.step (.shutdown programs)).Traced := by
  -- The open round is closed; there is nothing to close otherwise.
  by_cases hinit : s.kernel.initialized = true
  · obtain ⟨hdistinct, hkept, past, current, hclosed, hopened, hcurrent, htrace, hscheduled⟩ := h
    obtain ⟨r, rfl⟩ := Option.isSome_iff_exists.mp (hcurrent.trans hinit)
    obtain ⟨hopen, hr⟩ := hopened r rfl
    have hdown := s.kernel.shutdown_eq hinit programs
    have hnew : (s.step (.shutdown programs)).scheduled = s.scheduled :=
      scheduled_step fun _ => hinit
    refine ⟨?_, ?_, past ++ [r.close], none, ?_, nofun, ?_, ?_, ?_⟩
    · show (s.kernel.shutdown programs).1.registry.Distinct
      rw [hdown]
      exact hdistinct
    · intro entries hentries
      show entries <+: (s.kernel.shutdown programs).1.registry.entries
      rw [hdown]
      exact hkept entries (hnew ▸ hentries)
    · intro r' hr'
      cases List.mem_append.mp hr' with
      | inl hold => exact hclosed r' hold
      | inr hlast => exact (List.mem_singleton.mp hlast) ▸ rfl
    · show false = (s.kernel.shutdown programs).1.initialized
      rw [hdown]
    · rw [calls_step, htrace, Kernel.apply, hdown, calls_callAll, ← hr]
      simp only [Option.toList_some, Option.toList_none, List.append_nil, List.map_append,
        List.flatten_append, List.map_singleton, List.flatten_singleton, Round.calls_close hopen,
        List.append_assoc]
    · rw [hnew, ← hscheduled]
      simp only [Option.toList_some, Option.toList_none, List.append_nil, List.map_append]
      rfl
  · have hsame : s.kernel.shutdown programs = (s.kernel, []) := if_pos (by simpa using hinit)
    refine h.still ?_ ?_
    · rw [Kernel.apply, hsame]
      exact ⟨rfl, rfl, rfl⟩
    · rw [Kernel.apply, hsame]
      rfl

theorem Traced.step (h : s.Traced) (op : Op P) : (s.step op).Traced := by
  cases op with
  | register subsystem => exact h.register subsystem
  | init room programs => exact h.init room programs
  | runUntil count keepRunning ticks => exact h.runUntil count keepRunning ticks
  | shutdown programs => exact h.shutdown programs

/-- The history of any run. -/
theorem Traced.run {t : Life w P} (hstart : s.Starts) (hr : Reaches steps s t) : t.Traced := by
  refine hr.invariant Traced (.start hstart) ?_
  rintro s op _ h rfl
  exact h.step op

/-- An `init` of a registry that can be scheduled does not fail, unless it panics. -/
theorem Traced.init_answer (h : s.Traced) (hschedulable : s.kernel.registry.Schedulable)
    (room : Room) (programs : Nat → Callback P) :
    (s.kernel.init room programs).1 = some (.ok ()) ∨
      (s.kernel.init room programs).1 = none := by
  obtain ⟨deps, plan, hdeps, hplan⟩ := h.distinct.schedulable_iff.mp hschedulable
  unfold Kernel.init
  split
  · exact .inl rfl
  · rw [hdeps]
    simp only [hplan]
    split
    · exact .inr rfl
    · split
      · exact .inr rfl
      · exact .inl rfl

end Steps

/-- **The trace.** After any run the callbacks are those of rounds: one for each registry an `init`
    scheduled, all of them over but the one in progress while the kernel is initialised. Each
    subsystem's own trace is the same rounds, of those that have it. -/
theorem lifecycle_trace {s t : Life w P} (hstart : s.Starts) (hr : Reaches steps s t) :
    ∃ (past : List Round) (current : Option Round),
      (∀ r ∈ past, r.closed = true) ∧ (∀ r ∈ current, r.closed = false) ∧
      current.isSome = t.kernel.initialized ∧
      (past ++ current.toList).map Round.entries = t.scheduled ∧
      (∀ entries ∈ t.scheduled, entries <+: t.kernel.registry.entries) ∧
      calls t.events = ((past ++ current.toList).map Round.calls).flatten ∧
      (∀ idx, phasesOf idx (calls t.events) =
        ((past ++ current.toList).map fun r => r.own idx).flatten) ∧
      ∀ room programs, t.kernel.registry.Schedulable →
        (t.kernel.init room programs).1 = some (.ok ()) ∨
          (t.kernel.init room programs).1 = none := by
  have h := Traced.run hstart hr
  obtain ⟨past, current, hclosed, hopened, hcurrent, htrace, hscheduled⟩ := h.rounds
  refine ⟨past, current, hclosed, fun r hr => (hopened r hr).1, hcurrent, hscheduled, h.kept,
    htrace, ?_, fun room programs hschedulable => h.init_answer hschedulable room programs⟩
  intro idx
  rw [htrace, phasesOf_flatten, List.map_map]
  exact congrArg List.flatten (List.map_congr_left fun r _ => r.phasesOf_calls idx)

/-- Two subsystems registered in the wrong order, run for two frames. -/
def twoFrames : List (Op Nat) :=
  [.register ⟨"physics", ["input"], ⟨[], [], true⟩⟩, .register ⟨"input", [], ⟨[], [], true⟩⟩,
    .init ⟨fun _ => true, fun _ => true, true⟩ fun _ => .done,
    .runUntil 2 (fun _ => true) fun _ _ => .done, .shutdown fun _ => .done]

def born : Life .sixtyFour Nat :=
  ⟨Kernel.new ⟨⟨⟨List.replicate 32 none, 31, 0, 0⟩⟩, [], [], 0, 0⟩, [], []⟩

/-- The dependency comes first in every frame and last at the end, and the calls are those of whole
    rounds. -/
theorem lifecycle_trace_twoFrames :
    born.Starts ∧ Reaches steps born (twoFrames.foldl step born) ∧
      calls (twoFrames.foldl step born).events =
        [(.init, 1), (.init, 0), (.tick, 1), (.tick, 0), (.tick, 1), (.tick, 0), (.shutdown, 0),
          (.shutdown, 1)] ∧
      ∃ (past : List Round) (current : Option Round),
        calls (twoFrames.foldl step born).events =
          ((past ++ current.toList).map Round.calls).flatten := by
  have hstart : born.Starts := ⟨true, _, rfl, rfl⟩
  have hrun : Reaches steps born (twoFrames.foldl step born) := Reaches.run step born twoFrames
  obtain ⟨past, current, -, -, -, -, -, htrace, -⟩ := lifecycle_trace hstart hrun
  exact ⟨hstart, hrun, by decide +kernel, past, current, htrace⟩

end Life

end Core
end EngineKit
