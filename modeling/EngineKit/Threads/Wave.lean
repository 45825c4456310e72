import EngineKit.Threads.WaitIdle

/-!
# The wave executor

`ParallelWaveExecutor::try_run` submits its jobs one after the other and then waits for the pool
to be idle. Its caller takes the return for a barrier: what the wave computed is there, and the
next wave may begin.

A call that gives `Ok` is one, in every run (`ok_drained`). A call whose queue fills up is not:
the loop leaves at the refused job, without the wait (`overflow_returns`). So the barrier holds in
the runs where no job is refused (`wave_drained`).

The pool has this one caller, and its steps are the pool's between the steps of the call itself.

`Calm` is a table and not a formula, because call and caller go in step: for each place of `try_run`
there are a few where the pool's caller can be, and what is pending matters in few of them. The
parameter `full` says whether the queue may have refused a job. Both results come from one invariant
with it: for a call that gives `Ok` the disjunct does not matter, and in a guarded run it is false.
-/

set_option autoImplicit false

namespace EngineKit
namespace Threads

open Lib

/-- Where the caller is in `try_run`. -/
inductive Call where
  /-- Outside, with what the last call gave. -/
  | returned (last : Option (Except ThreadPoolError Bool))
  /-- About to submit the next of the jobs that are left. -/
  | submitting (jobs : Nat)
  /-- In `try_execute`, with the jobs that are left after it. -/
  | executing (jobs : Nat)
  | waiting

/-- The executor, with the place of its caller and how many jobs were submitted before the call
    began. -/
structure ParallelWaveExecutor (W : Type) where
  pool : ThreadPool W Unit
  call : Call
  first : Nat

/-- A step: the beginning of a `try_run` of so many jobs, its own next step, or one of the pool. -/
inductive WaveAct (W : Type) where
  | tryRun (jobs : Nat)
  | advance
  | pool (a : Act W Unit)

/-- Neither of the calls, which `try_run` makes itself. -/
def Act.Within {W C : Type} : Act W C → Prop
  | .tryExecute _ | .waitIdle _ => False
  | _ => True

variable {W : Type}

namespace ParallelWaveExecutor

def fresh (w : PointerWidth) (workers : Nat) : ParallelWaveExecutor (Fin (max workers 1)) where
  pool := .fresh w workers
  call := .returned none
  first := 0

def tryNew (w : PointerWidth) (room spawned : Bool) (workers : Nat) :
    Except ThreadPoolError (ParallelWaveExecutor (Fin (max workers 1))) :=
  match ThreadPool.tryNew w room spawned workers with
  | .ok pool => .ok { pool := pool, call := .returned none, first := 0 }
  | .error error => .error error

/-- A new executor has a new pool. -/
theorem tryNew_ok {w : PointerWidth} {room spawned : Bool} {workers : Nat}
    {s : ParallelWaveExecutor (Fin (max workers 1))}
    (hnew : tryNew w room spawned workers = .ok s) :
    s = fresh w workers ∧ ThreadPool.tryNew w room spawned workers = .ok s.pool := by
  unfold tryNew at hnew
  split at hnew
  · next pool hpool =>
    obtain rfl := Except.ok.inj hnew
    exact ⟨by rw [ThreadPool.tryNew_ok hpool]; rfl, hpool⟩
  · exact absurd hnew (by simp)

/-- The next step of `try_run` itself, between the calls that it makes. -/
def advance (s : ParallelWaveExecutor W) : Option (ParallelWaveExecutor W) :=
  match s.call, s.pool.clients () with
  | .submitting (jobs + 1), .outside _ =>
    some { s with pool := s.pool.setClient () .submitting, call := .executing jobs }
  | .submitting 0, .outside _ =>
    some { s with pool := s.pool.setClient () (.asking s.pool.accepted), call := .waiting }
  | .executing jobs, .outside (some (.executed (.ok _))) =>
    some { s with call := .submitting jobs }
  | .executing _, .outside (some (.executed (.error error))) =>
    some { s with call := .returned (some (.error error)) }
  | .waiting, .outside (some (.waited _ idle)) =>
    some { s with call := .returned (some (.ok idle)) }
  | _, _ => none

def steps [DecidableEq W] (s : ParallelWaveExecutor W) : WaveAct W → ParallelWaveExecutor W → Prop
  | .tryRun jobs, t =>
    (∃ last, s.call = .returned last) ∧
      t = { s with call := .submitting jobs, first := s.pool.submitted }
  | .advance, t => s.advance = some t
  | .pool a, t => a.Within ∧ ∃ pool, s.pool.steps a pool ∧ t = { s with pool := pool }

/-- A job of the call is queued, or a worker has it. -/
def Out (s : ParallelWaveExecutor W) : Prop :=
  ∃ job, s.first ≤ job ∧ (job ∈ s.pool.jobs ∨ ∃ i, (s.pool.workers i).job? = some job)

/-- Not a submission that finds the queue full. -/
def Room (s : ParallelWaveExecutor W) : WaveAct W → Prop
  | .pool (.serve _) => s.pool.clients () = .pushing → s.pool.jobs.length < s.pool.maxJobs
  | _ => True

/-- The state after a step, if the step can be taken. -/
def next [DecidableEq W] [Fintype W] (s : ParallelWaveExecutor W) :
    WaveAct W → Option (ParallelWaveExecutor W)
  | .tryRun jobs =>
    match s.call with
    | .returned _ => some { s with call := .submitting jobs, first := s.pool.submitted }
    | _ => none
  | .advance => s.advance
  | .pool (.tryExecute _) => none
  | .pool (.waitIdle _) => none
  | .pool a => (s.pool.next a).map fun pool => { s with pool := pool }

/-- What is computed is a step. -/
theorem next_steps [DecidableEq W] [Fintype W] {s t : ParallelWaveExecutor W} {a : WaveAct W}
    (h : s.next a = some t) : steps s a t := by
  unfold next at h
  split at h
  · split at h
    · next last hcall => exact ⟨⟨last, hcall⟩, (Option.some.inj h).symm⟩
    · exact absurd h (by simp)
  · exact h
  · exact absurd h (by simp)
  · exact absurd h (by simp)
  · next a htry hwait =>
    obtain ⟨pool, hpool, rfl⟩ := Option.map_eq_some_iff.mp h
    refine ⟨?_, pool, ThreadPool.next_steps hpool, rfl⟩
    cases a with
    | tryExecute c => exact htry c rfl
    | waitIdle c => exact hwait c rfl
    | _ => trivial

instance (s : ParallelWaveExecutor W) (a : WaveAct W) : Decidable (s.Room a) :=
  match a with
  | .pool (.serve _) =>
    inferInstanceAs
      (Decidable (s.pool.clients () = .pushing → s.pool.jobs.length < s.pool.maxJobs))
  | .tryRun _ | .advance | .pool (.work _ _) | .pool (.tryExecute _) | .pool (.waitIdle _)
  | .pool (.notify _ _) | .pool (.spurious _) => .isTrue trivial

/-! ## Steps of the pool -/

section Pool

variable {s t : ParallelWaveExecutor W}

/-- Between its calls the executor leaves the pool, or begins a call. -/
theorem advance_pool (hstep : s.advance = some t) : t.pool = s.pool ∨
    (∃ last, s.pool.clients () = .outside last) ∧
      (t.pool = s.pool.setClient () .submitting ∨
        t.pool = s.pool.setClient () (.asking s.pool.accepted)) := by
  unfold advance at hstep
  split at hstep
  · next last _ hplace =>
    obtain rfl := Option.some.inj hstep
    exact .inr ⟨⟨last, hplace⟩, .inl rfl⟩
  · next last _ hplace =>
    obtain rfl := Option.some.inj hstep
    exact .inr ⟨⟨last, hplace⟩, .inr rfl⟩
  · obtain rfl := Option.some.inj hstep
    exact .inl rfl
  · obtain rfl := Option.some.inj hstep
    exact .inl rfl
  · obtain rfl := Option.some.inj hstep
    exact .inl rfl
  · exact absurd hstep (by simp)

variable [DecidableEq W]

/-- The executor's steps are steps of its pool. -/
theorem pool_reaches (hrun : Reaches steps s t) : Reaches ThreadPool.steps s.pool t.pool := by
  refine hrun.invariant (fun u => Reaches ThreadPool.steps s.pool u.pool) .refl ?_
  intro u a v hu hstep
  cases a with
  | tryRun jobs =>
    obtain ⟨-, rfl⟩ := hstep
    exact hu
  | advance =>
    rcases advance_pool hstep with hpool | ⟨houtside, hpool | hpool⟩
    · rwa [hpool]
    · exact hu.tail ⟨.tryExecute (), houtside, hpool⟩
    · exact hu.tail ⟨.waitIdle (), houtside, hpool⟩
  | pool a =>
    obtain ⟨-, pool, hpool, rfl⟩ := hstep
    exact hu.tail ⟨a, hpool⟩

end Pool

/-! ## The barrier -/

/-- Where the pool's caller can be while `try_run` is where it is, with so much pending: nothing,
    once the call has found the pool idle. The queue may have refused a job only if `full`. -/
def Calm (full : Prop) : Call → Client → Nat → Prop
  | .returned last, .outside _, pending => pending = 0 ∨ full ∧ ∃ error, last = some (.error error)
  | .submitting _, .outside _, _ => True
  | .executing _, .submitting, _ | .executing _, .pushing, _ | .executing _, .pushed _, _
  | .executing _, .notifying _, _ | .executing _, .outside (some (.executed (.ok _))), _ => True
  | .executing _, .refused _, _ | .executing _, .outside (some (.executed (.error _))), _ => full
  | .waiting, .asking _, _ | .waiting, .checking _, _ | .waiting, .parked _, _
  | .waiting, .woken _, _ => True
  | .waiting, .idle _, pending | .waiting, .outside (some (.waited _ true)), pending => pending = 0
  | _, _, _ => False

section Calm

variable {full : Prop} {call : Call} {place : Client} {pending pending' : Nat}

theorem Calm.wake (h : Calm full call place pending) : Calm full call place.wake pending := by
  cases place with
  | parked before => cases call <;> exact h
  | _ => exact h

/-- Less pending is calmer. -/
theorem Calm.mono (h : Calm full call place pending) (hle : pending' ≤ pending) :
    Calm full call place pending' := by
  unfold Calm at h ⊢
  split at h
  · rcases h with rfl | herror
    · exact .inl (Nat.le_zero.mp hle)
    · exact .inr herror
  all_goals first | exact h | exact Nat.le_zero.mp (h ▸ hle)

theorem Calm.move {T : Type} {me : T} {mutex mutex' : Option T} {place' : Client}
    (h : Calm full call place pending) (hmoves : Client.Moves me mutex place mutex' place') :
    Calm full call place' pending := by
  cases hmoves with
  | submit | pushed | ask | back => cases call <;> exact h
  | refuse | idle | stopped => cases call <;> first | exact h | exact absurd h id

/-- The pool's caller moves to a place where it can be. -/
theorem Calm.at {p : ThreadPool W Unit} (h : Calm full call place p.pending) :
    Calm full call ((p.setClient () place).clients ()) p.pending := by
  show Calm full call (Function.update p.clients () place ()) p.pending
  rwa [Function.update_self]

end Calm

section Barrier

variable {full : Prop} {call : Call} {p q : ThreadPool W Unit}

/-- **A worker's step** leaves the caller, and adds nothing to what is pending. -/
theorem work_calm [DecidableEq W] {i : W} {panics : Bool}
    (h : Calm full call (p.clients ()) p.pending) (hstep : p.work i panics = some q) :
    q.stop = p.stop ∧ Calm full call (q.clients ()) q.pending := by
  cases ThreadPool.work_cases hstep with
  | moves | exits | quits | parks | pops | starts | ends => exact ⟨rfl, h⟩
  | counts => exact ⟨rfl, h.mono (Nat.sub_le _ _)⟩
  | notifies => exact ⟨rfl, h.wake⟩

/-- **The caller's own step** in the pool. -/
theorem serve_calm (hroom : full ∨ (p.clients () = .pushing → p.jobs.length < p.maxJobs))
    (hstop : p.stop = false) (h : Calm full call (p.clients ()) p.pending)
    (hstep : p.serve () = some q) :
    q.stop = p.stop ∧ Calm full call (q.clients ()) q.pending := by
  have hhalted (hnow : p.stop = true) : False := Bool.false_ne_true (hstop.symm.trans hnow)
  -- The caller's step by the call it belongs to; a place that the table does not have with it is
  -- excluded.
  cases ThreadPool.serve_cases hstep with
  | @moves mutex place hmoves =>
    have hlater : Calm full call place p.pending := h.move hmoves
    exact ⟨rfl, Calm.at (p := { p with mutex }) hlater⟩
  | @refuses error hplace hwhy =>
    rcases hwhy with ⟨-, hnow⟩ | ⟨-, -, hfull⟩
    · exact (hhalted hnow).elim
    · have hrefused : full :=
        hroom.resolve_right fun hlt => absurd (hlt hplace) (Nat.not_lt.mpr hfull)
      rw [hplace] at h
      cases call with
      | executing jobs => exact ⟨rfl, Calm.at hrefused⟩
      | returned last | submitting jobs | waiting => exact absurd h id
  | pushes hplace =>
    rw [hplace] at h
    cases call with
    | executing jobs => exact ⟨rfl, Calm.at trivial⟩
    | returned last | submitting jobs | waiting => exact absurd h id
  | finds hplace _ hidle =>
    rw [hplace] at h
    cases call with
    | waiting => exact ⟨rfl, Calm.at hidle⟩
    | returned last | submitting jobs | executing jobs => exact absurd h id
  | stops _ _ hnow => exact (hhalted hnow).elim
  | parks hplace =>
    rw [hplace] at h
    cases call with
    | waiting => exact ⟨rfl, Calm.at trivial⟩
    | returned last | submitting jobs | executing jobs => exact absurd h id

variable {s t : ParallelWaveExecutor W}

/-- The pool is not stopped, and its caller is where the call is. -/
structure Settled (full : Prop) (s : ParallelWaveExecutor W) : Prop where
  stop : s.pool.stop = false
  calm : Calm full s.call (s.pool.clients ()) s.pool.pending

/-- **The executor's step.** -/
theorem Settled.advance (h : s.Settled full) (hstep : s.advance = some t) : t.Settled full := by
  obtain ⟨hstop, hcalm⟩ := h
  unfold ParallelWaveExecutor.advance at hstep
  -- Between the calls it makes itself: the next job, the wait, or the return.
  split at hstep
  · obtain rfl := Option.some.inj hstep
    exact ⟨hstop, Calm.at trivial⟩
  · obtain rfl := Option.some.inj hstep
    exact ⟨hstop, Calm.at trivial⟩
  · next jobs job _ hplace =>
    obtain rfl := Option.some.inj hstep
    refine ⟨hstop, ?_⟩
    rw [hplace]
    trivial
  · next jobs error hcall hplace =>
    obtain rfl := Option.some.inj hstep
    refine ⟨hstop, ?_⟩
    rw [hcall, hplace] at hcalm
    rw [hplace]
    exact .inr ⟨hcalm, error, rfl⟩
  · next before idle hcall hplace =>
    obtain rfl := Option.some.inj hstep
    refine ⟨hstop, ?_⟩
    rw [hcall, hplace] at hcalm
    rw [hplace]
    cases idle with
    | true => exact .inl hcalm
    | false => exact absurd hcalm id
  · exact absurd hstep (by simp)

variable [DecidableEq W]

/-- **Any step.** -/
theorem Settled.step {a : WaveAct W} (h : s.Settled full) (hroom : full ∨ s.Room a)
    (hstep : steps s a t) : t.Settled full := by
  -- A step of the workers leaves the caller where it is, or wakes it.
  cases a with
  | tryRun jobs =>
    obtain ⟨⟨last, hcall⟩, rfl⟩ := hstep
    have hcalm := h.calm
    refine ⟨h.stop, ?_⟩
    show Calm _ _ (s.pool.clients ()) _
    cases hplace : s.pool.clients () with
    | outside last => trivial
    | _ =>
      rw [hcall, hplace] at hcalm
      exact hcalm
  | advance => exact h.advance hstep
  | pool a =>
    obtain ⟨hwithin, q, hpool, rfl⟩ := hstep
    obtain ⟨hstop, hcalm⟩ := h
    cases a with
    | work i panics =>
      obtain ⟨hsame, hlast⟩ := work_calm hcalm hpool
      exact ⟨hsame.trans hstop, hlast⟩
    | tryExecute c => exact absurd hwithin id
    | waitIdle c => exact absurd hwithin id
    | serve c =>
      obtain ⟨hsame, hlast⟩ := serve_calm hroom hstop hcalm hpool
      exact ⟨hsame.trans hstop, hlast⟩
    | notify c woken =>
      obtain ⟨job, hplace, -, rfl⟩ := hpool
      rw [hplace] at hcalm
      have hsame : (s.pool.wakeOne woken).stop = s.pool.stop := by
        rcases woken with _ | i | c' <;> rfl
      cases hcall : s.call with
      | executing jobs => exact ⟨hsame.trans hstop, Calm.at trivial⟩
      | returned last | submitting jobs | waiting =>
        rw [hcall] at hcalm
        exact absurd hcalm id
    | spurious thread =>
      obtain ⟨-, rfl⟩ := hpool
      cases thread with
      | inl i => exact ⟨hstop, hcalm⟩
      | inr c => exact ⟨hstop, hcalm.wake.at⟩

omit [DecidableEq W] in
/-- A call that has returned found nothing pending, or was refused. -/
theorem Settled.returned (h : s.Settled full) {last : Option (Except ThreadPoolError Bool)}
    (hret : s.call = .returned last) :
    s.pool.pending = 0 ∨ full ∧ ∃ error, last = some (.error error) := by
  have hcalm := h.calm
  rw [hret] at hcalm
  cases hplace : s.pool.clients () with
  | outside _ =>
    rw [hplace] at hcalm
    exact hcalm
  | _ =>
    rw [hplace] at hcalm
    exact absurd hcalm id

end Barrier

/-- A new pool has nothing pending. -/
theorem fresh_settled {full : Prop} (w : PointerWidth) (workers : Nat) :
    (fresh w workers).Settled full := ⟨rfl, .inl rfl⟩

/-- With nothing pending, nothing is out. -/
theorem not_out [Fintype W] {s : ParallelWaveExecutor W} (hbooks : s.pool.Books)
    (hpending : s.pool.pending = 0) : ¬ s.Out := by
  obtain ⟨hjobs, hnone⟩ := hbooks.drained hpending
  rintro ⟨job, -, hqueued | ⟨i, htaken⟩⟩
  · rw [hjobs] at hqueued
    exact absurd hqueued List.not_mem_nil
  · rw [hnone i] at htaken
    exact absurd htaken nofun

section Runs

variable {w : PointerWidth} {room spawned : Bool} {workers : Nat}
  {s t : ParallelWaveExecutor (Fin (max workers 1))}

/-- A call that gives `Ok` leaves none of its jobs queued or running, in every run. -/
theorem ok_drained (hnew : tryNew w room spawned workers = .ok s) (hrun : Reaches steps s t)
    {idle : Bool} (hret : t.call = .returned (some (.ok idle))) : ¬ t.Out := by
  obtain ⟨rfl, hpool⟩ := tryNew_ok hnew
  have hlast : t.Settled True := by
    refine hrun.invariant (Settled True) (fresh_settled w workers) ?_
    intro u a v hu hstep
    exact hu.step (.inl trivial) hstep
  obtain ⟨hbooks, -⟩ := ThreadPool.kept hpool (pool_reaches hrun)
  rcases hlast.returned hret with hpending | ⟨-, error, herror⟩
  · exact not_out hbooks hpending
  · exact absurd herror (by simp)

/-- **A wave does not outlive its call while no job is refused.** In any run in which no submission
    finds the queue full, whenever a `try_run` has returned none of its jobs is queued or
    running. -/
theorem wave_drained (hnew : tryNew w room spawned workers = .ok s)
    (hrun : Reaches (Guarded Room steps) s t) {last : Except ThreadPoolError Bool}
    (hret : t.call = .returned (some last)) : ¬ t.Out := by
  obtain ⟨rfl, hpool⟩ := tryNew_ok hnew
  have hlast : t.Settled False ∧ Reaches steps (fresh w workers) t := by
    refine hrun.invariant (fun u => u.Settled False ∧ Reaches steps _ u)
      ⟨fresh_settled w workers, .refl⟩ ?_
    rintro u a v ⟨hu, hreach⟩ ⟨hroom, hstep⟩
    exact ⟨hu.step (.inr hroom) hstep, hreach.tail ⟨a, hstep⟩⟩
  obtain ⟨hbooks, -⟩ := ThreadPool.kept hpool (pool_reaches hlast.2)
  exact not_out hbooks ((hlast.1.returned hret).resolve_right And.left)

/-- One worker and a wave of one job, which it runs. -/
theorem wave_drained_ran :
    ∃ s t : ParallelWaveExecutor (Fin (max 1 1)), tryNew .sixtyFour true true 1 = .ok s ∧
      Reaches (Guarded Room steps) s t ∧ t.call = .returned (some (.ok true)) ∧
      t.pool.done = [0] ∧ ¬ t.Out := by
  let worker : WaveAct (Fin (max 1 1)) := .pool (.work ⟨0, by decide⟩ false)
  let serve : WaveAct (Fin (max 1 1)) := .pool (.serve ())
  let acts := [.tryRun 1, .advance, serve, serve, serve, .pool (.notify () none), .advance] ++
    List.replicate 10 worker ++ [.advance, serve, serve, serve, .advance]
  let roomy (u : ParallelWaveExecutor (Fin (max 1 1))) (a : WaveAct (Fin (max 1 1))) :=
    if u.Room a then u.next a else none
  obtain ⟨s, hnew, hlast⟩ : ∃ s, tryNew .sixtyFour true true 1 = .ok s ∧
      (acts.foldlM roomy s).map (fun t => (t.call, t.pool.done)) =
        some (.returned (some (.ok true)), [0]) := ⟨_, rfl, rfl⟩
  obtain ⟨t, hran, hfacts⟩ := Option.map_eq_some_iff.mp hlast
  have hrun : Reaches (Guarded Room steps) s t := by
    refine Reaches.foldlM ?_ hran
    intro a _ u v hstep
    simp only [roomy] at hstep
    -- The run is a list of steps, each of them checked.
    split at hstep
    · next hroom => exact ⟨hroom, next_steps hstep⟩
    · exact absurd hstep (by simp)
  have hret : t.call = .returned (some (.ok true)) := congrArg Prod.fst hfacts
  exact ⟨s, t, hnew, hrun, hret, congrArg Prod.snd hfacts, wave_drained hnew hrun hret⟩

end Runs

/-! ## Where the queue is full

A run in which no worker begins. Jobs are submitted until the queue is full, and the next one ends
the call. That the workers are slow is no fault of the executor; that it leaves without the wait is.
-/

section Overflow

variable [DecidableEq W]

/-- The caller is about to submit, with so many jobs left, and no worker has begun. -/
structure Stalled (s : ParallelWaveExecutor W) (left : Nat) : Prop where
  call : s.call = .submitting left
  client : ∃ last, s.pool.clients () = .outside last
  mutex : s.pool.mutex = none
  stop : s.pool.stop = false
  workers (i : W) : s.pool.workers i = .top
  first : s.first ≤ s.pool.submitted
  own (job : Nat) : job ∈ s.pool.jobs → s.first ≤ job

/-- One job more in the queue. -/
def queued (s : ParallelWaveExecutor W) (left : Nat) : ParallelWaveExecutor W :=
  { s with
    pool := { s.pool with
      jobs := s.pool.jobs ++ [s.pool.submitted]
      pending := s.pool.pending + 1
      submitted := s.pool.submitted + 1
      accepted := s.pool.accepted ++ [s.pool.submitted] }.setClient ()
        (.outside (some (.executed (.ok s.pool.submitted))))
    call := .submitting left }

variable {s : ParallelWaveExecutor W} {left : Nat}

omit [DecidableEq W] in
theorem Stalled.queued (h : s.Stalled (left + 1)) : (s.queued left).Stalled left where
  call := rfl
  client := ⟨some (.executed (.ok s.pool.submitted)), Function.update_self () _ s.pool.clients⟩
  mutex := h.mutex
  stop := h.stop
  workers := h.workers
  first := h.first.trans (Nat.le_succ _)
  own job hjob := by
    rcases List.mem_append.mp hjob with hold | hnew
    · exact h.own job hold
    · exact List.mem_singleton.mp hnew ▸ h.first

variable [Fintype W]

/-- A submission with room for the job, while no worker takes a step. -/
theorem Stalled.submit (h : s.Stalled (left + 1)) (hroom : s.pool.jobs.length < s.pool.maxJobs) :
    Reaches steps s (s.queued left) := by
  obtain ⟨hcall, ⟨last, hclient⟩, hmutex, hstop, hworkers, -, -⟩ := h
  have hran : List.foldlM next s [.advance, .pool (.serve ()), .pool (.serve ()),
      .pool (.serve ()), .pool (.notify () none), .advance] = some (s.queued left) := by
    simp [next, advance, ThreadPool.next, ThreadPool.serve, ThreadPool.lock, ThreadPool.unlock,
      ThreadPool.setClient, ThreadPool.Chosen, ThreadPool.Parked, ThreadPool.wakeOne,
      ParallelWaveExecutor.queued, hcall, hclient, hmutex, hstop, hworkers, Nat.not_le.mpr hroom]
  exact Reaches.foldlM (fun _ _ _ _ => next_steps) hran

/-- As many submissions as there is room for. -/
theorem Stalled.fill (count : Nat) (h : s.Stalled (left + count))
    (hroom : s.pool.jobs.length + count ≤ s.pool.maxJobs) :
    ∃ t, Reaches steps s t ∧ t.Stalled left ∧ t.first = s.first ∧
      t.pool.jobs.length = s.pool.jobs.length + count ∧ t.pool.maxJobs = s.pool.maxJobs := by
  induction count generalizing s with
  | zero => exact ⟨s, .refl, h, rfl, rfl, rfl⟩
  | succ count ih =>
    have hlength : (s.queued (left + count)).pool.jobs.length = s.pool.jobs.length + 1 :=
      List.length_append
    obtain ⟨t, hrun, hlast, hfirst, hjobs, hmax⟩ := ih (Stalled.queued h) (by
      rw [hlength]
      show _ ≤ s.pool.maxJobs
      omega)
    refine ⟨t, (h.submit (by omega)).trans hrun, hlast, hfirst, ?_, hmax⟩
    rw [hjobs, hlength]
    omega

/-- A submission to a full queue ends the call. -/
theorem Stalled.overflow (h : s.Stalled (left + 1)) (hfull : s.pool.maxJobs ≤ s.pool.jobs.length) :
    ∃ t, Reaches steps s t ∧ t.call = .returned (some (.error .queueFull)) ∧
      t.pool.jobs = s.pool.jobs ∧ t.first = s.first := by
  obtain ⟨hcall, ⟨last, hclient⟩, hmutex, hstop, -, -, -⟩ := h
  let t : ParallelWaveExecutor W := { s with
    pool := s.pool.setClient () (.outside (some (.executed (.error .queueFull))))
    call := .returned (some (.error .queueFull)) }
  have hran : List.foldlM next s [.advance, .pool (.serve ()), .pool (.serve ()),
      .pool (.serve ()), .advance] = some t := by
    simp [t, next, advance, ThreadPool.next, ThreadPool.serve, ThreadPool.lock, ThreadPool.unlock,
      ThreadPool.setClient, hcall, hclient, hmutex, hstop, hfull]
  exact ⟨t, Reaches.foldlM (fun _ _ _ _ => next_steps) hran, rfl, rfl, rfl⟩

end Overflow

/-- A wave of more jobs than the queue holds may return with the whole queue waiting. -/
theorem overflow_returns {w : PointerWidth} {room spawned : Bool} {workers jobs : Nat}
    {s : ParallelWaveExecutor (Fin (max workers 1))}
    (hnew : tryNew w room spawned workers = .ok s) (hjobs : s.pool.maxJobs < jobs) :
    ∃ t, Reaches steps s t ∧ t.call = .returned (some (.error .queueFull)) ∧
      t.pool.jobs.length = s.pool.maxJobs ∧ t.Out := by
  obtain ⟨rfl, -⟩ := tryNew_ok hnew
  let s : ParallelWaveExecutor (Fin (max workers 1)) :=
    { fresh w workers with call := .submitting jobs }
  have hbegun : steps (fresh w workers) (.tryRun jobs) s := ⟨⟨none, rfl⟩, rfl⟩
  have hstalled : s.Stalled jobs :=
    ⟨rfl, ⟨none, rfl⟩, rfl, rfl, fun _ => rfl, Nat.le_refl _, nofun⟩
  obtain ⟨left, hleft⟩ : ∃ left, jobs = left + 1 + s.pool.maxJobs :=
    ⟨jobs - 1 - s.pool.maxJobs, by
      have hmore : s.pool.maxJobs < jobs := hjobs
      omega⟩
  obtain ⟨t, hfill, ht, hfirst, hlength, hmax⟩ :=
    Stalled.fill s.pool.maxJobs (hleft ▸ hstalled) (Nat.zero_add _).le
  have hfull : t.pool.jobs.length = s.pool.maxJobs := hlength.trans (Nat.zero_add _)
  obtain ⟨u, hlast, hret, hjobs, hsame⟩ := ht.overflow (by omega)
  refine ⟨u, (Relation.ReflTransGen.head ⟨_, hbegun⟩ hfill).trans hlast, hret, ?_, ?_⟩
  · rw [hjobs]
    exact hfull
  · have hpos : 0 < s.pool.maxJobs := by
      show 0 < max _ (max workers 1)
      omega
    obtain ⟨job, hjob⟩ := List.exists_mem_of_length_pos (hfull ▸ hpos)
    exact ⟨job, hsame ▸ ht.own job hjob, .inl (hjobs ▸ hjob)⟩

/-- **A wave may outlive its call.** One worker, which has not begun, and 1025 jobs: the call
    returns the error of the last one with the other 1024 in the queue. -/
theorem wave_outlives :
    ∃ s t : ParallelWaveExecutor (Fin (max 1 1)), tryNew .sixtyFour true true 1 = .ok s ∧
      Reaches steps s t ∧ t.call = .returned (some (.error .queueFull)) ∧
      t.pool.jobs.length = 1024 ∧ t.Out := by
  obtain ⟨s, hnew, hmax⟩ : ∃ s : ParallelWaveExecutor (Fin (max 1 1)),
      tryNew .sixtyFour true true 1 = .ok s ∧ s.pool.maxJobs = 1024 := ⟨_, rfl, by decide⟩
  obtain ⟨t, hrun, hret, hlength, hout⟩ :=
    overflow_returns hnew (show s.pool.maxJobs < 1025 by omega)
  exact ⟨s, t, hnew, hrun, hret, hlength.trans hmax, hout⟩

end ParallelWaveExecutor

end Threads
end EngineKit
