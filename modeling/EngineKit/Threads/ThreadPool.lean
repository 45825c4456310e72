import Mathlib.Data.Fintype.Sum
import EngineKit.Lib.Ring
import EngineKit.Lib.Reach

/-!
# The thread pool

Workers and callers share one mutex, over the queue and the count of what is pending, and one
condition variable. A step takes, gives back or waits for the mutex, notifies, or is the start or
the end of a job; what a thread does to the queue and the count while it holds the mutex is part
of the step, for no other thread can look.

`W` are the workers and `C` the threads that call `try_execute` and `wait_idle`; a job that itself
calls the pool is one of these while it runs. A job is known by the number of jobs submitted
before it, which nothing in the code looks at. Only `Drop` sets `stop`, and it has the pool to
itself, so no step here does. The count is a `usize` in the code; it never exceeds the queue's
capacity by more than the workers.

What a step can do is written down twice. `work` and `serve` are the code, with one arm for each
place; `Works` and `Serves` are the same steps, sorted by what they touch: those that only go for
the mutex are one case (`Moves`), and those that take, add or count a job have a case each. Every
invariant of the pool is proved on the second form, and `work_cases` and `serve_cases` are the only
proofs that look at the first.
-/

set_option autoImplicit false

namespace EngineKit
namespace Threads

open Lib

inductive ThreadPoolError where
  | threadSpawn
  | queueFull
  | stopped
  | allocationFailed
deriving DecidableEq

/-- The places of `worker_loop`. -/
inductive Worker where
  /-- About to look at `stop`. -/
  | top
  | locking
  /-- With the mutex, about to pop. -/
  | looking
  /-- With the mutex, having popped. -/
  | took (job : Nat)
  | ready (job : Nat)
  | running (job : Nat)
  /-- Run to its end, or to a panic that was caught. -/
  | ended (job : Nat)
  /-- With the mutex, about to count the completion. -/
  | completing (job : Nat)
  /-- With the mutex, about to notify. -/
  | counted
  /-- With the mutex, having notified. -/
  | notified
  | parked
  /-- Woken, and not yet back with the mutex. -/
  | woken
  | exited
deriving DecidableEq

/-- What the last call gave; a `wait_idle` with the jobs accepted before it began. -/
inductive Answer where
  | executed (result : Except ThreadPoolError Nat)
  | waited (before : List Nat) (idle : Bool)
deriving DecidableEq

/-- The places of a caller, in `try_execute` and in `wait_idle`. -/
inductive Client where
  | outside (last : Option Answer)
  | submitting
  /-- With the mutex, about to push. -/
  | pushing
  /-- With the mutex, about to give up. -/
  | refused (error : ThreadPoolError)
  /-- With the mutex, having pushed. -/
  | pushed (job : Nat)
  /-- About to notify one. -/
  | notifying (job : Nat)
  | asking (before : List Nat)
  /-- With the mutex, about to check. -/
  | checking (before : List Nat)
  /-- With the mutex, having found the pool idle. -/
  | idle (before : List Nat)
  /-- With the mutex, having found the pool stopped. -/
  | stopped (before : List Nat)
  | parked (before : List Nat)
  | woken (before : List Nat)
deriving DecidableEq

def Worker.wake : Worker → Worker
  | .parked => .woken
  | place => place

def Client.wake : Client → Client
  | .parked before => .woken before
  | place => place

/-- The pool, its threads, and its history: how many jobs were submitted, which of their
    `try_execute`s returned, and which jobs have started, have ended (with a panic or without) and
    were counted as complete. -/
structure ThreadPool (W C : Type) where
  mutex : Option (W ⊕ C)
  jobs : List Nat
  maxJobs : Nat
  stop : Bool
  pending : Nat
  workers : W → Worker
  clients : C → Client
  submitted : Nat
  accepted : List Nat
  started : List Nat
  ended : List (Nat × Bool)
  done : List Nat

/-- `usize::saturating_mul`. -/
def saturatingMul (w : PointerWidth) (a b : Nat) : Nat := min (a * b) (2 ^ w.bits - 1)

variable {W C : Type}

namespace ThreadPool

/-- A pool whose workers have just been spawned. -/
def fresh (w : PointerWidth) (workers : Nat) : ThreadPool (Fin (max workers 1)) C where
  mutex := none
  jobs := []
  maxJobs := max (saturatingMul w (max workers 1) 1024) (max workers 1)
  stop := false
  pending := 0
  workers := fun _ => .top
  clients := fun _ => .outside none
  submitted := 0
  accepted := []
  started := []
  ended := []
  done := []

/-- `room` is whether the queue and the handles can be allocated, `spawned` whether every thread
    starts. -/
def tryNew (w : PointerWidth) (room spawned : Bool) (workers : Nat) :
    Except ThreadPoolError (ThreadPool (Fin (max workers 1)) C) :=
  if ¬ room then .error .allocationFailed
  else if ¬ spawned then .error .threadSpawn
  else .ok (fresh w workers)

/-- A pool that is made is fresh. -/
theorem tryNew_ok {w : PointerWidth} {room spawned : Bool} {workers : Nat}
    {s : ThreadPool (Fin (max workers 1)) C} (hnew : tryNew w room spawned workers = .ok s) :
    s = fresh w workers := by
  unfold tryNew at hnew
  split at hnew
  · exact absurd hnew (by simp)
  · split at hnew
    · exact absurd hnew (by simp)
    · exact (Except.ok.inj hnew).symm

/-- A thread that waits on the condition variable, without a wake-up. -/
def Parked (s : ThreadPool W C) : W ⊕ C → Prop
  | .inl i => s.workers i = .parked
  | .inr c => ∃ before, s.clients c = .parked before

/-- Takes the mutex, if it is free. -/
def lock (s : ThreadPool W C) (thread : W ⊕ C) : Option (ThreadPool W C) :=
  match s.mutex with
  | none => some { s with mutex := some thread }
  | some _ => none

def unlock (s : ThreadPool W C) : ThreadPool W C := { s with mutex := none }

/-- Who gets the mutex found it free. -/
theorem map_lock_eq {s t : ThreadPool W C} {thread : W ⊕ C} {f : ThreadPool W C → ThreadPool W C}
    (h : (s.lock thread).map f = some t) :
    s.mutex = none ∧ t = f { s with mutex := some thread } := by
  obtain ⟨locked, hlock, rfl⟩ := Option.map_eq_some_iff.mp h
  unfold lock at hlock
  split at hlock
  · next hfree => exact ⟨hfree, congrArg f (Option.some.inj hlock).symm⟩
  · exact absurd hlock (by simp)

variable [DecidableEq W] [DecidableEq C]

def setWorker (s : ThreadPool W C) (i : W) (place : Worker) : ThreadPool W C :=
  { s with workers := Function.update s.workers i place }

def setClient (s : ThreadPool W C) (c : C) (place : Client) : ThreadPool W C :=
  { s with clients := Function.update s.clients c place }

def wake (s : ThreadPool W C) : W ⊕ C → ThreadPool W C
  | .inl i => s.setWorker i (s.workers i).wake
  | .inr c => s.setClient c (s.clients c).wake

def wakeAll (s : ThreadPool W C) : ThreadPool W C :=
  { s with
    workers := fun i => (s.workers i).wake
    clients := fun c => (s.clients c).wake }

/-- The next step of `worker_loop`. -/
def work (s : ThreadPool W C) (i : W) (panics : Bool) : Option (ThreadPool W C) :=
  match s.workers i with
  | .top => some (s.setWorker i (if s.stop then .exited else .locking))
  | .locking => (s.lock (.inl i)).map fun s => s.setWorker i .looking
  | .looking =>
    match s.jobs.getLast? with
    | some job => some ({ s with jobs := s.jobs.dropLast }.setWorker i (.took job))
    | none => some (s.unlock.setWorker i (if s.stop then .exited else .parked))
  | .took job => some (s.unlock.setWorker i (.ready job))
  | .ready job => some ({ s with started := s.started ++ [job] }.setWorker i (.running job))
  | .running job => some ({ s with ended := s.ended ++ [(job, panics)] }.setWorker i (.ended job))
  | .ended job => (s.lock (.inl i)).map fun s => s.setWorker i (.completing job)
  | .completing job =>
    some ({ s with pending := s.pending - 1, done := s.done ++ [job] }.setWorker i .counted)
  | .counted => some (s.wakeAll.setWorker i .notified)
  | .notified => some (s.unlock.setWorker i .top)
  | .woken => (s.lock (.inl i)).map fun s => s.setWorker i .looking
  | .parked => none
  | .exited => none

/-- The next step of a call, but for its notification. -/
def serve (s : ThreadPool W C) (c : C) : Option (ThreadPool W C) :=
  match s.clients c with
  | .submitting => (s.lock (.inr c)).map fun s => s.setClient c .pushing
  | .pushing =>
    if s.stop then some (s.setClient c (.refused .stopped))
    else if s.maxJobs ≤ s.jobs.length then some (s.setClient c (.refused .queueFull))
    else
      some ({ s with
        jobs := s.jobs ++ [s.submitted]
        pending := s.pending + 1
        submitted := s.submitted + 1 }.setClient c (.pushed s.submitted))
  | .refused error => some (s.unlock.setClient c (.outside (some (.executed (.error error)))))
  | .pushed job => some (s.unlock.setClient c (.notifying job))
  | .asking before => (s.lock (.inr c)).map fun s => s.setClient c (.checking before)
  | .checking before =>
    if s.jobs.isEmpty && s.pending == 0 then some (s.setClient c (.idle before))
    else if s.stop then some (s.setClient c (.stopped before))
    else some (s.unlock.setClient c (.parked before))
  | .idle before => some (s.unlock.setClient c (.outside (some (.waited before true))))
  | .stopped before => some (s.unlock.setClient c (.outside (some (.waited before false))))
  | .woken before => (s.lock (.inr c)).map fun s => s.setClient c (.checking before)
  | .outside _ => none
  | .notifying _ => none
  | .parked _ => none

/-- `notify_one` wakes one of the threads that wait, if any does. -/
def Chosen (s : ThreadPool W C) : Option (W ⊕ C) → Prop
  | none => ∀ thread, ¬ s.Parked thread
  | some thread => s.Parked thread

def wakeOne (s : ThreadPool W C) : Option (W ⊕ C) → ThreadPool W C
  | none => s
  | some thread => s.wake thread

end ThreadPool

/-- A step: of a worker, the beginning of a call, a step of a call, its notification with the
    thread that it wakes, or a wake-up out of nothing. -/
inductive Act (W C : Type) where
  | work (i : W) (panics : Bool)
  | tryExecute (c : C)
  | waitIdle (c : C)
  | serve (c : C)
  | notify (c : C) (woken : Option (W ⊕ C))
  | spurious (thread : W ⊕ C)

namespace ThreadPool

variable [DecidableEq W] [DecidableEq C]

def steps (s : ThreadPool W C) : Act W C → ThreadPool W C → Prop
  | .work i panics, t => s.work i panics = some t
  | .tryExecute c, t => (∃ last, s.clients c = .outside last) ∧ t = s.setClient c .submitting
  | .waitIdle c, t =>
    (∃ last, s.clients c = .outside last) ∧ t = s.setClient c (.asking s.accepted)
  | .serve c, t => s.serve c = some t
  | .notify c woken, t =>
    ∃ job, s.clients c = .notifying job ∧ s.Chosen woken ∧
      t = { s.wakeOne woken with accepted := s.accepted ++ [job] }.setClient c
        (.outside (some (.executed (.ok job))))
  | .spurious thread, t => s.Parked thread ∧ t = s.wake thread

end ThreadPool

/-! ## What a step can do -/

/-- The moves of a worker with a view to the mutex alone. -/
inductive Worker.Moves {T : Type} (me : T) : Option T → Worker → Option T → Worker → Prop where
  | enter (mutex : Option T) : Moves me mutex .top mutex .locking
  | lock : Moves me none .locking (some me) .looking
  | leave (mutex : Option T) (job : Nat) : Moves me mutex (.took job) none (.ready job)
  | relock (job : Nat) : Moves me none (.ended job) (some me) (.completing job)
  | again (mutex : Option T) : Moves me mutex .notified none .top
  | back : Moves me none .woken (some me) .looking

theorem Worker.Moves.ne_parked {T : Type} {me : T} {mutex mutex' : Option T} {was place : Worker}
    (h : Worker.Moves me mutex was mutex' place) : place ≠ .parked := by
  cases h <;> nofun

/-- The moves of a caller with a view to the mutex alone. -/
inductive Client.Moves {T : Type} (me : T) : Option T → Client → Option T → Client → Prop where
  | submit : Moves me none .submitting (some me) .pushing
  | refuse (mutex : Option T) (error : ThreadPoolError) :
      Moves me mutex (.refused error) none (.outside (some (.executed (.error error))))
  | pushed (mutex : Option T) (job : Nat) : Moves me mutex (.pushed job) none (.notifying job)
  | ask (before : List Nat) : Moves me none (.asking before) (some me) (.checking before)
  | back (before : List Nat) : Moves me none (.woken before) (some me) (.checking before)
  | idle (mutex : Option T) (before : List Nat) :
      Moves me mutex (.idle before) none (.outside (some (.waited before true)))
  | stopped (mutex : Option T) (before : List Nat) :
      Moves me mutex (.stopped before) none (.outside (some (.waited before false)))

namespace ThreadPool

variable [DecidableEq W] [DecidableEq C]

/-- A step of a worker. -/
inductive Works (s : ThreadPool W C) (i : W) (panics : Bool) : ThreadPool W C → Prop where
  | moves {mutex : Option (W ⊕ C)} {place : Worker}
      (hmoves : Worker.Moves (.inl i) s.mutex (s.workers i) mutex place) :
      Works s i panics ({ s with mutex }.setWorker i place)
  | exits (hplace : s.workers i = .top) (hstop : s.stop = true) :
      Works s i panics (s.setWorker i .exited)
  | quits (hplace : s.workers i = .looking) (hempty : s.jobs = []) (hstop : s.stop = true) :
      Works s i panics (s.unlock.setWorker i .exited)
  | parks (hplace : s.workers i = .looking) (hempty : s.jobs = []) (hstop : s.stop = false) :
      Works s i panics (s.unlock.setWorker i .parked)
  | pops {job : Nat} {rest : List Nat} (hplace : s.workers i = .looking)
      (hjobs : s.jobs = rest ++ [job]) :
      Works s i panics ({ s with jobs := rest }.setWorker i (.took job))
  | starts {job : Nat} (hplace : s.workers i = .ready job) :
      Works s i panics ({ s with started := s.started ++ [job] }.setWorker i (.running job))
  | ends {job : Nat} (hplace : s.workers i = .running job) :
      Works s i panics ({ s with ended := s.ended ++ [(job, panics)] }.setWorker i (.ended job))
  | counts {job : Nat} (hplace : s.workers i = .completing job) :
      Works s i panics
        ({ s with pending := s.pending - 1, done := s.done ++ [job] }.setWorker i .counted)
  | notifies (hplace : s.workers i = .counted) : Works s i panics (s.wakeAll.setWorker i .notified)

/-- A step of a call, but for its notification. -/
inductive Serves (s : ThreadPool W C) (c : C) : ThreadPool W C → Prop where
  | moves {mutex : Option (W ⊕ C)} {place : Client}
      (hmoves : Client.Moves (.inr c) s.mutex (s.clients c) mutex place) :
      Serves s c ({ s with mutex }.setClient c place)
  | refuses {error : ThreadPoolError} (hplace : s.clients c = .pushing)
      (hwhy : error = .stopped ∧ s.stop = true ∨
        error = .queueFull ∧ s.stop = false ∧ s.maxJobs ≤ s.jobs.length) :
      Serves s c (s.setClient c (.refused error))
  | pushes (hplace : s.clients c = .pushing) (hstop : s.stop = false)
      (hroom : s.jobs.length < s.maxJobs) :
      Serves s c ({ s with
        jobs := s.jobs ++ [s.submitted]
        pending := s.pending + 1
        submitted := s.submitted + 1 }.setClient c (.pushed s.submitted))
  | finds {before : List Nat} (hplace : s.clients c = .checking before)
      (hempty : s.jobs = []) (hidle : s.pending = 0) : Serves s c (s.setClient c (.idle before))
  | stops {before : List Nat} (hplace : s.clients c = .checking before)
      (hbusy : ¬ (s.jobs = [] ∧ s.pending = 0)) (hstop : s.stop = true) :
      Serves s c (s.setClient c (.stopped before))
  | parks {before : List Nat} (hplace : s.clients c = .checking before)
      (hbusy : ¬ (s.jobs = [] ∧ s.pending = 0)) (hstop : s.stop = false) :
      Serves s c (s.unlock.setClient c (.parked before))

section Cases

variable {s t : ThreadPool W C}

omit [DecidableEq C] in
theorem work_cases {i : W} {panics : Bool} (hstep : s.work i panics = some t) :
    s.Works i panics t := by
  have hmoved {mutex : Option (W ⊕ C)} {was place : Worker} (hplace : s.workers i = was)
      (hmoves : Worker.Moves (.inl i) s.mutex was mutex place) :
      s.Works i panics ({ s with mutex }.setWorker i place) :=
    .moves (hplace ▸ hmoves)
  have hlocked {was place : Worker} (hplace : s.workers i = was)
      (hmoves : Worker.Moves (.inl i) (none : Option (W ⊕ C)) was (some (.inl i)) place)
      (hlock : (s.lock (.inl i)).map (fun s => s.setWorker i place) = some t) :
      s.Works i panics t := by
    obtain ⟨hfree, rfl⟩ := map_lock_eq hlock
    exact hmoved hplace (hfree ▸ hmoves)
  unfold work at hstep
  -- By the place of the worker; where the code asks for `stop` or for a job there are two cases.
  cases hplace : s.workers i with
  | top =>
    simp only [hplace] at hstep
    obtain rfl := Option.some.inj hstep
    cases hstop : s.stop with
    | true => exact .exits hplace hstop
    | false => exact hmoved hplace (.enter _)
  | locking =>
    simp only [hplace] at hstep
    exact hlocked hplace .lock hstep
  | looking =>
    simp only [hplace] at hstep
    split at hstep
    · next job hlast =>
      obtain rfl := Option.some.inj hstep
      obtain ⟨rest, hjobs⟩ := List.getLast?_eq_some_iff.mp hlast
      rw [hjobs, List.dropLast_concat]
      exact .pops hplace hjobs
    · next hlast =>
      obtain rfl := Option.some.inj hstep
      have hempty : s.jobs = [] := List.getLast?_eq_none_iff.mp hlast
      cases hstop : s.stop with
      | true => exact .quits hplace hempty hstop
      | false => exact .parks hplace hempty hstop
  | took job =>
    simp only [hplace] at hstep
    obtain rfl := Option.some.inj hstep
    exact hmoved hplace (.leave _ job)
  | ready job =>
    simp only [hplace] at hstep
    obtain rfl := Option.some.inj hstep
    exact .starts hplace
  | running job =>
    simp only [hplace] at hstep
    obtain rfl := Option.some.inj hstep
    exact .ends hplace
  | ended job =>
    simp only [hplace] at hstep
    exact hlocked hplace (.relock job) hstep
  | completing job =>
    simp only [hplace] at hstep
    obtain rfl := Option.some.inj hstep
    exact .counts hplace
  | counted =>
    simp only [hplace] at hstep
    obtain rfl := Option.some.inj hstep
    exact .notifies hplace
  | notified =>
    simp only [hplace] at hstep
    obtain rfl := Option.some.inj hstep
    exact hmoved hplace (.again _)
  | woken =>
    simp only [hplace] at hstep
    exact hlocked hplace .back hstep
  | parked | exited => simp [hplace] at hstep

omit [DecidableEq W] in
theorem serve_cases {c : C} (hstep : s.serve c = some t) : s.Serves c t := by
  have hmoved {mutex : Option (W ⊕ C)} {was place : Client} (hplace : s.clients c = was)
      (hmoves : Client.Moves (.inr c) s.mutex was mutex place) :
      s.Serves c ({ s with mutex }.setClient c place) :=
    .moves (hplace ▸ hmoves)
  have hlocked {was place : Client} (hplace : s.clients c = was)
      (hmoves : Client.Moves (.inr c) (none : Option (W ⊕ C)) was (some (.inr c)) place)
      (hlock : (s.lock (.inr c)).map (fun s => s.setClient c place) = some t) : s.Serves c t := by
    obtain ⟨hfree, rfl⟩ := map_lock_eq hlock
    exact hmoved hplace (hfree ▸ hmoves)
  unfold serve at hstep
  -- By the place of the call.
  cases hplace : s.clients c with
  | submitting =>
    simp only [hplace] at hstep
    exact hlocked hplace .submit hstep
  | pushing =>
    simp only [hplace] at hstep
    split at hstep
    · next hstop =>
      obtain rfl := Option.some.inj hstep
      exact .refuses hplace (.inl ⟨rfl, hstop⟩)
    · next hrunning =>
      have hstop : s.stop = false := Bool.eq_false_iff.mpr hrunning
      split at hstep
      · next hfull =>
        obtain rfl := Option.some.inj hstep
        exact .refuses hplace (.inr ⟨rfl, hstop, hfull⟩)
      · next hroom =>
        obtain rfl := Option.some.inj hstep
        exact .pushes hplace hstop (Nat.not_le.mp hroom)
  | refused error =>
    simp only [hplace] at hstep
    obtain rfl := Option.some.inj hstep
    exact hmoved hplace (.refuse _ error)
  | pushed job =>
    simp only [hplace] at hstep
    obtain rfl := Option.some.inj hstep
    exact hmoved hplace (.pushed _ job)
  | asking before =>
    simp only [hplace] at hstep
    exact hlocked hplace (.ask before) hstep
  | checking before =>
    have hidle : (s.jobs.isEmpty && s.pending == 0) = true ↔ s.jobs = [] ∧ s.pending = 0 := by
      simp
    simp only [hplace, hidle] at hstep
    split at hstep
    · next hnone =>
      obtain rfl := Option.some.inj hstep
      exact .finds hplace hnone.1 hnone.2
    · next hbusy =>
      split at hstep
      · next hstop =>
        obtain rfl := Option.some.inj hstep
        exact .stops hplace hbusy hstop
      · next hrunning =>
        obtain rfl := Option.some.inj hstep
        exact .parks hplace hbusy (Bool.eq_false_iff.mpr hrunning)
  | idle before =>
    simp only [hplace] at hstep
    obtain rfl := Option.some.inj hstep
    exact hmoved hplace (.idle _ before)
  | stopped before =>
    simp only [hplace] at hstep
    obtain rfl := Option.some.inj hstep
    exact hmoved hplace (.stopped _ before)
  | woken before =>
    simp only [hplace] at hstep
    exact hlocked hplace (.back before) hstep
  | outside last | notifying job | parked before => simp [hplace] at hstep

end Cases

/-! ## Steps that compute -/

instance (s : ThreadPool W C) (thread : W ⊕ C) : Decidable (s.Parked thread) :=
  match thread with
  | .inl i => inferInstanceAs (Decidable (s.workers i = .parked))
  | .inr c =>
    match hplace : s.clients c with
    | .parked before => .isTrue ⟨before, hplace⟩
    | .outside _ | .submitting | .pushing | .refused _ | .pushed _ | .notifying _ | .asking _
    | .checking _ | .idle _ | .stopped _ | .woken _ =>
      .isFalse (by simp [Parked, hplace])

variable [Fintype W] [Fintype C]

instance (s : ThreadPool W C) (woken : Option (W ⊕ C)) : Decidable (s.Chosen woken) :=
  match woken with
  | none => inferInstanceAs (Decidable (∀ thread, ¬ s.Parked thread))
  | some thread => inferInstanceAs (Decidable (s.Parked thread))

/-- The state after a step, if the step can be taken. -/
def next (s : ThreadPool W C) : Act W C → Option (ThreadPool W C)
  | .work i panics => s.work i panics
  | .tryExecute c =>
    match s.clients c with
    | .outside _ => some (s.setClient c .submitting)
    | _ => none
  | .waitIdle c =>
    match s.clients c with
    | .outside _ => some (s.setClient c (.asking s.accepted))
    | _ => none
  | .serve c => s.serve c
  | .notify c woken =>
    match s.clients c with
    | .notifying job =>
      if s.Chosen woken then
        some ({ s.wakeOne woken with accepted := s.accepted ++ [job] }.setClient c
          (.outside (some (.executed (.ok job)))))
      else none
    | _ => none
  | .spurious thread => if s.Parked thread then some (s.wake thread) else none

/-- What is computed is a step. -/
theorem next_steps {s t : ThreadPool W C} {a : Act W C} (h : s.next a = some t) :
    steps s a t := by
  unfold next at h
  -- What is decided is what the step relation asks for.
  cases a with
  | work i panics => exact h
  | serve c => exact h
  | tryExecute c | waitIdle c =>
    simp only at h
    split at h
    · next last hplace => exact ⟨⟨last, hplace⟩, (Option.some.inj h).symm⟩
    · exact absurd h (by simp)
  | notify c woken =>
    simp only at h
    split at h
    · next job hplace =>
      split at h
      · next hchosen => exact ⟨job, hplace, hchosen, (Option.some.inj h).symm⟩
      · exact absurd h (by simp)
    · exact absurd h (by simp)
  | spurious thread =>
    simp only at h
    split at h
    · next hparked => exact ⟨hparked, (Option.some.inj h).symm⟩
    · exact absurd h (by simp)

end ThreadPool

end Threads
end EngineKit
