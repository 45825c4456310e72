import EngineKit.Lib.Mutex
import EngineKit.Threads.Books

/-!
# The end of a pool

`Drop` sets `stop` without the mutex, then takes the mutex once to notify everybody, and joins the
workers. It has the pool to itself: every call has returned.

It comes back (`drop_joins`). Nobody waits through the notification: a worker that does not see
`stop` when it looks for it has the mutex until it waits, so the notification comes after. Every
step uses up some of a fixed number of steps, and there is always one to take until all workers
have returned. A worker may still take one job, from the end of the queue, that it was on its way
to; what is left in the queue, the oldest jobs first, is never run. Of all jobs that were accepted
each was run to its end once, or was left.

The three parts of the law have three arguments. That `drop` comes back is an argument about steps:
`left` counts, for each place, the longest way out of it once `stop` is set, and this works only
because no worker goes back to waiting, so it rests on `awake`. That there is always a step is an
argument about the mutex: whoever has it can go on, and if nobody has it everybody who is awake can
take it. That no worker takes two jobs is an argument about places: between two jobs every worker
comes by `top`, where `stop` is looked at (`mayTake`).

`Ending` begins where `drop` begins, and so it speaks of the callers no more: the one that drops is
the only one left, and its hold on the mutex is that of `drop`'s own place.
-/

set_option autoImplicit false

namespace EngineKit
namespace Threads

open Lib

variable {W C : Type}

/-! ## Who has the mutex -/

def Worker.holds : Worker → Bool
  | .looking | .took _ | .completing _ | .counted | .notified => true
  | _ => false

def Client.holds : Client → Bool
  | .pushing | .refused _ | .pushed _ | .checking _ | .idle _ | .stopped _ => true
  | _ => false

/-- Waking does not move the mutex. -/
theorem Worker.holds_wake (place : Worker) : place.wake.holds = place.holds := by
  cases place <;> rfl

theorem Client.holds_wake (place : Client) : place.wake.holds = place.holds := by
  cases place <;> rfl

/-- A place inside the mutex is entered with it and left without it. -/
theorem Worker.Moves.holds {T : Type} {me : T} {mutex mutex' : Option T} {was place : Worker}
    (h : Moves me mutex was mutex' place) (hwas : was.holds = true ↔ mutex = some me) :
    (place.holds = true ↔ mutex' = some me) ∧ Passes me mutex mutex' := by
  cases h with
  | enter => exact ⟨hwas, .inl rfl⟩
  | lock => exact ⟨⟨fun _ => rfl, fun _ => rfl⟩, .inr ⟨.inl rfl, .inr rfl⟩⟩
  | leave job => exact ⟨free_iff me, .inr ⟨.inr (hwas.mp rfl), .inl rfl⟩⟩
  | relock job => exact ⟨⟨fun _ => rfl, fun _ => rfl⟩, .inr ⟨.inl rfl, .inr rfl⟩⟩
  | again => exact ⟨free_iff me, .inr ⟨.inr (hwas.mp rfl), .inl rfl⟩⟩
  | back => exact ⟨⟨fun _ => rfl, fun _ => rfl⟩, .inr ⟨.inl rfl, .inr rfl⟩⟩

theorem Client.Moves.holds {T : Type} {me : T} {mutex mutex' : Option T} {was place : Client}
    (h : Moves me mutex was mutex' place) (hwas : was.holds = true ↔ mutex = some me) :
    (place.holds = true ↔ mutex' = some me) ∧ Passes me mutex mutex' := by
  cases h with
  | submit => exact ⟨⟨fun _ => rfl, fun _ => rfl⟩, .inr ⟨.inl rfl, .inr rfl⟩⟩
  | refuse error => exact ⟨free_iff me, .inr ⟨.inr (hwas.mp rfl), .inl rfl⟩⟩
  | pushed job => exact ⟨free_iff me, .inr ⟨.inr (hwas.mp rfl), .inl rfl⟩⟩
  | ask before => exact ⟨⟨fun _ => rfl, fun _ => rfl⟩, .inr ⟨.inl rfl, .inr rfl⟩⟩
  | back before => exact ⟨⟨fun _ => rfl, fun _ => rfl⟩, .inr ⟨.inl rfl, .inr rfl⟩⟩
  | idle before => exact ⟨free_iff me, .inr ⟨.inr (hwas.mp rfl), .inl rfl⟩⟩
  | stopped before => exact ⟨free_iff me, .inr ⟨.inr (hwas.mp rfl), .inl rfl⟩⟩

namespace ThreadPool

def holds (s : ThreadPool W C) : W ⊕ C → Bool
  | .inl i => (s.workers i).holds
  | .inr c => (s.clients c).holds

def Held (s : ThreadPool W C) : Prop := HeldBy s.holds s.mutex

variable {s t : ThreadPool W C}

/-- Nor does waking all. -/
theorem holds_wakeAll (s : ThreadPool W C) (thread : W ⊕ C) :
    s.wakeAll.holds thread = s.holds thread := by
  cases thread with
  | inl i => exact Worker.holds_wake (s.workers i)
  | inr c => exact Client.holds_wake (s.clients c)

section Steps

variable [DecidableEq W] [DecidableEq C]

omit [DecidableEq C] in
/-- Where one thread goes does not concern the others. -/
theorem holds_setWorker_other (s : ThreadPool W C) {i : W} (place : Worker) {thread : W ⊕ C}
    (h : thread ≠ .inl i) : (s.setWorker i place).holds thread = s.holds thread := by
  cases thread with
  | inl j =>
    have hj : j ≠ i := fun heq => h (congrArg Sum.inl heq)
    simp only [holds, setWorker, Function.update_of_ne hj]
  | inr c => rfl

omit [DecidableEq W] in
theorem holds_setClient_other (s : ThreadPool W C) {c : C} (place : Client) {thread : W ⊕ C}
    (h : thread ≠ .inr c) : (s.setClient c place).holds thread = s.holds thread := by
  cases thread with
  | inl i => rfl
  | inr d =>
    have hd : d ≠ c := fun heq => h (congrArg Sum.inr heq)
    simp only [holds, setClient, Function.update_of_ne hd]

/-- A worker goes to a place, and the mutex with it. -/
structure Goes (s : ThreadPool W C) (i : W) (t : ThreadPool W C) : Prop where
  passes : Passes (.inl i) s.mutex t.mutex
  others : ∀ thread, thread ≠ .inl i → t.holds thread = s.holds thread
  self : (t.workers i).holds = true ↔ t.mutex = some (.inl i)

omit [DecidableEq C] in
theorem goes_setWorker {i : W} {place : Worker} {u : ThreadPool W C}
    (hplaces : ∀ thread, u.holds thread = s.holds thread)
    (hpasses : Passes (.inl i) s.mutex u.mutex)
    (hself : place.holds = true ↔ u.mutex = some (.inl i)) : Goes s i (u.setWorker i place) := by
  refine ⟨hpasses, ?_, ?_⟩
  · intro thread hne
    rw [holds_setWorker_other u place hne, hplaces]
  · show (Function.update u.workers i place i).holds = true ↔ _
    rw [Function.update_self]
    exact hself

omit [DecidableEq C] in
/-- What a worker's step does to the mutex, if it had the mutex where it should. -/
theorem goes_of_work {i : W} {panics : Bool}
    (hmine : (s.workers i).holds = true ↔ s.mutex = some (.inl i))
    (hstep : s.work i panics = some t) : Goes s i t := by
  -- Most steps only move the worker and pass the mutex; those that touch the queue or the counters
  -- keep it.
  cases work_cases hstep with
  | moves hmoves =>
    obtain ⟨hself, hpasses⟩ := hmoves.holds hmine
    exact goes_setWorker (fun _ => rfl) hpasses hself
  | exits hplace | starts hplace | ends hplace =>
    rw [hplace] at hmine
    exact goes_setWorker (fun _ => rfl) (.inl rfl) hmine
  | quits hplace | parks hplace =>
    rw [hplace] at hmine
    exact goes_setWorker (fun _ => rfl) (.inr ⟨.inr (hmine.mp rfl), .inl rfl⟩) (free_iff _)
  | pops hplace | counts hplace =>
    rw [hplace] at hmine
    exact goes_setWorker (fun _ => rfl) (.inl rfl) hmine
  | notifies hplace =>
    rw [hplace] at hmine
    exact goes_setWorker (holds_wakeAll s) (.inl rfl) hmine

omit [DecidableEq C] in
/-- **The mutex is had by one thread at most**, whoever makes the step. -/
theorem Held.work (h : s.Held) {i : W} {panics : Bool} (hstep : s.work i panics = some t) :
    t.Held := by
  have hgoes := goes_of_work (h (.inl i)) hstep
  exact h.move hgoes.passes hgoes.others hgoes.self

omit [DecidableEq W] in
theorem Held.setClient (h : s.Held) {c : C} {place : Client} {u : ThreadPool W C}
    (hplaces : ∀ thread, u.holds thread = s.holds thread)
    (hpasses : Passes (.inr c) s.mutex u.mutex)
    (hself : place.holds = true ↔ u.mutex = some (.inr c)) : (u.setClient c place).Held := by
  refine h.move hpasses ?_ ?_
  · intro thread hne
    rw [holds_setClient_other u place hne, hplaces]
  · show (Function.update u.clients c place c).holds = true ↔ _
    rw [Function.update_self]
    exact hself

omit [DecidableEq W] in
/-- A step of a client keeps the mutex with one thread as well. -/
theorem Held.serve (h : s.Held) {c : C} (hstep : s.serve c = some t) : t.Held := by
  have hmine := h (.inr c)
  simp only [holds] at hmine
  cases serve_cases hstep with
  | moves hmoves =>
    obtain ⟨hself, hpasses⟩ := hmoves.holds hmine
    exact h.setClient (fun _ => rfl) hpasses hself
  | refuses hplace | pushes hplace | finds hplace | stops hplace =>
    rw [hplace] at hmine
    exact h.setClient (fun _ => rfl) (.inl rfl) hmine
  | parks hplace =>
    rw [hplace] at hmine
    exact h.setClient (fun _ => rfl) (.inr ⟨.inr (hmine.mp rfl), .inl rfl⟩) (free_iff _)

/-- A wake-up leaves the mutex where it is. -/
theorem Held.wake (h : s.Held) (thread : W ⊕ C) : (s.wake thread).Held := by
  have hmine := h thread
  cases thread with
  | inl i =>
    have hgoes : Goes s i (s.setWorker i (s.workers i).wake) := by
      refine goes_setWorker (fun _ => rfl) (.inl rfl) ?_
      rw [Worker.holds_wake]
      exact hmine
    exact h.move hgoes.passes hgoes.others hgoes.self
  | inr c =>
    refine h.setClient (fun _ => rfl) (.inl rfl) ?_
    rw [Client.holds_wake]
    exact hmine

/-- The mutex is had by one thread at most after any step. -/
theorem Held.step {a : Act W C} (h : s.Held) (hstep : steps s a t) : t.Held := by
  have hleaves : ∀ {u : ThreadPool W C} {c : C} {was place : Client}, u.Held →
      u.clients c = was → was.holds = false → place.holds = false → (u.setClient c place).Held := by
    intro u c was place hu hwas hfree hplace
    have hmine := hu (.inr c)
    simp only [holds, hwas, hfree] at hmine
    refine hu.setClient (fun _ => rfl) (.inl rfl) ?_
    rw [hplace]
    exact hmine
  -- A step of one thread moves that thread; what it does to others is to wake them, which changes
  -- no hold.
  cases a with
  | work i panics => exact h.work hstep
  | tryExecute c | waitIdle c =>
    obtain ⟨⟨last, hlast⟩, rfl⟩ := hstep
    exact hleaves h hlast rfl rfl
  | serve c => exact h.serve hstep
  | notify c woken =>
    obtain ⟨job, hjob, -, rfl⟩ := hstep
    have hwoken : (s.wakeOne woken).Held := by
      cases woken with
      | none => exact h
      | some thread => exact h.wake thread
    have hstill : ((s.wakeOne woken).clients c).holds = false := by
      have hmine := h (.inr c)
      have hnow := hwoken (.inr c)
      simp only [holds, hjob] at hmine hnow
      rw [Bool.eq_false_iff]
      intro hholds
      have hmutex : (s.wakeOne woken).mutex = s.mutex := by
        cases woken with
        | none => rfl
        | some thread => cases thread <;> rfl
      exact Bool.false_ne_true (hmine.mpr (hmutex ▸ hnow.mp hholds))
    exact hleaves (u := { s.wakeOne woken with accepted := s.accepted ++ [job] }) hwoken rfl
      hstill rfl
  | spurious thread =>
    obtain ⟨-, rfl⟩ := hstep
    exact h.wake thread

omit [DecidableEq C] in
/-- Workers do not touch `stop`. -/
theorem stop_of_work {i : W} {panics : Bool}
    (hstep : s.work i panics = some t) : t.stop = s.stop := by
  cases work_cases hstep <;> rfl

omit [DecidableEq C] in
/-- Once `stop` is set nobody starts to wait. -/
theorem not_parked_of_work {i : W} {panics : Bool} (hstop : s.stop = true)
    (hstep : s.work i panics = some t) {j : W} (hj : s.workers j ≠ .parked) :
    t.workers j ≠ .parked := by
  have hset : ∀ {u : ThreadPool W C} {place : Worker}, u.workers j ≠ .parked → place ≠ .parked →
      (u.setWorker i place).workers j ≠ .parked := by
    intro u place hu hplace
    show Function.update u.workers i place j ≠ .parked
    -- Only a worker's own step could make it wait, and that one looks at `stop` under the mutex.
    by_cases hji : j = i
    · rw [hji, Function.update_self]
      exact hplace
    · rw [Function.update_of_ne hji]
      exact hu
  cases work_cases hstep with
  | moves hmoves => exact hset hj hmoves.ne_parked
  | parks _ _ hgoes =>
    rw [hstop] at hgoes
    cases hgoes
  | exits | quits | pops | starts | ends | counts => exact hset hj nofun
  | notifies =>
    refine hset ?_ nofun
    show (s.workers j).wake ≠ .parked
    cases hplace : s.workers j with
    | parked => exact absurd hplace hj
    | _ => nofun

end Steps

/-- In a new pool nobody has it. -/
theorem Held.fresh (w : PointerWidth) (workers : Nat) :
    (ThreadPool.fresh w workers : ThreadPool (Fin (max workers 1)) C).Held := by
  intro thread
  cases thread with
  | inl i => exact free_iff _
  | inr c => exact free_iff _

end ThreadPool

/-! ## Drop -/

/-- The places of `drop`. -/
inductive Dropper where
  /-- `stop` is set. -/
  | locking
  /-- With the mutex, about to notify. -/
  | holding
  /-- With the mutex, having notified. -/
  | notified
  | joining
  | dropped
deriving DecidableEq

def Dropper.holds : Dropper → Bool
  | .holding | .notified => true
  | _ => false

/-- `drop` has notified. -/
def Dropper.spoke : Dropper → Bool
  | .locking | .holding => false
  | _ => true

/-- A pool that is dropped by one of the threads that called it. -/
structure Shutdown (W C : Type) where
  pool : ThreadPool W C
  caller : C
  place : Dropper

/-- A step of a worker or of `drop`, or a wake-up out of nothing. -/
inductive DropAct (W : Type) where
  | work (i : W) (panics : Bool)
  | drop
  | spurious (i : W)

namespace Shutdown

def start (s : ThreadPool W C) (caller : C) : Shutdown W C :=
  ⟨{ s with stop := true }, caller, .locking⟩

/-- The next step of `drop`. -/
def advance (d : Shutdown W C) [Fintype W] : Option (Shutdown W C) :=
  match d.place with
  | .locking => (d.pool.lock (.inr d.caller)).map fun pool => { d with pool, place := .holding }
  | .holding => some { d with pool := d.pool.wakeAll, place := .notified }
  | .notified => some { d with pool := d.pool.unlock, place := .joining }
  | .joining => if ∀ i, d.pool.workers i = .exited then some { d with place := .dropped } else none
  | .dropped => none

variable [DecidableEq W] [DecidableEq C] [Fintype W]

def next (d : Shutdown W C) : DropAct W → Option (Shutdown W C)
  | .work i panics => (d.pool.work i panics).map fun pool => { d with pool }
  | .drop => d.advance
  | .spurious i =>
    if d.pool.workers i = .parked then some { d with pool := d.pool.wake (.inl i) } else none

def steps (d : Shutdown W C) (a : DropAct W) (d' : Shutdown W C) : Prop := d.next a = some d'

/-- The worker that takes a job from the queue in a step, and the job. -/
def taking (d : Shutdown W C) : DropAct W → List (W × Nat)
  | .work i _ =>
    if d.pool.workers i = .looking then d.pool.jobs.getLast?.toList.map fun job => (i, job) else []
  | .drop => []
  | .spurious _ => []

/-- Who takes what in a run, the last first: that is how it stood in the queue. -/
def takings : Shutdown W C → List (DropAct W) → List (W × Nat)
  | _, [] => []
  | d, a :: acts => ((d.next a).elim [] fun d' => d'.takings acts) ++ d.taking a

end Shutdown

/-! ## What is left to do -/

/-- The steps a worker has left once `stop` is set, at most. -/
def Worker.left : Worker → Nat
  | .parked => 12
  | .locking | .woken => 11
  | .looking => 10
  | .took _ => 9
  | .ready _ => 8
  | .running _ => 7
  | .ended _ => 6
  | .completing _ => 5
  | .counted => 4
  | .notified => 3
  | .top => 1
  | .exited => 0

def Dropper.left : Dropper → Nat
  | .locking => 4
  | .holding => 3
  | .notified => 2
  | .joining => 1
  | .dropped => 0

/-- Waking takes nothing back. -/
theorem Worker.left_wake_le (place : Worker) : place.wake.left ≤ place.left := by
  cases place with
  | parked => exact Nat.le_succ 11
  | _ => exact le_rfl

theorem Worker.Moves.left_lt {T : Type} {me : T} {mutex mutex' : Option T} {was place : Worker}
    (h : Worker.Moves me mutex was mutex' place) (hstop : was ≠ .top) : place.left < was.left := by
  cases h with
  | enter => exact absurd rfl hstop
  | lock | leave | relock | again | back => simp [Worker.left]

/-- A worker that may still take a job: from anywhere else it comes by `top`, where it sees
    `stop`. -/
def Worker.mayTake : Worker → Bool
  | .parked | .locking | .woken | .looking => true
  | _ => false

theorem Worker.Moves.mayTake {T : Type} {me : T} {mutex mutex' : Option T} {was place : Worker}
    (h : Worker.Moves me mutex was mutex' place) (hstop : was ≠ .top)
    (hplace : place.mayTake = true) : was.mayTake = true := by
  cases h with
  | enter => exact absurd rfl hstop
  | lock | back => rfl
  | leave | relock | again => cases hplace

theorem Worker.mayTake_wake (place : Worker) : place.wake.mayTake = place.mayTake := by
  cases place <;> rfl

namespace Shutdown

variable [Fintype W]

def left (d : Shutdown W C) : Nat := ∑ i, (d.pool.workers i).left + d.place.left

/-- One less, and the others no more. -/
theorem sum_lt {f g : W → Nat} (hle : ∀ j, g j ≤ f j) {i : W} (hlt : g i < f i) :
    ∑ j, g j < ∑ j, f j :=
  Finset.sum_lt_sum (fun j _ => hle j) ⟨i, Finset.mem_univ i, hlt⟩

variable [DecidableEq W]

/-- A worker goes on to a place with less ahead, while the others are at most woken. -/
theorem workers_lt {workers others : W → Worker} (hothers : ∀ j, (others j).left ≤ (workers j).left)
    {i : W} {place : Worker} (hlt : place.left < (workers i).left) :
    ∑ j, (Function.update others i place j).left < ∑ j, (workers j).left := by
  refine sum_lt (i := i) ?_ ?_
  · intro j
    by_cases hj : j = i
    · subst hj
      rw [Function.update_self]
      exact hlt.le
    · rw [Function.update_of_ne hj]
      exact hothers j
  · rw [Function.update_self]
    exact hlt

/-! ## A pool that ends -/

variable [DecidableEq C]

def holds (d : Shutdown W C) : W ⊕ C → Bool
  | .inl i => (d.pool.workers i).holds
  | .inr c => decide (c = d.caller) && d.place.holds

/-- While `drop` is at work: what it and the workers have agreed on. -/
structure Ending (d : Shutdown W C) : Prop where
  stop : d.pool.stop = true
  held : HeldBy d.holds d.pool.mutex
  awake : d.place.spoke = true → ∀ i, d.pool.workers i ≠ .parked
  exited : d.place = .dropped → ∀ i, d.pool.workers i = .exited
  books : d.pool.Books

variable {d d' : Shutdown W C}

/-- A worker's step keeps what was agreed on. -/
theorem Ending.work (h : d.Ending) {i : W} {panics : Bool} {t : ThreadPool W C}
    (hstep : d.pool.work i panics = some t) : Ending { d with pool := t } where
  stop := (ThreadPool.stop_of_work hstep).trans h.stop
  held := by
    have hgoes := ThreadPool.goes_of_work (h.held (.inl i)) hstep
    refine h.held.move hgoes.passes ?_ hgoes.self
    intro thread hne
    cases thread with
    | inl j => exact hgoes.others (.inl j) hne
    | inr c => rfl
  awake hspoke j := ThreadPool.not_parked_of_work h.stop hstep (h.awake hspoke j)
  exited hdropped j := by
    have hall := h.exited hdropped
    simp [ThreadPool.work, hall] at hstep
  books := h.books.work hstep

/-- So does waking up out of nothing, and taking the mutex back is a step of its own. -/
theorem Ending.wake (h : d.Ending) {i : W} (hparked : d.pool.workers i = .parked) :
    Ending { d with pool := d.pool.wake (.inl i) } where
  stop := h.stop
  held := by
    refine h.held.move (.inl rfl : Passes (.inl i) _ _) ?_ ?_
    · intro thread hne
      cases thread with
      | inl j => exact ThreadPool.holds_setWorker_other d.pool _ hne
      | inr c => rfl
    · have hself := h.held (.inl i)
      simp only [holds, ThreadPool.wake, ThreadPool.setWorker, Function.update_self,
        Worker.holds_wake] at hself ⊢
      exact hself
  awake hspoke := absurd hparked (h.awake hspoke i)
  exited hdropped := nomatch hparked.symm.trans (h.exited hdropped i)
  books := h.books.wake (.inl i)

omit [Fintype W] [DecidableEq W] in
theorem holds_caller (d : Shutdown W C) : d.holds (.inr d.caller) = d.place.holds := by
  simp [holds]

omit [Fintype W] [DecidableEq W] in
/-- A step of `drop`, with a view to the mutex. -/
theorem held_drop (h : HeldBy d.holds d.pool.mutex) {pool : ThreadPool W C} {place : Dropper}
    (hworkers : ∀ i, (pool.workers i).holds = (d.pool.workers i).holds)
    (hpasses : Passes (.inr d.caller) d.pool.mutex pool.mutex)
    (hself : place.holds = true ↔ pool.mutex = some (.inr d.caller)) :
    HeldBy (holds ⟨pool, d.caller, place⟩) pool.mutex := by
  refine h.move hpasses ?_ ?_
  · intro thread hne
    cases thread with
    | inl i => exact hworkers i
    | inr c =>
      have hc : c ≠ d.caller := fun heq => hne (congrArg Sum.inr heq)
      simp [holds, hc]
  · have hcaller := holds_caller (⟨pool, d.caller, place⟩ : Shutdown W C)
    rw [hcaller]
    exact hself

omit [DecidableEq W] in
/-- And so does a step of `drop`: it says `awake` when it has notified everybody, and `exited` when
    it has joined them. -/
theorem Ending.advance (h : d.Ending) (hstep : d.advance = some d') : d'.Ending := by
  have hmine := h.held (.inr d.caller)
  rw [holds_caller] at hmine
  rw [Shutdown.advance] at hstep
  cases hplace : d.place with
  | locking =>
    rw [hplace] at hstep
    have hlock : (d.pool.lock (.inr d.caller)).map
        (fun pool => (⟨pool, d.caller, .holding⟩ : Shutdown W C)) = some d' := hstep
    obtain ⟨pool, htaken, rfl⟩ := Option.map_eq_some_iff.mp hlock
    obtain ⟨hfree, rfl⟩ : d.pool.mutex = none ∧
        pool = { d.pool with mutex := some (.inr d.caller) } := by
      have hid : (d.pool.lock (.inr d.caller)).map id = some pool := by
        rw [Option.map_id_fun, id, htaken]
      exact ThreadPool.map_lock_eq hid
    exact ⟨h.stop, held_drop h.held (fun _ => rfl) (.inr ⟨.inl hfree, .inr rfl⟩)
      ⟨fun _ => rfl, fun _ => rfl⟩, nofun, nofun, h.books.still rfl rfl rfl rfl⟩
  | holding =>
    rw [hplace] at hstep hmine
    obtain rfl := Option.some.inj hstep
    refine ⟨h.stop, held_drop h.held (fun i => Worker.holds_wake (d.pool.workers i)) (.inl rfl)
      ⟨fun _ => hmine.mp rfl, fun _ => rfl⟩, ?_, nofun, h.books.wakeAll⟩
    intro _ i
    show (d.pool.workers i).wake ≠ .parked
    cases d.pool.workers i <;> nofun
  | notified =>
    rw [hplace] at hstep hmine
    obtain rfl := Option.some.inj hstep
    exact ⟨h.stop, held_drop h.held (fun _ => rfl) (.inr ⟨.inr (hmine.mp rfl), .inl rfl⟩)
      (free_iff _), fun _ => h.awake (by rw [hplace]; rfl), nofun,
      h.books.still rfl rfl rfl rfl⟩
  | joining =>
    rw [hplace] at hstep hmine
    obtain ⟨hall, hdone⟩ := Option.ite_none_right_eq_some.mp hstep
    obtain rfl := Option.some.inj hdone
    exact ⟨h.stop, held_drop h.held (fun _ => rfl) (.inl rfl)
      hmine, fun _ => h.awake (by rw [hplace]; rfl),
      fun _ => hall, h.books⟩
  | dropped =>
    rw [hplace] at hstep
    cases hstep

/-- **Whoever makes it.** -/
theorem Ending.step {a : DropAct W} (h : d.Ending) (hstep : steps d a d') : d'.Ending := by
  cases a with
  | work i panics =>
    obtain ⟨pool, hwork, rfl⟩ := Option.map_eq_some_iff.mp hstep
    exact h.work hwork
  | drop => exact h.advance hstep
  | spurious i =>
    obtain ⟨hparked, heq⟩ := Option.ite_none_right_eq_some.mp hstep
    obtain rfl := Option.some.inj heq
    exact h.wake hparked

/-! ## It comes to an end -/

omit [DecidableEq C] in
/-- A worker's step leaves it less to do. -/
theorem left_work {s t : ThreadPool W C} {i : W} {panics : Bool} (hstop : s.stop = true)
    (hstep : s.work i panics = some t) :
    ∑ j, (t.workers j).left < ∑ j, (s.workers j).left := by
  have hsame : ∀ j, (s.workers j).left ≤ (s.workers j).left := fun _ => le_rfl
  by_cases htop : s.workers i = .top
  · simp only [ThreadPool.work, htop, hstop, if_true] at hstep
    obtain rfl := Option.some.inj hstep
    have hleft : Worker.exited.left < (s.workers i).left := by
      rw [htop]
      decide
    exact workers_lt hsame hleft
  · cases ThreadPool.work_cases hstep with
    | moves hmoves => exact workers_lt hsame (hmoves.left_lt htop)
    | exits hplace => exact absurd hplace htop
    | parks _ _ hgoes =>
      rw [hstop] at hgoes
      cases hgoes
    | quits hplace | pops hplace | starts hplace | ends hplace | counts hplace =>
      refine workers_lt hsame ?_
      rw [hplace]
      simp [Worker.left]
    | notifies hplace =>
      refine workers_lt (fun j => Worker.left_wake_le (s.workers j)) ?_
      rw [hplace]
      simp [Worker.left]

/-- **Every step uses up one.** -/
theorem Ending.left_lt {a : DropAct W} (h : d.Ending) (hstep : steps d a d') :
    d'.left < d.left := by
  cases a with
  | work i panics =>
    obtain ⟨pool, hwork, rfl⟩ := Option.map_eq_some_iff.mp hstep
    exact Nat.add_lt_add_right (left_work h.stop hwork) _
  | spurious i =>
    obtain ⟨hparked, heq⟩ := Option.ite_none_right_eq_some.mp hstep
    obtain rfl := Option.some.inj heq
    refine Nat.add_lt_add_right (workers_lt (fun _ => le_rfl) ?_) _
    rw [hparked]
    decide
  | drop =>
    have hadvance : d.advance = some d' := hstep
    rw [Shutdown.advance] at hadvance
    cases hplace : d.place with
    | locking =>
      rw [hplace] at hadvance
      obtain ⟨pool, htaken, rfl⟩ := Option.map_eq_some_iff.mp hadvance
      have hworkers : pool.workers = d.pool.workers := by
        rw [ThreadPool.lock] at htaken
        split at htaken
        · obtain rfl := Option.some.inj htaken
          rfl
        · cases htaken
      simp only [left, hworkers, hplace]
      exact Nat.add_lt_add_left (by decide) _
    | holding =>
      rw [hplace] at hadvance
      obtain rfl := Option.some.inj hadvance
      simp only [left, hplace]
      refine Nat.add_lt_add_of_le_of_lt ?_ (by decide)
      exact Finset.sum_le_sum fun i _ => Worker.left_wake_le (d.pool.workers i)
    | notified =>
      rw [hplace] at hadvance
      obtain rfl := Option.some.inj hadvance
      simp only [left, hplace]
      exact Nat.add_lt_add_left (by decide) _
    | joining =>
      rw [hplace] at hadvance
      obtain ⟨-, hdone⟩ := Option.ite_none_right_eq_some.mp hadvance
      obtain rfl := Option.some.inj hdone
      simp only [left, hplace]
      exact Nat.add_lt_add_left (by decide) _
    | dropped =>
      rw [hplace] at hadvance
      cases hadvance

omit [Fintype W] [DecidableEq C] in
/-- Who has the mutex can go on. -/
theorem work_of_holds {s : ThreadPool W C} {i : W} (h : (s.workers i).holds = true) :
    ∃ t, s.work i false = some t := by
  rw [ThreadPool.work]
  cases hplace : s.workers i with
  | looking =>
    cases hlast : s.jobs.getLast? with
    | none => exact ⟨_, rfl⟩
    | some job => exact ⟨_, rfl⟩
  | took job | completing job => exact ⟨_, rfl⟩
  | counted | notified => exact ⟨_, rfl⟩
  | _ =>
    rw [hplace] at h
    cases h

omit [Fintype W] [DecidableEq C] in
/-- And so can everybody when nobody has it, except for those who wait or have returned. -/
theorem work_of_free {s : ThreadPool W C} {i : W} (hfree : s.mutex = none)
    (hparked : s.workers i ≠ .parked) (hexited : s.workers i ≠ .exited) :
    ∃ t, s.work i false = some t := by
  by_cases hholds : (s.workers i).holds = true
  · exact work_of_holds hholds
  · rw [ThreadPool.work]
    cases hplace : s.workers i with
    | parked => exact absurd hplace hparked
    | exited => exact absurd hplace hexited
    | locking | woken | ended job => simp [ThreadPool.lock, hfree]
    | top | ready job | running job => exact ⟨_, rfl⟩
    | _ =>
      rw [hplace] at hholds
      exact absurd rfl hholds

/-- **There is always a step to take.** -/
theorem Ending.goes_on (h : d.Ending) (hplace : d.place ≠ .dropped) :
    ∃ a d', steps d a d' := by
  have hwork : ∀ {i : W}, (∃ t, d.pool.work i false = some t) → ∃ a d', steps d a d' := by
    intro i hsome
    obtain ⟨t, ht⟩ := hsome
    exact ⟨.work i false, _, by rw [steps, next, ht]; rfl⟩
  have hmine := h.held (.inr d.caller)
  rw [holds_caller] at hmine
  have howner : ∀ {thread : W ⊕ C}, d.pool.mutex = some thread → d.place.holds = false →
      ∃ a d', steps d a d' := by
    intro thread hmutex hnot
    have hholds := (h.held thread).mpr hmutex
    -- The owner is a worker, or it is `drop` itself.
    cases thread with
    | inl i => exact hwork (work_of_holds hholds)
    | inr c =>
      simp only [holds, hnot, Bool.and_false] at hholds
      cases hholds
  cases hat : d.place with
  | dropped => exact absurd hat hplace
  | holding => exact ⟨.drop, _, by rw [steps, next, Shutdown.advance, hat]⟩
  | notified => exact ⟨.drop, _, by rw [steps, next, Shutdown.advance, hat]⟩
  | locking =>
    cases hmutex : d.pool.mutex with
    | none =>
      exact ⟨.drop, _, by rw [steps, next, Shutdown.advance, hat, ThreadPool.lock, hmutex]; rfl⟩
    | some thread => exact howner hmutex (by rw [hat]; rfl)
  | joining =>
    by_cases hall : ∀ i, d.pool.workers i = .exited
    · exact ⟨.drop, _, by rw [steps, next, Shutdown.advance, hat]; exact if_pos hall⟩
    · obtain ⟨i, hi⟩ := not_forall.mp hall
      cases hmutex : d.pool.mutex with
      | none => exact hwork (work_of_free hmutex (h.awake (by rw [hat]; rfl) i) hi)
      | some thread => exact howner hmutex (by rw [hat]; rfl)

/-! ## The jobs -/

omit [Fintype W] [DecidableEq C] in
/-- The queue gets shorter by what the worker takes. -/
theorem jobs_of_work {s t : ThreadPool W C} {i : W} {panics : Bool}
    (hstep : s.work i panics = some t) :
    s.jobs = t.jobs ++ if s.workers i = .looking then s.jobs.getLast?.toList else [] := by
  by_cases hplace : s.workers i = .looking
  · rw [if_pos hplace]
    simp only [ThreadPool.work, hplace] at hstep
    cases hlast : s.jobs.getLast? with
    | none =>
      rw [hlast] at hstep
      obtain rfl := Option.some.inj hstep
      exact (List.append_nil _).symm
    | some job =>
      rw [hlast] at hstep
      obtain rfl := Option.some.inj hstep
      exact (List.dropLast_append_getLast? job hlast).symm
  · rw [if_neg hplace, List.append_nil]
    cases ThreadPool.work_cases hstep with
    | pops hlooking => exact absurd hlooking hplace
    | _ => rfl

omit [Fintype W] [DecidableEq C] in
/-- Who may take a job after a step could before it. -/
theorem mayTake_of_work {s t : ThreadPool W C} {i j : W} {panics : Bool} (hstop : s.stop = true)
    (hstep : s.work i panics = some t) (hj : (t.workers j).mayTake = true) :
    (s.workers j).mayTake = true := by
  have hset : ∀ {u : ThreadPool W C} {place : Worker},
      ((u.setWorker i place).workers j).mayTake = true →
      (place.mayTake = true → (s.workers i).mayTake = true) →
      ((u.workers j).mayTake = true → (s.workers j).mayTake = true) →
      (s.workers j).mayTake = true := by
    intro u place hnow hmine hothers
    by_cases hji : j = i
    · subst hji
      simp only [ThreadPool.setWorker, Function.update_self] at hnow
      exact hmine hnow
    · simp only [ThreadPool.setWorker, Function.update_of_ne hji] at hnow
      exact hothers hnow
  -- At `top` a worker sees `stop` and goes out.
  by_cases htop : s.workers i = .top
  · simp only [ThreadPool.work, htop, hstop, if_true] at hstep
    obtain rfl := Option.some.inj hstep
    exact hset hj nofun id
  · cases ThreadPool.work_cases hstep with
    | moves hmoves => exact hset hj (hmoves.mayTake htop) id
    | exits | quits | pops | starts | ends | counts => exact hset hj nofun id
    | parks _ _ hgoes =>
      rw [hstop] at hgoes
      cases hgoes
    | notifies =>
      refine hset hj nofun ?_
      intro hwoken
      rw [← Worker.mayTake_wake]
      exact hwoken

omit [DecidableEq W] [DecidableEq C] in
/-- `drop` leaves the queue alone, and wakes at most. -/
theorem pool_of_advance (hstep : d.advance = some d') :
    d'.pool.jobs = d.pool.jobs ∧
      ∀ i, (d'.pool.workers i).mayTake = (d.pool.workers i).mayTake := by
  rw [Shutdown.advance] at hstep
  cases hplace : d.place with
  | locking =>
    rw [hplace] at hstep
    obtain ⟨pool, htaken, rfl⟩ := Option.map_eq_some_iff.mp hstep
    rw [ThreadPool.lock] at htaken
    split at htaken
    · obtain rfl := Option.some.inj htaken
      exact ⟨rfl, fun _ => rfl⟩
    · cases htaken
  | holding =>
    rw [hplace] at hstep
    obtain rfl := Option.some.inj hstep
    exact ⟨rfl, fun i => Worker.mayTake_wake (d.pool.workers i)⟩
  | notified =>
    rw [hplace] at hstep
    obtain rfl := Option.some.inj hstep
    exact ⟨rfl, fun _ => rfl⟩
  | joining =>
    rw [hplace] at hstep
    obtain ⟨-, hdone⟩ := Option.ite_none_right_eq_some.mp hstep
    obtain rfl := Option.some.inj hdone
    exact ⟨rfl, fun _ => rfl⟩
  | dropped =>
    rw [hplace] at hstep
    cases hstep

/-- **What a step takes** is the end of the queue, and who may take a job after it could before
    it. -/
theorem Ending.jobs_step (h : d.Ending) {a : DropAct W} (hstep : steps d a d') :
    d.pool.jobs = d'.pool.jobs ++ (d.taking a).map Prod.snd ∧
      ∀ j, (d'.pool.workers j).mayTake = true → (d.pool.workers j).mayTake = true := by
  cases a with
  | work i panics =>
    obtain ⟨pool, hwork, rfl⟩ := Option.map_eq_some_iff.mp hstep
    refine ⟨?_, fun j => mayTake_of_work h.stop hwork⟩
    have hjobs := jobs_of_work hwork
    rw [taking, apply_ite (List.map Prod.snd), List.map_map]
    simpa [Function.comp_def] using hjobs
  | drop =>
    obtain ⟨hjobs, hplaces⟩ := pool_of_advance hstep
    refine ⟨?_, fun j hj => (hplaces j).symm.trans hj⟩
    rw [taking, List.map_nil, List.append_nil, hjobs]
  | spurious i =>
    obtain ⟨hparked, heq⟩ := Option.ite_none_right_eq_some.mp hstep
    obtain rfl := Option.some.inj heq
    refine ⟨(List.append_nil _).symm, ?_⟩
    intro j hj
    by_cases hji : j = i
    · subst hji
      rw [hparked]
      rfl
    · simp only [ThreadPool.wake, ThreadPool.setWorker, Function.update_of_ne hji] at hj
      exact hj

/-- Who takes a job was looking, and has it then. -/
theorem taking_cases {a : DropAct W} (hstep : steps d a d') :
    d.taking a = [] ∨ ∃ i job, d.taking a = [(i, job)] ∧ d.pool.workers i = .looking ∧
      d'.pool.workers i = .took job := by
  cases a with
  | drop | spurious _ => exact .inl rfl
  | work i panics =>
    obtain ⟨pool, hwork, rfl⟩ := Option.map_eq_some_iff.mp hstep
    by_cases hplace : d.pool.workers i = .looking
    · cases hlast : d.pool.jobs.getLast? with
      | none => exact .inl (by rw [taking, if_pos hplace, hlast]; rfl)
      | some job =>
        simp only [ThreadPool.work, hplace, hlast] at hwork
        obtain rfl := Option.some.inj hwork
        refine .inr ⟨i, job, by rw [taking, if_pos hplace, hlast]; rfl, hplace, ?_⟩
        exact Function.update_self ..
    · exact .inl (by rw [taking, if_neg hplace])

/-- **Along a run** the queue gets shorter by what is taken, and no worker takes twice: one that
    takes a job is from then on among those that may not. -/
theorem Ending.takings (h : d.Ending) {acts : List (DropAct W)}
    (hrun : acts.foldlM next d = some d') :
    d.pool.jobs = d'.pool.jobs ++ (d.takings acts).map Prod.snd ∧
      ((d.takings acts).map Prod.fst).Nodup ∧
      ∀ i ∈ (d.takings acts).map Prod.fst, (d.pool.workers i).mayTake = true := by
  induction acts generalizing d with
  | nil =>
    obtain rfl := Option.some.inj hrun
    exact ⟨(List.append_nil _).symm, .nil, nofun⟩
  | cons a acts ih =>
    rw [List.foldlM_cons] at hrun
    obtain ⟨e, hstep, hrest⟩ := Option.bind_eq_some_iff.mp hrun
    obtain ⟨hjobs, hnodup, hmay⟩ := ih (h.step hstep) hrest
    obtain ⟨hfirst, hstill⟩ := h.jobs_step hstep
    have htakings : d.takings (a :: acts) = e.takings acts ++ d.taking a := by
      rw [Shutdown.takings, hstep]
      rfl
    rw [htakings, List.map_append, List.map_append]
    refine ⟨?_, ?_⟩
    · rw [hfirst, hjobs, List.append_assoc]
    · obtain hnone | ⟨i, job, hone, hlooking, htook⟩ := taking_cases hstep
      · rw [hnone, List.map_nil, List.append_nil]
        exact ⟨hnodup, fun j hj => hstill j (hmay j hj)⟩
      · rw [hone]
        have hnot : i ∉ (e.takings acts).map Prod.fst := by
          intro hi
          have hagain := hmay i hi
          rw [htook] at hagain
          cases hagain
        refine ⟨List.concat_eq_append ▸ hnodup.concat hnot, ?_⟩
        intro j hj
        obtain hj | hj := List.mem_append.mp hj
        · exact hstill j (hmay j hj)
        · obtain rfl := List.mem_singleton.mp hj
          rw [hlooking]
          rfl

/-- A pool at the end, and who took what since `drop` began. -/
structure Dropped (s : ThreadPool W C) (taken : List (W × Nat)) (d : Shutdown W C) : Prop where
  exited : ∀ i, d.pool.workers i = .exited
  /-- They took from the end of the queue. -/
  queue : s.jobs = d.pool.jobs ++ taken.map Prod.snd
  /-- No worker took more than one. -/
  once : (taken.map Prod.fst).Nodup
  /-- Whatever was started has ended. -/
  ended : d.pool.started.Perm (d.pool.ended.map Prod.fst)
  /-- Each job was run once, or is left. -/
  all : (d.pool.jobs ++ d.pool.started).Perm (List.range d.pool.submitted)

omit [DecidableEq W] [DecidableEq C] in
/-- At the end nothing is running, so what was started has ended. -/
theorem dropped_of_ending [DecidableEq C] {s : ThreadPool W C} {taken : List (W × Nat)}
    (h : d.Ending) (hqueue : s.jobs = d.pool.jobs ++ taken.map Prod.snd)
    (honce : (taken.map Prod.fst).Nodup) (hplace : d.place = .dropped) : Dropped s taken d := by
  have hexited := h.exited hplace
  have hnone : ∀ part : Worker → Option Nat, part .exited = none →
      tally part d.pool.workers = 0 := by
    intro part hpart
    have hall : d.pool.workers = fun _ => .exited := funext hexited
    rw [hall]
    exact tally_const part hpart
  have hstarted := h.books.started
  have hended := h.books.ended
  have hplaces := h.books.places
  rw [hnone _ rfl, zero_add] at hstarted hended
  rw [hnone _ rfl, add_zero, ← hstarted] at hplaces
  refine ⟨hexited, hqueue, honce, ?_, ?_⟩
  · exact Multiset.coe_eq_coe.mp (hstarted.trans hended.symm)
  · exact Multiset.coe_eq_coe.mp hplaces.symm

omit [DecidableEq W] in
/-- The workers of a pool in use and the mutex, when `drop` begins. -/
theorem ending_start {s : ThreadPool W C} (hheld : s.Held) (hbooks : s.Books)
    (houtside : ∀ c, ∃ last, s.clients c = .outside last) (caller : C) :
    Ending (start s caller) where
  stop := rfl
  held thread := by
    have hthread := hheld thread
    cases thread with
    | inl i => exact hthread
    | inr c =>
      obtain ⟨last, hlast⟩ := houtside c
      simp only [ThreadPool.holds, hlast] at hthread
      simp only [holds, start, Dropper.holds, Bool.and_false]
      exact hthread
  awake := nofun
  exited := nofun
  books := hbooks.still rfl rfl rfl rfl

end Shutdown

namespace ThreadPool

/-- What a pool in use is like. -/
theorem held_books [DecidableEq C] {w : PointerWidth} {room spawned : Bool} {workers : Nat}
    {s₀ s : ThreadPool (Fin (max workers 1)) C} (hnew : tryNew w room spawned workers = .ok s₀)
    (hrun : Reaches steps s₀ s) : s.Held ∧ s.Books := by
  obtain rfl := tryNew_ok hnew
  exact hrun.invariant (fun s => s.Held ∧ s.Books) ⟨Held.fresh w workers, Books.fresh w workers⟩
    fun s a t h hstep => ⟨h.1.step hstep, h.2.step hstep⟩

end ThreadPool

open ThreadPool (tryNew)

/-- **Drop joins.** In whatever state a pool is that nobody is calling: once it is dropped, every
    step uses up one of a number of steps, there is a step to take until `drop` is through, and
    then all workers have returned, each having taken one more job at most, and every job that was
    accepted was run once or is left. -/
theorem drop_joins [DecidableEq C] {w : PointerWidth} {room spawned : Bool} {workers : Nat}
    {s₀ s : ThreadPool (Fin (max workers 1)) C} (hnew : tryNew w room spawned workers = .ok s₀)
    (hrun : Reaches ThreadPool.steps s₀ s) (houtside : ∀ c, ∃ last, s.clients c = .outside last)
    (caller : C) {acts : List (DropAct (Fin (max workers 1)))}
    {d : Shutdown (Fin (max workers 1)) C}
    (hdrop : acts.foldlM Shutdown.next (Shutdown.start s caller) = some d) :
    (∀ a d', Shutdown.steps d a d' → d'.left < d.left) ∧
      (d.place ≠ .dropped → ∃ a d', Shutdown.steps d a d') ∧
      (d.place = .dropped →
        Shutdown.Dropped s ((Shutdown.start s caller).takings acts) d) := by
  obtain ⟨hheld, hbooks⟩ := ThreadPool.held_books hnew hrun
  have hstart := Shutdown.ending_start hheld hbooks houtside caller
  have hending : d.Ending :=
    (Reaches.foldlM (fun _ _ _ _ hstep => hstep) hdrop).invariant Shutdown.Ending hstart
      fun _ _ _ h hstep => h.step hstep
  obtain ⟨hqueue, honce, -⟩ := hstart.takings hdrop
  exact ⟨fun a d' => hending.left_lt, hending.goes_on,
    Shutdown.dropped_of_ending hending hqueue honce⟩

/-- Two jobs that are submitted to a pool of one, and the pool dropped when the worker is on its
    way to the mutex: it takes the later one, and the other is left. -/
theorem drop_joins_left :
    ∃ (s : ThreadPool (Fin (max 1 1)) Unit) (d : Shutdown (Fin (max 1 1)) Unit),
      s.jobs = [0, 1] ∧ Shutdown.Dropped s [(⟨0, by decide⟩, 1)] d ∧
        d.pool.jobs = [0] ∧ d.pool.ended = [(1, false)] := by
  let submits : List (Act (Fin (max 1 1)) Unit) :=
    [.tryExecute (), .serve (), .serve (), .serve (), .notify () none]
  let worker : Fin (max 1 1) := ⟨0, by decide⟩
  let drops : List (DropAct (Fin (max 1 1))) :=
    List.replicate 10 (.work worker false) ++ List.replicate 4 .drop
  obtain ⟨s₀, hnew, s, hs, hjobs, houtside, htaken, hlast⟩ :
      ∃ s₀, tryNew .sixtyFour true true 1 = .ok s₀ ∧
      ∃ s, (submits ++ submits ++ [Act.work worker false]).foldlM ThreadPool.next s₀ = some s ∧
        s.jobs = [0, 1] ∧ (∀ c, ∃ last, s.clients c = .outside last) ∧
        (Shutdown.start s ()).takings drops = [(worker, 1)] ∧
        (drops.foldlM Shutdown.next (Shutdown.start s ())).map
            (fun d => (d.place, d.pool.jobs, d.pool.ended)) =
          some (Dropper.dropped, [0], [(1, false)]) :=
    ⟨_, rfl, _, rfl, rfl, fun _ => ⟨_, rfl⟩, by decide +kernel, by decide +kernel⟩
  obtain ⟨d, hdrop, hend⟩ := Option.map_eq_some_iff.mp hlast
  have hrun : Reaches ThreadPool.steps s₀ s :=
    Reaches.foldlM (fun _ _ _ _ hstep => ThreadPool.next_steps hstep) hs
  obtain ⟨hplace, hleft⟩ := Prod.mk.inj hend
  obtain ⟨hqueue, hended⟩ := Prod.mk.inj hleft
  have hdropped := (drop_joins hnew hrun houtside () hdrop).2.2 hplace
  rw [htaken] at hdropped
  exact ⟨s, d, hjobs, hdropped, hqueue, hended⟩

end Threads
end EngineKit
