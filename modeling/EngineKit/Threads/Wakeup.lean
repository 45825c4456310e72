import EngineKit.Threads.WaitIdle

/-!
# Whom a notification wakes

Workers and the callers of `wait_idle` wait on one condition variable, and `try_execute` notifies
one of them. While a job is queued, some worker should be about to look at the queue, or some
caller about to notify: otherwise nobody ever runs the job (`Lost`).

Only one step leads there: a notification that wakes a caller of `wait_idle`, which finds the pool
busy and waits again, while every worker waits, a job is queued and nobody else is to notify.
Every other step is `Heard`.
-/

set_option autoImplicit false

namespace EngineKit
namespace Threads

open Lib

variable {W C : Type}

namespace ThreadPool

/-- A job is queued, every worker waits, without a wake-up, and no caller is still to notify. -/
def Lost (s : ThreadPool W C) : Prop :=
  s.jobs ≠ [] ∧ (∀ i, s.workers i = .parked) ∧ ∀ c, (s.clients c).job? = none

/-- Not the notification that leaves a job to nobody. -/
def Heard (s : ThreadPool W C) : Act W C → Prop
  | .notify c (some (.inr _)) =>
    s.jobs = [] ∨ (∃ i, s.workers i ≠ .parked) ∨ ∃ c', c' ≠ c ∧ (s.clients c').job? ≠ none
  | _ => True

section Wakeup

variable {s t : ThreadPool W C}

theorem not_lost_iff : ¬ s.Lost ↔
    s.jobs = [] ∨ (∃ i, s.workers i ≠ .parked) ∨ ∃ c, (s.clients c).job? ≠ none := by
  unfold Lost
  rw [not_and_or, not_and_or, not_not, not_forall, not_forall]

variable [DecidableEq W] [DecidableEq C]

omit [DecidableEq C] in
/-- A worker waits only when it has found the queue empty. -/
theorem work_parks {i : W} {panics : Bool} (hstep : s.work i panics = some t) :
    t.jobs = [] ∨ t.workers i ≠ .parked := by
  have hat {u : ThreadPool W C} {place : Worker} (hplace : place ≠ .parked) :
      (u.setWorker i place).workers i ≠ .parked := by
    show Function.update u.workers i place i ≠ .parked
    rwa [Function.update_self]
  cases work_cases hstep with
  | moves hmoves => exact .inr (hat hmoves.ne_parked)
  | exits | starts | ends | counts | notifies | pops => exact .inr (hat nofun)
  | quits _ hempty | parks _ hempty => exact .inl hempty

omit [DecidableEq W] in
/-- A call's step, but for its notification, is no worker's and no other caller's; and the caller
    is then to notify, unless it was not and nothing was queued. -/
theorem serve_keeps {c : C} (hstep : s.serve c = some t) :
    t.workers = s.workers ∧ (∀ c', c' ≠ c → t.clients c' = s.clients c') ∧
      ((t.clients c).job? ≠ none ∨ t.jobs = s.jobs ∧ (s.clients c).job? = none) := by
  have hother {u : ThreadPool W C} {place : Client} (hclients : u.clients = s.clients) (c' : C)
      (hc : c' ≠ c) : (u.setClient c place).clients c' = s.clients c' := by
    show Function.update u.clients c place c' = _
    rw [Function.update_of_ne hc, hclients]
  have hat {u : ThreadPool W C} {place : Client} (hplace : place.job? ≠ none) :
      ((u.setClient c place).clients c).job? ≠ none := by
    show (Function.update u.clients c place c).job? ≠ none
    rwa [Function.update_self]
  cases serve_cases hstep with
  | @moves mutex place hmoves =>
    have hjob : place.job? = (s.clients c).job? := (Prod.mk.inj hmoves.same).1
    refine ⟨rfl, hother rfl, ?_⟩
    cases hnow : (s.clients c).job? with
    | none => exact .inr ⟨rfl, rfl⟩
    | some job => exact .inl (hat (by rw [hjob, hnow]; nofun))
  | refuses hplace | finds hplace | stops hplace | parks hplace =>
    exact ⟨rfl, hother rfl, .inr ⟨rfl, by rw [hplace]; rfl⟩⟩
  | pushes => exact ⟨rfl, hother rfl, .inl (hat nofun)⟩

/-- A worker that waited and is woken waits no longer. -/
theorem wake_worker {i : W} (hparked : s.workers i = .parked) :
    (s.wake (.inl i)).workers i ≠ .parked := by
  show Function.update s.workers i (s.workers i).wake i ≠ .parked
  rw [Function.update_self, hparked]
  nofun

theorem wake_job? (c c' : C) :
    ((s.wake (.inr c')).clients c).job? = (s.clients c).job? := by
  show (Function.update s.clients c' (s.clients c').wake c).job? = _
  by_cases hc : c = c'
  · rw [hc, Function.update_self, Client.job?_wake]
  · rw [Function.update_of_ne hc]

omit [DecidableEq W] in
/-- The step of a caller that has nothing to notify, before or after, loses no job. -/
theorem not_lost_move (h : ¬ s.Lost) {c : C} {place : Client}
    (hplace : (s.clients c).job? = none) : ¬ (s.setClient c place).Lost := by
  rw [not_lost_iff] at h ⊢
  rcases h with hjobs | hworker | ⟨c', hc'⟩
  · exact .inl hjobs
  · exact .inr (.inl hworker)
  · have hne : c' ≠ c := by
      rintro rfl
      exact hc' hplace
    refine .inr (.inr ⟨c', ?_⟩)
    show (Function.update s.clients c place c').job? ≠ none
    rwa [Function.update_of_ne hne]

/-- **One step.** It loses no job, if and only if it is heard. -/
theorem heard_iff [Nonempty W] (h : ¬ s.Lost) {a : Act W C} (hstep : steps s a t) :
    s.Heard a ↔ ¬ t.Lost := by
  cases a with
  | work i panics =>
    refine iff_of_true trivial (not_lost_iff.mpr ?_)
    rcases work_parks hstep with hempty | hplace
    · exact .inl hempty
    · exact .inr (.inl ⟨i, hplace⟩)
  | tryExecute c =>
    obtain ⟨⟨last, hplace⟩, rfl⟩ := hstep
    exact iff_of_true trivial (not_lost_move h (by rw [hplace]; rfl))
  | waitIdle c =>
    obtain ⟨⟨last, hplace⟩, rfl⟩ := hstep
    exact iff_of_true trivial (not_lost_move h (by rw [hplace]; rfl))
  | serve c =>
    obtain ⟨hworkers, hother, hnotify⟩ := serve_keeps hstep
    refine iff_of_true trivial (not_lost_iff.mpr ?_)
    rcases hnotify with hnotify | ⟨hjobs, hnone⟩
    · exact .inr (.inr ⟨c, hnotify⟩)
    · rw [hjobs, hworkers]
      rcases not_lost_iff.mp h with hempty | hworker | ⟨c', hc'⟩
      · exact .inl hempty
      · exact .inr (.inl hworker)
      · have hne : c' ≠ c := by
          rintro rfl
          exact hc' hnone
        exact .inr (.inr ⟨c', hother c' hne ▸ hc'⟩)
  | notify c woken =>
    obtain ⟨job, hplace, hchosen, rfl⟩ := hstep
    rcases woken with _ | i | c'
    · -- With nobody to wake, no worker waits.
      obtain ⟨i⟩ := (inferInstance : Nonempty W)
      exact iff_of_true trivial (not_lost_iff.mpr (.inr (.inl ⟨i, hchosen (.inl i)⟩)))
    · exact iff_of_true trivial (not_lost_iff.mpr (.inr (.inl ⟨i, wake_worker hchosen⟩)))
    · -- The workers and the queue are as they were; `c` has notified, and `c'` never was to.
      rw [not_lost_iff]
      refine or_congr_right (or_congr_right (exists_congr ?_))
      intro x
      show _ ↔ (Function.update (s.wake (.inr c')).clients c _ x).job? ≠ none
      by_cases hx : x = c
      · rw [hx, Function.update_self]
        exact iff_of_false (fun hne => hne.1 rfl) (fun hne => hne rfl)
      · rw [Function.update_of_ne hx, wake_job?]
        exact and_iff_right hx
  | spurious thread =>
    obtain ⟨hparked, rfl⟩ := hstep
    refine iff_of_true trivial ?_
    cases thread with
    | inl i => exact not_lost_iff.mpr (.inr (.inl ⟨i, wake_worker hparked⟩))
    | inr c =>
      obtain ⟨before, hplace⟩ := hparked
      exact not_lost_move h (by rw [hplace]; rfl)

end Wakeup

section Runs

variable [DecidableEq C]

/-- **No job is lost while every notification is heard.** In any run whose steps are all heard, no
    state leaves a queued job to nobody; and the next step leads to one exactly when it is not
    heard. -/
theorem no_lost_wakeup {w : PointerWidth} {room spawned : Bool} {workers : Nat}
    {s t : ThreadPool (Fin (max workers 1)) C} (hnew : tryNew w room spawned workers = .ok s)
    (hrun : Reaches (Guarded Heard steps) s t) :
    ¬ t.Lost ∧ ∀ a u, steps t a u → (t.Heard a ↔ ¬ u.Lost) := by
  have hsome : Nonempty (Fin (max workers 1)) := ⟨⟨0, by omega⟩⟩
  have hfirst : ¬ s.Lost := by
    obtain rfl := tryNew_ok hnew
    exact fun hlost => hlost.1 rfl
  have hlast : ¬ t.Lost := by
    refine hrun.invariant (fun u => ¬ u.Lost) hfirst ?_
    rintro u a v hu ⟨hheard, hstep⟩
    exact (heard_iff hu hstep).mp hheard
  refine ⟨hlast, ?_⟩
  intro a u hstep
  exact heard_iff hlast hstep

/-- A caller submits a job while the worker waits: the notification wakes the worker. -/
theorem no_lost_wakeup_submitted :
    ∃ s t : ThreadPool (Fin (max 1 1)) Unit, tryNew .sixtyFour true true 1 = .ok s ∧
      Reaches (Guarded Heard steps) s t ∧ t.jobs = [0] ∧ ¬ t.Lost := by
  let worker : Act (Fin (max 1 1)) Unit := .work ⟨0, by decide⟩ false
  let acts := List.replicate 3 worker ++
    [.tryExecute (), .serve (), .serve (), .serve (), .notify () (some (.inl ⟨0, by decide⟩))]
  obtain ⟨s, hnew, hlast⟩ : ∃ s, tryNew .sixtyFour true true 1 = .ok s ∧
      (acts.foldlM next s).map ThreadPool.jobs = some [0] := ⟨_, rfl, rfl⟩
  obtain ⟨t, hran, hjobs⟩ := Option.map_eq_some_iff.mp hlast
  have hheard : ∀ a ∈ acts, ∀ u : ThreadPool (Fin (max 1 1)) Unit, u.Heard a := by
    simp [acts, worker, Heard]
  have hrun : Reaches (Guarded Heard steps) s t := by
    refine Reaches.foldlM ?_ hran
    intro a ha u v hstep
    exact ⟨hheard a ha u, next_steps hstep⟩
  exact ⟨s, t, hnew, hrun, hjobs, (no_lost_wakeup hnew hrun).1⟩

/-- **A notification may wake the wrong thread.** The worker waits; one caller queues a job, and
    before it notifies another calls `wait_idle`, finds the pool busy and waits too. The
    notification wakes that one, which looks and waits again. -/
theorem stolen_wakeup :
    ∃ s t : ThreadPool (Fin (max 1 1)) Bool, tryNew .sixtyFour true true 1 = .ok s ∧
      Reaches steps s t ∧ t.Lost := by
  let worker : Act (Fin (max 1 1)) Bool := .work ⟨0, by decide⟩ false
  let acts := List.replicate 3 worker ++
    [.tryExecute true, .serve true, .serve true, .serve true,
      .waitIdle false, .serve false, .serve false, .notify true (some (.inr false)),
      .serve false, .serve false]
  obtain ⟨s, hnew, hlast⟩ : ∃ s, tryNew .sixtyFour true true 1 = .ok s ∧
      (acts.foldlM next s).map (fun t => (t.jobs, t.workers ⟨0, by decide⟩, t.clients true,
        t.clients false)) =
        some ([0], .parked, .outside (some (.executed (.ok 0))), .parked []) := ⟨_, rfl, rfl⟩
  obtain ⟨t, hran, hfacts⟩ := Option.map_eq_some_iff.mp hlast
  simp only [Prod.mk.injEq] at hfacts
  obtain ⟨hjobs, hworker, hsubmitter, hwaiter⟩ := hfacts
  refine ⟨s, t, hnew, Reaches.foldlM (fun _ _ _ _ => next_steps) hran, ?_, ?_, ?_⟩
  · rw [hjobs]
    nofun
  · intro i
    rwa [Subsingleton.elim (α := Fin 1) i ⟨0, by decide⟩]
  · rintro (_ | _)
    · rw [hwaiter]
      rfl
    · rw [hsubmitter]
      rfl

end Runs

end ThreadPool

end Threads
end EngineKit
