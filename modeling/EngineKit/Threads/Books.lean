import Mathlib.Algebra.BigOperators.Fin
import Mathlib.Algebra.Order.BigOperators.Group.Finset
import Mathlib.Algebra.Order.BigOperators.Group.Multiset
import Mathlib.Tactic.Abel
import EngineKit.Threads.ThreadPool

/-!
# Where the jobs are

Every job that was submitted is in the queue, with a worker, or counted as complete, and in one of
the three once (`Books.places`); the count of what is pending is the size of the first two. So the
count is zero only when every job is complete, and then every job has run to its end: that is what
a caller of `wait_idle` sees when it finds the pool idle.

The workers' part is a sum over workers of what each has (`tally`), and a worker's step is one
summand changed (`Books.move`).

Jobs are numbered in the order they are submitted, so the jobs that ever were are a range, and
`places` is an equation between multisets: that nothing is lost and that nothing is there twice are
its two directions. What a worker has shrinks as it goes on: the job it took, that job once it is
started, once it has ended. The three go into three equations, one for each list the model writes,
and each step of a worker changes them by moving a job from one side of a sum to the other
(`Books.move`).

The calls of the condition variable move threads and never jobs, so most steps keep the books by
`Books.still`.
-/

set_option autoImplicit false

namespace EngineKit
namespace Threads

open Lib

variable {W C : Type}

/-! ## What a thread has -/

namespace Worker

/-- The job it took from the queue and has not counted as complete. -/
def job? : Worker → Option Nat
  | .took job | .ready job | .running job | .ended job | .completing job => some job
  | _ => none

/-- That job, once started. -/
def begun? : Worker → Option Nat
  | .running job | .ended job | .completing job => some job
  | _ => none

/-- That job, once ended. -/
def finished? : Worker → Option Nat
  | .ended job | .completing job => some job
  | _ => none

/-- A worker that is woken has what it had. -/
theorem job?_wake (place : Worker) : place.wake.job? = place.job? := by
  cases place <;> rfl

theorem begun?_wake (place : Worker) : place.wake.begun? = place.begun? := by
  cases place <;> rfl

theorem finished?_wake (place : Worker) : place.wake.finished? = place.finished? := by
  cases place <;> rfl

/-- Nor does a worker get or lose a job by waiting for the lock. -/
theorem Moves.same {T : Type} {me : T} {mutex mutex' : Option T} {was place : Worker}
    (h : Moves me mutex was mutex' place) :
    (place.job?, place.begun?, place.finished?) = (was.job?, was.begun?, was.finished?) := by
  cases h <;> rfl

end Worker

/-! ## Sums over the workers

The workers are a finite type, so what they have is a sum, and it does not matter in which order
they are asked. `tally` takes the part as an argument: the same four lemmas serve the job that was
taken, the one that was started and the one that has ended.
-/

def ofOption : Option Nat → Multiset Nat
  | none => 0
  | some job => {job}

theorem coe_concat (jobs : List Nat) (job : Nat) :
    (↑(jobs ++ [job]) : Multiset Nat) = ↑jobs + {job} := by
  rw [← Multiset.coe_add, Multiset.coe_singleton]

section Tally

variable [Fintype W] (part : Worker → Option Nat)

/-- What the workers have, one and all. -/
def tally (workers : W → Worker) : Multiset Nat := ∑ i, ofOption (part (workers i))

/-- A worker's step changes its summand. -/
theorem tally_update [DecidableEq W] (workers : W → Worker) (i : W) (place : Worker) :
    tally part (Function.update workers i place) + ofOption (part (workers i)) =
      tally part workers + ofOption (part place) := by
  have hold := Finset.sum_erase_add Finset.univ (fun j => ofOption (part (workers j)))
    (Finset.mem_univ i)
  have hnew := Finset.sum_erase_add Finset.univ
    (fun j => ofOption (part (Function.update workers i place j))) (Finset.mem_univ i)
  have hrest : ∑ j ∈ Finset.univ.erase i, ofOption (part (Function.update workers i place j)) =
      ∑ j ∈ Finset.univ.erase i, ofOption (part (workers j)) := by
    refine Finset.sum_congr rfl ?_
    intro j hj
    rw [Function.update_of_ne (Finset.ne_of_mem_erase hj)]
  rw [Function.update_self, hrest] at hnew
  rw [tally, tally, ← hnew, ← hold]
  exact add_right_comm _ _ _

/-- A step that leaves the part leaves the sum. -/
theorem tally_update_same [DecidableEq W] {workers : W → Worker} {i : W} {place : Worker}
    (hsame : part place = part (workers i)) :
    tally part (Function.update workers i place) = tally part workers := by
  have hupdate := tally_update part workers i place
  rw [hsame] at hupdate
  exact add_right_cancel hupdate

/-- A wake-up changes nothing of what a worker has. -/
theorem tally_wake (hpart : ∀ place : Worker, part place.wake = part place)
    (workers : W → Worker) : tally part (fun i => (workers i).wake) = tally part workers := by
  simp only [tally, hpart]

theorem tally_const {place : Worker} (hnone : part place = none) :
    tally part (fun _ : W => place) = 0 := by
  simp only [tally, hnone]
  exact Finset.sum_const_zero

/-- As many as there are workers with something. -/
theorem card_tally (workers : W → Worker) : (tally part workers).card =
    (Finset.univ.filter fun i => (part (workers i)).isSome).card := by
  rw [tally, Multiset.card_sum, Finset.card_filter]
  refine Finset.sum_congr rfl ?_
  intro i _
  cases part (workers i) <;> rfl

end Tally

/-! ## The books -/

namespace ThreadPool

/-- What is written about jobs. -/
def ledger (s : ThreadPool W C) :
    List Nat × Nat × Nat × List Nat × List (Nat × Bool) × List Nat :=
  (s.jobs, s.pending, s.submitted, s.started, s.ended, s.done)

section Books

variable [Fintype W]

structure Books (s : ThreadPool W C) : Prop where
  places : Multiset.range s.submitted = ↑s.jobs + tally Worker.job? s.workers + ↑s.done
  pending : s.pending = s.jobs.length + (tally Worker.job? s.workers).card
  started : (↑s.started : Multiset Nat) = tally Worker.begun? s.workers + ↑s.done
  ended : (↑(s.ended.map Prod.fst) : Multiset Nat) = tally Worker.finished? s.workers + ↑s.done

/-- A new pool has no jobs, and its workers have none. -/
theorem Books.fresh (w : PointerWidth) (workers : Nat) :
    (ThreadPool.fresh w workers : ThreadPool (Fin (max workers 1)) C).Books := by
  have hnone (part : Worker → Option Nat) (htop : part .top = none) :
      tally part (ThreadPool.fresh w workers : ThreadPool (Fin (max workers 1)) C).workers = 0 :=
    tally_const part htop
  refine ⟨?_, ?_, ?_, ?_⟩
  · rw [hnone _ rfl]
    rfl
  · rw [hnone _ rfl]
    rfl
  · rw [hnone _ rfl]
    rfl
  · rw [hnone _ rfl]
    rfl

variable {s t : ThreadPool W C}

/-- Who neither writes about jobs nor changes what the workers have keeps the books. -/
theorem Books.still (h : s.Books) (hledger : t.ledger = s.ledger)
    (hjob : tally Worker.job? t.workers = tally Worker.job? s.workers)
    (hbegun : tally Worker.begun? t.workers = tally Worker.begun? s.workers)
    (hfinished : tally Worker.finished? t.workers = tally Worker.finished? s.workers) :
    t.Books := by
  simp only [ledger, Prod.mk.injEq] at hledger
  obtain ⟨hjobs, hpending, hsubmitted, hstarted, hended, hdone⟩ := hledger
  refine ⟨?_, ?_, ?_, ?_⟩
  · rw [hsubmitted, hjobs, hjob, hdone, h.places]
  · rw [hpending, hjobs, hjob, h.pending]
  · rw [hstarted, hbegun, hdone, h.started]
  · rw [hended, hfinished, hdone, h.ended]

theorem Books.wakeAll (h : s.Books) : s.wakeAll.Books :=
  h.still rfl (tally_wake _ Worker.job?_wake _) (tally_wake _ Worker.begun?_wake _)
    (tally_wake _ Worker.finished?_wake _)

/-- Who has a job is counted. -/
theorem Books.pending_pos (h : s.Books) {i : W} {job : Nat} (hjob : (s.workers i).job? = some job) :
    0 < s.pending := by
  have hcard := card_tally Worker.job? s.workers
  have hpos : 0 < (Finset.univ.filter fun i => (s.workers i).job?.isSome).card :=
    Finset.card_pos.mpr ⟨i, Finset.mem_filter.mpr ⟨Finset.mem_univ i, by rw [hjob]; rfl⟩⟩
  have hpending := h.pending
  omega

/-- With nothing pending, no job is queued and no worker has one. -/
theorem Books.drained (h : s.Books) (hidle : s.pending = 0) :
    s.jobs = [] ∧ ∀ i, (s.workers i).job? = none := by
  have hpending := h.pending
  refine ⟨List.length_eq_zero_iff.mp (by omega), ?_⟩
  intro i
  refine Option.eq_none_iff_forall_ne_some.mpr ?_
  intro job hjob
  exact absurd hidle (h.pending_pos hjob).ne'

/-- With nothing pending every job has run to its end. -/
theorem Books.all_ended (h : s.Books) (hidle : s.pending = 0) {job : Nat}
    (hjob : job < s.submitted) : job ∈ s.ended.map Prod.fst := by
  obtain ⟨hjobs, hnone⟩ := h.drained hidle
  have htally : tally Worker.job? s.workers = 0 := by
    simp only [tally, hnone]
    exact Finset.sum_const_zero
  have hplaces := h.places
  rw [hjobs, htally, Multiset.coe_nil, zero_add, zero_add] at hplaces
  have hdone : job ∈ (↑s.done : Multiset Nat) := hplaces ▸ Multiset.mem_range.mpr hjob
  have hmem : job ∈ (↑(s.ended.map Prod.fst) : Multiset Nat) := by
    rw [h.ended]
    exact Multiset.mem_add.mpr (.inr hdone)
  exact Multiset.mem_coe.mp hmem

/-- What lists jobs that some workers have and those that are done lists none twice. -/
theorem Books.nodup (h : s.Books) {part : Worker → Option Nat} {list : List Nat}
    (hpart : ∀ place : Worker, ofOption (part place) ≤ ofOption place.job?)
    (hlist : (↑list : Multiset Nat) = tally part s.workers + ↑s.done) : list.Nodup := by
  rw [← Multiset.coe_nodup, hlist]
  refine Multiset.nodup_of_le ?_ (Multiset.nodup_range s.submitted)
  rw [h.places]
  refine add_le_add_left ?_ _
  exact (Finset.sum_le_sum fun i _ => hpart (s.workers i)).trans (Multiset.le_add_left _ _)

/-- No job is started twice. -/
theorem Books.started_nodup (h : s.Books) : s.started.Nodup := by
  refine h.nodup ?_ h.started
  intro place
  cases place <;> first | exact le_refl _ | exact Multiset.zero_le _

/-- And none ends twice. -/
theorem Books.ended_nodup (h : s.Books) : (s.ended.map Prod.fst).Nodup := by
  refine h.nodup ?_ h.ended
  intro place
  cases place <;> first | exact le_refl _ | exact Multiset.zero_le _

variable [DecidableEq W]

/-- A worker's step that only changes its place, to one where it has the same. -/
theorem Books.stay (h : s.Books) {i : W} {was place : Worker} (hwas : s.workers i = was)
    (hworkers : t.workers = Function.update s.workers i place) (hledger : t.ledger = s.ledger)
    (hsame : (place.job?, place.begun?, place.finished?) = (was.job?, was.begun?, was.finished?)) :
    t.Books := by
  simp only [← hwas, Prod.mk.injEq] at hsame
  obtain ⟨hjob, hbegun, hfinished⟩ := hsame
  refine h.still hledger ?_ ?_ ?_
  · rw [hworkers, tally_update_same _ hjob]
  · rw [hworkers, tally_update_same _ hbegun]
  · rw [hworkers, tally_update_same _ hfinished]

/-- A list that holds what some workers have and what is done still does when both change. -/
theorem posted {list list' all all' old new done done' : Multiset Nat}
    (hall : all' + old = all + new) (hlist : list = all + done)
    (hpost : list' + old + done = list + new + done') : list' = all' + done' := by
  refine add_right_cancel (b := old + done) ?_
  calc list' + (old + done) = all + new + done + done' := by
        rw [← add_assoc, hpost, hlist]
        abel
    _ = all' + done' + (old + done) := by
        rw [← hall]
        abel

/-- A worker's step that moves a job from one place to the next. -/
theorem Books.move (h : s.Books) {i : W} {was place : Worker} (hwas : s.workers i = was)
    (hworkers : t.workers = Function.update s.workers i place)
    (hsubmitted : t.submitted = s.submitted)
    (hplaces : (↑t.jobs : Multiset Nat) + ofOption place.job? + ↑t.done =
      ↑s.jobs + ofOption was.job? + ↑s.done)
    (hpending : t.pending + s.jobs.length + (ofOption was.job?).card =
      s.pending + t.jobs.length + (ofOption place.job?).card)
    (hstarted : (↑t.started : Multiset Nat) + ofOption was.begun? + ↑s.done =
      ↑s.started + ofOption place.begun? + ↑t.done)
    (hended : (↑(t.ended.map Prod.fst) : Multiset Nat) + ofOption was.finished? +
      ↑s.done = ↑(s.ended.map Prod.fst) + ofOption place.finished? + ↑t.done) : t.Books := by
  have hjob := tally_update Worker.job? s.workers i place
  have hbegun := tally_update Worker.begun? s.workers i place
  have hfinished := tally_update Worker.finished? s.workers i place
  rw [← hworkers, hwas] at hjob hbegun hfinished
  refine ⟨?_, ?_, posted hbegun h.started hstarted, posted hfinished h.ended hended⟩
  · refine add_right_cancel (b := ofOption was.job?) ?_
    -- The job a worker had is added on both sides, because a multiset has no subtraction that would
    -- serve here.
    calc Multiset.range t.submitted + ofOption was.job?
        = ↑s.jobs + ofOption was.job? + ↑s.done + tally Worker.job? s.workers := by
          rw [hsubmitted, h.places]
          abel
      _ = ↑t.jobs + ↑t.done + (tally Worker.job? s.workers + ofOption place.job?) := by
          rw [← hplaces]
          abel
      _ = ↑t.jobs + tally Worker.job? t.workers + ↑t.done + ofOption was.job? := by
          rw [← hjob]
          abel
  · have hcard := congrArg Multiset.card hjob
    rw [Multiset.card_add, Multiset.card_add] at hcard
    have hold := h.pending
    omega

/-- **A worker's step**, by what it does to the job. -/
theorem Books.work (h : s.Books) {i : W} {panics : Bool} (hstep : s.work i panics = some t) :
    t.Books := by
  -- A worker between jobs changes nothing; one with a job passes it on.
  cases work_cases hstep with
  | moves hmoves => exact h.stay rfl rfl rfl hmoves.same
  | exits hplace | quits hplace | parks hplace => exact h.stay hplace rfl rfl rfl
  | @pops job rest hplace hjobs =>
    refine h.move hplace rfl rfl ?_ ?_ rfl rfl
    · show (↑rest : Multiset Nat) + {job} + ↑s.done = ↑s.jobs + 0 + ↑s.done
      rw [hjobs, coe_concat, add_zero]
    · show s.pending + s.jobs.length + 0 = s.pending + rest.length + 1
      rw [hjobs, List.length_append, List.length_singleton]
      rfl
  | @starts job hplace =>
    refine h.move hplace rfl rfl rfl rfl ?_ rfl
    show (↑(s.started ++ [job]) : Multiset Nat) + 0 + ↑s.done = ↑s.started + {job} + ↑s.done
    rw [coe_concat, add_zero]
  | @ends job hplace =>
    refine h.move hplace rfl rfl rfl rfl rfl ?_
    show (↑((s.ended ++ [(job, panics)]).map Prod.fst) : Multiset Nat) + 0 + ↑s.done =
      ↑(s.ended.map Prod.fst) + {job} + ↑s.done
    rw [List.map_append, List.map_singleton, coe_concat, add_zero]
  | @counts job hplace =>
    have hpos := h.pending_pos (by rw [hplace]; rfl)
    have hdone : (↑(s.done ++ [job]) : Multiset Nat) = ↑s.done + {job} := coe_concat _ _
    refine h.move hplace rfl rfl ?_ ?_ ?_ ?_
    · show (↑s.jobs : Multiset Nat) + 0 + ↑(s.done ++ [job]) = ↑s.jobs + {job} + ↑s.done
      rw [hdone]
      abel
    · show s.pending - 1 + s.jobs.length + 1 = s.pending + s.jobs.length + 0
      omega
    · show (↑s.started : Multiset Nat) + {job} + ↑s.done = ↑s.started + 0 + ↑(s.done ++ [job])
      rw [hdone]
      abel
    · show (↑(s.ended.map Prod.fst) : Multiset Nat) + {job} + ↑s.done =
        ↑(s.ended.map Prod.fst) + 0 + ↑(s.done ++ [job])
      rw [hdone]
      abel
  | notifies hplace =>
    have hwas : s.wakeAll.workers i = .counted := by
      show (s.workers i).wake = _
      rw [hplace]
      rfl
    exact h.wakeAll.stay hwas rfl rfl rfl

variable [DecidableEq C]

theorem Books.wake (h : s.Books) (thread : W ⊕ C) : (s.wake thread).Books := by
  cases thread with
  | inl i =>
    refine h.stay (i := i) rfl rfl rfl ?_
    rw [Worker.job?_wake, Worker.begun?_wake, Worker.finished?_wake]
  | inr c => exact h.still rfl rfl rfl rfl

omit [DecidableEq W] in
/-- A caller that submits adds the next number to the range and to the queue. -/
theorem Books.serve (h : s.Books) {c : C} (hstep : s.serve c = some t) : t.Books := by
  cases serve_cases hstep with
  | moves | refuses | finds | stops | parks => exact h.still rfl rfl rfl rfl
  | pushes =>
    refine ⟨?_, ?_, h.started, h.ended⟩
    · show Multiset.range (s.submitted + 1) =
        ↑(s.jobs ++ [s.submitted]) + tally Worker.job? s.workers + ↑s.done
      rw [Multiset.range_succ, ← Multiset.singleton_add, h.places, coe_concat]
      abel
    · show s.pending + 1 = (s.jobs ++ [s.submitted]).length + (tally Worker.job? s.workers).card
      rw [h.pending, List.length_append, List.length_singleton]
      omega

/-- **Any step** of the pool. -/
theorem Books.step {a : Act W C} (h : s.Books) (hstep : steps s a t) : t.Books := by
  cases a with
  | work i panics => exact h.work hstep
  | tryExecute c =>
    obtain ⟨-, rfl⟩ := hstep
    exact h.still rfl rfl rfl rfl
  | waitIdle c =>
    obtain ⟨-, rfl⟩ := hstep
    exact h.still rfl rfl rfl rfl
  | serve c => exact h.serve hstep
  | notify c woken =>
    obtain ⟨job, -, -, rfl⟩ := hstep
    cases woken with
    | none => exact h.still rfl rfl rfl rfl
    | some thread => exact (h.wake thread).still rfl rfl rfl rfl
  | spurious thread =>
    obtain ⟨-, rfl⟩ := hstep
    exact h.wake thread

end Books

end ThreadPool

end Threads
end EngineKit
