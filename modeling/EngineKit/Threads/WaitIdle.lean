import EngineKit.Threads.Books

/-!
# What `wait_idle` means

The books say what has become of the jobs; this is what the callers may conclude. Whoever is in a
`wait_idle` knows the jobs that were accepted before it began, all of them submitted (`Calls`). If
it finds the pool idle they have run to their end, and what has ended stays so.

What a caller knows is a set of jobs that grows as it goes on: none outside of a call, those
accepted when it asked, and in the end those it is assured of. The model remembers the first for
each caller (`before`), since the code does not: a caller is told `true` and nothing else. All four
fields are about sets that only grow, which is why almost every step is `Calls.grow`.
-/

set_option autoImplicit false

namespace EngineKit
namespace Threads

open Lib

variable {W C : Type}

namespace Client

/-- The job it has submitted in a call that has not returned. -/
def job? : Client → Option Nat
  | .pushed job | .notifying job => some job
  | _ => none

/-- The jobs accepted before the `wait_idle` it is in, or has last returned from, began. -/
def before : Client → List Nat
  | .asking before | .checking before | .idle before | .stopped before | .parked before
  | .woken before | .outside (some (.waited before _)) => before
  | _ => []

/-- Those, once it has found the pool idle. -/
def assured : Client → List Nat
  | .idle before | .outside (some (.waited before true)) => before
  | _ => []

/-- A caller that is woken knows what it knew. -/
theorem job?_wake (place : Client) : place.wake.job? = place.job? := by
  cases place <;> rfl

theorem before_wake (place : Client) : place.wake.before = place.before := by
  cases place <;> rfl

theorem assured_wake (place : Client) : place.wake.assured = place.assured := by
  cases place <;> rfl

/-- The same holds for one that gets the lock or waits for it. -/
theorem Moves.same {T : Type} {me : T} {mutex mutex' : Option T} {was place : Client}
    (h : Moves me mutex was mutex' place) :
    (place.job?, place.before, place.assured) = (was.job?, was.before, was.assured) := by
  cases h <;> rfl

end Client

namespace ThreadPool

/-- What the calls know. -/
structure Calls (s : ThreadPool W C) : Prop where
  accepted (job : Nat) : job ∈ s.accepted → job < s.submitted
  submitted (c : C) (job : Nat) : (s.clients c).job? = some job → job < s.submitted
  before (c : C) (job : Nat) : job ∈ (s.clients c).before → job ∈ s.accepted
  assured (c : C) (job : Nat) : job ∈ (s.clients c).assured → job ∈ s.ended.map Prod.fst

section Calls

/-- At the start there are no calls. -/
theorem Calls.fresh (w : PointerWidth) (workers : Nat) :
    (ThreadPool.fresh w workers : ThreadPool (Fin (max workers 1)) C).Calls where
  accepted _ hjob := absurd hjob List.not_mem_nil
  submitted _ _ hjob := absurd hjob (Option.some_ne_none _).symm
  before _ _ hjob := absurd hjob List.not_mem_nil
  assured _ _ hjob := absurd hjob List.not_mem_nil

variable {s t : ThreadPool W C}

/-- The calls go on knowing what they know when more is submitted, accepted and ended. -/
theorem Calls.grow (h : s.Calls) (haccepted : s.accepted ⊆ t.accepted)
    (hnew : ∀ job ∈ t.accepted, job < t.submitted) (hsubmitted : s.submitted ≤ t.submitted)
    (hended : s.ended ⊆ t.ended)
    (hclients : ∀ c, (t.clients c).job? = (s.clients c).job? ∧
      (t.clients c).before = (s.clients c).before ∧
      (t.clients c).assured = (s.clients c).assured) : t.Calls where
  accepted := hnew
  submitted c job hjob := by
    rw [(hclients c).1] at hjob
    exact (h.submitted c job hjob).trans_le hsubmitted
  before c job hjob := by
    rw [(hclients c).2.1] at hjob
    exact haccepted (h.before c job hjob)
  assured c job hjob := by
    rw [(hclients c).2.2] at hjob
    exact List.map_subset _ hended (h.assured c job hjob)

theorem Calls.grow_same (h : s.Calls) (haccepted : t.accepted = s.accepted)
    (hsubmitted : s.submitted ≤ t.submitted) (hended : s.ended ⊆ t.ended)
    (hclients : t.clients = s.clients) : t.Calls := by
  refine h.grow (haccepted ▸ List.Subset.refl _) ?_ hsubmitted hended ?_
  · intro job hjob
    exact (h.accepted job (haccepted ▸ hjob)).trans_le hsubmitted
  · intro c
    rw [hclients]
    exact ⟨rfl, rfl, rfl⟩

/-- Waking tells a caller nothing. -/
theorem Calls.wakeAll (h : s.Calls) : s.wakeAll.Calls :=
  h.grow (List.Subset.refl _) h.accepted (Nat.le_refl _) (List.Subset.refl _) fun c =>
    ⟨(s.clients c).job?_wake, (s.clients c).before_wake, (s.clients c).assured_wake⟩

theorem Calls.unlock (h : s.Calls) : s.unlock.Calls :=
  h.grow_same rfl (Nat.le_refl _) (List.Subset.refl _) rfl

variable [DecidableEq C]

/-- A caller's step to a place where it knows no more than is so. -/
theorem Calls.move (h : s.Calls) {c : C} {place : Client}
    (hjob : ∀ job, place.job? = some job → job < s.submitted)
    (hbefore : ∀ job ∈ place.before, job ∈ s.accepted)
    (hassured : ∀ job ∈ place.assured, job ∈ s.ended.map Prod.fst) :
    (s.setClient c place).Calls := by
  have hcases (c' : C) : (s.setClient c place).clients c' = place ∨
      (s.setClient c place).clients c' = s.clients c' := by
    -- The caller that moves knows what the hypotheses give; the others what they knew.
    by_cases hc : c' = c
    · exact .inl (hc ▸ Function.update_self _ _ _)
    · exact .inr (Function.update_of_ne hc _ _)
  refine ⟨h.accepted, ?_, ?_, ?_⟩
  · intro c' job hmem
    rcases hcases c' with hc | hc
    · exact hjob job (hc ▸ hmem)
    · exact h.submitted c' job (hc ▸ hmem)
  · intro c' job hmem
    rcases hcases c' with hc | hc
    · exact hbefore job (hc ▸ hmem)
    · exact h.before c' job (hc ▸ hmem)
  · intro c' job hmem
    rcases hcases c' with hc | hc
    · exact hassured job (hc ▸ hmem)
    · exact h.assured c' job (hc ▸ hmem)

/-- A step to a place of the same knowledge. -/
theorem Calls.stay (h : s.Calls) {c : C} {was place : Client} (hwas : s.clients c = was)
    (hsame : (place.job?, place.before, place.assured) = (was.job?, was.before, was.assured)) :
    (s.setClient c place).Calls := by
  simp only [← hwas, Prod.mk.injEq] at hsame
  obtain ⟨hjob, hbefore, hassured⟩ := hsame
  refine h.move ?_ ?_ ?_
  · intro job hmem
    exact h.submitted c job (hjob ▸ hmem)
  · intro job hmem
    exact h.before c job (hbefore ▸ hmem)
  · intro job hmem
    exact h.assured c job (hassured ▸ hmem)

variable [DecidableEq W]

theorem Calls.wake (h : s.Calls) (thread : W ⊕ C) : (s.wake thread).Calls := by
  cases thread with
  | inl i => exact h.grow_same rfl (Nat.le_refl _) (List.Subset.refl _) rfl
  | inr c =>
    refine h.stay rfl ?_
    rw [Client.job?_wake, Client.before_wake, Client.assured_wake]

omit [DecidableEq C] in
/-- A worker's step ends a job at most, and takes none back. -/
theorem Calls.work (h : s.Calls) {i : W} {panics : Bool} (hstep : s.work i panics = some t) :
    t.Calls := by
  cases work_cases hstep with
  | moves | exits | quits | parks | pops | starts | counts =>
    exact h.grow_same rfl (Nat.le_refl _) (List.Subset.refl _) rfl
  | ends => exact h.grow_same rfl (Nat.le_refl _) (List.subset_append_left _ _) rfl
  | notifies => exact h.wakeAll.grow_same rfl (Nat.le_refl _) (List.Subset.refl _) rfl

variable [Fintype W]

omit [DecidableEq W] in
/-- **A caller's step.** To be assured it needs the books: with nothing pending every job has
    ended. -/
theorem Calls.serve (h : s.Calls) (hbooks : s.Books) {c : C} (hstep : s.serve c = some t) :
    t.Calls := by
  -- Two of the cases add to what is known: a job that is pushed is submitted, and a caller that
  -- finds nothing pending is assured.
  cases serve_cases hstep with
  | @moves mutex place hmoves =>
    have hlater : Calls { s with mutex } :=
      h.grow_same rfl (Nat.le_refl _) (List.Subset.refl _) rfl
    exact hlater.stay rfl hmoves.same
  | refuses hplace | stops hplace => exact h.stay hplace rfl
  | parks hplace => exact h.unlock.stay hplace rfl
  | pushes hplace =>
    have hpushed : Calls { s with
        jobs := s.jobs ++ [s.submitted]
        pending := s.pending + 1
        submitted := s.submitted + 1 } :=
      h.grow_same rfl (Nat.le_succ _) (List.Subset.refl _) rfl
    refine hpushed.move ?_ nofun nofun
    rintro _ ⟨⟩
    exact Nat.lt_succ_self _
  | @finds before hplace hempty hidle =>
    have hknown : ∀ job ∈ before, job ∈ s.accepted := fun job hjob =>
      h.before c job (by rw [hplace]; exact hjob)
    refine h.move nofun hknown ?_
    intro job hjob
    exact hbooks.all_ended hidle (h.accepted job (hknown job hjob))

/-- **Any step** of the pool. -/
theorem Calls.step {a : Act W C} (h : s.Calls) (hbooks : s.Books) (hstep : steps s a t) :
    t.Calls := by
  -- Three kinds of steps are a caller's, and one of them begins with what is accepted by now.
  cases a with
  | work i panics => exact h.work hstep
  | tryExecute c =>
    obtain ⟨-, rfl⟩ := hstep
    exact h.move nofun nofun nofun
  | waitIdle c =>
    obtain ⟨-, rfl⟩ := hstep
    exact h.move nofun (fun _ hjob => hjob) nofun
  | serve c => exact h.serve hbooks hstep
  | notify c woken =>
    obtain ⟨job, hplace, -, rfl⟩ := hstep
    have hjob : job < s.submitted := h.submitted c job (by rw [hplace]; rfl)
    have hwoken : (s.wakeOne woken).Calls := by
      cases woken with
      | none => exact h
      | some thread => exact h.wake thread
    have hsubmitted : (s.wakeOne woken).submitted = s.submitted := by
      rcases woken with _ | i | c' <;> rfl
    have haccepted : (s.wakeOne woken).accepted = s.accepted := by
      rcases woken with _ | i | c' <;> rfl
    have hgrown : Calls { s.wakeOne woken with accepted := s.accepted ++ [job] } := by
      refine hwoken.grow ?_ ?_ (Nat.le_refl _) (List.Subset.refl _) fun _ => ⟨rfl, rfl, rfl⟩
      · rw [haccepted]
        exact List.subset_append_left _ _
      · intro job' hmem
        show job' < (s.wakeOne woken).submitted
        rw [hsubmitted]
        rcases List.mem_append.mp hmem with hmem | hmem
        · exact h.accepted job' hmem
        · exact List.mem_singleton.mp hmem ▸ hjob
    exact hgrown.move nofun nofun nofun
  | spurious thread =>
    obtain ⟨-, rfl⟩ := hstep
    exact h.wake thread

end Calls

section Runs

variable [DecidableEq C]

/-- The books are kept, and the calls know what they know, from the start. -/
theorem kept {w : PointerWidth} {room spawned : Bool} {workers : Nat}
    {s t : ThreadPool (Fin (max workers 1)) C} (hnew : tryNew w room spawned workers = .ok s)
    (hrun : Reaches steps s t) : t.Books ∧ t.Calls := by
  have hfirst : s.Books ∧ s.Calls := by
    obtain rfl := tryNew_ok hnew
    exact ⟨Books.fresh w workers, Calls.fresh w workers⟩
  refine hrun.invariant (fun u => u.Books ∧ u.Calls) hfirst ?_
  intro u a v hu hstep
  exact ⟨hu.1.step hstep, hu.2.step hu.1 hstep⟩

/-- **`wait_idle` means done.** Whatever the workers and the callers do, and whichever jobs panic,
    no job is started twice; while the mutex is free, the count of what is pending is that of the
    jobs queued and of those that a worker has; and when a `wait_idle` gives `true`, each of the
    jobs accepted before it began has run to its end, once. -/
theorem wait_idle_done {w : PointerWidth} {room spawned : Bool} {workers : Nat}
    {s t : ThreadPool (Fin (max workers 1)) C} (hnew : tryNew w room spawned workers = .ok s)
    (hrun : Reaches steps s t) :
    t.started.Nodup ∧
      (t.mutex = none → t.pending =
        t.jobs.length + (Finset.univ.filter fun i => (t.workers i).job?.isSome).card) ∧
      ∀ c before, t.clients c = .idle before ∨
          t.clients c = .outside (some (.waited before true)) →
        ∀ job ∈ before, (t.ended.map Prod.fst).count job = 1 := by
  obtain ⟨hbooks, hcalls⟩ := kept hnew hrun
  refine ⟨hbooks.started_nodup, ?_, ?_⟩
  · intro _
    rw [hbooks.pending, card_tally]
  · intro c before hplace job hjob
    refine List.count_eq_one_of_mem hbooks.ended_nodup (hcalls.assured c job ?_)
    rcases hplace with hplace | hplace
    · rw [hplace]
      exact hjob
    · rw [hplace]
      exact hjob

/-- One worker, and a caller that waits for a job that panics. -/
theorem wait_idle_done_panicked :
    ∃ s t : ThreadPool (Fin (max 1 1)) Unit, tryNew .sixtyFour true true 1 = .ok s ∧
      Reaches steps s t ∧ t.clients () = .outside (some (.waited [0] true)) ∧
      t.ended = [(0, true)] ∧ (t.ended.map Prod.fst).count 0 = 1 := by
  let worker : Act (Fin (max 1 1)) Unit := .work ⟨0, by decide⟩ true
  let acts := [.tryExecute (), .serve (), .serve (), .serve (), .notify () none] ++
    List.replicate 6 worker ++ [.waitIdle ()] ++ List.replicate 4 worker ++
    List.replicate 3 (.serve ())
  obtain ⟨s, hnew, hlast⟩ : ∃ s, tryNew .sixtyFour true true 1 = .ok s ∧
      (acts.foldlM next s).map (fun t => (t.clients (), t.ended)) =
        some (.outside (some (.waited [0] true)), [(0, true)]) := ⟨_, rfl, rfl⟩
  obtain ⟨t, hran, hfacts⟩ := Option.map_eq_some_iff.mp hlast
  have hrun := Reaches.foldlM (fun _ _ _ _ => next_steps) hran
  have hclient : t.clients () = .outside (some (.waited [0] true)) := congrArg Prod.fst hfacts
  exact ⟨s, t, hnew, hrun, hclient, congrArg Prod.snd hfacts,
    (wait_idle_done hnew hrun).2.2 () [0] (.inr hclient) 0 (List.mem_singleton_self 0)⟩

end Runs

end ThreadPool

end Threads
end EngineKit
