import EngineKit.Rubik.Driver

/-!
# Moves on their way

What the driver owes is the move in front with the time it has had, and the moves behind it. One
`advance` spends its time on the move in front and finishes at most that one (`advance_eq`,
`pending_advance`), and the work left goes down by the time that passes (`work_advance`). So once
advances of any length have given the work its time, everything pending is made
(`state_advanceAll`).

The state of the driver is in two places. A move in front may be the active one, or, when nothing is
active, the first of the queue with no time spent; the driver takes it up only when time passes.
`front` puts the two together, and everything after `advance_eq` is in terms of it. The loop of the
source may go round many times, but time is cut off at the length of one move, so the second round
only takes up the next move and the third finds nothing left.

`work` is a number of nanoseconds, and not of moves, because advances need not end where moves do.
-/

set_option autoImplicit false

namespace EngineKit
namespace Rubik

namespace RubikDriver

/-- The move in front, the time it has had, and the moves behind it. -/
def front (d : RubikDriver) : Option (RotationCommand × Nat × List RotationCommand) :=
  match d.active, d.queue with
  | some (command, elapsed), queue => some (command, elapsed, queue)
  | none, command :: queue => some (command, 0, queue)
  | none, [] => none

/-- The moves that are still to be made. -/
def pending (d : RubikDriver) : List RotationCommand :=
  d.active.toList.map Prod.fst ++ d.queue

/-- The time they take. -/
def work (d : RubikDriver) : Nat :=
  match d.front with
  | none => 0
  | some (_, elapsed, queue) => moveDurationNs * (queue.length + 1) - elapsed

/-- A move that is being animated is not over. -/
def Timed (d : RubikDriver) : Prop := ∀ a ∈ d.active, a.2 < moveDurationNs

/-- The driver with the move in front at that time. -/
def animating (d : RubikDriver) (command : RotationCommand) (elapsed : Nat)
    (queue : List RotationCommand) : RubikDriver :=
  { d with queue, active := some (command, elapsed) }

/-- The next move starts with the time the last one left over. -/
def next (d : RubikDriver) (queue : List RotationCommand) (elapsed : Nat) : RubikDriver :=
  match queue with
  | [] => { d with queue := [], active := none }
  | command :: queue => d.animating command elapsed queue

/-- Nothing is active. -/
theorem timed_new : new.Timed := by
  intro a ha
  cases ha

/-! ## One advance -/

/-- A round that has a move to animate. -/
theorem advanceLoop_animating (rounds : Nat) (d : RubikDriver) (command : RotationCommand)
    {elapsed remaining : Nat} (queue : List RotationCommand) (htimed : elapsed < moveDurationNs)
    (hremaining : 0 < remaining) :
    advanceLoop (rounds + 1) (d.animating command elapsed queue) remaining =
      if elapsed + remaining < moveDurationNs then
        d.animating command (elapsed + remaining) queue
      else
        advanceLoop rounds
          { d with state := (d.state.applyMove command).2, queue, active := none }
          (elapsed + remaining - moveDurationNs) := by
  rw [advanceLoop]
  simp only [animating, hremaining, true_or, if_true]
  by_cases hover : elapsed + remaining < moveDurationNs
  · have hstep : min remaining (moveDurationNs - elapsed) = remaining := by omega
    rw [if_pos hover, hstep, if_neg (Nat.not_le.mpr hover)]
  · have hstep : min remaining (moveDurationNs - elapsed) = moveDurationNs - elapsed := by omega
    have hfull : elapsed + (moveDurationNs - elapsed) = moveDurationNs := by omega
    have hrest : remaining - (moveDurationNs - elapsed) = elapsed + remaining - moveDurationNs := by
      omega
    rw [if_neg hover, hstep, hfull, if_pos (Nat.le_refl _), hrest]

/-- The rounds after a move was finished: there is no time left for another one. -/
theorem advanceLoop_next (rounds : Nat) {d : RubikDriver} (hnone : d.active = none)
    {remaining : Nat} (hremaining : remaining < moveDurationNs) :
    advanceLoop (rounds + 1) d remaining = d.next d.queue remaining := by
  obtain ⟨state, queue, active, rng⟩ := d
  obtain rfl : active = none := hnone
  rw [advanceLoop]
  cases queue with
  | nil => simp [next]
  | cons command queue =>
    have hstep : min remaining moveDurationNs = remaining := Nat.min_eq_left hremaining.le
    have hover : ¬ moveDurationNs ≤ remaining := Nat.not_le.mpr hremaining
    simp [next, animating, hstep, hover]

/-- **An advance, on the move in front.** -/
theorem advance_eq {d : RubikDriver} (h : d.Timed) (dtNs : Nat) :
    d.advance dtNs = match d.front with
      | none => d
      | some (command, elapsed, queue) =>
        if elapsed + min dtNs moveDurationNs < moveDurationNs then
          d.animating command (elapsed + min dtNs moveDurationNs) queue
        else
          { d with state := (d.state.applyMove command).2 }.next queue
            (elapsed + min dtNs moveDurationNs - moveDurationNs) := by
  have hspent : min dtNs moveDurationNs ≤ moveDurationNs := Nat.min_le_right _ _
  obtain ⟨state, queue, active, rng⟩ := d
  rw [advance]
  generalize min dtNs moveDurationNs = spent at hspent
  -- The move in front is the active one, or it is taken up from the queue in the first round.
  cases active with
  | some a =>
    obtain ⟨command, elapsed⟩ := a
    have htimed : elapsed < moveDurationNs := h (command, elapsed) rfl
    obtain rfl | hpos := Nat.eq_zero_or_pos spent
    · rw [advanceLoop]
      simp [front, animating, htimed]
    · have hround := advanceLoop_animating (queue.length + 1) ⟨state, queue, none, rng⟩ command
        queue htimed hpos
      refine hround.trans ?_
      simp only [front]
      split
      · rfl
      · rw [advanceLoop_next _ rfl (by omega)]
        rfl
  | none =>
    cases queue with
    | nil =>
      rw [advanceLoop]
      simp [front]
    | cons command queue =>
      obtain rfl | hpos := Nat.eq_zero_or_pos spent
      · have hnone : (⟨state, command :: queue, none, rng⟩ : RubikDriver).active = none := rfl
        have hstart := advanceLoop_next (queue.length + 2) hnone (by decide : 0 < moveDurationNs)
        refine hstart.trans ?_
        simp [front, next, moveDurationNs, animating]
      · have hround := advanceLoop_animating (queue.length + 2) ⟨state, queue, none, rng⟩ command
          queue (by decide : 0 < moveDurationNs) hpos
        have hfirst : advanceLoop (queue.length + 3) ⟨state, command :: queue, none, rng⟩ spent =
            advanceLoop (queue.length + 3)
              (animating ⟨state, queue, none, rng⟩ command 0 queue) spent := by
          rw [advanceLoop, advanceLoop]
          simp only [animating, hpos, true_or, if_true]
        refine hfirst.trans (hround.trans ?_)
        simp only [front]
        split
        · rfl
        · rw [advanceLoop_next _ rfl (by omega)]
          rfl

/-! ## The moves owed, and their time -/

/-- Nothing in front, nothing owed. -/
theorem pending_of_front_none {d : RubikDriver} (h : d.front = none) : d.pending = [] := by
  obtain ⟨state, queue, active, rng⟩ := d
  cases active with
  | some a => cases h
  | none =>
    cases queue with
    | nil => rfl
    | cons command queue => cases h

/-- What is owed begins with the move in front. -/
theorem pending_of_front {d : RubikDriver} {command : RotationCommand} {elapsed : Nat}
    {queue : List RotationCommand} (h : d.front = some (command, elapsed, queue)) :
    d.pending = command :: queue := by
  obtain ⟨state, queue', active, rng⟩ := d
  cases active with
  | some a =>
    cases h
    rfl
  | none =>
    cases queue' with
    | nil => cases h
    | cons command' queue' =>
      cases h
      rfl

/-- The move in front is not over. -/
theorem elapsed_lt {d : RubikDriver} (h : d.Timed) {command : RotationCommand} {elapsed : Nat}
    {queue : List RotationCommand} (hfront : d.front = some (command, elapsed, queue)) :
    elapsed < moveDurationNs := by
  obtain ⟨state, queue', active, rng⟩ := d
  cases active with
  | some a =>
    cases hfront
    exact h a rfl
  | none =>
    cases queue' with
    | nil => cases hfront
    | cons command' queue' =>
      cases hfront
      decide

@[simp]
theorem pending_animating (d : RubikDriver) (command : RotationCommand) (elapsed : Nat)
    (queue : List RotationCommand) :
    (d.animating command elapsed queue).pending = command :: queue := rfl

@[simp]
theorem pending_next (d : RubikDriver) (queue : List RotationCommand) (elapsed : Nat) :
    (d.next queue elapsed).pending = queue := by
  cases queue <;> rfl

@[simp]
theorem state_next (d : RubikDriver) (queue : List RotationCommand) (elapsed : Nat) :
    (d.next queue elapsed).state = d.state := by
  cases queue <;> rfl

theorem work_animating (d : RubikDriver) (command : RotationCommand) (elapsed : Nat)
    (queue : List RotationCommand) :
    (d.animating command elapsed queue).work = moveDurationNs * (queue.length + 1) - elapsed := rfl

/-- **An advance finishes the move in front or none.** -/
theorem pending_advance {d : RubikDriver} (h : d.Timed) (dtNs : Nat) :
    ((d.advance dtNs).pending = d.pending ∧ (d.advance dtNs).state = d.state) ∨
      ∃ command, d.pending = command :: (d.advance dtNs).pending ∧
        (d.advance dtNs).state = (d.state.applyMove command).2 := by
  rw [advance_eq h]
  cases hfront : d.front with
  | none => exact Or.inl ⟨rfl, rfl⟩
  | some f =>
    obtain ⟨command, elapsed, queue⟩ := f
    simp only
    split
    · exact Or.inl ⟨(pending_of_front hfront).symm, rfl⟩
    · refine Or.inr ⟨command, ?_, ?_⟩
      · rw [pending_next, pending_of_front hfront]
      · rw [state_next]

/-- What an advance leaves over is less than a move. -/
theorem timed_advance {d : RubikDriver} (h : d.Timed) (dtNs : Nat) : (d.advance dtNs).Timed := by
  rw [advance_eq h]
  cases hfront : d.front with
  | none => exact h
  | some f =>
    obtain ⟨command, elapsed, queue⟩ := f
    have hlt := elapsed_lt h hfront
    have hspent : min dtNs moveDurationNs ≤ moveDurationNs := Nat.min_le_right _ _
    simp only
    split
    · next hover =>
      intro a ha
      cases ha
      exact hover
    · intro a ha
      cases queue with
      | nil => cases ha
      | cons command' queue =>
        cases ha
        simp only
        omega

/-- **Time is work.** -/
theorem work_advance {d : RubikDriver} (h : d.Timed) (dtNs : Nat) :
    (d.advance dtNs).work = d.work - min dtNs moveDurationNs := by
  rw [advance_eq h]
  have hspent : min dtNs moveDurationNs ≤ moveDurationNs := Nat.min_le_right _ _
  -- With nothing in front there is no work, and none is done.
  cases hfront : d.front with
  | none => simp [work, hfront]
  | some f =>
    obtain ⟨command, elapsed, queue⟩ := f
    have hlt := elapsed_lt h hfront
    have hwork : d.work = moveDurationNs * (queue.length + 1) - elapsed := by simp [work, hfront]
    simp only
    split
    · rw [work_animating, hwork, Nat.sub_add_eq]
    · cases queue with
      | nil =>
        have hdone : ({ d with state := (d.state.applyMove command).2 }.next []
            (elapsed + min dtNs moveDurationNs - moveDurationNs)).work = 0 := rfl
        rw [hdone, hwork, List.length_nil]
        omega
      | cons command' queue =>
        rw [next, work_animating, hwork, List.length_cons, Nat.mul_succ moveDurationNs (_ + 1)]
        omega

/-- Idle is to owe nothing. -/
theorem isIdle_iff_pending (d : RubikDriver) : d.isIdle = true ↔ d.pending = [] := by
  obtain ⟨state, queue, active, rng⟩ := d
  cases active <;> cases queue <;> simp [isIdle, pending]

/-- Without work nothing is owed: the move in front would have time left. -/
theorem pending_of_work {d : RubikDriver} (h : d.Timed) (hwork : d.work = 0) : d.pending = [] := by
  cases hfront : d.front with
  | none => exact pending_of_front_none hfront
  | some f =>
    obtain ⟨command, elapsed, queue⟩ := f
    have hlt := elapsed_lt h hfront
    simp only [work, hfront, Nat.mul_succ] at hwork
    omega

/-- Each move takes the same. -/
theorem work_le (d : RubikDriver) : d.work ≤ moveDurationNs * d.pending.length := by
  cases hfront : d.front with
  | none => simp [work, hfront]
  | some f =>
    obtain ⟨command, elapsed, queue⟩ := f
    rw [pending_of_front hfront]
    simp [work, hfront]

/-- Many advances. -/
def advanceAll (d : RubikDriver) (times : List Nat) : RubikDriver := times.foldl advance d

theorem timed_advanceAll {d : RubikDriver} (h : d.Timed) (times : List Nat) :
    (d.advanceAll times).Timed := by
  induction times generalizing d with
  | nil => exact h
  | cons dt times ih => exact ih (timed_advance h dt)

/-- The times add up. -/
theorem work_advanceAll {d : RubikDriver} (h : d.Timed) (times : List Nat) :
    (d.advanceAll times).work = d.work - (times.map (min · moveDurationNs)).sum := by
  induction times generalizing d with
  | nil => rfl
  | cons dt times ih =>
    have hrest := ih (timed_advance h dt)
    rw [work_advance h] at hrest
    rw [List.map_cons, List.sum_cons, Nat.sub_add_eq]
    exact hrest

/-- What many advances make of the cube. -/
theorem pending_advanceAll {d : RubikDriver} (h : d.Timed) (times : List Nat) :
    ∃ finished, d.pending = finished ++ (d.advanceAll times).pending ∧
      (d.advanceAll times).state =
        finished.foldl (fun s command => (s.applyMove command).2) d.state := by
  induction times generalizing d with
  | nil => exact ⟨[], rfl, rfl⟩
  | cons dt times ih =>
    obtain ⟨finished, hpending, hstate⟩ := ih (timed_advance h dt)
    obtain ⟨hsame, hcube⟩ | ⟨command, hfirst, hcube⟩ := pending_advance h dt
    · refine ⟨finished, hsame.symm.trans hpending, ?_⟩
      rw [hcube] at hstate
      exact hstate
    · refine ⟨command :: finished, ?_, ?_⟩
      · rw [hfirst, hpending]
        rfl
      · rw [hcube] at hstate
        exact hstate

/-- **Given the time of the work, everything pending is made.** -/
theorem state_advanceAll {d : RubikDriver} (h : d.Timed) {times : List Nat}
    (htime : d.work ≤ (times.map (min · moveDurationNs)).sum) :
    (d.advanceAll times).pending = [] ∧
      (d.advanceAll times).state =
        d.pending.foldl (fun s command => (s.applyMove command).2) d.state := by
  have hwork : (d.advanceAll times).work = 0 := by
    rw [work_advanceAll h]
    exact Nat.sub_eq_zero_of_le htime
  have hnone := pending_of_work (timed_advanceAll h times) hwork
  obtain ⟨finished, hpending, hstate⟩ := pending_advanceAll h times
  rw [hnone, List.append_nil] at hpending
  exact ⟨hnone, hpending ▸ hstate⟩

end RubikDriver

end Rubik
end EngineKit
