import EngineKit.Rubik.Advance

/-!
# Shuffling and solving

Whatever is called in whatever order, the cube has had the accepted moves in the order they were
accepted, and the pending ones are the rest of them (`driver_run`). A shuffle never turns one layer
twice in a row (`shuffle_spec`). And `solve_history`, on a cube whose history is all there and fits
the queue, ends with the cube solved as soon as the time of its moves has passed
(`solve_history_solves`).

The books (`Kept`) are an equation of lists and not a count: accepted moves are the ones the cube
has had, followed by the pending ones, so that neither the order nor a move can be got wrong. Calls
that call moves off, as `shuffle` and `reset` do, take the pending end of the accepted moves away
(`Ledger.replace`); the requests that were made of the cube stay as they were.

The cube itself is not a part of the books but a function of the requests (`after`), which is where
the timeline's own results come in.
-/

set_option autoImplicit false

namespace EngineKit
namespace Rubik

/-! ## The calls that queue moves -/

/-- Two moves of different layers. -/
def Other (a b : RotationCommand) : Prop := a.axis ≠ b.axis ∨ a.layer ≠ b.layer

namespace RubikDriver

/-- A draw of the layer that was turned last is repeated. -/
theorem other_of_drawCommand {previous : Option RotationCommand} {tries : Nat} {rng rng' : UInt32}
    {command : RotationCommand} (h : drawCommand previous tries rng = some (command, rng')) :
    ∀ last ∈ previous, Other last command := by
  induction tries generalizing rng with
  | zero => cases h
  | succ tries ih =>
    intro last hlast
    obtain rfl : previous = some last := hlast
    rw [drawCommand] at h
    split at h
    · next hother =>
      obtain ⟨rfl, rfl⟩ := Prod.mk.inj (Option.some.inj h)
      simpa [Other] using hother
    · exact ih h last rfl

/-- With room a move is queued. -/
theorem enqueueCommand_of_lt {d : RubikDriver} (command : RotationCommand)
    (h : d.queue.length < maxQueuedMoves) :
    d.enqueueCommand command = (true, { d with queue := d.queue ++ [command] }) :=
  if_neg (Nat.not_le.mpr h)

/-- The moves of a shuffle, each of another layer than the one before. -/
theorem shuffleLoop_spec {tries count : Nat} {previous : Option RotationCommand}
    {d d' : RubikDriver} (h : shuffleLoop tries count previous d = some d')
    (hroom : d.queue.length + count ≤ maxQueuedMoves) :
    ∃ commands, d'.queue = d.queue ++ commands ∧ commands.length = count ∧
      (previous.toList ++ commands).IsChain Other ∧ d'.active = d.active ∧ d'.state = d.state := by
  -- On the number of moves to come; what changes is the last move and the queue.
  induction count generalizing previous d with
  | zero =>
    obtain rfl := Option.some.inj h
    refine ⟨[], (List.append_nil _).symm, rfl, ?_, rfl, rfl⟩
    cases previous <;> simp
  | succ count ih =>
    rw [shuffleLoop] at h
    cases hdraw : drawCommand previous tries d.rng with
    | none => simp [hdraw] at h
    | some drawn =>
      obtain ⟨command, rng⟩ := drawn
      have hlt : d.queue.length < maxQueuedMoves := by omega
      have henqueue := enqueueCommand_of_lt (d := { d with rng }) command hlt
      simp only [hdraw, henqueue] at h
      have hmore : (d.queue ++ [command]).length + count ≤ maxQueuedMoves := by
        rw [List.length_append, List.length_singleton]
        omega
      obtain ⟨commands, hqueue, hlength, hchain, hactive, hstate⟩ := ih h hmore
      refine ⟨command :: commands, ?_, congrArg Nat.succ hlength, ?_, hactive, hstate⟩
      · rw [hqueue, List.append_assoc]
        rfl
      · have hother := other_of_drawCommand hdraw
        cases previous with
        | none => exact hchain
        | some last => exact List.IsChain.cons_cons (hother last rfl) hchain

/-- **A shuffle never turns one layer twice in a row.** -/
theorem shuffle_spec {d d' : RubikDriver} {tries count : Nat}
    (h : d.shuffle tries count = some d') :
    d'.active = none ∧ d'.state = d.state ∧ d'.queue.length = min count maxQueuedMoves ∧
      d'.queue.IsChain Other := by
  have hroom : ([] : List RotationCommand).length + min count maxQueuedMoves ≤ maxQueuedMoves := by
    rw [List.length_nil, Nat.zero_add]
    exact Nat.min_le_right _ _
  obtain ⟨commands, hqueue, hlength, hchain, hactive, hstate⟩ := shuffleLoop_spec h hroom
  rw [hqueue]
  exact ⟨hactive, hstate, hlength, hchain⟩

/-- The moves `solve_history` queues up. -/
theorem enqueue_inverses (history : List RotationCommand) (d : RubikDriver) :
    history.foldl (fun d command => (d.enqueueCommand command.inverse).2) d =
      { d with
        queue := d.queue ++
          (history.map RotationCommand.inverse).take (maxQueuedMoves - d.queue.length) } := by
  -- On the history from its last move; a move that finds the queue full is dropped.
  induction history generalizing d with
  | nil => simp
  | cons command history ih =>
    rw [List.foldl_cons, ih, List.map_cons]
    by_cases hroom : d.queue.length < maxQueuedMoves
    · rw [enqueueCommand_of_lt _ hroom]
      have hone : maxQueuedMoves - d.queue.length =
          maxQueuedMoves - (d.queue ++ [command.inverse]).length + 1 := by
        rw [List.length_append, List.length_singleton]
        omega
      simp only [hone, List.take_succ_cons, List.append_assoc, List.singleton_append]
    · have hfull : d.enqueueCommand command.inverse = (false, d) := if_pos (Nat.not_lt.mp hroom)
      have hnone : maxQueuedMoves - d.queue.length = 0 :=
        Nat.sub_eq_zero_of_le (Nat.not_lt.mp hroom)
      rw [hfull, hnone, List.take_zero, List.take_zero]

/-- What solving does at once: it fills the queue. -/
theorem solveHistory_eq {d : RubikDriver} (h : d.isIdle = true) :
    d.solveHistory = { d with
      queue := (d.state.history.map RotationCommand.inverse).take maxQueuedMoves } := by
  rw [solveHistory, if_pos h, enqueue_inverses]
  rfl

end RubikDriver

/-! ## Whatever is called -/

inductive Event where
  | enqueue (request : MoveRequest)
  | enqueueCommand (command : RotationCommand)
  | advance (dtNs : Nat)
  | undo
  | redo
  | reset
  | shuffle (tries count : Nat)
  | solveHistory

/-- What the driver was given and what it gave on: the moves that were accepted and not called off,
    and the requests to the cube. -/
structure Ledger where
  accepted : List RotationCommand
  requests : List Request

/-- The moves among some requests. -/
def applied (requests : List Request) : List RotationCommand :=
  requests.filterMap fun
    | .apply command => some command
    | _ => none

/-- The pending moves are called off and others put in their place. -/
def Ledger.replace (l : Ledger) (d d' : RubikDriver) : List RotationCommand :=
  l.accepted.take (l.accepted.length - d.pending.length) ++ d'.pending

/-- None for a shuffle that does not come to an end. -/
def react (d : RubikDriver) (l : Ledger) : Event → Option (RubikDriver × Ledger)
  | .enqueue request =>
    match d.enqueue request with
    | (false, d) => some (d, l)
    | (true, d') =>
      let count := if request.double then 2 else 1
      let commands := List.replicate count (request.face.command request.inverse)
      some (d', { l with accepted := l.accepted ++ commands })
  | .enqueueCommand command =>
    match d.enqueueCommand command with
    | (false, d) => some (d, l)
    | (true, d') => some (d', { l with accepted := l.accepted ++ [command] })
  | .advance dtNs =>
    let d' := d.advance dtNs
    let finished := d.pending.take (d.pending.length - d'.pending.length)
    some (d', { l with requests := l.requests ++ finished.map .apply })
  | .undo => some (d.undo.2, if d.isIdle then { l with requests := l.requests ++ [.undo] } else l)
  | .redo => some (d.redo.2, if d.isIdle then { l with requests := l.requests ++ [.redo] } else l)
  | .reset => some (d.reset, ⟨l.replace d d.reset, l.requests ++ [.reset]⟩)
  | .shuffle tries count =>
    match d.shuffle tries count with
    | none => none
    | some d' => some (d', { l with accepted := l.replace d d' })
  | .solveHistory => some (d.solveHistory, { l with accepted := l.replace d d.solveHistory })

/-- A run from a new driver. -/
def drive (events : List Event) : Option (RubikDriver × Ledger) :=
  events.foldlM (fun (d, l) e => react d l e) (RubikDriver.new, ⟨[], []⟩)

/-- The books of a driver. -/
structure Kept (d : RubikDriver) (l : Ledger) : Prop where
  timed : d.Timed
  queue : d.queue.length ≤ maxQueuedMoves
  accepted : l.accepted = applied l.requests ++ d.pending
  cube : d.state = after l.requests

theorem applied_append (requests requests' : List Request) :
    applied (requests ++ requests') = applied requests ++ applied requests' :=
  List.filterMap_append

theorem applied_map (commands : List RotationCommand) :
    applied (commands.map .apply) = commands := by
  rw [applied, List.filterMap_map]
  exact List.filterMap_some

/-- The last request is made of what the others made. -/
theorem after_append (requests : List Request) (r : Request) :
    after (requests ++ [r]) = ((after requests).perform r).2 := by
  rw [after, List.foldl_append]
  rfl

namespace Kept

variable {d : RubikDriver} {l : Ledger}

/-- The accepted moves that are not pending are those the cube has had. -/
theorem replace (h : Kept d l) (d' : RubikDriver) :
    l.replace d d' = applied l.requests ++ d'.pending := by
  rw [Ledger.replace, h.accepted, List.length_append, Nat.add_sub_cancel, List.take_left]

/-- A call that changes nothing but the moves to come. -/
theorem requeue (h : Kept d l) {d' : RubikDriver} (htimed : d'.Timed)
    (hqueue : d'.queue.length ≤ maxQueuedMoves) (hstate : d'.state = d.state) :
    Kept d' { l with accepted := l.replace d d' } :=
  ⟨htimed, hqueue, h.replace d', hstate.trans h.cube⟩

/-- Moves that are queued are accepted. -/
theorem enqueue (h : Kept d l) {commands : List RotationCommand}
    (hroom : (d.queue ++ commands).length ≤ maxQueuedMoves) :
    Kept { d with queue := d.queue ++ commands } { l with accepted := l.accepted ++ commands } := by
  refine ⟨h.timed, hroom, ?_, h.cube⟩
  rw [h.accepted]
  simp only [RubikDriver.pending, List.append_assoc]

/-- **An advance** makes at most one request, of the move in front. -/
theorem advance (h : Kept d l) (dtNs : Nat) :
    Kept (d.advance dtNs) { l with
      requests := l.requests ++
        (d.pending.take (d.pending.length - (d.advance dtNs).pending.length)).map .apply } := by
  have hqueue : (d.advance dtNs).queue.length ≤ maxQueuedMoves := by
    rw [RubikDriver.advance_eq h.timed]
    obtain ⟨state, queue, active, rng⟩ := d
    have hroom := h.queue
    -- The active move, or the first of the queue: at most one of them leaves.
    cases active with
    | some a =>
      simp only [RubikDriver.front]
      split
      · exact hroom
      · cases queue with
        | nil => exact Nat.zero_le _
        | cons command queue => exact Nat.le_of_succ_le hroom
    | none =>
      cases queue with
      | nil => exact hroom
      | cons command queue =>
        simp only [RubikDriver.front]
        split
        · exact Nat.le_of_succ_le hroom
        · cases queue with
          | nil => exact Nat.zero_le _
          | cons command' queue => exact Nat.le_of_succ_le (Nat.le_of_succ_le hroom)
  refine ⟨RubikDriver.timed_advance h.timed dtNs, hqueue, ?_, ?_⟩
  · rw [applied_append, applied_map, h.accepted, List.append_assoc]
    congr 1
    obtain ⟨hsame, -⟩ | ⟨command, hfirst, -⟩ := RubikDriver.pending_advance h.timed dtNs
    · rw [hsame, Nat.sub_self]
      rfl
    · rw [hfirst, List.length_cons, Nat.add_sub_cancel_left]
      rfl
  -- Either the move in front is not done, or it is the one the cube is given.
  · obtain ⟨hsame, hcube⟩ | ⟨command, hfirst, hcube⟩ := RubikDriver.pending_advance h.timed dtNs
    · rw [hsame, Nat.sub_self, List.take_zero, List.map_nil, List.append_nil, hcube, h.cube]
    · rw [hfirst, List.length_cons, Nat.add_sub_cancel_left, hcube, h.cube]
      exact (after_append l.requests (.apply command)).symm

/-- **Undoing** is a request of an idle driver. -/
theorem undo (h : Kept d l) :
    Kept d.undo.2 (if d.isIdle then { l with requests := l.requests ++ [.undo] } else l) := by
  rw [RubikDriver.undo]
  cases d.isIdle with
  | false => exact h
  | true =>
    refine ⟨h.timed, h.queue, ?_, ?_⟩
    · rw [if_pos rfl, h.accepted, applied_append]
      exact congrArg (· ++ d.pending) (List.append_nil _).symm
    · have hcube := congrArg (fun s => s.undo.2) h.cube
      exact hcube.trans (after_append l.requests .undo).symm

/-- **Redoing** is one too. -/
theorem redo (h : Kept d l) :
    Kept d.redo.2 (if d.isIdle then { l with requests := l.requests ++ [.redo] } else l) := by
  rw [RubikDriver.redo]
  cases d.isIdle with
  | false => exact h
  | true =>
    refine ⟨h.timed, h.queue, ?_, ?_⟩
    · rw [if_pos rfl, h.accepted, applied_append]
      exact congrArg (· ++ d.pending) (List.append_nil _).symm
    · have hcube := congrArg (fun s => s.redoMove.2) h.cube
      exact hcube.trans (after_append l.requests .redo).symm

/-- **A reset** calls off what is pending and is a request. -/
theorem reset (h : Kept d l) : Kept d.reset ⟨l.replace d d.reset, l.requests ++ [.reset]⟩ := by
  refine ⟨?_, Nat.zero_le _, ?_, (after_append l.requests .reset).symm⟩
  · intro a ha
    cases ha
  · rw [h.replace, applied_append]
    exact congrArg (· ++ d.reset.pending) (List.append_nil _).symm

end Kept

theorem kept_new : Kept RubikDriver.new ⟨[], []⟩ :=
  ⟨RubikDriver.timed_new, Nat.zero_le _, rfl, rfl⟩

/-- One call keeps the books. -/
theorem Kept.react {d d' : RubikDriver} {l l' : Ledger} (h : Kept d l) {e : Event}
    (he : Rubik.react d l e = some (d', l')) : Kept d' l' := by
  -- Three kinds of calls: those that add moves to come, those that make requests, and those that
  -- replace what is to come.
  cases e with
  | enqueue request =>
    by_cases hroom : maxQueuedMoves < d.queue.length + if request.double then 2 else 1
    · have hfull : d.enqueue request = (false, d) := if_pos hroom
      simp only [Rubik.react, hfull] at he
      cases he
      exact h
    · have hfits : d.enqueue request = (true, { d with
          queue := d.queue ++ List.replicate (if request.double then 2 else 1)
            (request.face.command request.inverse) }) := if_neg hroom
      simp only [Rubik.react, hfits] at he
      cases he
      refine h.enqueue ?_
      rw [List.length_append, List.length_replicate]
      exact Nat.not_lt.mp hroom
  | enqueueCommand command =>
    by_cases hroom : d.queue.length < maxQueuedMoves
    · simp only [Rubik.react, RubikDriver.enqueueCommand_of_lt command hroom] at he
      cases he
      refine h.enqueue ?_
      rw [List.length_append]
      exact hroom
    · have hfull : d.enqueueCommand command = (false, d) := if_pos (Nat.not_lt.mp hroom)
      simp only [Rubik.react, hfull] at he
      cases he
      exact h
  | advance dtNs =>
    cases he
    exact h.advance dtNs
  | undo =>
    cases he
    exact h.undo
  | redo =>
    cases he
    exact h.redo
  | reset =>
    cases he
    exact h.reset
  | shuffle tries count =>
    cases hshuffle : d.shuffle tries count with
    | none => simp [Rubik.react, hshuffle] at he
    | some shuffled =>
      simp only [Rubik.react, hshuffle, Option.some.injEq] at he
      cases he
      obtain ⟨hactive, hstate, hlength, -⟩ := RubikDriver.shuffle_spec hshuffle
      refine h.requeue ?_ ?_ hstate
      · intro a ha
        rw [hactive] at ha
        cases ha
      · rw [hlength]
        exact Nat.min_le_right _ _
  | solveHistory =>
    cases he
    cases hidle : d.isIdle with
    | false =>
      have hsame : d.solveHistory = d := by
        rw [RubikDriver.solveHistory, hidle]
        rfl
      rw [hsame]
      exact h.requeue h.timed h.queue rfl
    | true =>
      rw [RubikDriver.solveHistory_eq hidle]
      refine h.requeue h.timed ?_ rfl
      simp only [List.length_take]
      exact Nat.min_le_left _ _

/-- The books are kept from the first call on. -/
theorem kept_drive {events : List Event} {d : RubikDriver} {l : Ledger}
    (h : drive events = some (d, l)) : Kept d l := by
  have hrun : ∀ (d₀ : RubikDriver) (l₀ : Ledger), Kept d₀ l₀ →
      events.foldlM (fun (d, l) e => react d l e) (d₀, l₀) = some (d, l) → Kept d l := by
    clear h
    -- On the calls, the last one last.
    induction events with
    | nil =>
      intro d₀ l₀ hkept hend
      cases hend
      exact hkept
    | cons e events ih =>
      intro d₀ l₀ hkept hrest
      rw [List.foldlM_cons] at hrest
      obtain ⟨⟨d₁, l₁⟩, hfirst, hlater⟩ := Option.bind_eq_some_iff.mp hrest
      exact ih d₁ l₁ (hkept.react hfirst) hlater
  exact hrun _ _ kept_new h

/-- **Nothing is lost on the way.** Whatever is called in whatever order, the moves that were
    accepted and not called off are those the cube has had, in that order, and behind them those
    that are pending; and the cube is the one these requests make of a new one. -/
theorem driver_run {events : List Event} {d : RubikDriver} {l : Ledger}
    (h : drive events = some (d, l)) :
    l.accepted = applied l.requests ++ d.pending ∧ d.state = after l.requests ∧
      d.queue.length ≤ maxQueuedMoves := by
  have hkept := kept_drive h
  exact ⟨hkept.accepted, hkept.cube, hkept.queue⟩

/-- A double turn of the right side, of which the first half is made. -/
def halfway : List Event := [.enqueue ⟨.r, false, true⟩, .advance 250000000]

/-- Of the two quarter turns that were accepted the cube has had one, and the other is pending. -/
theorem driver_run_halfway : ∃ d l, drive halfway = some (d, l) ∧ d.pending = [quarter] ∧
    l.accepted = applied l.requests ++ [quarter] := by
  obtain ⟨d, l, h⟩ : ∃ d l, drive halfway = some (d, l) := ⟨_, _, rfl⟩
  have hpending : d.pending = [quarter] := by
    cases h
    rfl
  refine ⟨d, l, h, hpending, ?_⟩
  rw [← hpending]
  exact (driver_run h).1

/-! ## Solving -/

/-- The cubies after moves that the cube accepts one after the other. -/
theorem applyMoves {s : CubeState} (h : Sound s) (commands : List RotationCommand) :
    Sound (commands.foldl (fun s command => (s.applyMove command).2) s) ∧
      (commands.foldl (fun s command => (s.applyMove command).2) s).cubies =
        commands.foldl turnAll s.cubies := by
  induction commands generalizing s with
  | nil => exact ⟨h, rfl⟩
  | cons command commands ih =>
    have hsound := CubeState.sound_perform h (.apply command)
    have hcubies : (s.applyMove command).2.cubies = turnAll s.cubies command := by
      rw [CubeState.applyMove_eq h.arranged]
      rfl
    obtain ⟨hlast, hall⟩ := ih hsound
    refine ⟨hlast, hall.trans ?_⟩
    rw [List.foldl_cons, CubeState.perform, hcubies]

/-- Moves and then their inverses, from the last to the first. -/
theorem foldl_inverses (history : List RotationCommand) (cubies : Vector Cubie 27) :
    (history.map RotationCommand.inverse).foldl turnAll (history.reverse.foldl turnAll cubies) =
      cubies := by
  induction history generalizing cubies with
  | nil => rfl
  | cons command history ih =>
    rw [List.reverse_cons, List.foldl_append, List.map_cons, List.foldl_cons, List.foldl_cons,
      List.foldl_nil, turnAll_inverse, ih]

/-- Where the cubies of a new cube are, it looks like one. -/
theorem isSolved_of_cubies {s : CubeState} (h : Sound s)
    (hcubies : s.cubies = CubeState.new.cubies) : s.isSolved = true := by
  have hfacelets : s.facelets = CubeState.new.facelets := by
    rw [h.facelets, sound_new.facelets]
    simp only [syncFacelets, hcubies]
  have hsolved : CubeState.new.isSolved = true := by decide +kernel
  rw [CubeState.isSolved, hfacelets]
  exact hsolved

/-- As long as the timeline answers the requests, the cube of the driver is that of the timeline. -/
theorem state_of_drive {events : List Event} {d : RubikDriver} {l : Ledger}
    (h : drive events = some (d, l)) {replies : List Bool} {t : Timeline}
    (hrecorded : Timeline.start.answers l.requests = some (replies, t)) : d.state = t.state := by
  have hvalid : Timeline.start.Valid := ⟨Nat.le_refl 0, Nat.zero_le _⟩
  have hanswers := congrArg Prod.snd (answers_state hvalid hrecorded)
  rw [Timeline.start_state] at hanswers
  rw [(kept_drive h).cube]
  exact (answers_after CubeState.new l.requests).symm.trans hanswers

/-- **`solve_history` solves.** After any calls that leave the driver idle, with a history that fits
    the queue and that no move was made on top of while it was full: once as much time has passed
    as its moves take, in advances of any length, the driver is idle again and the cube solved. -/
theorem solve_history_solves {events : List Event} {d : RubikDriver} {l : Ledger}
    (h : drive events = some (d, l)) (hidle : d.isIdle = true) {replies : List Bool} {t : Timeline}
    (hrecorded : Timeline.start.answers l.requests = some (replies, t))
    (hfits : d.state.history.length ≤ maxQueuedMoves) {times : List Nat}
    (htime : moveDurationNs * d.state.history.length ≤ (times.map (min · moveDurationNs)).sum) :
    (d.solveHistory.advanceAll times).isIdle = true ∧
      (d.solveHistory.advanceAll times).state.isSolved = true := by
  have hcube := (kept_drive h).cube
  have hstate : d.state = t.state := state_of_drive h hrecorded
  have hsolve := RubikDriver.solveHistory_eq hidle
  have hall : (d.state.history.map RotationCommand.inverse).take maxQueuedMoves =
      d.state.history.map RotationCommand.inverse :=
    List.take_of_length_le (by rwa [List.length_map])
  have hactive : d.active = none := by
    rw [RubikDriver.isIdle, Bool.and_eq_true] at hidle
    exact Option.isNone_iff_eq_none.mp hidle.1
  rw [hall] at hsolve
  have htimed : d.solveHistory.Timed := by
    rw [hsolve]
    intro a ha
    simp only [hactive] at ha
    cases ha
  have hpending : d.solveHistory.pending = d.state.history.map RotationCommand.inverse := by
    rw [hsolve]
    simp only [RubikDriver.pending, hactive]
    rfl
  have hwork : d.solveHistory.work ≤ (times.map (min · moveDurationNs)).sum := by
    refine Nat.le_trans (RubikDriver.work_le _) ?_
    rw [hpending, List.length_map]
    exact htime
  obtain ⟨hdone, hmade⟩ := RubikDriver.state_advanceAll htimed hwork
  refine ⟨(RubikDriver.isIdle_iff_pending _).mpr hdone, ?_⟩
  have hsame : d.solveHistory.state = d.state := by rw [hsolve]
  have hsound : Sound d.state := hcube ▸ sound_after l.requests
  obtain ⟨hlast, hcubies⟩ := applyMoves hsound (d.state.history.map RotationCommand.inverse)
  rw [hmade, hpending, hsame]
  refine isSolved_of_cubies hlast ?_
  have hreplayed : d.state.cubies = d.state.history.reverse.foldl turnAll CubeState.new.cubies := by
    rw [hstate]
    simp [Timeline.state, syncFacelets, Timeline.cubies]
  rw [hcubies, hreplayed]
  exact foldl_inverses _ _

/-- A quarter turn of the upper side. -/
def upper : RotationCommand := (RotationCommand.new .y 1 1).get (by decide)

/-- A turn of the right side and one of the upper side. -/
def twoTurns : List Event :=
  [.enqueue ⟨.r, false, false⟩, .enqueue ⟨.u, false, false⟩, .advance 250000000, .advance 250000000]

/-- The two turns do not commute: the upper side has to be turned back first. -/
theorem solve_history_solves_two : ∃ d l, drive twoTurns = some (d, l) ∧
    d.solveHistory.pending = [upper.inverse, quarter.inverse] ∧
    (d.solveHistory.advanceAll [250000000, 250000000]).state.isSolved = true := by
  obtain ⟨d, l, h⟩ : ∃ d l, drive twoTurns = some (d, l) := ⟨_, _, rfl⟩
  have hends : l.requests = [.apply quarter, .apply upper] ∧ d.isIdle = true := by
    cases h
    exact ⟨rfl, rfl⟩
  obtain ⟨hrequests, hidle⟩ := hends
  have hrecorded : Timeline.start.answers l.requests =
      some ([true, true], ⟨[quarter, upper], 2⟩) := by
    rw [hrequests]
    rfl
  have hhistory : d.state.history = [upper, quarter] := by
    rw [state_of_drive h hrecorded]
    rfl
  have hpending : d.solveHistory.pending = [upper.inverse, quarter.inverse] := by
    have hactive : d.active = none := by
      rw [RubikDriver.isIdle, Bool.and_eq_true] at hidle
      exact Option.isNone_iff_eq_none.mp hidle.1
    rw [RubikDriver.solveHistory_eq hidle, RubikDriver.pending, hactive, hhistory]
    rfl
  have hfits : d.state.history.length ≤ maxQueuedMoves := by
    rw [hhistory]
    decide
  have htime : moveDurationNs * d.state.history.length ≤
      ([250000000, 250000000].map (min · moveDurationNs)).sum := by
    rw [hhistory]
    decide
  exact ⟨d, l, h, hpending, (solve_history_solves h hidle hrecorded hfits htime).2⟩

end Rubik
end EngineKit
