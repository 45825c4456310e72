import EngineKit.Rubik.Facelets

/-!
# Moves done and undone

Moves, undos, redos and resets in any order on one `CubeState`. The 27 cubies stay on their cells
and `facelets` a rearrangement of a new cube's (`cube_run`).

As long as no move is made on top of a full history, the two lists of moves are one `Timeline` with
a cursor, the cube is what the moves in front of the cursor make of a new one, and an undo or redo
only moves the cursor (`timeline_run`). With a full history a move still turns the cube and is not
recorded, so from there on an undo takes back another move than the last.

A timeline has the moves in the order they were made, and the cube has two lists of them, each with
its next move in front; the lists are the timeline cut at the cursor, the first half reversed. That
is all the connection there is (`Timeline.state`), so a request on the one is a request on the other
by moving one element across the cut (`state_succ`). The cubies come along because turning back is
turning by the inverse, and for no deeper reason.

Where the two part is put into the type: `Timeline.perform` has no answer for a move on a full
history.
-/

set_option autoImplicit false

namespace EngineKit
namespace Rubik

open Matrix

inductive Request where
  | apply (command : RotationCommand)
  | undo
  | redo
  | reset

/-- What a request returns, and the cube after it. -/
def CubeState.perform (s : CubeState) : Request → Bool × CubeState
  | .apply command => s.applyMove command
  | .undo => s.undo
  | .redo => s.redoMove
  | .reset => (true, CubeState.new)

/-- The cubies after one more turn. -/
def turnAll (cubies : Vector Cubie 27) (command : RotationCommand) : Vector Cubie 27 :=
  cubies.map (Cubie.turn command)

/-- A turn back, of all cubies. -/
theorem turnAll_inverse (cubies : Vector Cubie 27) (command : RotationCommand) :
    turnAll (turnAll cubies command) command.inverse = cubies := by
  apply Vector.ext
  intro i hi
  simp [turnAll, Cubie.turn_inverse]

/-- The cubies of a state and their picture. -/
structure Sound (s : CubeState) : Prop where
  arranged : Arranged s.cubies
  facelets : s.facelets = (syncFacelets s).facelets

/-- The picture of a state is made from its cubies. -/
theorem sound_sync {s : CubeState} (h : Arranged s.cubies) : Sound (syncFacelets s) := ⟨h, rfl⟩

theorem sound_new : Sound CubeState.new := ⟨arranged_new, rfl⟩

namespace CubeState

/-! ## What a call does -/

theorem applyRaw_eq {s : CubeState} (h : Arranged s.cubies) (command : RotationCommand) :
    s.applyRaw command = (true, { s with cubies := turnAll s.cubies command }) := by
  rw [applyRaw, h.any_inLayer]
  rfl

/-- **A move** is never refused on cells: the turn is one of cells. -/
theorem applyMove_eq {s : CubeState} (h : Arranged s.cubies) (command : RotationCommand) :
    s.applyMove command = (true, syncFacelets
      { s with
        cubies := turnAll s.cubies command
        history := kept command s.history
        redo := [] }) := by
  rw [applyMove, applyRaw_eq h]

/-- **An undo** turns back the last move. -/
theorem undo_eq {s : CubeState} (h : Arranged s.cubies) :
    s.undo = match s.history with
      | [] => (false, s)
      | command :: history => (true, syncFacelets
        { s with
          cubies := turnAll s.cubies command.inverse
          history := history
          redo := kept command s.redo }) := by
  rw [undo]
  cases hhistory : s.history with
  | nil => rfl
  | cons command history =>
    have hraw := applyRaw_eq (s := { s with history }) h command.inverse
    simp only [hraw]

/-- **A redo** makes the next one again. -/
theorem redoMove_eq {s : CubeState} (h : Arranged s.cubies) :
    s.redoMove = match s.redo with
      | [] => (false, s)
      | command :: redo => (true, syncFacelets
        { s with
          cubies := turnAll s.cubies command
          history := kept command s.history
          redo := redo }) := by
  rw [redoMove]
  cases hredo : s.redo with
  | nil => rfl
  | cons command redo =>
    have hraw := applyRaw_eq (s := { s with redo }) h command
    simp only [hraw]

/-- **Any request** keeps a state sound. -/
theorem sound_perform {s : CubeState} (h : Sound s) (r : Request) : Sound (s.perform r).2 := by
  -- An undo or a redo with nothing to take is refused and leaves the cube.
  cases r with
  | apply command =>
    rw [perform, applyMove_eq h.arranged]
    exact sound_sync (h.arranged.turn command)
  | undo =>
    rw [perform, undo_eq h.arranged]
    cases s.history with
    | nil => exact h
    | cons command history => exact sound_sync (h.arranged.turn command.inverse)
  | redo =>
    rw [perform, redoMove_eq h.arranged]
    cases s.redo with
    | nil => exact h
    | cons command redo => exact sound_sync (h.arranged.turn command)
  | reset => exact sound_new

end CubeState

/-- The cube after some requests. -/
def after (requests : List Request) : CubeState :=
  requests.foldl (fun s r => (s.perform r).2) CubeState.new

/-- What requests make of a new cube is sound. -/
theorem sound_after (requests : List Request) : Sound (after requests) := by
  have hrun : ∀ s, Sound s → Sound (requests.foldl (fun s r => (s.perform r).2) s) := by
    induction requests with
    | nil => exact fun s h => h
    | cons r requests ih => exact fun s h => ih _ (CubeState.sound_perform h r)
  exact hrun _ sound_new

/-- **The cube holds together.** After any requests every cell has its one cubie, every cubie is
    turned by a rotation, the one that takes its first cell to where it is, and the facelets are
    those of a new cube in another order. -/
theorem cube_run (requests : List Request) :
    (∀ v, IsCell v → ∃! index : Fin 27, ((after requests).cubies.get index).coordinate = v) ∧
      (∀ index : Fin 27, Rotation ((after requests).cubies.get index).orientation ∧
        ((after requests).cubies.get index).coordinate =
          ((after requests).cubies.get index).orientation *ᵥ home index) ∧
      (after requests).facelets.Perm CubeState.new.facelets := by
  have hsound := sound_after requests
  refine ⟨fun v => hsound.arranged.existsUnique, ?_, ?_⟩
  · intro index
    exact ⟨(hsound.arranged.placed index).rotation, (hsound.arranged.placed index).coordinate⟩
  · rw [hsound.facelets, sound_new.facelets]
    exact (facelets_perm hsound.arranged).trans (facelets_perm arranged_new).symm

/-! ## The timeline -/

/-- The moves, the first one first, and how many of them are done. -/
structure Timeline where
  moves : List RotationCommand
  cursor : Nat

namespace Timeline

def start : Timeline := ⟨[], 0⟩

/-- None for a move on top of a full history. -/
def perform (t : Timeline) : Request → Option (Bool × Timeline)
  | .apply command =>
    if t.cursor < CubeState.historyCapacity then
      some (true, ⟨t.moves.take t.cursor ++ [command], t.cursor + 1⟩)
    else none
  | .undo => some (0 < t.cursor, { t with cursor := t.cursor - 1 })
  | .redo =>
    some (t.cursor < t.moves.length, { t with cursor := min (t.cursor + 1) t.moves.length })
  | .reset => some (true, start)

/-- The cubies after the moves that are done. -/
def cubies (t : Timeline) : Vector Cubie 27 :=
  (t.moves.take t.cursor).foldl turnAll CubeState.new.cubies

/-- The state of a cube with this timeline. -/
def state (t : Timeline) : CubeState :=
  syncFacelets
    { cubies := t.cubies
      facelets := []
      history := (t.moves.take t.cursor).reverse
      redo := t.moves.drop t.cursor }

structure Valid (t : Timeline) : Prop where
  cursor : t.cursor ≤ t.moves.length
  length : t.moves.length ≤ CubeState.historyCapacity

end Timeline

/-- What the calls return, and the cube after them. -/
def answers : CubeState → List Request → List Bool × CubeState
  | s, [] => ([], s)
  | s, r :: rs =>
    let (answer, s) := s.perform r
    let (rest, s) := answers s rs
    (answer :: rest, s)

/-- The same of a timeline. -/
def Timeline.answers : Timeline → List Request → Option (List Bool × Timeline)
  | t, [] => some ([], t)
  | t, r :: rs => do
    let (answer, t) ← t.perform r
    let (rest, t) ← Timeline.answers t rs
    return (answer :: rest, t)

/-- The picture, the history and the redo list are a function of these three. -/
theorem syncFacelets_congr {s s' : CubeState} (hcubies : s.cubies = s'.cubies)
    (hhistory : s.history = s'.history) (hredo : s.redo = s'.redo) :
    syncFacelets s = syncFacelets s' := by
  obtain ⟨cubies, facelets, history, redo⟩ := s
  obtain ⟨cubies', facelets', history', redo'⟩ := s'
  obtain rfl : cubies = cubies' := hcubies
  obtain rfl : history = history' := hhistory
  obtain rfl : redo = redo' := hredo
  rfl

/-- Moves keep the cubies arranged. -/
theorem arranged_foldl {cubies : Vector Cubie 27} (h : Arranged cubies)
    (moves : List RotationCommand) : Arranged (moves.foldl turnAll cubies) := by
  induction moves generalizing cubies with
  | nil => exact h
  | cons command moves ih => exact ih (h.turn command)

namespace Timeline

theorem arranged (t : Timeline) : Arranged t.state.cubies := arranged_foldl arranged_new _

/-- With room a move is recorded. -/
theorem kept_of_lt {moves : List RotationCommand} (command : RotationCommand)
    (h : moves.length < CubeState.historyCapacity) :
    CubeState.kept command moves = command :: moves := if_pos h

/-- The new cube has no moves. -/
theorem start_state : start.state = CubeState.new :=
  syncFacelets_congr rfl rfl rfl

/-- The cursor one move on. -/
theorem state_succ {moves : List RotationCommand} {k : Nat} (hk : k < moves.length)
    (hlength : moves.length ≤ CubeState.historyCapacity) :
    (⟨moves, k + 1⟩ : Timeline).state = syncFacelets
      { (⟨moves, k⟩ : Timeline).state with
        cubies := turnAll (⟨moves, k⟩ : Timeline).cubies moves[k]
        history := CubeState.kept moves[k] (moves.take k).reverse
        redo := moves.drop (k + 1) } := by
  have htake : moves.take (k + 1) = moves.take k ++ [moves[k]] := (List.take_append_getElem hk).symm
  have hroom : (moves.take k).reverse.length < CubeState.historyCapacity := by
    rw [List.length_reverse, List.length_take]
    omega
  apply syncFacelets_congr
  · simp only [cubies, htake, List.foldl_append, List.foldl_cons, List.foldl_nil]
  · simp only [htake, kept_of_lt _ hroom, List.reverse_append, List.reverse_cons, List.reverse_nil,
      List.nil_append, List.singleton_append]
  · rfl

/-- **A request on the cube is one on the timeline.** -/
theorem perform_state {t t' : Timeline} (h : t.Valid) {r : Request} {answer : Bool}
    (hr : t.perform r = some (answer, t')) :
    t.state.perform r = (answer, t'.state) ∧ t'.Valid := by
  obtain ⟨moves, k⟩ := t
  obtain ⟨hcursor, hlength⟩ := h
  simp only at hcursor hlength
  -- The cursor goes on, back, on over a move that is there already, or to the start.
  cases r with
  | apply command =>
    obtain ⟨hroom, heq⟩ := Option.ite_none_right_eq_some.mp hr
    obtain ⟨rfl, rfl⟩ := Prod.mk.inj (Option.some.inj heq)
    have hfront : (moves.take k).length = k := by simpa using hcursor
    have hnew : k < (moves.take k ++ [command]).length := by simp [hfront]
    have hfits : (moves.take k ++ [command]).length ≤ CubeState.historyCapacity := by
      simpa [hfront] using hroom
    refine ⟨?_, ⟨hnew, hfits⟩⟩
    rw [CubeState.perform, CubeState.applyMove_eq (arranged _), state_succ hnew hfits]
    congr 1
    apply syncFacelets_congr
    · simp [state, cubies, syncFacelets, hfront]
    · simp [state, syncFacelets, hfront]
    · simp [hfront]
  | undo =>
    obtain ⟨rfl, rfl⟩ := Prod.mk.inj (Option.some.inj hr)
    rw [CubeState.perform, CubeState.undo_eq (arranged _)]
    cases k with
    | zero => exact ⟨rfl, ⟨hcursor, hlength⟩⟩
    | succ k =>
      refine ⟨?_, ⟨Nat.le_of_succ_le hcursor, hlength⟩⟩
      have htake : moves.take (k + 1) = moves.take k ++ [moves[k]] :=
        (List.take_append_getElem hcursor).symm
      have hhistory : (⟨moves, k + 1⟩ : Timeline).state.history =
          moves[k] :: (moves.take k).reverse := by
        have hreverse := congrArg List.reverse htake
        rw [List.reverse_append] at hreverse
        exact hreverse
      have hroom : (moves.drop (k + 1)).length < CubeState.historyCapacity := by
        rw [List.length_drop]
        omega
      rw [hhistory]
      simp only [Nat.zero_lt_succ, decide_true, Nat.add_sub_cancel]
      congr 1
      apply syncFacelets_congr
      · simp only [state, syncFacelets, cubies, htake, List.foldl_append, List.foldl_cons,
          List.foldl_nil, turnAll_inverse]
      · rfl
      · simp only [state, syncFacelets, kept_of_lt _ hroom]
        exact (List.drop_eq_getElem_cons hcursor).symm
  | redo =>
    obtain ⟨rfl, rfl⟩ := Prod.mk.inj (Option.some.inj hr)
    rw [CubeState.perform, CubeState.redoMove_eq (arranged _)]
    by_cases hk : k < moves.length
    · have hredo : (⟨moves, k⟩ : Timeline).state.redo = moves[k] :: moves.drop (k + 1) :=
        List.drop_eq_getElem_cons hk
      have hmin : min (k + 1) moves.length = k + 1 := Nat.min_eq_left hk
      rw [hredo]
      simp only [hk, decide_true, hmin]
      refine ⟨?_, ⟨hk, hlength⟩⟩
      rw [state_succ hk hlength]
      rfl
    · have hend : k = moves.length := Nat.le_antisymm hcursor (Nat.not_lt.mp hk)
      subst hend
      have hredo : (⟨moves, moves.length⟩ : Timeline).state.redo = [] := List.drop_length
      have hmin : min (moves.length + 1) moves.length = moves.length :=
        Nat.min_eq_right (Nat.le_succ _)
      rw [hredo]
      simp only [Nat.lt_irrefl, decide_false, hmin, true_and]
      exact ⟨Nat.le_refl _, hlength⟩
  | reset =>
    obtain ⟨rfl, rfl⟩ := Prod.mk.inj (Option.some.inj hr)
    rw [CubeState.perform, start_state]
    exact ⟨rfl, ⟨Nat.le_refl 0, Nat.zero_le _⟩⟩

end Timeline

/-- The cube after answers is the cube after the requests. -/
theorem answers_after (s : CubeState) (requests : List Request) :
    (answers s requests).2 = requests.foldl (fun s r => (s.perform r).2) s := by
  induction requests generalizing s with
  | nil => rfl
  | cons r requests ih => exact ih (s.perform r).2

/-- **Any requests**, from any timeline. -/
theorem answers_state {requests : List Request} {t₀ t : Timeline} {replies : List Bool}
    (hvalid : t₀.Valid) (h : t₀.answers requests = some (replies, t)) :
    answers t₀.state requests = (replies, t.state) := by
  induction requests generalizing t₀ replies with
  | nil =>
    obtain ⟨rfl, rfl⟩ := Prod.mk.inj (Option.some.inj h)
    rfl
  | cons r requests ih =>
    rw [Timeline.answers] at h
    obtain ⟨⟨answer, t₁⟩, hfirst, hrest⟩ := Option.bind_eq_some_iff.mp h
    obtain ⟨⟨rest, t₂⟩, hlater, hdone⟩ := Option.bind_eq_some_iff.mp hrest
    obtain ⟨rfl, rfl⟩ := Prod.mk.inj (Option.some.inj hdone)
    obtain ⟨hperform, hvalid₁⟩ := Timeline.perform_state hvalid hfirst
    simp only [answers, hperform, ih hvalid₁ hlater]

/-- **The history is a timeline.** As long as no move is made on top of a full history, requests are
    answered as the timeline answers them, and the cube is the one of the timeline. -/
theorem timeline_run {requests : List Request} {replies : List Bool} {t : Timeline}
    (h : Timeline.start.answers requests = some (replies, t)) :
    answers CubeState.new requests = (replies, t.state) := by
  have hvalid : Timeline.start.Valid := ⟨Nat.le_refl 0, Nat.zero_le _⟩
  rw [← Timeline.start_state]
  exact answers_state hvalid h

/-- A quarter turn of the right side. -/
def quarter : RotationCommand := (RotationCommand.new .x 1 1).get (by decide)

/-- The second undo has nothing to undo, and the cube is left as it was. -/
theorem timeline_run_back :
    answers CubeState.new [.apply quarter, .undo, .undo, .redo, .undo] =
      ([true, true, false, true, true], (⟨[quarter], 0⟩ : Timeline).state) := by
  have hrun : Timeline.start.answers [.apply quarter, .undo, .undo, .redo, .undo] =
      some ([true, true, false, true, true], ⟨[quarter], 0⟩) := rfl
  exact timeline_run hrun

end Rubik
end EngineKit
