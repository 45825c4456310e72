import EngineKit.Input.Edges
import EngineKit.Sudoku.Fair
import EngineKit.Sudoku.Layout

/-!
# The game around a session

`SudokuGame` of `examples/sudoku_game/game.rs`, tick after tick: the screens, the session that is
played, and the one that is saved when the player pauses or goes to the menu. `none` is the index
out of bounds that stops the program. What is sent to the user interface and to the painter is left
out; nothing of it is read again.

No tick ever stops the program (`game_run`), and after any of them the session that is played and
the one that is saved are the outcome of fair play, neither with more on its clock than the ticks
took. The saved game is one that can be played on, and nothing that happens in the menu is charged
to it (`continue_resumes`).

`FairGame` has a field for each of the three things a tick could go wrong with. The two sessions are
fair, each by a history of its own: the saved one stops at the pause, so its clock is only bounded
by the time of the game and not equal to it. The selected cell is on the board, which is what keeps
the indexing in bounds; it is set from clicks and from arrow keys and taken over from the saved
game, so the saved one needs it as well.

For the law of the saved game that is not enough. `Waiting` says of the ticks in the menu that the
save is still the one of the click, which a fair game does not promise.
-/

set_option autoImplicit false

namespace EngineKit
namespace Sudoku

open Input (InputFrame)

/-! ## Actions -/

inductive GameAction where
  | digit (value : Nat)
  | clear
  | toggleNote
  | hint
  | pause
  | move (rowDelta columnDelta : Int)

def actionFromKey (key : Nat) : Option GameAction :=
  if key = 0x30 then some .clear
  else if 0x31 ≤ key ∧ key ≤ 0x39 then some (.digit (key - 0x30))
  else if key = 0x08 ∨ key = 0x2E then some .clear
  else if key = 0x48 then some .hint
  else if key = 0x4E then some .toggleNote
  else if key = 0x50 ∨ key = 0x20 ∨ key = 0x1B then some .pause
  else if key = 0x25 then some (.move 0 (-1))
  else if key = 0x26 then some (.move (-1) 0)
  else if key = 0x27 then some (.move 0 1)
  else if key = 0x28 then some (.move 1 0)
  else none

structure SavedGame where
  session : GameSession
  selected : Option (Nat × Nat)
  noteMode : Bool

structure SudokuGame where
  session : GameSession
  saved : Option SavedGame
  selected : Option (Nat × Nat)
  noteMode : Bool
  screen : Screen
  running : Bool
  shakeRemainingNs : Nat
  shakePhase : Nat

/-- A cell that `cells`, `values` and `states` can be indexed with. -/
def InBoard (cell : Nat × Nat) : Prop := cell.1 < 9 ∧ cell.2 < 9

instance (cell : Nat × Nat) : Decidable (InBoard cell) := by
  unfold InBoard
  infer_instance

namespace SavedGame

def capture (session : GameSession) (selected : Option (Nat × Nat)) (noteMode : Bool) : SavedGame :=
  ⟨{ session with paused := true }, selected, noteMode⟩

def restore (s : SavedGame) : GameSession × Option (Nat × Nat) × Bool :=
  ({ s.session with paused := false }, s.selected, s.noteMode)

end SavedGame

namespace SudokuGame

def new (session : GameSession) : SudokuGame :=
  { session
    saved := none
    selected := none
    noteMode := false
    screen := .mainMenu
    running := true
    shakeRemainingNs := 0
    shakePhase := 0 }

def saveCurrentSession (g : SudokuGame) : SudokuGame :=
  if g.session.result = .ongoing then
    { g with saved := some (SavedGame.capture g.session g.selected g.noteMode) }
  else g

def restoreSavedSession (g : SudokuGame) : Bool × SudokuGame :=
  match g.saved with
  | none => (false, g)
  | some saved =>
    let (session, selected, noteMode) := saved.restore
    (true, { g with saved := none, session, selected, noteMode, shakeRemainingNs := 0,
                    shakePhase := 0 })

/-- `(at as i32 + delta).clamp(0, 8) as usize` -/
def clampCell (position : Nat) (delta : Int) : Nat := (max 0 (min (position + delta) 8)).toNat

/-- The cell a hint was put in. -/
def hintedCell (hinted : Fin 9 × Fin 9 × Nat) : Nat × Nat := (hinted.1.val, hinted.2.1.val)

/-- A hint for the selected cell, if it is open. -/
def hintSelected (g : SudokuGame) : Option (Option (Fin 9 × Fin 9 × Nat) × GameSession) :=
  match g.selected with
  | none => some (none, g.session)
  | some cell =>
    if h : InBoard cell then
      let row : Fin 9 := ⟨cell.1, h.1⟩
      let column : Fin 9 := ⟨cell.2, h.2⟩
      if g.session.values row column = 0 ∧ g.session.states row column ≠ .given then
        some (g.session.hintAt cell.1 cell.2)
      else some (none, g.session)
    else none

/-- `hinted.or_else(|| self.session.hint())` -/
def orHint : Option (Fin 9 × Fin 9 × Nat) × GameSession →
    Option (Fin 9 × Fin 9 × Nat) × GameSession
  | (some hinted, session) => (some hinted, session)
  | (none, session) => session.hint

def applyHint (g : SudokuGame) (hinted : Option (Fin 9 × Fin 9 × Nat) × GameSession) : SudokuGame :=
  match hinted.1 with
  | some cell => { g with session := hinted.2, selected := some (hintedCell cell) }
  | none => { g with session := hinted.2 }

def applyDigit (g : SudokuGame) (cell : Nat × Nat) (value : Nat) : SudokuGame :=
  if g.noteMode then { g with session := g.session.toggleNote cell.1 cell.2 value }
  else
    let ((accepted, correct), session) := g.session.makeMove cell.1 cell.2 value
    if accepted && ! correct then { g with session, shakeRemainingNs := 300000000, shakePhase := 0 }
    else { g with session }

/-- What is done with the selected cell, if one is. -/
def onSelected (g : SudokuGame) (f : Nat × Nat → SudokuGame) : Option SudokuGame :=
  match g.selected with
  | none => some g
  | some cell => if InBoard cell then some (f cell) else none

def applyAction (g : SudokuGame) : GameAction → Option SudokuGame
  | .move rowDelta columnDelta =>
    let cell := g.selected.getD (0, 0)
    let next := (clampCell cell.1 rowDelta, clampCell cell.2 columnDelta)
    if InBoard cell ∧ InBoard next then some { g with selected := some next } else none
  | .toggleNote => some { g with noteMode := ! g.noteMode }
  | .clear => g.onSelected fun cell => { g with session := g.session.clear cell.1 cell.2 }
  | .hint => g.hintSelected.map fun hinted => g.applyHint (orHint hinted)
  | .pause =>
    if g.session.result = .ongoing then
      let g := { g with session := { g.session with paused := ! g.session.paused } }
      some (if g.session.paused then g.saveCurrentSession else g)
    else some g
  | .digit value => g.onSelected fun cell => g.applyDigit cell value

/-! ## Ticks -/

/-- What the frames of a tick say: a click and an action. -/
def input (g : SudokuGame) (frames : List InputFrame) : Option HitTarget × Option GameAction :=
  frames.foldl (fun found frame =>
    (if frame.pressedButtons &&& 1 ≠ 0 then
        if g.screen = .playing ∧ g.session.result ≠ .ongoing then
          hitTestResultMenu frame.mouseX.toInt frame.mouseY.toInt
        else hitTest g.screen frame.mouseX.toInt frame.mouseY.toInt
      else found.1,
      frame.pressed.findSome? fun key => actionFromKey key.toNat)) (none, none)

def difficultyOf : DifficultyChoice → Difficulty
  | .easy => .easy
  | .medium => .medium
  | .hard => .hard

/-- A tick on the main menu. -/
def tickMainMenu (g : SudokuGame) (target : Option HitTarget) : SudokuGame :=
  match target with
  | some (.menu .continue) =>
    match g.restoreSavedSession with
    | (true, g) => { g with screen := .playing }
    | (false, g) => g
  | some (.menu .newGame) => { g with screen := .difficulty }
  | some (.menu .quit) => { g with running := false }
  | _ => g

/-- A tick on the choice of a difficulty. -/
def tickDifficulty (g : SudokuGame) (target : Option HitTarget) : SudokuGame :=
  match target with
  | some (.difficulty choice) =>
    { g with
      saved := none
      session := GameSession.new (difficultyOf choice)
      screen := .playing
      selected := none
      noteMode := false
      shakeRemainingNs := 0
      shakePhase := 0 }
  | _ => g

/-- A click on a cell. -/
def selectCell (g : SudokuGame) (target : Option HitTarget) : Option SudokuGame :=
  match target with
  | some (.cell row column) =>
    if InBoard (row, column) ∧ ∀ previous ∈ g.selected, InBoard previous then
      some { g with selected := some (row, column) }
    else none
  | _ => some g

/-- The action of a click, and where it leads. -/
def targetAction (g : SudokuGame) (target : Option HitTarget) : Option GameAction × SudokuGame :=
  match target with
  | some .resultMenu => (none, { g with screen := .mainMenu, selected := none })
  | some (.digit value) => (some (.digit value), g)
  | some (.action .erase) => (some .clear, g)
  | some (.action .note) => (some .toggleNote, g)
  | some (.action .hint) => (some .hint, g)
  | some (.top .pause) => (some .pause, g)
  | some (.top .menu) =>
    let g := g.saveCurrentSession
    (none, { g with session := { g.session with paused := true }, screen := .mainMenu })
  | _ => (none, g)

/-- A tick on the board. -/
def tickPlaying (g : SudokuGame) (target : Option HitTarget) (action : Option GameAction) :
    Option SudokuGame :=
  (g.selectCell target).bind fun g =>
    let (targetAction, g) := g.targetAction target
    match targetAction.or action with
    | some action => g.applyAction action
    | none => some g

/-- The clocks of a tick. -/
def tickClocks (g : SudokuGame) (dtNs : Nat) : SudokuGame :=
  let g := { g with session := g.session.tick dtNs }
  if g.shakeRemainingNs ≠ 0 then
    { g with shakeRemainingNs := g.shakeRemainingNs - dtNs, shakePhase := (g.shakePhase + 1) % 256 }
  else g

/-- A tick; `ui` tells whether the name `ui` resolves. -/
def tick (g : SudokuGame) (ui : Bool) (dtNs : Nat) (frames : List InputFrame) : Option SudokuGame :=
  let g := g.tickClocks dtNs
  let (target, action) := g.input frames
  if ui then
    match g.screen with
    | .mainMenu => some (g.tickMainMenu target)
    | .difficulty => some (g.tickDifficulty target)
    | .playing => g.tickPlaying target action
  else some g

end SudokuGame

/-- What comes with a tick. -/
structure Tick where
  ui : Bool
  dtNs : Nat
  frames : List InputFrame

def SudokuGame.run (g : SudokuGame) (ticks : List Tick) : Option SudokuGame :=
  ticks.foldlM (fun g t => g.tick t.ui t.dtNs t.frames) g

/-! ## Fair play -/

def puzzleOf (difficulty : Difficulty) : Grid :=
  ((PuzzleGenerator.new 0x5EED2026).generate difficulty).1

/-- A session as play leaves it, its clock not ahead of that time. -/
def FairWithin (s : GameSession) (total : Nat) : Prop :=
  ∃ difficulty ran, ran ≤ total ∧ Fair difficulty (puzzleOf difficulty) s ran

namespace FairWithin

variable {s : GameSession} {total : Nat}

/-- A session begins fair, with nothing on its clock. -/
theorem start (difficulty : Difficulty) (total : Nat) :
    FairWithin (GameSession.new difficulty) total :=
  ⟨difficulty, 0, Nat.zero_le _, Fair.start difficulty (puzzleOf difficulty)⟩

/-- Time that went by elsewhere does no harm. -/
theorem mono (h : FairWithin s total) {total' : Nat} (hle : total ≤ total') :
    FairWithin s total' := by
  obtain ⟨difficulty, ran, hran, hfair⟩ := h
  exact ⟨difficulty, ran, hran.trans hle, hfair⟩

theorem paused (h : FairWithin s total) (paused : Bool) :
    FairWithin { s with paused } total := by
  obtain ⟨difficulty, ran, hran, hfair⟩ := h
  exact ⟨difficulty, ran, hran, hfair.paused paused⟩

theorem tick (h : FairWithin s total) (dtNs : Nat) : FairWithin (s.tick dtNs) (total + dtNs) := by
  obtain ⟨difficulty, ran, hran, hfair⟩ := h
  refine ⟨difficulty, ran + s.time (.tick dtNs), Nat.add_le_add hran ?_, hfair.tick dtNs⟩
  rw [GameSession.time]
  split
  · exact Nat.zero_le _
  · exact le_rfl

theorem clear (h : FairWithin s total) (row column : Nat) :
    FairWithin (s.clear row column) total := by
  obtain ⟨difficulty, ran, hran, hfair⟩ := h
  exact ⟨difficulty, ran, hran, hfair.clear row column⟩

theorem makeMove (h : FairWithin s total) (row column value : Nat) :
    FairWithin (s.makeMove row column value).2 total := by
  obtain ⟨difficulty, ran, hran, hfair⟩ := h
  exact ⟨difficulty, ran, hran, hfair.makeMove row column value⟩

theorem toggleNote (h : FairWithin s total) (row column value : Nat) :
    FairWithin (s.toggleNote row column value) total := by
  obtain ⟨difficulty, ran, hran, hfair⟩ := h
  exact ⟨difficulty, ran, hran, hfair.toggleNote row column value⟩

theorem hintAt (h : FairWithin s total) (row column : Nat) :
    FairWithin (s.hintAt row column).2 total := by
  obtain ⟨difficulty, ran, hran, hfair⟩ := h
  exact ⟨difficulty, ran, hran, hfair.hintAt row column⟩

theorem hint (h : FairWithin s total) : FairWithin s.hint.2 total := by
  obtain ⟨difficulty, ran, hran, hfair⟩ := h
  exact ⟨difficulty, ran, hran, hfair.hint⟩

end FairWithin

/-- A saved game: one to play on, that waits. -/
structure FairSave (saved : SavedGame) (total : Nat) : Prop where
  session : FairWithin saved.session total
  ongoing : saved.session.result = .ongoing
  paused : saved.session.paused = true
  selected : ∀ cell ∈ saved.selected, InBoard cell

/-- What holds between any two ticks. -/
structure FairGame (g : SudokuGame) (total : Nat) : Prop where
  session : FairWithin g.session total
  saved : ∀ saved ∈ g.saved, FairSave saved total
  selected : ∀ cell ∈ g.selected, InBoard cell

namespace FairGame

variable {g : SudokuGame} {total : Nat}

theorem start (difficulty : Difficulty) :
    FairGame (SudokuGame.new (GameSession.new difficulty)) 0 where
  session := FairWithin.start difficulty 0
  saved := by simp [SudokuGame.new]
  selected := by simp [SudokuGame.new]

/-- The session after a call. -/
theorem played (h : FairGame g total) {session : GameSession}
    (hsession : FairWithin session total) : FairGame { g with session } total :=
  ⟨hsession, h.saved, h.selected⟩

/-- Only a session that goes on is saved, and it is saved paused. -/
theorem saveCurrentSession (h : FairGame g total) : FairGame g.saveCurrentSession total := by
  rw [SudokuGame.saveCurrentSession]
  split
  · next hongoing =>
    refine ⟨h.session, ?_, h.selected⟩
    intro saved hsaved
    obtain rfl := Option.mem_some_iff.mp hsaved
    exact ⟨h.session.paused true, hongoing, rfl, h.selected⟩
  · exact h

/-- Restoring takes the save away, so it cannot be played twice. -/
theorem restoreSavedSession (h : FairGame g total) : FairGame g.restoreSavedSession.2 total := by
  rw [SudokuGame.restoreSavedSession]
  cases hsaved : g.saved with
  | none => exact h
  | some saved =>
    have hsave := h.saved saved hsaved
    exact ⟨hsave.session.paused false, by simp, hsave.selected⟩

/-- The cell the arrow keys go to. -/
theorem inBoard_clamp (cell : Nat × Nat) (rowDelta columnDelta : Int) :
    InBoard (SudokuGame.clampCell cell.1 rowDelta, SudokuGame.clampCell cell.2 columnDelta) := by
  constructor
  · simp only [SudokuGame.clampCell]
    omega
  · simp only [SudokuGame.clampCell]
    omega

theorem selected_getD (h : FairGame g total) : InBoard (g.selected.getD (0, 0)) := by
  cases hselected : g.selected with
  | none => exact ⟨by decide, by decide⟩
  | some cell => exact h.selected cell hselected

theorem applyHint (h : FairGame g total) {hinted : Option (Fin 9 × Fin 9 × Nat) × GameSession}
    (hsession : FairWithin hinted.2 total) : FairGame (g.applyHint hinted) total := by
  rw [SudokuGame.applyHint]
  split
  · next hinted _ =>
    refine ⟨hsession, h.saved, ?_⟩
    intro cell hcell
    obtain rfl := Option.mem_some_iff.mp hcell
    exact ⟨hinted.1.isLt, hinted.2.1.isLt⟩
  · exact h.played hsession

/-- The cell is on the board, so it can be looked up. -/
theorem hintSelected (h : FairGame g total) :
    ∃ hinted, g.hintSelected = some hinted ∧ FairWithin hinted.2 total := by
  rw [SudokuGame.hintSelected]
  cases hselected : g.selected with
  | none => exact ⟨_, rfl, h.session⟩
  | some cell =>
    simp only [dif_pos (h.selected cell hselected)]
    split
    · exact ⟨_, rfl, h.session.hintAt cell.1 cell.2⟩
    · exact ⟨_, rfl, h.session⟩

theorem orHint {hinted : Option (Fin 9 × Fin 9 × Nat) × GameSession}
    (h : FairWithin hinted.2 total) : FairWithin (SudokuGame.orHint hinted).2 total := by
  obtain ⟨cell, session⟩ := hinted
  cases cell with
  | none => exact FairWithin.hint h
  | some cell => exact h

/-- A note or a move; a wrong move also starts the shake. -/
theorem applyDigit (h : FairGame g total) (cell : Nat × Nat) (value : Nat) :
    FairGame (g.applyDigit cell value) total := by
  rw [SudokuGame.applyDigit]
  split
  · exact h.played (h.session.toggleNote cell.1 cell.2 value)
  · have hmoved := h.session.makeMove cell.1 cell.2 value
    simp only
    split
    · exact ⟨hmoved, h.saved, h.selected⟩
    · exact h.played hmoved

/-- Without a selection nothing is done, and with one it is on the board. -/
theorem onSelected (h : FairGame g total) {f : Nat × Nat → SudokuGame}
    (hf : ∀ cell, FairGame (f cell) total) :
    ∃ g', g.onSelected f = some g' ∧ FairGame g' total := by
  rw [SudokuGame.onSelected]
  cases hselected : g.selected with
  | none => exact ⟨g, rfl, h⟩
  | some cell => exact ⟨f cell, if_pos (h.selected cell hselected), hf cell⟩

/-- An action is carried out, and leaves a fair game. -/
theorem applyAction (h : FairGame g total) (action : GameAction) :
    ∃ g', g.applyAction action = some g' ∧ FairGame g' total := by
  -- Only four of the actions reach the session, each through a call that keeps it fair.
  cases action with
  | move rowDelta columnDelta =>
    have hnext := inBoard_clamp (g.selected.getD (0, 0)) rowDelta columnDelta
    refine ⟨_, if_pos ⟨h.selected_getD, hnext⟩, h.session, h.saved, ?_⟩
    intro cell hcell
    obtain rfl := Option.mem_some_iff.mp hcell
    exact hnext
  | toggleNote => exact ⟨_, rfl, h.session, h.saved, h.selected⟩
  | clear => exact h.onSelected fun cell => h.played (h.session.clear cell.1 cell.2)
  | hint =>
    obtain ⟨hinted, hhint, hsession⟩ := h.hintSelected
    rw [SudokuGame.applyAction, hhint]
    exact ⟨_, rfl, h.applyHint (orHint hsession)⟩
  | pause =>
    rw [SudokuGame.applyAction]
    split
    · have hswitched := h.played (h.session.paused (! g.session.paused))
      refine ⟨_, rfl, ?_⟩
      split
      · exact hswitched.saveCurrentSession
      · exact hswitched
    · exact ⟨g, rfl, h⟩
  | digit value => exact h.onSelected fun cell => h.applyDigit cell value

/-! ## Ticks of a fair game -/

/-- The menu plays nothing; it may put the saved game back. -/
theorem tickMainMenu (h : FairGame g total) (target : Option HitTarget) :
    FairGame (g.tickMainMenu target) total := by
  unfold SudokuGame.tickMainMenu
  split
  · have hrestored := h.restoreSavedSession
    split
    · next g' heq =>
      rw [heq] at hrestored
      exact ⟨hrestored.session, hrestored.saved, hrestored.selected⟩
    · next g' heq =>
      rw [heq] at hrestored
      exact hrestored
  · exact ⟨h.session, h.saved, h.selected⟩
  · exact ⟨h.session, h.saved, h.selected⟩
  · exact h

/-- A new game throws the save away. -/
theorem tickDifficulty (h : FairGame g total) (target : Option HitTarget) :
    FairGame (g.tickDifficulty target) total := by
  unfold SudokuGame.tickDifficulty
  split
  · next choice =>
    exact ⟨FairWithin.start (SudokuGame.difficultyOf choice) total, by simp, by simp⟩
  · exact h

/-- What is clicked is on the board, as hits are in range. -/
theorem selectCell (h : FairGame g total) {target : Option HitTarget}
    (htarget : ∀ hit ∈ target, hit.InRange) :
    ∃ g', g.selectCell target = some g' ∧ FairGame g' total := by
  unfold SudokuGame.selectCell
  split
  · next row column =>
    have hcell : InBoard (row, column) := htarget _ rfl
    refine ⟨_, if_pos ⟨hcell, h.selected⟩, h.session, h.saved, ?_⟩
    intro cell hmem
    obtain rfl := Option.mem_some_iff.mp hmem
    exact hcell
  · exact ⟨g, rfl, h⟩

/-- A click for the menu saves before it pauses. -/
theorem targetAction (h : FairGame g total) (target : Option HitTarget) :
    FairGame (g.targetAction target).2 total := by
  have hsaved := h.saveCurrentSession
  unfold SudokuGame.targetAction
  split
  · exact ⟨h.session, h.saved, by simp⟩
  · exact h
  · exact h
  · exact h
  · exact h
  · exact h
  · exact ⟨hsaved.session.paused true, hsaved.saved, hsaved.selected⟩
  · exact h

/-- The click first, then the action of the click or else of the keys. -/
theorem tickPlaying (h : FairGame g total) {target : Option HitTarget}
    (htarget : ∀ hit ∈ target, hit.InRange) (action : Option GameAction) :
    ∃ g', g.tickPlaying target action = some g' ∧ FairGame g' total := by
  obtain ⟨g', hselect, h'⟩ := h.selectCell htarget
  have hacts := h'.targetAction target
  rw [SudokuGame.tickPlaying, hselect, Option.bind_some]
  simp only
  split
  · next action _ => exact hacts.applyAction action
  · exact ⟨_, rfl, hacts⟩

/-- The session counts the time only while it is played. -/
theorem tickClocks (h : FairGame g total) (dtNs : Nat) :
    FairGame (g.tickClocks dtNs) (total + dtNs) := by
  have hle : total ≤ total + dtNs := Nat.le_add_right total dtNs
  have hsaved : ∀ saved ∈ g.saved, FairSave saved (total + dtNs) := by
    intro saved hmem
    have hsave := h.saved saved hmem
    exact ⟨hsave.session.mono hle, hsave.ongoing, hsave.paused, hsave.selected⟩
  rw [SudokuGame.tickClocks]
  simp only
  split
  · exact ⟨h.session.tick dtNs, hsaved, h.selected⟩
  · exact ⟨h.session.tick dtNs, hsaved, h.selected⟩

/-- What is clicked is there. -/
theorem input_inRange (g : SudokuGame) (frames : List InputFrame) :
    ∀ hit ∈ (g.input frames).1, hit.InRange := by
  have hfold : ∀ found : Option HitTarget × Option GameAction, (∀ hit ∈ found.1, hit.InRange) →
      ∀ hit ∈ (frames.foldl (fun found frame =>
        (if frame.pressedButtons &&& 1 ≠ 0 then
            if g.screen = .playing ∧ g.session.result ≠ .ongoing then
              hitTestResultMenu frame.mouseX.toInt frame.mouseY.toInt
            else hitTest g.screen frame.mouseX.toInt frame.mouseY.toInt
          else found.1,
          frame.pressed.findSome? fun key => actionFromKey key.toNat)) found).1, hit.InRange := by
    -- On the frames: a later click replaces an earlier one, and both are hits.
    induction frames with
    | nil =>
      intro found hfound
      exact hfound
    | cons frame frames ih =>
      intro found hfound
      refine ih _ ?_
      intro hit hhit
      simp only at hhit
      split at hhit
      · split at hhit
        · rw [hitTestResultMenu] at hhit
          split at hhit
          · obtain rfl := Option.mem_some_iff.mp hhit
            trivial
          · cases hhit
        · exact hitTest_inRange hhit
      · exact hfound hit hhit
  exact hfold (none, none) (by simp)

theorem tick (h : FairGame g total) (ui : Bool) (dtNs : Nat) (frames : List InputFrame) :
    ∃ g', g.tick ui dtNs frames = some g' ∧ FairGame g' (total + dtNs) := by
  have hclocks := h.tickClocks dtNs
  have htarget := input_inRange (g.tickClocks dtNs) frames
  rw [SudokuGame.tick]
  simp only
  split
  · split
    · exact ⟨_, rfl, hclocks.tickMainMenu _⟩
    · exact ⟨_, rfl, hclocks.tickDifficulty _⟩
    · exact hclocks.tickPlaying htarget _
  · exact ⟨_, rfl, hclocks⟩

theorem run (h : FairGame g total) (ticks : List Tick) :
    ∃ g', g.run ticks = some g' ∧ FairGame g' (total + (ticks.map Tick.dtNs).sum) := by
  induction ticks generalizing g total with
  | nil => exact ⟨g, rfl, h⟩
  | cons t ticks ih =>
    obtain ⟨g₁, htick, h₁⟩ := h.tick t.ui t.dtNs t.frames
    obtain ⟨g₂, hrun, h₂⟩ := ih h₁
    refine ⟨g₂, ?_, ?_⟩
    · rw [SudokuGame.run, List.foldlM_cons, htick]
      exact hrun
    · rw [List.map_cons, List.sum_cons, ← Nat.add_assoc]
      exact h₂

end FairGame

/-- **No tick stops the game, and whatever is played or saved in it was played fairly.** -/
theorem game_run (difficulty : Difficulty) (ticks : List Tick) :
    ∃ g, (SudokuGame.new (GameSession.new difficulty)).run ticks = some g ∧
      FairGame g (ticks.map Tick.dtNs).sum := by
  obtain ⟨g, hrun, hfair⟩ := (FairGame.start difficulty).run ticks
  rw [Nat.zero_add] at hfair
  exact ⟨g, hrun, hfair⟩

/-! ## Through the menu -/

/-- A game in the menu, with one that waits to be continued. -/
structure Waiting (saved : SavedGame) (g : SudokuGame) : Prop where
  screen : g.screen = .mainMenu
  saved : g.saved = some saved

/-- A tick in which nothing of the menu is chosen that leads to a game. -/
def Idle (t : Tick) : Prop :=
  ∀ g : SudokuGame, g.screen = .mainMenu → (g.input t.frames).1 ≠ some (.menu .continue) ∧
    (g.input t.frames).1 ≠ some (.menu .newGame)

theorem tickClocks_screen (g : SudokuGame) (dtNs : Nat) :
    (g.tickClocks dtNs).screen = g.screen ∧ (g.tickClocks dtNs).saved = g.saved ∧
      (g.tickClocks dtNs).selected = g.selected ∧ (g.tickClocks dtNs).noteMode = g.noteMode ∧
      (g.tickClocks dtNs).session = g.session.tick dtNs := by
  rw [SudokuGame.tickClocks]
  simp only
  split
  · exact ⟨rfl, rfl, rfl, rfl, rfl⟩
  · exact ⟨rfl, rfl, rfl, rfl, rfl⟩

theorem onSelected_keeps {g g' : SudokuGame} {f : Nat × Nat → SudokuGame} {saved : SavedGame}
    (h : Waiting saved g) (hf : ∀ cell, Waiting saved (f cell))
    (hacts : g.onSelected f = some g') : Waiting saved g' := by
  rw [SudokuGame.onSelected] at hacts
  split at hacts
  · cases hacts
    exact h
  · split at hacts
    · cases hacts
      exact hf _
    · cases hacts

/-- The key that comes with the click for the menu acts on the game that is left, not on the one
that is saved: a pause is switched off by it, and only one that is switched on saves. -/
theorem applyAction_keeps {g g' : SudokuGame} {action : GameAction} {saved : SavedGame}
    (h : Waiting saved g) (hpaused : g.session.paused = true)
    (hacts : g.applyAction action = some g') : Waiting saved g' := by
  -- The actions that could save are those that pause, and here the session is paused already.
  cases action with
  | move rowDelta columnDelta =>
    simp only [SudokuGame.applyAction] at hacts
    split at hacts
    · cases hacts
      exact ⟨h.screen, h.saved⟩
    · cases hacts
  | toggleNote =>
    cases hacts
    exact ⟨h.screen, h.saved⟩
  | clear =>
    refine onSelected_keeps h ?_ hacts
    intro cell
    exact ⟨h.screen, h.saved⟩
  | hint =>
    obtain ⟨hinted, -, rfl⟩ := Option.map_eq_some_iff.mp hacts
    rw [SudokuGame.applyHint]
    split
    · exact ⟨h.screen, h.saved⟩
    · exact ⟨h.screen, h.saved⟩
  | pause =>
    simp only [SudokuGame.applyAction, hpaused] at hacts
    split at hacts
    · cases hacts
      exact ⟨h.screen, h.saved⟩
    · cases hacts
      exact h
  | digit value =>
    refine onSelected_keeps h (fun cell => ?_) hacts
    rw [SudokuGame.applyDigit]
    split
    · exact ⟨h.screen, h.saved⟩
    · simp only
      split
      · exact ⟨h.screen, h.saved⟩
      · exact ⟨h.screen, h.saved⟩

/-- The tick of the click for the menu. -/
theorem waiting_of_leave {g g' : SudokuGame} {t : Tick} (hui : t.ui = true)
    (hplaying : g.screen = .playing) (hongoing : (g.session.tick t.dtNs).result = .ongoing)
    (hclick : ((g.tickClocks t.dtNs).input t.frames).1 = some (.top .menu))
    (htick : g.tick t.ui t.dtNs t.frames = some g') :
    Waiting (SavedGame.capture (g.session.tick t.dtNs) g.selected g.noteMode) g' := by
  obtain ⟨hscreen, -, hselected, hnote, hsession⟩ := tickClocks_screen g t.dtNs
  simp only [SudokuGame.tick, hui, hscreen, hplaying, if_true, SudokuGame.tickPlaying, hclick,
    SudokuGame.selectCell, Option.bind_some, SudokuGame.targetAction, Option.none_or,
    SudokuGame.saveCurrentSession, hsession, hselected, hnote, hongoing] at htick
  cases haction : ((g.tickClocks t.dtNs).input t.frames).2 with
  | none =>
    rw [haction] at htick
    cases htick
    exact ⟨rfl, rfl⟩
  | some action =>
    rw [haction] at htick
    exact applyAction_keeps ⟨rfl, rfl⟩ rfl htick

/-- A tick in the menu leaves the save alone, whatever its keys are. -/
theorem Waiting.tick {g g' : SudokuGame} {saved : SavedGame} {t : Tick} (h : Waiting saved g)
    (hidle : Idle t) (htick : g.tick t.ui t.dtNs t.frames = some g') : Waiting saved g' := by
  obtain ⟨hscreen, hsaved, -⟩ := tickClocks_screen g t.dtNs
  have hmenu : (g.tickClocks t.dtNs).screen = .mainMenu := hscreen.trans h.screen
  have hclocks : Waiting saved (g.tickClocks t.dtNs) := ⟨hmenu, hsaved.trans h.saved⟩
  obtain ⟨hcontinue, hnew⟩ := hidle _ hmenu
  simp only [SudokuGame.tick, hmenu] at htick
  split at htick
  · cases htick
    unfold SudokuGame.tickMainMenu
    split
    · next heq => exact absurd heq hcontinue
    · next heq => exact absurd heq hnew
    · exact ⟨hclocks.screen, hclocks.saved⟩
    · exact hclocks
  · cases htick
    exact hclocks

/-- Any number of them. -/
theorem Waiting.run {g g' : SudokuGame} {saved : SavedGame} {ticks : List Tick}
    (h : Waiting saved g) (hidle : ∀ t ∈ ticks, Idle t) (hrun : g.run ticks = some g') :
    Waiting saved g' := by
  induction ticks generalizing g with
  | nil =>
    cases hrun
    exact h
  | cons t ticks ih =>
    rw [SudokuGame.run, List.foldlM_cons] at hrun
    obtain ⟨g₁, htick, hrest⟩ := Option.bind_eq_some_iff.mp hrun
    have hfirst := h.tick (hidle t List.mem_cons_self) htick
    exact ih hfirst (fun t' ht' => hidle t' (List.mem_cons_of_mem _ ht')) hrest

/-- The click that continues takes the save up again. -/
theorem Waiting.back {g g' : SudokuGame} {saved : SavedGame} {t : Tick} (h : Waiting saved g)
    (hui : t.ui = true) (hclick : (g.input t.frames).1 = some (.menu .continue))
    (htick : g.tick t.ui t.dtNs t.frames = some g') :
    g'.session = { saved.session with paused := false } ∧ g'.selected = saved.selected ∧
      g'.noteMode = saved.noteMode ∧ g'.screen = .playing ∧ g'.saved = none := by
  obtain ⟨hscreen, hsaved, -⟩ := tickClocks_screen g t.dtNs
  have hmenu : (g.tickClocks t.dtNs).screen = .mainMenu := hscreen.trans h.screen
  have hinput : ((g.tickClocks t.dtNs).input t.frames).1 = some (.menu .continue) := by
    rw [← hclick]
    simp only [SudokuGame.input, hmenu, h.screen]
    rfl
  simp only [SudokuGame.tick, hui, if_true, hmenu, hinput, SudokuGame.tickMainMenu,
    SudokuGame.restoreSavedSession, hsaved, h.saved] at htick
  cases htick
  exact ⟨rfl, rfl, rfl, rfl, rfl⟩

/-- **A game that is left for the menu goes on as it was left.** Whatever the keys and the clock do
between the click for the menu and the one that continues, the session is the one of the first
click. -/
theorem continue_resumes {g g' : SudokuGame} {leave back : Tick} {waiting : List Tick}
    (hui : leave.ui = true ∧ back.ui = true) (hplaying : g.screen = .playing)
    (hongoing : (g.session.tick leave.dtNs).result = .ongoing)
    (hleave : ((g.tickClocks leave.dtNs).input leave.frames).1 = some (.top .menu))
    (hidle : ∀ t ∈ waiting, Idle t)
    (hback : ∀ g : SudokuGame, g.screen = .mainMenu →
      (g.input back.frames).1 = some (.menu .continue))
    (hrun : g.run (leave :: waiting ++ [back]) = some g') :
    g'.session = { g.session.tick leave.dtNs with paused := false } ∧ g'.selected = g.selected ∧
      g'.noteMode = g.noteMode ∧ g'.screen = .playing ∧ g'.saved = none := by
  rw [SudokuGame.run, List.cons_append, List.foldlM_cons] at hrun
  obtain ⟨g₁, hfirst, hrest⟩ := Option.bind_eq_some_iff.mp hrun
  rw [List.foldlM_append] at hrest
  obtain ⟨g₂, hmiddle, hlast⟩ := Option.bind_eq_some_iff.mp hrest
  rw [List.foldlM_cons] at hlast
  obtain ⟨g₃, htick, heq⟩ := Option.bind_eq_some_iff.mp hlast
  cases heq
  have hwaits := (waiting_of_leave hui.1 hplaying hongoing hleave hfirst).run hidle hmiddle
  exact hwaits.back hui.2 (hback g₂ hwaits.screen) htick

/-- A click at a point. -/
def click (x y : Int32) : InputFrame where
  mouseX := x
  mouseY := y
  mouseButtons := 1
  pressedButtons := 1
  releasedButtons := 0
  keyCount := 0
  keys := Vector.replicate 32 0
  pressedKeyCount := 0
  pressedKeys := Vector.replicate 32 0
  releasedKeyCount := 0
  releasedKeys := Vector.replicate 32 0
  textCount := 0
  text := Vector.replicate 64 0

/-- To the menu and back, after a minute there. -/
theorem continue_resumes_minute :
    let g := { SudokuGame.new (GameSession.ofPuzzle .easy solution) with screen := .playing }
    ((g.run [⟨true, 16000000, [click 800 130]⟩, ⟨true, 60000000000, []⟩,
      ⟨true, 16000000, [click 400 300]⟩]).map fun g' =>
        (g'.session.fractionalNs, g'.session.elapsed)) = some (16000000, 0) := by
  intro g
  have hsome : (g.run (⟨true, 16000000, [click 800 130]⟩ :: [⟨true, 60000000000, []⟩] ++
      [⟨true, 16000000, [click 400 300]⟩])).isSome = true := by decide +kernel
  obtain ⟨g', hg'⟩ := Option.isSome_iff_exists.mp hsome
  have hidle : ∀ t ∈ [(⟨true, 60000000000, []⟩ : Tick)], Idle t := by
    intro t ht
    obtain rfl := List.mem_singleton.mp ht
    intro g hg
    exact ⟨nofun, nofun⟩
  have hback : ∀ g : SudokuGame, g.screen = .mainMenu →
      (g.input [click 400 300]).1 = some (.menu .continue) := by
    intro g hg
    simp only [SudokuGame.input, hg, List.foldl_cons, List.foldl_nil]
    rw [if_pos (by decide), if_neg (by simp)]
    decide +kernel
  have hcontinued := continue_resumes ⟨rfl, rfl⟩ rfl (by decide +kernel) (by decide +kernel)
    hidle hback hg'
  have hrun : g.run [⟨true, 16000000, [click 800 130]⟩, ⟨true, 60000000000, []⟩,
      ⟨true, 16000000, [click 400 300]⟩] = some g' := hg'
  rw [hrun, Option.map_some, hcontinued.1]
  decide +kernel

end Sudoku
end EngineKit
