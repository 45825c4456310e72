import EngineKit.Sudoku.Generate

/-!
# A session

`GameSession` of `examples/sudoku_game/model.rs`: the board of a player, with the clock, the lives
and the hints. The calls on it are listed in `Event`, with the switch of the pause and the way to
the menu as `examples/sudoku_game/game.rs` has them.

What the calls return is kept with what they change, as the game uses both. `elapsed` and the
counters are saturating in the source (`saturating_add`), and so they are here.
-/

set_option autoImplicit false

namespace EngineKit
namespace Sudoku

inductive SessionResult where
  | ongoing
  | win
  | loseLives
  | loseTime
deriving DecidableEq

inductive CellState where
  | empty
  | given
  | player
  | error
  | hint
deriving DecidableEq

structure GameSession where
  config : DifficultyConfig
  puzzle : Grid
  values : Grid
  states : Fin 9 → Fin 9 → CellState
  notes : Fin 9 → Fin 9 → Fin 9 → Bool
  elapsed : Nat
  lives : Nat
  mistakes : Nat
  hintsUsed : Nat
  result : SessionResult
  paused : Bool
  fractionalNs : Nat

/-- `x[row][column] = a` -/
def assign {α : Type} (x : Fin 9 → Fin 9 → α) (row column : Fin 9) (a : α) : Fin 9 → Fin 9 → α :=
  fun row' column' => if row' = row ∧ column' = column then a else x row' column'

def u32Max : Nat := 4294967295

def u64Max : Nat := 18446744073709551615

def nsPerSecond : Nat := 1000000000

namespace GameSession

/-- A session at the start, with that puzzle. -/
def ofPuzzle (difficulty : Difficulty) (puzzle : Grid) : GameSession :=
  { config := difficulty.config
    puzzle
    values := puzzle
    states := fun row column => if puzzle row column ≠ 0 then .given else .empty
    notes := fun _ _ _ => false
    elapsed := 0
    lives := difficulty.config.maxLives
    mistakes := 0
    hintsUsed := 0
    result := .ongoing
    paused := false
    fractionalNs := 0 }

def new (difficulty : Difficulty) : GameSession :=
  ofPuzzle difficulty ((PuzzleGenerator.new 0x5EED2026).generate difficulty).1

def tick (s : GameSession) (dtNs : Nat) : GameSession :=
  if s.paused ∨ s.result ≠ .ongoing then s
  else
    let fractionalNs := min (s.fractionalNs + dtNs) u64Max
    let elapsedSeconds := fractionalNs / nsPerSecond
    let fractionalNs := fractionalNs % nsPerSecond
    let elapsed := min (s.elapsed + min elapsedSeconds u32Max) u32Max
    if s.config.maxTimeSec ≤ elapsed then
      { s with
        fractionalNs
        elapsed := s.config.maxTimeSec
        result := .loseTime
        paused := true }
    else { s with fractionalNs, elapsed }

/-- `clear` on a cell of the board. -/
def clearCell (s : GameSession) (row column : Fin 9) : GameSession :=
  if s.states row column ≠ .given then
    { s with
      values := s.values.put row column 0
      states := assign s.states row column .empty
      notes := assign s.notes row column fun _ => false }
  else s

def clear (s : GameSession) (row column : Nat) : GameSession :=
  if h : row < 9 ∧ column < 9 then s.clearCell ⟨row, h.1⟩ ⟨column, h.2⟩ else s

def full (values : Grid) : Bool :=
  (List.finRange 9).all fun row => (List.finRange 9).all fun column => values row column ≠ 0

/-- `self.values == SOLUTION` -/
def isSolution (values : Grid) : Bool :=
  (List.finRange 9).all fun row =>
    (List.finRange 9).all fun column => values row column = solution row column

/-- `make_move` on a cell of the board: whether the move was accepted, and whether it was right. -/
def moveCell (s : GameSession) (row column : Fin 9) (value : Nat) : (Bool × Bool) × GameSession :=
  if s.result ≠ .ongoing ∨ s.paused ∨ s.states row column = .given ∨ 9 < value then
    ((false, false), s)
  else if value = 0 then ((true, true), s.clearCell row column)
  else
    let s := { s with
      values := s.values.put row column value
      notes := assign s.notes row column fun _ => false }
    if value = solution row column then
      let s := { s with states := assign s.states row column .player }
      if full s.values && isSolution s.values then
        ((true, true), { s with result := .win, paused := true })
      else ((true, true), s)
    else
      let s := { s with
        states := assign s.states row column .error
        mistakes := min (s.mistakes + 1) u32Max
        lives := s.lives - 1 }
      if s.lives = 0 then ((true, false), { s with result := .loseLives, paused := true })
      else ((true, false), s)

def makeMove (s : GameSession) (row column value : Nat) : (Bool × Bool) × GameSession :=
  if h : row < 9 ∧ column < 9 then s.moveCell ⟨row, h.1⟩ ⟨column, h.2⟩ value
  else ((false, false), s)

def toggleNote (s : GameSession) (row column value : Nat) : GameSession :=
  if h : row < 9 ∧ column < 9 ∧ 1 ≤ value ∧ value ≤ 9 then
    let row : Fin 9 := ⟨row, h.1⟩
    let column : Fin 9 := ⟨column, h.2.1⟩
    let note : Fin 9 := ⟨value - 1, by omega⟩
    if s.states row column = .given ∨ s.values row column ≠ 0 then s
    else
      { s with
        notes := assign s.notes row column fun k =>
          if k = note then ! s.notes row column note else s.notes row column k }
  else s

/-- `hint_at` on a cell of the board. -/
def hintCell (s : GameSession) (row column : Fin 9) :
    Option (Fin 9 × Fin 9 × Nat) × GameSession :=
  if s.config.maxHints ≤ s.hintsUsed ∨ s.result ≠ .ongoing ∨ s.values row column ≠ 0 ∨
      s.states row column = .given then (none, s)
  else
    let value := solution row column
    let s := { s with
      values := s.values.put row column value
      states := assign s.states row column .hint
      notes := assign s.notes row column fun _ => false
      hintsUsed := min (s.hintsUsed + 1) u32Max }
    if full s.values then (some (row, column, value), { s with result := .win, paused := true })
    else (some (row, column, value), s)

def hintAt (s : GameSession) (row column : Nat) : Option (Fin 9 × Fin 9 × Nat) × GameSession :=
  if h : row < 9 ∧ column < 9 then s.hintCell ⟨row, h.1⟩ ⟨column, h.2⟩ else (none, s)

def hint (s : GameSession) : Option (Fin 9 × Fin 9 × Nat) × GameSession :=
  if s.config.maxHints ≤ s.hintsUsed ∨ s.result ≠ .ongoing then (none, s)
  else
    match firstEmpty s.values with
    | none => (none, s)
    | some (row, column) => s.hintCell row column

/-- Stars and points. -/
def score (s : GameSession) : Nat × Nat :=
  if s.result ≠ .win then (0, 0)
  else
    let stars :=
      if s.elapsed ≤ s.config.threeStarSec then 3
      else if s.elapsed ≤ s.config.twoStarSec then 2
      else 1
    let timeBonus := min ((s.config.maxTimeSec - s.elapsed) * 10) u32Max
    let penalties := min (min (s.mistakes * 500) u32Max + min (s.hintsUsed * 200) u32Max) u32Max
    let raw := min (10000 + timeBonus) u32Max - penalties
    (stars, min (raw * s.config.scoreMultiplierX10) u32Max / 10)

/-- The pause action. -/
def togglePause (s : GameSession) : GameSession :=
  if s.result = .ongoing then { s with paused := ! s.paused } else s

/-- The way to the menu. -/
def park (s : GameSession) : GameSession := { s with paused := true }

end GameSession

/-! ## Calls -/

inductive Event where
  | tick (dtNs : Nat)
  | makeMove (row column value : Nat)
  | clear (row column : Nat)
  | toggleNote (row column value : Nat)
  | hintAt (row column : Nat)
  | hint
  | togglePause
  | park

def GameSession.react (s : GameSession) : Event → GameSession
  | .tick dtNs => s.tick dtNs
  | .makeMove row column value => (s.makeMove row column value).2
  | .clear row column => s.clear row column
  | .toggleNote row column value => s.toggleNote row column value
  | .hintAt row column => (s.hintAt row column).2
  | .hint => s.hint.2
  | .togglePause => s.togglePause
  | .park => s.park

end Sudoku
end EngineKit
