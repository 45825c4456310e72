import EngineKit.Sudoku.Session

/-!
# A fair game

What holds of a session after any calls (`session_run`): the digits of the puzzle stand, every other
cell says truly whether it is empty, right or wrong, notes are in empty cells only, a life is gone
for every mistake and the game over with the last one, and no more hints are taken than the
difficulty has. The clock has counted the time of the ticks that ran, to the nanosecond, and the
game is lost to it as soon as they make up the time that is given.

Once a session has a result, no call changes the result, nor the score (`score_stands`); and the
score of a win is the sum of the rules, with nothing cut off on the way to it.

The books are kept in sums. `lives + mistakes` and the time in nanoseconds do not change in
themselves when a game goes on, and so they survive every call; what the score needs, that few
mistakes were made and that there is time left, is read off them at the end. The clock has two cases
because a tick that reaches the limit throws the rest of a second away: from then on the time is
only bounded, and nothing reads it again.

`puzzle` is compared with the one the session began with and not with the cells, since a cell that
is `given` is recognised by its state alone. That state and puzzle agree is `CellFair`.
-/

set_option autoImplicit false

namespace EngineKit
namespace Sudoku

/-- What a cell says of itself is so. -/
def CellFair (clue value answer : Nat) : CellState → Prop
  | .given => clue ≠ 0 ∧ value = clue
  | .empty => clue = 0 ∧ value = 0
  | .player => clue = 0 ∧ value = answer
  | .hint => clue = 0 ∧ value = answer
  | .error => clue = 0 ∧ 1 ≤ value ∧ value ≤ 9 ∧ value ≠ answer

/-- The books of a session with that puzzle whose clock ran for `ran` nanoseconds. -/
structure Fair (difficulty : Difficulty) (puzzle : Grid) (s : GameSession) (ran : Nat) :
    Prop where
  config : s.config = difficulty.config
  puzzle : s.puzzle = puzzle
  cells : ∀ row column,
    CellFair (s.puzzle row column) (s.values row column) (solution row column) (s.states row column)
  notes : ∀ row column k, s.notes row column k = true → s.values row column = 0
  lives : s.lives + s.mistakes = difficulty.config.maxLives
  dead : s.lives = 0 ↔ s.result = .loseLives
  hints : s.hintsUsed ≤ difficulty.config.maxHints
  clock : s.fractionalNs < nsPerSecond ∧
    if s.result = .loseTime then
      s.elapsed = difficulty.config.maxTimeSec ∧
        difficulty.config.maxTimeSec * nsPerSecond ≤ ran
    else
      s.elapsed < difficulty.config.maxTimeSec ∧ s.elapsed * nsPerSecond + s.fractionalNs = ran

/-- The time a call adds to the clock. -/
def GameSession.time (s : GameSession) : Event → Nat
  | .tick dtNs => if s.paused ∨ s.result ≠ .ongoing then 0 else dtNs
  | _ => 0

theorem assign_same {α : Type} (x : Fin 9 → Fin 9 → α) (row column : Fin 9) (a : α) :
    assign x row column a row column = a := if_pos ⟨rfl, rfl⟩

theorem assign_other {α : Type} {x : Fin 9 → Fin 9 → α} {row column row' column' : Fin 9} (a : α)
    (h : (row', column') ≠ (row, column)) : assign x row column a row' column' = x row' column' :=
  if_neg fun heq => h (Prod.ext heq.1 heq.2)

/-- What the books need of the difficulties. -/
theorem config_bounds (difficulty : Difficulty) :
    0 < difficulty.config.maxLives ∧ difficulty.config.maxLives < u32Max ∧
      difficulty.config.maxHints < u32Max ∧ 0 < difficulty.config.maxTimeSec ∧
      difficulty.config.maxTimeSec ≤ 2700 := by
  cases difficulty <;> decide

theorem second_pos : 0 < nsPerSecond := by decide

namespace Fair

variable {difficulty : Difficulty} {puzzle : Grid} {s : GameSession} {ran : Nat}

/-- A new session is fair: its cells are the puzzle's or empty. -/
theorem start (difficulty : Difficulty) (puzzle : Grid) :
    Fair difficulty puzzle (GameSession.ofPuzzle difficulty puzzle) 0 := by
  obtain ⟨hlives, -, -, htime, -⟩ := config_bounds difficulty
  refine ⟨rfl, rfl, ?_, ?_, rfl, ?_, Nat.zero_le _, second_pos, htime, ?_⟩
  · intro row column
    simp only [GameSession.ofPuzzle]
    split
    · next hclue => exact ⟨hclue, rfl⟩
    · next hclue => exact ⟨not_not.mp hclue, not_not.mp hclue⟩
  · intro row column k hk
    cases hk
  · constructor
    · intro hnone
      exact absurd hnone hlives.ne'
    · intro hlost
      cases hlost
  · simp [GameSession.ofPuzzle]

/-- The cells with one of them set. -/
theorem cells_put (h : Fair difficulty puzzle s ran) {row column : Fin 9} {value : Nat}
    {state : CellState}
    (hcell : CellFair (s.puzzle row column) value (solution row column) state)
    (row' column' : Fin 9) :
    CellFair (s.puzzle row' column') (s.values.put row column value row' column')
      (solution row' column') (assign s.states row column state row' column') := by
  by_cases heq : (row', column') = (row, column)
  · obtain ⟨rfl, rfl⟩ := Prod.mk.inj heq
    rw [put_same, assign_same]
    exact hcell
  · rw [put_other _ heq, assign_other _ heq]
    exact h.cells row' column'

/-- The notes with those of one cell struck out. -/
theorem notes_put (h : Fair difficulty puzzle s ran) (row column : Fin 9) (value : Nat)
    (row' column' k : Fin 9)
    (hk : assign s.notes row column (fun _ => false) row' column' k = true) :
    s.values.put row column value row' column' = 0 := by
  by_cases heq : (row', column') = (row, column)
  · obtain ⟨rfl, rfl⟩ := Prod.mk.inj heq
    rw [assign_same] at hk
    cases hk
  · rw [assign_other _ heq] at hk
    rw [put_other _ heq]
    exact h.notes row' column' k hk

/-- A cell that is not of the puzzle. -/
theorem clue_eq_zero (h : Fair difficulty puzzle s ran) {row column : Fin 9}
    (hstate : s.states row column ≠ .given) : s.puzzle row column = 0 := by
  have hcell := h.cells row column
  cases hs : s.states row column with
  | given => exact absurd hs hstate
  | empty =>
    rw [hs] at hcell
    exact hcell.1
  | player =>
    rw [hs] at hcell
    exact hcell.1
  | hint =>
    rw [hs] at hcell
    exact hcell.1
  | error =>
    rw [hs] at hcell
    exact hcell.1

/-! ## The calls -/

/-- **The clock.** Whole seconds are counted off and the rest is kept, so no nanosecond is lost. -/
theorem tick (h : Fair difficulty puzzle s ran) (dtNs : Nat) :
    Fair difficulty puzzle (s.tick dtNs) (ran + s.time (.tick dtNs)) := by
  obtain ⟨-, -, -, htime, hlong⟩ := config_bounds difficulty
  rw [GameSession.tick, GameSession.time]
  -- A clock that stands adds no time.
  by_cases hstopped : s.paused = true ∨ s.result ≠ .ongoing
  · rw [if_pos hstopped, if_pos hstopped]
    exact h
  · rw [if_neg hstopped, if_neg hstopped]
    have hongoing : s.result = .ongoing := not_not.mp (not_or.mp hstopped).2
    obtain ⟨hfraction, hclock⟩ := h.clock
    rw [if_neg (by rw [hongoing]; decide)] at hclock
    obtain ⟨helapsed, hran⟩ := hclock
    have hmax : s.config.maxTimeSec = difficulty.config.maxTimeSec := by rw [h.config]
    have hmod : min (s.fractionalNs + dtNs) u64Max % nsPerSecond < nsPerSecond :=
      Nat.mod_lt _ second_pos
    have hsplit := Nat.div_add_mod (min (s.fractionalNs + dtNs) u64Max) nsPerSecond
    simp only
    split
    · next hlost =>
      refine ⟨h.config, h.puzzle, h.cells, h.notes, h.lives, ?_, h.hints, hmod, hmax, ?_⟩
      · simp only [h.dead, hongoing]
        exact ⟨fun hno => (by cases hno), fun hno => (by cases hno)⟩
      · simp only [nsPerSecond, u64Max, u32Max] at *
        omega
    · next hgoes =>
      refine ⟨h.config, h.puzzle, h.cells, h.notes, h.lives, h.dead, h.hints, hmod, ?_⟩
      rw [if_neg (by rw [hongoing]; decide)]
      -- short of the end nothing has saturated
      simp only [nsPerSecond, u64Max, u32Max] at *
      omega

/-- Taking a digit back costs nothing and gives nothing back. -/
theorem clearCell (h : Fair difficulty puzzle s ran) (row column : Fin 9) :
    Fair difficulty puzzle (s.clearCell row column) ran := by
  rw [GameSession.clearCell]
  split
  · next hstate =>
    have hcell : CellFair (s.puzzle row column) 0 (solution row column) .empty :=
      ⟨h.clue_eq_zero hstate, rfl⟩
    exact ⟨h.config, h.puzzle, h.cells_put hcell, h.notes_put row column 0, h.lives, h.dead,
      h.hints, h.clock⟩
  · exact h

/-- **A move.** -/
theorem moveCell (h : Fair difficulty puzzle s ran) (row column : Fin 9) (value : Nat) :
    Fair difficulty puzzle (s.moveCell row column value).2 ran := by
  obtain ⟨-, hlives, -, -, -⟩ := config_bounds difficulty
  rw [GameSession.moveCell]
  -- A refused move changes nothing, not even the notes.
  by_cases hrefused :
      s.result ≠ .ongoing ∨ s.paused = true ∨ s.states row column = .given ∨ 9 < value
  · rw [if_pos hrefused]
    exact h
  · rw [if_neg hrefused]
    obtain ⟨hresult, -, hstate, hvalue⟩ : s.result = .ongoing ∧ s.paused ≠ true ∧
        s.states row column ≠ .given ∧ value ≤ 9 := by
      simpa [not_or] using hrefused
    have hclue := h.clue_eq_zero hstate
    have hclock : s.fractionalNs < nsPerSecond ∧ s.elapsed < difficulty.config.maxTimeSec ∧
        s.elapsed * nsPerSecond + s.fractionalNs = ran := by
      obtain ⟨hfraction, hclock⟩ := h.clock
      rw [if_neg (by rw [hresult]; decide)] at hclock
      exact ⟨hfraction, hclock⟩
    have halive : s.lives ≠ 0 := by
      rw [Ne, h.dead, hresult]
      decide
    by_cases hzero : value = 0
    · rw [if_pos hzero]
      exact h.clearCell row column
    · rw [if_neg hzero]
      -- Right, wrong, or taken back; only the wrong one costs a life.
      by_cases hright : value = solution row column
      · simp only [if_pos hright]
        have hcell : CellFair (s.puzzle row column) value (solution row column) .player :=
          ⟨hclue, hright⟩
        split
        · refine ⟨h.config, h.puzzle, h.cells_put hcell, h.notes_put row column value, h.lives, ?_,
            h.hints, hclock.1, hclock.2⟩
          simp only [halive, false_iff]
          decide
        · exact ⟨h.config, h.puzzle, h.cells_put hcell, h.notes_put row column value, h.lives,
            h.dead, h.hints, h.clock⟩
      · simp only [if_neg hright]
        have hcell : CellFair (s.puzzle row column) value (solution row column) .error :=
          ⟨hclue, Nat.pos_of_ne_zero hzero, hvalue, hright⟩
        have hcount : s.lives - 1 + min (s.mistakes + 1) u32Max = difficulty.config.maxLives := by
          have hsum := h.lives
          have hfew : s.mistakes + 1 ≤ u32Max := by
            refine (Nat.succ_le_succ ?_).trans hlives
            rw [← hsum]
            exact Nat.le_add_left _ _
          rw [Nat.min_eq_left hfew]
          clear hlives hfew hclock
          omega
        split
        · next hdead =>
          have hlost : s.lives - 1 = 0 ↔ SessionResult.loseLives = .loseLives := by
            simp only [hdead]
          exact ⟨h.config, h.puzzle, h.cells_put hcell, h.notes_put row column value, hcount,
            hlost, h.hints, hclock⟩
        · next hdead =>
          refine ⟨h.config, h.puzzle, h.cells_put hcell, h.notes_put row column value, hcount, ?_,
            h.hints, h.clock⟩
          simp [hdead, hresult]

/-- A hint puts the answer in, and counts. -/
theorem hintCell (h : Fair difficulty puzzle s ran) (row column : Fin 9) :
    Fair difficulty puzzle (s.hintCell row column).2 ran := by
  obtain ⟨-, -, hfew, -, -⟩ := config_bounds difficulty
  rw [GameSession.hintCell]
  by_cases hrefused : s.config.maxHints ≤ s.hintsUsed ∨ s.result ≠ .ongoing ∨
      s.values row column ≠ 0 ∨ s.states row column = .given
  · rw [if_pos hrefused]
    exact h
  · rw [if_neg hrefused]
    obtain ⟨hleft, hresult, -, hstate⟩ : s.hintsUsed < s.config.maxHints ∧ s.result = .ongoing ∧
        s.values row column = 0 ∧ s.states row column ≠ .given := by
      simpa [not_or] using hrefused
    have hcell : CellFair (s.puzzle row column) (solution row column) (solution row column) .hint :=
      ⟨h.clue_eq_zero hstate, rfl⟩
    have hcount : min (s.hintsUsed + 1) u32Max ≤ difficulty.config.maxHints := by
      rw [h.config] at hleft
      omega
    have hclock : s.fractionalNs < nsPerSecond ∧ s.elapsed < difficulty.config.maxTimeSec ∧
        s.elapsed * nsPerSecond + s.fractionalNs = ran := by
      obtain ⟨hfraction, hclock⟩ := h.clock
      rw [if_neg (by rw [hresult]; decide)] at hclock
      exact ⟨hfraction, hclock⟩
    have halive : s.lives ≠ 0 := by
      rw [Ne, h.dead, hresult]
      decide
    simp only
    split
    · refine ⟨h.config, h.puzzle, h.cells_put hcell, h.notes_put row column _, h.lives, ?_, hcount,
        hclock.1, hclock.2⟩
      simp only [halive, false_iff]
      decide
    · exact ⟨h.config, h.puzzle, h.cells_put hcell, h.notes_put row column _, h.lives, h.dead,
        hcount, h.clock⟩

theorem clear (h : Fair difficulty puzzle s ran) (row column : Nat) :
    Fair difficulty puzzle (s.clear row column) ran := by
  rw [GameSession.clear]
  split
  · exact h.clearCell _ _
  · exact h

theorem makeMove (h : Fair difficulty puzzle s ran) (row column value : Nat) :
    Fair difficulty puzzle (s.makeMove row column value).2 ran := by
  rw [GameSession.makeMove]
  split
  · exact h.moveCell _ _ _
  · exact h

theorem hintAt (h : Fair difficulty puzzle s ran) (row column : Nat) :
    Fair difficulty puzzle (s.hintAt row column).2 ran := by
  rw [GameSession.hintAt]
  split
  · exact h.hintCell _ _
  · exact h

theorem hint (h : Fair difficulty puzzle s ran) : Fair difficulty puzzle s.hint.2 ran := by
  rw [GameSession.hint]
  split
  · exact h
  · cases firstEmpty s.values with
    | none => exact h
    | some cell => exact h.hintCell cell.1 cell.2

/-- Notes are set in empty cells only. -/
theorem toggleNote (h : Fair difficulty puzzle s ran) (row column value : Nat) :
    Fair difficulty puzzle (s.toggleNote row column value) ran := by
  rw [GameSession.toggleNote]
  split
  · next hin =>
    simp only
    split
    · exact h
    · next hopen =>
      have hempty := not_not.mp (not_or.mp hopen).2
      refine ⟨h.config, h.puzzle, h.cells, ?_, h.lives, h.dead, h.hints, h.clock⟩
      intro row' column' k hk
      by_cases heq : (row', column') = (⟨row, hin.1⟩, ⟨column, hin.2.1⟩)
      · rw [(Prod.mk.inj heq).1, (Prod.mk.inj heq).2]
        exact hempty
      · simp only [assign_other _ heq] at hk
        exact h.notes row' column' k hk
  · exact h

theorem paused (h : Fair difficulty puzzle s ran) (paused : Bool) :
    Fair difficulty puzzle { s with paused } ran :=
  ⟨h.config, h.puzzle, h.cells, h.notes, h.lives, h.dead, h.hints, h.clock⟩

theorem togglePause (h : Fair difficulty puzzle s ran) :
    Fair difficulty puzzle s.togglePause ran := by
  rw [GameSession.togglePause]
  split
  · exact h.paused _
  · exact h

/-- **One call keeps the books.** -/
theorem react (h : Fair difficulty puzzle s ran) (event : Event) :
    Fair difficulty puzzle (s.react event) (ran + s.time event) := by
  cases event with
  | tick dtNs => exact h.tick dtNs
  | makeMove row column value => exact h.makeMove row column value
  | clear row column => exact h.clear row column
  | toggleNote row column value => exact h.toggleNote row column value
  | hintAt row column => exact h.hintAt row column
  | hint => exact h.hint
  | togglePause => exact h.togglePause
  | park => exact h.paused true

end Fair

/-- A session after the calls, in their order. -/
def GameSession.run (s : GameSession) (events : List Event) : GameSession :=
  events.foldl GameSession.react s

/-- The time its clock has run for, in them. -/
def GameSession.ran (s : GameSession) : List Event → Nat
  | [] => 0
  | event :: events => s.time event + (s.react event).ran events

/-- Any number of them. -/
theorem Fair.run {difficulty : Difficulty} {puzzle : Grid} {s : GameSession} {ran : Nat}
    (h : Fair difficulty puzzle s ran) (events : List Event) :
    Fair difficulty puzzle (s.run events) (ran + s.ran events) := by
  induction events generalizing s ran with
  | nil => exact h
  | cons event events ih =>
    have hrest := ih (h.react event)
    rw [Nat.add_assoc] at hrest
    exact hrest

/-- **The books of a session are kept.** -/
theorem session_run (difficulty : Difficulty) (events : List Event) :
    Fair difficulty ((PuzzleGenerator.new 0x5EED2026).generate difficulty).1
      ((GameSession.new difficulty).run events) ((GameSession.new difficulty).ran events) := by
  have hrun := (Fair.start difficulty ((PuzzleGenerator.new 0x5EED2026).generate difficulty).1).run
    events
  rw [Nat.zero_add] at hrun
  exact hrun

/-! ## The result -/

/-- What the score is made of. -/
structure SameScore (s t : GameSession) : Prop where
  config : t.config = s.config
  result : t.result = s.result
  elapsed : t.elapsed = s.elapsed
  mistakes : t.mistakes = s.mistakes
  hintsUsed : t.hintsUsed = s.hintsUsed

theorem SameScore.refl (s : GameSession) : SameScore s s := ⟨rfl, rfl, rfl, rfl, rfl⟩

theorem SameScore.trans {s t u : GameSession} (h : SameScore s t) (h' : SameScore t u) :
    SameScore s u :=
  ⟨h'.config.trans h.config, h'.result.trans h.result, h'.elapsed.trans h.elapsed,
    h'.mistakes.trans h.mistakes, h'.hintsUsed.trans h.hintsUsed⟩

theorem SameScore.score {s t : GameSession} (h : SameScore s t) : t.score = s.score := by
  rw [GameSession.score, GameSession.score, h.config, h.result, h.elapsed, h.mistakes, h.hintsUsed]

theorem SameScore.clear (s : GameSession) (row column : Nat) :
    SameScore s (s.clear row column) := by
  rw [GameSession.clear]
  split
  · rw [GameSession.clearCell]
    split
    · exact ⟨rfl, rfl, rfl, rfl, rfl⟩
    · exact SameScore.refl s
  · exact SameScore.refl s

theorem SameScore.toggleNote (s : GameSession) (row column value : Nat) :
    SameScore s (s.toggleNote row column value) := by
  rw [GameSession.toggleNote]
  split
  · simp only
    split
    · exact SameScore.refl s
    · exact ⟨rfl, rfl, rfl, rfl, rfl⟩
  · exact SameScore.refl s

/-- No call on a session that has a result touches the score. -/
theorem SameScore.react {s : GameSession} (h : s.result ≠ .ongoing) (event : Event) :
    SameScore s (s.react event) := by
  cases event with
  | tick dtNs =>
    rw [GameSession.react, GameSession.tick, if_pos (.inr h)]
    exact SameScore.refl s
  | makeMove row column value =>
    rw [GameSession.react, GameSession.makeMove]
    split
    · rw [GameSession.moveCell, if_pos (.inl h)]
      exact SameScore.refl s
    · exact SameScore.refl s
  | clear row column => exact SameScore.clear s row column
  | toggleNote row column value => exact SameScore.toggleNote s row column value
  | hintAt row column =>
    rw [GameSession.react, GameSession.hintAt]
    split
    · rw [GameSession.hintCell, if_pos (.inr (.inl h))]
      exact SameScore.refl s
    · exact SameScore.refl s
  | hint =>
    rw [GameSession.react, GameSession.hint, if_pos (.inr h)]
    exact SameScore.refl s
  | togglePause =>
    rw [GameSession.react, GameSession.togglePause, if_neg h]
    exact SameScore.refl s
  | park => exact ⟨rfl, rfl, rfl, rfl, rfl⟩

theorem SameScore.run {s : GameSession} (h : s.result ≠ .ongoing) (events : List Event) :
    SameScore s (s.run events) := by
  induction events generalizing s with
  | nil => exact SameScore.refl s
  | cons event events ih =>
    have hfirst := SameScore.react h event
    have hdone : (s.react event).result ≠ .ongoing := by
      rw [hfirst.result]
      exact h
    exact hfirst.trans (ih hdone)

/-- The points of the rules, in numbers that nothing is cut off from: there are ten for every second
    left, and a mistake costs 500 and a hint 200. -/
def points (config : DifficultyConfig) (elapsed mistakes hintsUsed : Int) : Int :=
  (10000 + 10 * (config.maxTimeSec - elapsed) - (500 * mistakes + 200 * hintsUsed)) *
    config.scoreMultiplierX10 / 10

/-- No sum in the score comes near the end of 32 bits. -/
theorem fits {n : Nat} (h : n ≤ 1000000) : min n u32Max = n :=
  Nat.min_eq_left (h.trans (by decide))

/-- Nothing is cut off in the points of a win. -/
theorem unclipped {left mistakes hints factor : Nat} (hleft : left ≤ 2700)
    (hmistakes : mistakes ≤ 2) (hhints : hints ≤ 3) (hfactor : factor ≤ 20) :
    min ((min (10000 + min (left * 10) u32Max) u32Max -
      min (min (mistakes * 500) u32Max + min (hints * 200) u32Max) u32Max) * factor) u32Max / 10 =
      (10000 + 10 * left - (500 * mistakes + 200 * hints)) * factor / 10 := by
  have hbonus : left * 10 ≤ 2700 * 10 := Nat.mul_le_mul_right 10 hleft
  have hmissed : mistakes * 500 ≤ 2 * 500 := Nat.mul_le_mul_right 500 hmistakes
  have hhinted : hints * 200 ≤ 3 * 200 := Nat.mul_le_mul_right 200 hhints
  have hsum := Nat.add_le_add hmissed hhinted
  have hraw := Nat.add_le_add_left hbonus 10000
  have hproduct := Nat.mul_le_mul
    ((Nat.sub_le _ (mistakes * 500 + hints * 200)).trans hraw) hfactor
  rw [fits (hbonus.trans (by decide)), fits (hmissed.trans (by decide)),
    fits (hhinted.trans (by decide)), fits (hsum.trans (by decide)),
    fits (hraw.trans (by decide)), fits (hproduct.trans (by decide)), Nat.mul_comm left,
    Nat.mul_comm mistakes, Nat.mul_comm hints]

/-- The books of a game that is won. -/
structure Won (difficulty : Difficulty) (s : GameSession) : Prop where
  alive : 0 < s.lives
  mistakes : s.mistakes ≤ 2
  /-- There is time left. -/
  elapsed : s.elapsed < difficulty.config.maxTimeSec
  /-- There are more points than the mistakes and the hints cost. -/
  penalties : 500 * s.mistakes + 200 * s.hintsUsed ≤ 10000
  stars : 1 ≤ s.score.1 ∧ s.score.1 ≤ 3
  points : (s.score.2 : Int) = points difficulty.config s.elapsed s.mistakes s.hintsUsed

/-- A win has a life left, so mistakes were few, and it has time left, as it would be lost
    otherwise. -/
theorem Fair.won {difficulty : Difficulty} {puzzle : Grid} {s : GameSession} {ran : Nat}
    (h : Fair difficulty puzzle s ran) (hwin : s.result = .win) : Won difficulty s := by
  have hlives := h.lives
  have halive : s.lives ≠ 0 := by
    rw [Ne, h.dead, hwin]
    decide
  have hthree : difficulty.config.maxLives = 3 ∧ difficulty.config.maxHints ≤ 3 ∧
      difficulty.config.maxTimeSec ≤ 2700 ∧ difficulty.config.scoreMultiplierX10 ≤ 20 := by
    cases difficulty <;> decide
  obtain ⟨hmax, hfew, hlong, hfactor⟩ := hthree
  have hmistakes : s.mistakes ≤ 2 := by omega
  have hhints := h.hints.trans hfew
  have helapsed : s.elapsed < difficulty.config.maxTimeSec := by
    have hclock := h.clock.2
    rw [if_neg (by rw [hwin]; decide)] at hclock
    exact hclock.1
  refine ⟨Nat.pos_of_ne_zero halive, hmistakes, helapsed, by omega, ?_, ?_⟩
  · rw [GameSession.score, if_neg (not_not.mpr hwin)]
    simp only
    split
    · decide
    · split
      · decide
      · decide
  · have hscore : s.score.2 = (10000 + 10 * (difficulty.config.maxTimeSec - s.elapsed) -
        (500 * s.mistakes + 200 * s.hintsUsed)) * difficulty.config.scoreMultiplierX10 / 10 := by
      rw [GameSession.score, if_neg (not_not.mpr hwin), h.config]
      exact unclipped ((Nat.sub_le _ _).trans hlong) hmistakes hhints hfactor
    -- neither difference of the code is cut off at zero
    have hraw : ((10000 + 10 * (difficulty.config.maxTimeSec - s.elapsed) -
        (500 * s.mistakes + 200 * s.hintsUsed) : Nat) : Int) =
          10000 + 10 * ((difficulty.config.maxTimeSec : Int) - s.elapsed) -
            (500 * s.mistakes + 200 * s.hintsUsed) := by
      omega
    rw [hscore, Sudoku.points, Int.natCast_ediv, Int.natCast_mul, hraw]
    rfl

/-- **A result stands.** Nothing that is done after it changes the score; a game that is lost has
none, and one that is won has the points of the rules for the time that is left, less those for at
most two mistakes and the hints. -/
theorem score_stands {difficulty : Difficulty} {puzzle : Grid} {events : List Event}
    (hdone : ((GameSession.ofPuzzle difficulty puzzle).run events).result ≠ .ongoing)
    (later : List Event) :
    let s := (GameSession.ofPuzzle difficulty puzzle).run events
    SameScore s (s.run later) ∧ (s.run later).score = s.score ∧
      (s.result ≠ .win → s.score = (0, 0)) ∧ (s.result = .win → Won difficulty s) := by
  intro s
  have hfair := (Fair.start difficulty puzzle).run events
  have hsame := SameScore.run hdone later
  refine ⟨hsame, hsame.score, ?_, hfair.won⟩
  intro hlost
  rw [GameSession.score, if_pos hlost]

/-- The last cell of a board, after a wrong try. -/
theorem score_stands_last :
    let s := (GameSession.ofPuzzle .easy (solution.put 0 0 0)).run
      [.makeMove 0 0 4, .tick 1500000000, .makeMove 0 0 5]
    s.score = (3, 21490) ∧ Won .easy s ∧
      (s.run [.tick 1000000000, .clear 0 0]).score = s.score := by
  intro s
  have hwin : s.result = .win := by decide +kernel
  have hdone : s.result ≠ .ongoing := by
    rw [hwin]
    decide
  obtain ⟨-, hscore, -, hwon⟩ := score_stands hdone [.tick 1000000000, .clear 0 0]
  exact ⟨by decide +kernel, hwon hwin, hscore⟩

end Sudoku
end EngineKit
