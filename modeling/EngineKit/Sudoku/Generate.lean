import EngineKit.Sudoku.Solver

/-!
# Puzzles with one solution

`PuzzleGenerator` of `examples/sudoku_game/model.rs`. It goes through the cells of the solution in a
shuffled order and empties a cell whenever the puzzle keeps exactly one solution, until as many are
empty as were asked for.

Whatever the state of the generator, what comes out is solved by `SOLUTION` and by nothing else; and
where it has fewer empty cells than were asked for, none of its digits can be spared
(`generate_spec`).

That a digit cannot be spared is asked of the puzzle as it is when the loop is done, and it was
found out when the puzzle had more digits. It carries over because a puzzle with fewer digits has no
fewer solutions (`unique_of_keeps`). So the invariant of the loop speaks of the cells that were
tried and of the puzzle now (`Carved.spares`), and nothing has to be remembered of the puzzles in
between.
-/

set_option autoImplicit false

namespace EngineKit
namespace Sudoku

inductive Difficulty where
  | easy
  | medium
  | hard
deriving DecidableEq

structure DifficultyConfig where
  name : String
  blanksMin : Nat
  blanksMax : Nat
  maxLives : Nat
  maxHints : Nat
  maxTimeSec : Nat
  threeStarSec : Nat
  twoStarSec : Nat
  scoreMultiplierX10 : Nat
deriving DecidableEq

def Difficulty.config : Difficulty → DifficultyConfig
  | .easy => ⟨"Easy", 46, 50, 3, 3, 1200, 300, 600, 10⟩
  | .medium => ⟨"Medium", 51, 55, 3, 1, 1800, 480, 1080, 15⟩
  | .hard => ⟨"Hard", 56, 64, 3, 0, 2700, 720, 1680, 20⟩

structure PuzzleGenerator where
  state : UInt64

namespace PuzzleGenerator

def new (seed : UInt64) : PuzzleGenerator := ⟨seed ||| 1⟩

/-- The number drawn is the state it leaves. -/
def next (g : PuzzleGenerator) : PuzzleGenerator :=
  let state := g.state ^^^ (g.state <<< 7)
  let state := state ^^^ (state >>> 9)
  ⟨state ^^^ (state <<< 8)⟩

/-- The loop that shuffles the cells, from the last one down. -/
def shuffle : List Nat → Array Nat → PuzzleGenerator → Array Nat × PuzzleGenerator
  | [], positions, g => (positions, g)
  | index :: rest, positions, g =>
    let g := g.next
    let swap := g.state.toNat % (index + 1)
    shuffle rest (positions.swapIfInBounds index swap) g

/-- The loop that empties cells: the puzzle, and how many are empty. -/
def carve (target : Nat) : List Nat → Grid → Nat → Grid × Nat
  | [], puzzle, removed => (puzzle, removed)
  | position :: positions, puzzle, removed =>
    if removed = target then (puzzle, removed)
    else
      let row := lineAt (position / 9)
      let column := lineAt (position % 9)
      let saved := puzzle row column
      let puzzle := puzzle.put row column 0
      if (countSolutions 81 puzzle 2).1 = 1 then carve target positions puzzle (removed + 1)
      else carve target positions (puzzle.put row column saved) removed

/-- How many cells are to be emptied, and the generator after the draw. -/
def target (g : PuzzleGenerator) (difficulty : Difficulty) : Nat × PuzzleGenerator :=
  let config := difficulty.config
  let g := g.next
  (config.blanksMin + g.state.toNat % (config.blanksMax - config.blanksMin + 1), g)

def generate (g : PuzzleGenerator) (difficulty : Difficulty) : Grid × PuzzleGenerator :=
  let drawn := g.target difficulty
  let shuffled := shuffle (List.range' 1 80).reverse (Array.range 81) drawn.2
  ((carve drawn.1 shuffled.1.toList solution 0).1, shuffled.2)

end PuzzleGenerator

/-! ## Solutions of a puzzle -/

/-- A full grid by the rules of the game. -/
structure Valid (h : Grid) : Prop where
  digits : ∀ row column, 1 ≤ h row column ∧ h row column ≤ 9
  rules : ∀ row column, ∀ q, Peer (row, column) q → h q.1 q.2 ≠ h row column

/-- One with the digits of the puzzle. -/
structure Solves (puzzle h : Grid) : Prop where
  valid : Valid h
  keeps : ∀ row column, puzzle row column ≠ 0 → h row column = puzzle row column

/-- `SOLUTION` is by the rules. -/
theorem valid_solution : Valid solution := by
  refine ⟨?_, ?_⟩
  · decide +kernel
  · have hall : ∀ row column row' column', Peer (row, column) (row', column') →
        solution row' column' ≠ solution row column := by decide +kernel
    intro row column q
    exact hall row column q.1 q.2

/-- Cut out of a solution. -/
theorem completes_iff_solves {puzzle h : Grid} (hcut : Solves puzzle solution) :
    Completes puzzle h ↔ Solves puzzle h := by
  constructor
  · intro hh
    refine ⟨⟨?_, ?_⟩, hh.keeps⟩
    · intro row column
      -- A cell that is open, or one that keeps its digit.
      by_cases hopen : puzzle row column = 0
      · exact hh.digits row column hopen
      · rw [hh.keeps row column hopen, ← hcut.keeps row column hopen]
        exact valid_solution.digits row column
    · intro row column q hq
      by_cases hopen : puzzle row column = 0
      · exact hh.rules row column hopen q hq
      · by_cases hopen' : puzzle q.1 q.2 = 0
        · exact (hh.rules q.1 q.2 hopen' (row, column) hq.symm).symm
        · -- both are digits of the solution
          rw [hh.keeps row column hopen, hh.keeps q.1 q.2 hopen', ← hcut.keeps row column hopen,
            ← hcut.keeps q.1 q.2 hopen']
          exact valid_solution.rules row column q hq
  · intro hh
    exact ⟨hh.keeps, fun row column _ => hh.valid.digits row column,
      fun row column _ => hh.valid.rules row column⟩

/-- An emptied cell asks nothing. -/
theorem solves_put_zero {puzzle h : Grid} (hh : Solves puzzle h) (row column : Fin 9) :
    Solves (puzzle.put row column 0) h := by
  refine ⟨hh.valid, ?_⟩
  intro row' column' hfilled
  by_cases hcell : (row', column') = (row, column)
  · obtain ⟨rfl, rfl⟩ := Prod.mk.inj hcell
    exact absurd (put_same _ _ _ _) hfilled
  · rw [put_other _ hcell] at hfilled ⊢
    exact hh.keeps row' column' hfilled

/-- Solved by the solution alone. -/
def OneSolution (puzzle : Grid) : Prop := ∀ h, Solves puzzle h ↔ h = solution

/-- The full grid has itself for a solution. -/
theorem unique_solution : OneSolution solution := by
  intro h
  constructor
  · intro hh
    funext row column
    refine hh.keeps row column ?_
    have hdigit := (valid_solution.digits row column).1
    omega
  · intro heq
    subst heq
    exact ⟨valid_solution, fun _ _ _ => rfl⟩

/-- **The test of the loop**: a count of one, with a limit of two. -/
theorem count_eq_one_iff {puzzle : Grid} (hcut : Solves puzzle solution) :
    (countSolutions 81 puzzle 2).1 = 1 ↔ OneSolution puzzle := by
  rw [countSolutions_eq_one_iff]
  simp only [completes_iff_solves hcut]
  constructor
  · intro hone h
    constructor
    · exact fun hh => hone.unique hh hcut
    · exact fun heq => heq ▸ hcut
  · intro hunique
    exact ⟨solution, hcut, fun h hh => (hunique h).mp hh⟩

/-- A puzzle with fewer digits has no fewer solutions. -/
theorem unique_of_keeps {puzzle puzzle' : Grid} (h : OneSolution puzzle)
    (hcut : Solves puzzle' solution)
    (hless : ∀ row column, puzzle row column ≠ 0 → puzzle' row column = puzzle row column) :
    OneSolution puzzle' := by
  intro g
  constructor
  · intro hg
    refine (h g).mp ⟨hg.valid, ?_⟩
    intro row column hfilled
    have hsame := hless row column hfilled
    exact (hg.keeps row column (hsame ▸ hfilled)).trans hsame
  · intro heq
    subst heq
    exact hcut

/-! ## Carving -/

/-- The cell of a position. -/
def cellOf (position : Nat) : Fin 9 × Fin 9 :=
  (lineAt (position / 9), lineAt (position % 9))

/-- No digit in those cells can be spared. -/
def Spares (cells : Set (Fin 9 × Fin 9)) (puzzle : Grid) : Prop :=
  ∀ p ∈ cells, puzzle p.1 p.2 ≠ 0 → ¬ OneSolution (puzzle.put p.1 p.2 0)

/-- A digit that is put back. -/
theorem put_put_same (g : Grid) (row column : Fin 9) (value : Nat) :
    (g.put row column value).put row column (g row column) = g := by
  funext row' column'
  by_cases hcell : (row', column') = (row, column)
  · obtain ⟨rfl, rfl⟩ := Prod.mk.inj hcell
    rw [put_same]
  · rw [put_other _ hcell, put_other _ hcell]

theorem spares_put_zero {cells : Set (Fin 9 × Fin 9)} {puzzle : Grid} (p : Fin 9 × Fin 9)
    (hcut : Solves puzzle solution) (h : Spares cells puzzle) :
    Spares (insert p cells) (puzzle.put p.1 p.2 0) := by
  intro q hq hfilled hone
  have hne : (q.1, q.2) ≠ (p.1, p.2) := by
    intro heq
    obtain ⟨hrow, hcolumn⟩ := Prod.mk.inj heq
    rw [hrow, hcolumn, put_same] at hfilled
    exact hfilled rfl
  have hcell : q ∈ cells := by
    obtain heq | hin := hq
    · exact absurd (by rw [heq]) hne
    · exact hin
  rw [put_other _ hne] at hfilled
  -- had the smaller puzzle one solution, so had the larger one
  refine h q hcell hfilled (unique_of_keeps hone (solves_put_zero hcut q.1 q.2) ?_)
  intro row column hkept
  by_cases hrq : (row, column) = (q.1, q.2)
  · obtain ⟨rfl, rfl⟩ := Prod.mk.inj hrq
    exact absurd (put_same _ _ _ _) hkept
  · rw [put_other _ hrq] at hkept ⊢
    by_cases hrp : (row, column) = (p.1, p.2)
    · obtain ⟨rfl, rfl⟩ := Prod.mk.inj hrp
      exact absurd (put_same _ _ _ _) hkept
    · rw [put_other _ hrq, put_other _ hrp]

/-- What the loop has made of the solution so far. -/
structure Carved (target : Nat) (cells : Set (Fin 9 × Fin 9)) (puzzle : Grid) (removed : Nat) :
    Prop where
  one : OneSolution puzzle
  blanks : (blanks puzzle).card = removed
  target : removed ≤ target
  spares : Spares cells puzzle

/-- The puzzle is cut out of the solution. -/
theorem Carved.cut {target : Nat} {cells : Set (Fin 9 × Fin 9)} {puzzle : Grid} {removed : Nat}
    (h : Carved target cells puzzle removed) : Solves puzzle solution :=
  (h.one solution).mpr rfl

/-- One cell tried. -/
theorem carved_step {target : Nat} {cells : Set (Fin 9 × Fin 9)} {puzzle : Grid} {removed : Nat}
    (h : Carved target cells puzzle removed) (p : Fin 9 × Fin 9) (hfilled : puzzle p.1 p.2 ≠ 0)
    (hroom : removed ≠ target) :
    if (countSolutions 81 (puzzle.put p.1 p.2 0) 2).1 = 1 then
      Carved target (insert p cells) (puzzle.put p.1 p.2 0) (removed + 1)
    else Carved target (insert p cells) puzzle removed := by
  have hcut := solves_put_zero h.cut p.1 p.2
  -- The cell stays empty, or the digit is put back.
  split
  · next hcount =>
    refine ⟨(count_eq_one_iff hcut).mp hcount, ?_, ?_, spares_put_zero p h.cut h.spares⟩
    · have hblanks : Sudoku.blanks (puzzle.put p.1 p.2 0) =
          insert p (Sudoku.blanks puzzle) := by
        ext q
        rw [Finset.mem_insert, mem_blanks, mem_blanks]
        by_cases hq : (q.1, q.2) = (p.1, p.2)
        · obtain ⟨hrow, hcolumn⟩ := Prod.mk.inj hq
          rw [hrow, hcolumn, put_same]
          simp [Prod.ext_iff, hrow, hcolumn]
        · have hne : q ≠ p := fun heq => hq (by rw [heq])
          rw [put_other _ hq]
          simp [hne]
      rw [hblanks, Finset.card_insert_of_notMem (fun hin => hfilled (mem_blanks.mp hin)), h.blanks]
    · exact Nat.lt_of_le_of_ne h.target hroom
  · next hcount =>
    refine ⟨h.one, h.blanks, h.target, ?_⟩
    intro q hq hq0
    obtain rfl | hin := hq
    · exact fun hone => hcount ((count_eq_one_iff hcut).mpr hone)
    · exact h.spares q hin hq0

theorem carve_cons {target removed : Nat} (position : Nat) (positions : List Nat) (puzzle : Grid)
    (hroom : removed ≠ target) :
    PuzzleGenerator.carve target (position :: positions) puzzle removed =
      if (countSolutions 81 (puzzle.put (cellOf position).1 (cellOf position).2 0) 2).1 = 1 then
        PuzzleGenerator.carve target positions
          (puzzle.put (cellOf position).1 (cellOf position).2 0) (removed + 1)
      else PuzzleGenerator.carve target positions puzzle removed := by
  simp only [PuzzleGenerator.carve, if_neg hroom, put_put_same, cellOf]
  rfl

/-- The whole loop: the cells it was through with, all of them unless it came to its target. -/
theorem carve_spec {target : Nat} {positions : List Nat} {cells : Set (Fin 9 × Fin 9)}
    {puzzle : Grid} {removed : Nat} (h : Carved target cells puzzle removed)
    (hnodup : (positions.map cellOf).Nodup)
    (hfilled : ∀ position ∈ positions, puzzle (cellOf position).1 (cellOf position).2 ≠ 0) :
    ∃ (out : Grid) (count : Nat) (cells' : Set (Fin 9 × Fin 9)),
      PuzzleGenerator.carve target positions puzzle removed = (out, count) ∧
        Carved target cells' out count ∧ cells ⊆ cells' ∧
        (count = target ∨ ∀ position ∈ positions, cellOf position ∈ cells') := by
  induction positions generalizing cells puzzle removed with
  | nil =>
    exact ⟨puzzle, removed, cells, rfl, h, Set.Subset.rfl,
      Or.inr fun _ hin => absurd hin List.not_mem_nil⟩
  | cons position positions ih =>
    obtain ⟨hfirst, hrest⟩ := List.forall_mem_cons.mp hfilled
    obtain ⟨hnew, hnodup⟩ := List.nodup_cons.mp hnodup
    -- The loop leaves when it has its number; else it tries the next cell.
    by_cases hdone : removed = target
    · refine ⟨puzzle, removed, cells, ?_, h, Set.Subset.rfl, Or.inl hdone⟩
      rw [PuzzleGenerator.carve, if_pos hdone]
    · have hstep := carved_step h (cellOf position) hfirst hdone
      rw [carve_cons position positions puzzle hdone]
      -- the loop goes on with the puzzle it has chosen, and is through with this cell
      have hgoes : ∀ (puzzle' : Grid) (removed' : Nat),
          Carved target (insert (cellOf position) cells) puzzle' removed' →
          (∀ position' ∈ positions, puzzle' (cellOf position').1 (cellOf position').2 ≠ 0) →
          ∃ (out : Grid) (count : Nat) (cells' : Set (Fin 9 × Fin 9)),
            PuzzleGenerator.carve target positions puzzle' removed' = (out, count) ∧
              Carved target cells' out count ∧ cells ⊆ cells' ∧
              (count = target ∨
                ∀ position' ∈ position :: positions, cellOf position' ∈ cells') := by
        intro puzzle' removed' hcarved hlater
        obtain ⟨out, count, cells', hout, hcarved', hsubset, hall⟩ := ih hcarved hnodup hlater
        refine ⟨out, count, cells', hout, hcarved', (Set.subset_insert _ _).trans hsubset, ?_⟩
        refine hall.imp id ?_
        intro hin
        exact List.forall_mem_cons.mpr ⟨hsubset (Set.mem_insert _ _), hin⟩
      split
      · next hcount =>
        rw [if_pos hcount] at hstep
        refine hgoes _ _ hstep ?_
        intro position' hin
        have hother : ((cellOf position').1, (cellOf position').2) ≠
            ((cellOf position).1, (cellOf position).2) :=
          fun heq => hnew (List.mem_map.mpr ⟨position', hin, heq⟩)
        rw [put_other _ hother]
        exact hrest position' hin
      · next hcount =>
        rw [if_neg hcount] at hstep
        exact hgoes _ _ hstep hrest

/-! ## The generator -/

/-- Shuffling loses no cell. -/
theorem shuffle_perm (indices : List Nat) (positions : Array Nat) (g : PuzzleGenerator) :
    (PuzzleGenerator.shuffle indices positions g).1.toList.Perm positions.toList := by
  induction indices generalizing positions g with
  | nil => exact List.Perm.refl _
  | cons index rest ih =>
    refine (ih _ _).trans ?_
    rw [Array.swapIfInBounds_def]
    split
    · split
      · exact Array.perm_iff_toList_perm.mp (Array.swap_perm _ _)
      · exact List.Perm.refl _
    · exact List.Perm.refl _

/-- No two positions are one cell. -/
theorem nodup_cells : ((List.range 81).map cellOf).Nodup := by decide +kernel

/-- Every cell has a position. -/
theorem exists_position (p : Fin 9 × Fin 9) : ∃ position, position < 81 ∧ cellOf position = p := by
  have hall : ∀ row column, ∃ position, position < 81 ∧ cellOf position = (row, column) := by
    decide +kernel
  exact hall p.1 p.2

/-- At the start nothing is empty and nothing was tried. -/
theorem carved_solution (target : Nat) : Carved target ∅ solution 0 := by
  refine ⟨unique_solution, ?_, Nat.zero_le _, fun p hp => absurd hp (Set.notMem_empty p)⟩
  decide +kernel

/-- **A generated puzzle has one solution.** Whatever the state of the generator, the puzzle is
    solved by `SOLUTION` alone. The number drawn is within the bounds of the difficulty, and no more
    cells are empty than that; if there are fewer, no digit can be taken from the puzzle without
    another solution appearing. -/
theorem generate_spec (g : PuzzleGenerator) (difficulty : Difficulty) :
    (∀ h, Solves (g.generate difficulty).1 h ↔ h = solution) ∧
      (difficulty.config.blanksMin ≤ (g.target difficulty).1 ∧
        (g.target difficulty).1 ≤ difficulty.config.blanksMax) ∧
      ((blanks (g.generate difficulty).1).card = (g.target difficulty).1 ∨
        (blanks (g.generate difficulty).1).card < (g.target difficulty).1 ∧
          ∀ row column, (g.generate difficulty).1 row column ≠ 0 →
            ∃ h, h ≠ solution ∧ Solves ((g.generate difficulty).1.put row column 0) h) := by
  have htarget : difficulty.config.blanksMin ≤ (g.target difficulty).1 ∧
      (g.target difficulty).1 ≤ difficulty.config.blanksMax := by
    rw [PuzzleGenerator.target]
    have hmod := Nat.mod_lt g.next.state.toNat
      (Nat.succ_pos (difficulty.config.blanksMax - difficulty.config.blanksMin))
    cases difficulty <;> simp only [Difficulty.config] at hmod ⊢ <;> omega
  have hperm := shuffle_perm (List.range' 1 80).reverse (Array.range 81) (g.target difficulty).2
  rw [Array.toList_range] at hperm
  have hnodup := (hperm.map cellOf).nodup_iff.mpr nodup_cells
  have hfilled : ∀ row column, solution row column ≠ 0 := by
    intro row column
    have hdigit := (valid_solution.digits row column).1
    omega
  obtain ⟨out, count, cells, hout, hcarved, -, hall⟩ :=
    carve_spec (carved_solution (g.target difficulty).1) hnodup (fun _ _ => hfilled _ _)
  have hpuzzle : (g.generate difficulty).1 = out := by
    simp only [PuzzleGenerator.generate, hout]
  rw [hpuzzle]
  refine ⟨hcarved.one, htarget, ?_⟩
  rw [hcarved.blanks]
  -- It came to the number drawn; or it was through with all cells before.
  by_cases hreached : count = (g.target difficulty).1
  · exact Or.inl hreached
  · refine Or.inr ⟨Nat.lt_of_le_of_ne hcarved.target hreached, ?_⟩
    intro row column hdigit
    obtain ⟨position, hlt, hposition⟩ := exists_position (row, column)
    have hcell := hall.resolve_left hreached position (hperm.mem_iff.mpr (List.mem_range.mpr hlt))
    rw [hposition] at hcell
    -- the cell was tried, so its digit is needed
    have hneeded := hcarved.spares (row, column) hcell hdigit
    have hcut := solves_put_zero hcarved.cut row column
    apply Classical.byContradiction
    intro hnone
    refine hneeded fun h => ⟨fun hh => ?_, fun heq => heq ▸ hcut⟩
    apply Classical.byContradiction
    exact fun hne => hnone ⟨h, hne, hh⟩

end Sudoku
end EngineKit
