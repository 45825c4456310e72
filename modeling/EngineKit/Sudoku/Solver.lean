import EngineKit.Lib.Search
import Mathlib.Data.Fintype.Prod
import Mathlib.Data.Fintype.Card
import Mathlib.Data.Fin.VecNotation

/-!
# Counting the solutions of a puzzle

`count_solutions` of `examples/sudoku_game/model.rs` and what it is made of. It fills the first
empty cell with every value that fits, one after the other, and goes on from there; the grid it
works on is one and the same, and every value is taken out again.

A grid `Completes` a puzzle if it keeps what is filled in, and no cell that was empty has the value
of a cell of its row, column or box. The count agrees with the number of completions as far as its
limit, and the grid is what it was (`countSolutions_spec`).

The search is one of the library: a tree whose inner nodes are puzzles and whose leaves are full
grids. What is proved here is that the code is that search (`countSolutions_eq`), and that the
leaves below a puzzle are its completions (`tree`). Both go by one cell: the first empty one is
filled in each way that fits, and a completion of the puzzle fills it in one of them
(`completes_iff`).

`Completes` asks nothing of the cells that were filled to begin with, because the code does not
check them. A puzzle that breaks the rules already may have completions.
-/

set_option autoImplicit false

namespace EngineKit
namespace Sudoku

open Lib

/-- `[[u8; 9]; 9]` -/
abbrev Grid := Fin 9 → Fin 9 → Nat

/-- `SOLUTION` -/
def solution : Grid :=
  ![![5, 3, 4, 6, 7, 8, 9, 1, 2],
    ![6, 7, 2, 1, 9, 5, 3, 4, 8],
    ![1, 9, 8, 3, 4, 2, 5, 6, 7],
    ![8, 5, 9, 7, 6, 1, 4, 2, 3],
    ![4, 2, 6, 8, 5, 3, 7, 9, 1],
    ![7, 1, 3, 9, 2, 4, 8, 5, 6],
    ![9, 6, 1, 5, 3, 7, 2, 8, 4],
    ![2, 8, 7, 4, 1, 9, 6, 3, 5],
    ![3, 4, 5, 2, 8, 6, 1, 7, 9]]

/-- `grid[row][column] = value` -/
def Grid.put (g : Grid) (row column : Fin 9) (value : Nat) : Grid :=
  Function.update g row (Function.update (g row) column value)

def firstEmpty (g : Grid) : Option (Fin 9 × Fin 9) :=
  (List.finRange 9).findSome? fun row =>
    ((List.finRange 9).find? fun column => g row column = 0).map fun column => (row, column)

/-- A row or a column by its number. -/
def lineAt (number : Nat) : Fin 9 := Fin.ofNat 9 number

/-- The `i`th line of the box that a line lies in. -/
def boxLine (line : Fin 9) (i : Nat) : Fin 9 := lineAt (line / 3 * 3 + i)

def validValue (g : Grid) (row column : Fin 9) (value : Nat) : Bool :=
  ((List.finRange 9).all fun other => g row other ≠ value) &&
    ((List.finRange 9).all fun other => g other column ≠ value) &&
    ((List.range 3).all fun r => (List.range 3).all fun c =>
      g (boxLine row r) (boxLine column c) ≠ value)

/-- The loop of `count_solutions` over the values of one cell. -/
def tryValues (count : Grid → Nat × Grid) (limit : Nat) (row column : Fin 9) :
    List Nat → Grid → Nat → Nat × Grid
  | [], g, found => (found, g)
  | value :: values, g, found =>
    if validValue g row column value then
      let (more, g) := count (g.put row column value)
      let found := min (found + more) 255
      let g := g.put row column 0
      if limit ≤ found then (found, g) else tryValues count limit row column values g found
    else tryValues count limit row column values g found

/-- What is found, and the grid as it is left behind. `depth` bounds the recursion. -/
def countSolutions (depth : Nat) (g : Grid) (limit : Nat) : Nat × Grid :=
  match firstEmpty g with
  | none => (1, g)
  | some (row, column) =>
    match depth with
    | 0 => (0, g)
    | depth + 1 =>
      tryValues (fun g => countSolutions depth g limit) limit row column (List.range' 1 9) g 0

/-! ## Completions -/

/-- Two cells of one row, column or box. -/
def Peer (p q : Fin 9 × Fin 9) : Prop :=
  p ≠ q ∧ (p.1 = q.1 ∨ p.2 = q.2 ∨
    (p.1.val / 3 = q.1.val / 3 ∧ p.2.val / 3 = q.2.val / 3))

instance (p q : Fin 9 × Fin 9) : Decidable (Peer p q) := inferInstanceAs (Decidable (_ ∧ _))

theorem Peer.symm {p q : Fin 9 × Fin 9} (h : Peer p q) : Peer q p := by
  obtain ⟨hne, hline⟩ := h
  refine ⟨hne.symm, ?_⟩
  obtain hrow | hcolumn | hbox := hline
  · exact Or.inl hrow.symm
  · exact Or.inr (Or.inl hcolumn.symm)
  · exact Or.inr (Or.inr ⟨hbox.1.symm, hbox.2.symm⟩)

/-- A full grid that keeps what is filled in and fills the rest by the rules. -/
structure Completes (g h : Grid) : Prop where
  keeps : ∀ row column, g row column ≠ 0 → h row column = g row column
  digits : ∀ row column, g row column = 0 → 1 ≤ h row column ∧ h row column ≤ 9
  rules : ∀ row column, g row column = 0 → ∀ q, Peer (row, column) q → h q.1 q.2 ≠ h row column

theorem put_same (g : Grid) (row column : Fin 9) (value : Nat) :
    g.put row column value row column = value := by
  simp [Grid.put]

/-- No other cell is written. -/
theorem put_other {g : Grid} {row column row' column' : Fin 9} (value : Nat)
    (h : (row', column') ≠ (row, column)) :
    g.put row column value row' column' = g row' column' := by
  rw [Grid.put]
  by_cases hrow : row' = row
  · subst hrow
    have hcolumn : column' ≠ column := fun heq => h (by rw [heq])
    rw [Function.update_self, Function.update_of_ne hcolumn]
  · rw [Function.update_of_ne hrow]

/-- An empty cell filled and emptied again. -/
theorem put_put_zero {g : Grid} {row column : Fin 9} (value : Nat) (h : g row column = 0) :
    (g.put row column value).put row column 0 = g := by
  funext row' column'
  by_cases hcell : (row', column') = (row, column)
  · obtain ⟨rfl, rfl⟩ := Prod.mk.inj hcell
    rw [put_same, h]
  · rw [put_other _ hcell, put_other _ hcell]

/-- What `valid_value` checks. -/
theorem validValue_iff {g : Grid} {row column : Fin 9} {value : Nat} (hempty : g row column = 0)
    (hvalue : 1 ≤ value) :
    validValue g row column value = true ↔ ∀ q, Peer (row, column) q → g q.1 q.2 ≠ value := by
  have hself : g row column ≠ value := by
    rw [hempty]
    omega
  have hbox : ∀ line other : Fin 9, line.val / 3 = other.val / 3 →
      ∃ i, i < 3 ∧ boxLine line i = other := by decide +kernel
  have hline : ∀ line : Fin 9, ∀ i, i < 3 → (boxLine line i).val / 3 = line.val / 3 := by
    decide +kernel
  simp only [validValue, Bool.and_eq_true, List.all_eq_true, List.mem_finRange, true_implies,
    List.mem_range, decide_eq_true_eq]
  constructor
  · intro hall q hq
    obtain ⟨⟨hrows, hcolumns⟩, hboxes⟩ := hall
    obtain ⟨row', column'⟩ := q
    obtain ⟨-, hpeer⟩ := hq
    obtain rfl | rfl | ⟨hr, hc⟩ := hpeer
    · exact hrows column'
    · exact hcolumns row'
    · obtain ⟨i, hi, rfl⟩ := hbox row row' hr
      obtain ⟨j, hj, rfl⟩ := hbox column column' hc
      exact hboxes i hi j hj
  · intro hpeers
    have hcell : ∀ row' column', ((row = row') ∨ (column = column') ∨
        (row.val / 3 = row'.val / 3 ∧ column.val / 3 = column'.val / 3)) →
        g row' column' ≠ value := by
      intro row' column' hsame
      -- A cell of the box, which may be one of the row or the column as well.
      by_cases heq : (row, column) = (row', column')
      · obtain ⟨rfl, rfl⟩ := Prod.mk.inj heq
        exact hself
      · exact hpeers (row', column') ⟨heq, hsame⟩
    refine ⟨⟨?_, ?_⟩, ?_⟩
    · intro other
      exact hcell row other (Or.inl rfl)
    · intro other
      exact hcell other column (Or.inr (Or.inl rfl))
    · intro i hi j hj
      exact hcell _ _ (Or.inr (Or.inr ⟨(hline row i hi).symm, (hline column j hj).symm⟩))

/-- **One cell filled.** -/
theorem completes_iff {g h : Grid} {row column : Fin 9} (hempty : g row column = 0) :
    Completes g h ↔ ∃ value, (1 ≤ value ∧ value ≤ 9) ∧ validValue g row column value = true ∧
      Completes (g.put row column value) h := by
  constructor
  · intro hh
    have hdigit := hh.digits row column hempty
    refine ⟨h row column, hdigit, ?_, ?_⟩
    · rw [validValue_iff hempty hdigit.1]
      intro q hq heq
      by_cases hq0 : g q.1 q.2 = 0
      · omega
      · exact hh.rules row column hempty q hq ((hh.keeps q.1 q.2 hq0).trans heq)
    · refine ⟨?_, ?_, ?_⟩
      · intro row' column' hfilled
        by_cases hcell : (row', column') = (row, column)
        · obtain ⟨rfl, rfl⟩ := Prod.mk.inj hcell
          rw [put_same]
        · rw [put_other _ hcell] at hfilled ⊢
          exact hh.keeps row' column' hfilled
      · intro row' column' hopen
        by_cases hcell : (row', column') = (row, column)
        · obtain ⟨rfl, rfl⟩ := Prod.mk.inj hcell
          exact hdigit
        · rw [put_other _ hcell] at hopen
          exact hh.digits row' column' hopen
      · intro row' column' hopen
        by_cases hcell : (row', column') = (row, column)
        · obtain ⟨rfl, rfl⟩ := Prod.mk.inj hcell
          exact hh.rules row' column' hempty
        · rw [put_other _ hcell] at hopen
          exact hh.rules row' column' hopen
  · intro hfill
    obtain ⟨value, hdigit, hvalid, hh⟩ := hfill
    rw [validValue_iff hempty hdigit.1] at hvalid
    have hvalue : h row column = value := by
      have hkept := hh.keeps row column (by rw [put_same]; omega)
      rwa [put_same] at hkept
    have hkeeps : ∀ row' column', g row' column' ≠ 0 → h row' column' = g row' column' := by
      intro row' column' hfilled
      have hcell : (row', column') ≠ (row, column) := by
        intro heq
        obtain ⟨rfl, rfl⟩ := Prod.mk.inj heq
        exact hfilled hempty
      have hkept := hh.keeps row' column' (by rwa [put_other _ hcell])
      rwa [put_other _ hcell] at hkept
    refine ⟨hkeeps, ?_, ?_⟩
    · intro row' column' hopen
      by_cases hcell : (row', column') = (row, column)
      · obtain ⟨rfl, rfl⟩ := Prod.mk.inj hcell
        rw [hvalue]
        exact hdigit
      · exact hh.digits row' column' (by rwa [put_other _ hcell])
    · intro row' column' hopen q hq
      by_cases hcell : (row', column') = (row, column)
      · obtain ⟨rfl, rfl⟩ := Prod.mk.inj hcell
        rw [hvalue]
        by_cases hq0 : g q.1 q.2 = 0
        · -- the other cell is empty too, and is the one that has to differ
          have hother : (q.1, q.2) ≠ (row', column') := hq.1.symm
          have hdiffer := hh.rules q.1 q.2 (by rwa [put_other _ hother]) (row', column') hq.symm
          rw [hvalue] at hdiffer
          exact hdiffer.symm
        · rw [hkeeps q.1 q.2 hq0]
          exact hvalid q hq
      · exact hh.rules row' column' (by rwa [put_other _ hcell]) q hq

/-! ## The search -/

/-- The first empty cell is empty. -/
theorem firstEmpty_some {g : Grid} {row column : Fin 9}
    (h : firstEmpty g = some (row, column)) : g row column = 0 := by
  obtain ⟨row', -, hrow⟩ := List.exists_of_findSome?_eq_some h
  obtain ⟨column', hcolumn, heq⟩ := Option.map_eq_some_iff.mp hrow
  obtain ⟨rfl, rfl⟩ := Prod.mk.inj heq
  have hfound := List.find?_some hcolumn
  exact of_decide_eq_true hfound

/-- A grid without a first empty cell is full. -/
theorem firstEmpty_none {g : Grid} (h : firstEmpty g = none) (row column : Fin 9) :
    g row column ≠ 0 := by
  have hrow := List.findSome?_eq_none_iff.mp h row (List.mem_finRange row)
  have hcolumn := List.find?_eq_none.mp (Option.map_eq_none_iff.mp hrow) column
    (List.mem_finRange column)
  exact fun heq => hcolumn (decide_eq_true heq)

/-- The grids with one more cell filled, none for a full grid. -/
def children (g : Grid) : Option (List Grid) :=
  (firstEmpty g).map fun (row, column) =>
    ((List.range' 1 9).filter fun value => validValue g row column value).map (g.put row column)

/-- The empty cells. -/
def blanks (g : Grid) : Finset (Fin 9 × Fin 9) := Finset.univ.filter fun p => g p.1 p.2 = 0

theorem mem_blanks {g : Grid} {p : Fin 9 × Fin 9} : p ∈ blanks g ↔ g p.1 p.2 = 0 := by
  simp [blanks]

/-- Filling a cell leaves one less. -/
theorem blanks_put {g : Grid} {row column : Fin 9} {value : Nat} (hvalue : value ≠ 0) :
    blanks (g.put row column value) = (blanks g).erase (row, column) := by
  ext ⟨row', column'⟩
  rw [Finset.mem_erase, mem_blanks, mem_blanks]
  by_cases hcell : (row', column') = (row, column)
  · obtain ⟨rfl, rfl⟩ := Prod.mk.inj hcell
    simp [put_same, hvalue]
  · simp [put_other value hcell, hcell]

theorem card_blanks_le (g : Grid) : (blanks g).card ≤ 81 := by
  have hle := Finset.card_le_univ (blanks g)
  simpa using hle

theorem mem_range'_digit {value : Nat} : value ∈ List.range' 1 9 ↔ 1 ≤ value ∧ value ≤ 9 := by
  rw [List.mem_range'_1]
  omega

/-- The search tree of a puzzle has its completions at the leaves. -/
theorem tree : Search.Tree children Completes fun g => (blanks g).card := by
  refine ⟨?_, ?_, ?_, ?_⟩
  · intro g h hleaf
    have hfull := firstEmpty_none (Option.map_eq_none_iff.mp hleaf)
    constructor
    · intro hh
      funext row column
      exact hh.keeps row column (hfull row column)
    · intro heq
      subst heq
      exact ⟨fun _ _ _ => rfl, fun row column hopen => absurd hopen (hfull row column),
        fun row column hopen => absurd hopen (hfull row column)⟩
  · intro g h cs hnode
    obtain ⟨⟨row, column⟩, hfirst, rfl⟩ := Option.map_eq_some_iff.mp hnode
    rw [completes_iff (firstEmpty_some hfirst)]
    simp only [List.mem_map, List.mem_filter, mem_range'_digit]
    constructor
    · intro hfill
      obtain ⟨value, hdigit, hvalid, hh⟩ := hfill
      exact ⟨_, ⟨value, ⟨hdigit, hvalid⟩, rfl⟩, hh⟩
    · intro hchild
      obtain ⟨_, ⟨value, ⟨hdigit, hvalid⟩, rfl⟩, hh⟩ := hchild
      exact ⟨value, hdigit, hvalid, hh⟩
  · intro g cs hnode c hc
    obtain ⟨⟨row, column⟩, hfirst, rfl⟩ := Option.map_eq_some_iff.mp hnode
    obtain ⟨value, hvalue, rfl⟩ := List.mem_map.mp hc
    have hdigit := mem_range'_digit.mp (List.mem_filter.mp hvalue).1
    rw [blanks_put (by omega)]
    exact Finset.card_erase_lt_of_mem (mem_blanks.mpr (firstEmpty_some hfirst))
  · intro g cs hnode
    obtain ⟨⟨row, column⟩, hfirst, rfl⟩ := Option.map_eq_some_iff.mp hnode
    rw [List.pairwise_map]
    have hnodup : (List.range' 1 9).Nodup := List.nodup_range'
    refine (hnodup.filter _).imp_of_mem ?_
    intro value value' hvalue hvalue' hne h hh hh'
    have hdigit := mem_range'_digit.mp (List.mem_filter.mp hvalue).1
    have hdigit' := mem_range'_digit.mp (List.mem_filter.mp hvalue').1
    have hkept := hh.keeps row column (by rw [put_same]; omega)
    have hkept' := hh'.keeps row column (by rw [put_same]; omega)
    rw [put_same] at hkept hkept'
    exact hne (hkept.symm.trans hkept')

/-! ## The code is the search -/

/-- **The loop over the values** is the sum over the children. -/
theorem tryValues_eq {count : Grid → Nat × Grid} {below : Grid → Nat}
    (hcount : ∀ g, count g = (below g, g)) (limit : Nat) {row column : Fin 9}
    (values : List Nat) {g : Grid} (hempty : g row column = 0) (found : Nat) :
    tryValues count limit row column values g found =
      (Search.countEach below 255 limit
        ((values.filter fun value => validValue g row column value).map (g.put row column)) found,
        g) := by
  induction values generalizing found with
  | nil => rfl
  | cons value values ih =>
    rw [tryValues, List.filter_cons]
    cases validValue g row column value with
    | false => exact ih found
    | true =>
      simp only [if_true, hcount, put_put_zero value hempty, List.map_cons, Search.countEach, ih]
      split <;> rfl

/-- **The recursion** is the search, and leaves the grid as it was. -/
theorem countSolutions_eq (limit depth : Nat) (g : Grid) :
    countSolutions depth g limit = (Search.count children 255 limit depth g, g) := by
  induction depth generalizing g with
  | zero =>
    rw [countSolutions, Search.count, children]
    cases firstEmpty g <;> rfl
  | succ depth ih =>
    rw [countSolutions, Search.count, children]
    cases hfirst : firstEmpty g with
    | none => rfl
    | some p => exact tryValues_eq ih limit _ (firstEmpty_some hfirst) 0

/-- **The count is the number of completions, as far as its limit**, and the grid is left as it
    was. -/
theorem countSolutions_spec (g : Grid) {limit : Nat} (hlimit : limit ≤ 255) :
    Agrees limit (countSolutions 81 g limit).1 {h | Completes g h}.ncard ∧
      (countSolutions 81 g limit).2 = g := by
  rw [countSolutions_eq]
  exact ⟨tree.count_spec hlimit (card_blanks_le g), rfl⟩

/-- The solution with the cells of a 1 and a 3 of its fourth row and of its fifth row emptied. They
    can be filled as they were, or with the 1 and the 3 exchanged. -/
def open13 : Grid := (((solution.put 3 5 0).put 3 8 0).put 4 5 0).put 4 8 0

/-- The search of `open13` goes through both of its completions and on to the end. -/
theorem countSolutions_spec_open13 :
    (countSolutions 81 open13 255).1 = 2 ∧ {h | Completes open13 h}.ncard = 2 := by
  have hlimit : 255 ≤ 255 := by decide
  have hcount : (countSolutions 81 open13 255).1 = 2 := by decide +kernel
  have hagrees := (countSolutions_spec open13 hlimit).1
  exact ⟨hcount, (hagrees.eq_iff (by decide : 2 < 255)).mp hcount⟩

/-- A count of one with a limit of two. -/
theorem countSolutions_eq_one_iff (g : Grid) :
    (countSolutions 81 g 2).1 = 1 ↔ ∃! h, Completes g h := by
  have hagrees : Agrees 2 (countSolutions 81 g 2).1 {h | Completes g h}.ncard := by
    rw [countSolutions_eq]
    exact tree.count_spec (by decide) (card_blanks_le g)
  rw [hagrees.eq_iff (by decide : 1 < 2), Set.ncard_eq_one]
  constructor
  · intro hone
    obtain ⟨h, hset⟩ := hone
    refine ⟨h, hset.ge rfl, ?_⟩
    intro h' hh'
    exact hset.le hh'
  · intro hone
    obtain ⟨h, hh, hunique⟩ := hone
    refine ⟨h, Set.Subset.antisymm ?_ ?_⟩
    · intro h' hh'
      exact hunique h' hh'
    · intro h' hh'
      obtain rfl : h' = h := hh'
      exact hh

end Sudoku
end EngineKit
