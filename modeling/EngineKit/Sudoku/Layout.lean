import Mathlib

/-!
# Where a click goes

`examples/sudoku_game/layout.rs`, and the rectangles that `examples/sudoku_game/paint.rs` fills.
The layout is there so that what is drawn and what is clicked are the same rectangles. For every
size of the window no two controls meet, and a click finds the control it is in (`hitTest_iff`).
The rectangles that are drawn are these, with two differences. The painter works out the width of
the two buttons at the top once more, and differently; and after a wrong move it shakes the board,
which is hit where it stood. A click on what is drawn goes where it should, except on the first
five columns of the button for the menu, and on what the board has moved to (`hitTest_painted`).

Coordinates are integers. The sums of `for_window` stay within `i32` for every window that is not
within 460 of its lower end (`forWindow_inI32`): the width left of the panel is the one that would
leave it first.

Three families of rectangles are kept apart. `boardRect`, `digitRect`, `actionRect` and `topRect`
are the ones `hit_test` asks, in that order; `painted` are the ones that are filled; and `area` is
what a click should find, which is the painted one at rest, but for the buttons at the top. That the
order of the questions does not matter is a part of `hitTest_iff`, and comes from the controls being
apart.
-/

set_option autoImplicit false

namespace EngineKit
namespace Sudoku

inductive Screen where
  | mainMenu
  | difficulty
  | playing
deriving DecidableEq

inductive MenuAction where
  | continue
  | newGame
  | leaderboard
  | quit
deriving DecidableEq

inductive DifficultyChoice where
  | easy
  | medium
  | hard
deriving DecidableEq

inductive PlayingAction where
  | erase
  | note
  | hint
deriving DecidableEq

inductive TopAction where
  | pause
  | menu
deriving DecidableEq

inductive HitTarget where
  | menu (action : MenuAction)
  | difficulty (choice : DifficultyChoice)
  | cell (row column : Nat)
  | digit (value : Nat)
  | action (action : PlayingAction)
  | top (action : TopAction)
  | resultMenu
deriving DecidableEq

def designWidth : Int := 900

def designHeight : Int := 840

structure PlayingLayout where
  boardX : Int
  boardY : Int
  boardSize : Int
  cellSize : Int
  panelX : Int
  controlX : Int
  controlY : Int
  buttonSize : Int
  gap : Int
  actionY : Int
  topY : Int

structure Rect where
  left : Int
  top : Int
  width : Int
  height : Int

def Rect.contains (r : Rect) (x y : Int) : Bool :=
  r.left ≤ x && x < r.left + r.width && r.top ≤ y && y < r.top + r.height

theorem Rect.contains_iff {r : Rect} {x y : Int} :
    r.contains x y = true ↔
      (r.left ≤ x ∧ x < r.left + r.width) ∧ r.top ≤ y ∧ y < r.top + r.height := by
  simp [Rect.contains, and_assoc]

namespace PlayingLayout

def forWindow (width height : Int) : PlayingLayout :=
  let boardSize := max (min (width - 320) (height - 200)) 360
  let boardSize := boardSize / 9 * 9
  let boardX := 40
  let boardY := 110
  let buttonSize := 56
  let gap := 10
  let gridWidth := buttonSize * 3 + gap * 2
  let panelX := boardX + boardSize + 30
  let availableWidth := max (width - panelX - 30) gridWidth
  let controlX := panelX + max ((availableWidth - gridWidth) / 2) 0
  let controlY := max (boardY + boardSize - (buttonSize * 3 + gap * 2 + 16 + 72)) (boardY + 60)
  { boardX
    boardY
    boardSize
    cellSize := boardSize / 9
    panelX
    controlX
    controlY
    buttonSize
    gap
    actionY := controlY + buttonSize * 3 + gap * 3 + 16
    topY := boardY }

variable (l : PlayingLayout)

def boardRect : Rect := ⟨l.boardX, l.boardY, l.boardSize, l.boardSize⟩

/-- The button of the digit `index + 1`. -/
def digitRect (index : Nat) : Rect :=
  ⟨l.controlX + (index % 3 : Nat) * (l.buttonSize + l.gap),
    l.controlY + (index / 3 : Nat) * (l.buttonSize + l.gap), l.buttonSize, l.buttonSize⟩

def actionIndex : PlayingAction → Nat
  | .erase => 0
  | .note => 1
  | .hint => 2

def actionRect (action : PlayingAction) : Rect :=
  ⟨l.controlX + actionIndex action * (l.buttonSize + l.gap), l.actionY, l.buttonSize, 72⟩

def topWidth : Int := (l.buttonSize * 3 + l.gap * 2 - l.gap) / 2

def topRect : TopAction → Rect
  | .pause => ⟨l.controlX, l.topY, l.topWidth, 40⟩
  | .menu => ⟨l.controlX + l.topWidth + l.gap, l.topY, l.topWidth, 40⟩

def hitTest (x y : Int) : Option HitTarget :=
  if l.boardRect.contains x y then
    some (.cell ((y - l.boardY) / l.cellSize).toNat ((x - l.boardX) / l.cellSize).toNat)
  else
    match (List.range 9).find? fun index => (l.digitRect index).contains x y with
    | some index => some (.digit (index + 1))
    | none =>
      match [.erase, .note, .hint].find? fun action => (l.actionRect action).contains x y with
      | some action => some (.action action)
      | none =>
        if (l.topRect .pause).contains x y then some (.top .pause)
        else if (l.topRect .menu).contains x y then some (.top .menu)
        else none

/-! ## What is drawn

The painter does not ask the layout for rectangles. It works them out from the same numbers, and
once from others: the width of the buttons at the top leaves out one of the two gaps.
-/

/-- `top_width` of `paint_playing` -/
def paintedTopWidth : Int := (l.buttonSize * 3 + l.gap - l.gap) / 2

/-- `shake_offset`, as `sync_snapshot` has it. -/
def shakeOffset (shakeRemainingNs shakePhase : Nat) : Int :=
  if shakeRemainingNs = 0 then 0
  else
    match shakePhase % 6 with
    | 0 => -6
    | 1 => 6
    | 2 => -4
    | 3 => 4
    | 4 => -2
    | _ => 0

def cellRect (shake : Int) (row column : Nat) : Rect :=
  ⟨l.boardX + shake + column * l.cellSize, l.boardY + shake + row * l.cellSize, l.cellSize,
    l.cellSize⟩

/-- The rectangles of `paint_playing`. Only the board shakes. -/
def painted (shake : Int) : HitTarget → Option Rect
  | .cell row column => if row < 9 ∧ column < 9 then some (l.cellRect shake row column) else none
  | .digit value => if 1 ≤ value ∧ value ≤ 9 then some (l.digitRect (value - 1)) else none
  | .action action => some (l.actionRect action)
  | .top .pause => some ⟨l.controlX, l.topY, l.paintedTopWidth, 40⟩
  | .top .menu => some ⟨l.controlX + l.paintedTopWidth + l.gap, l.topY, l.paintedTopWidth, 40⟩
  | _ => none

/-- The rectangle in which a click goes to a control. -/
def area : HitTarget → Option Rect
  | .top action => some (l.topRect action)
  | target => l.painted 0 target

end PlayingLayout

/-! ## The sizes

The layout has eleven numbers, and of most of them nothing matters but how they lie to each other.
`Sized` is the list of what does; it holds for every window, since the size of the board is bounded
below, and nothing after it looks at `forWindow` again.
-/

/-- What the placing of the controls rests on. -/
structure Sized (l : PlayingLayout) : Prop where
  cell : 0 < l.cellSize
  board : l.boardSize = 9 * l.cellSize
  button : l.buttonSize = 56
  gap : l.gap = 10
  beside : l.boardX + l.boardSize + 30 ≤ l.controlX
  top : l.topY = l.boardY
  below : l.boardY + 60 ≤ l.controlY
  action : l.actionY = l.controlY + 214

theorem sized_forWindow (width height : Int) : Sized (PlayingLayout.forWindow width height) := by
  constructor
  · simp only [PlayingLayout.forWindow]
    omega
  · simp only [PlayingLayout.forWindow]
    omega
  · rfl
  · rfl
  · simp only [PlayingLayout.forWindow]
    omega
  · rfl
  · simp only [PlayingLayout.forWindow]
    omega
  · simp only [PlayingLayout.forWindow]
    omega

/-- The index of a cell, from the bounds of the cell. -/
theorem ediv_eq_of_bounds {a c : Int} {k : Nat} (hc : 0 < c) (hlo : k * c ≤ a)
    (hhi : a < k * c + c) : (a / c).toNat = k := by
  have hge : (k : Int) ≤ a / c := (Int.le_ediv_iff_mul_le hc).mpr hlo
  have hlt : a / c < k + 1 := by
    rw [Int.ediv_lt_iff_lt_mul hc, Int.add_mul, Int.one_mul]
    exact hhi
  omega

/-- Where one alone answers, the order of the questions does not matter. -/
theorem find_eq_some_of_unique {α : Type} {l : List α} {p : α → Bool} {a : α} (hmem : a ∈ l)
    (hp : p a = true) (huniq : ∀ b ∈ l, p b = true → b = a) : l.find? p = some a := by
  obtain ⟨b, hb⟩ := Option.isSome_iff_exists.mp (List.find?_isSome.mpr ⟨a, hmem, hp⟩)
  rw [hb, huniq b (List.mem_of_find?_eq_some hb) (List.find?_some hb)]

namespace Sized

variable {l : PlayingLayout} {x y : Int}

/-- The cell of a point of the board. -/
theorem cell_of_board (h : Sized l) (hin : l.boardRect.contains x y = true) :
    ∃ row column, row < 9 ∧ column < 9 ∧ l.hitTest x y = some (.cell row column) ∧
      (l.cellRect 0 row column).contains x y = true := by
  obtain ⟨⟨hleft, hright⟩, htop, hbottom⟩ := Rect.contains_iff.mp hin
  simp only [PlayingLayout.boardRect, h.board] at hleft hright htop hbottom
  have hdiv : ∀ a : Int, 0 ≤ a → a < 9 * l.cellSize →
      (a / l.cellSize).toNat < 9 ∧ ((a / l.cellSize).toNat : Int) * l.cellSize ≤ a ∧
        a < ((a / l.cellSize).toNat : Int) * l.cellSize + l.cellSize := by
    intro a ha hlt
    have hpos := Int.ediv_nonneg ha h.cell.le
    have hnine : a / l.cellSize < 9 := (Int.ediv_lt_iff_lt_mul h.cell).mpr hlt
    rw [Int.toNat_of_nonneg hpos, Int.mul_comm]
    have hsplit := Int.mul_ediv_add_emod a l.cellSize
    have hmod := Int.emod_nonneg a h.cell.ne'
    have hmod' := Int.emod_lt_of_pos a h.cell
    exact ⟨by omega, by omega, by omega⟩
  obtain ⟨hcolumn, hcleft, hcright⟩ := hdiv (x - l.boardX) (by omega) (by omega)
  obtain ⟨hrow, hctop, hcbottom⟩ := hdiv (y - l.boardY) (by omega) (by omega)
  refine ⟨_, _, hrow, hcolumn, ?_, ?_⟩
  · rw [PlayingLayout.hitTest, if_pos hin]
  · rw [Rect.contains_iff]
    simp only [PlayingLayout.cellRect]
    exact ⟨⟨by omega, by omega⟩, by omega, by omega⟩

/-- A point of a cell is in the board, and its quotients are the numbers of the cell. -/
theorem hit_cell (h : Sized l) {row column : Nat} (hrow : row < 9) (hcolumn : column < 9)
    (hin : (l.cellRect 0 row column).contains x y = true) :
    l.hitTest x y = some (.cell row column) := by
  obtain ⟨⟨hleft, hright⟩, htop, hbottom⟩ := Rect.contains_iff.mp hin
  simp only [PlayingLayout.cellRect] at hleft hright htop hbottom
  have hfit : ∀ k : Nat, k < 9 → 0 ≤ (k : Int) * l.cellSize ∧
      (k : Int) * l.cellSize + l.cellSize ≤ 9 * l.cellSize := by
    intro k hk
    have hle : ((k : Int) + 1) * l.cellSize ≤ 9 * l.cellSize :=
      Int.mul_le_mul_of_nonneg_right (by omega) h.cell.le
    rw [Int.add_mul, Int.one_mul] at hle
    exact ⟨Int.mul_nonneg (Int.natCast_nonneg k) h.cell.le, hle⟩
  obtain ⟨hc, hc'⟩ := hfit column hcolumn
  obtain ⟨hr, hr'⟩ := hfit row hrow
  have hboard : l.boardRect.contains x y = true := by
    rw [Rect.contains_iff]
    simp only [PlayingLayout.boardRect, h.board]
    exact ⟨⟨by omega, by omega⟩, by omega, by omega⟩
  rw [PlayingLayout.hitTest, if_pos hboard,
    ediv_eq_of_bounds h.cell (k := row) (by omega) (by omega),
    ediv_eq_of_bounds h.cell (k := column) (by omega) (by omega)]

/-- Beside the board. -/
theorem not_board (h : Sized l) (hx : l.controlX ≤ x) : ¬ l.boardRect.contains x y = true := by
  intro hin
  obtain ⟨⟨-, hright⟩, -⟩ := Rect.contains_iff.mp hin
  have hbeside := h.beside
  simp only [PlayingLayout.boardRect] at hright
  omega

/-- A digit's button, from the corner of the controls. -/
theorem digit_contains (h : Sized l) {index : Nat} :
    (l.digitRect index).contains x y = true ↔
      (l.controlX + (index % 3 : Nat) * 66 ≤ x ∧ x < l.controlX + (index % 3 : Nat) * 66 + 56) ∧
        l.controlY + (index / 3 : Nat) * 66 ≤ y ∧
        y < l.controlY + (index / 3 : Nat) * 66 + 56 := by
  rw [Rect.contains_iff, PlayingLayout.digitRect]
  simp only [h.button, h.gap]
  rfl

theorem action_contains (h : Sized l) {action : PlayingAction} :
    (l.actionRect action).contains x y = true ↔
      (l.controlX + PlayingLayout.actionIndex action * 66 ≤ x ∧
        x < l.controlX + PlayingLayout.actionIndex action * 66 + 56) ∧
        l.controlY + 214 ≤ y ∧ y < l.controlY + 214 + 72 := by
  rw [Rect.contains_iff, PlayingLayout.actionRect]
  simp only [h.button, h.gap, h.action]
  rfl

/-- The left edges of the buttons at the top. -/
def topLeft : TopAction → Int
  | .pause => 0
  | .menu => 99

theorem top_contains (h : Sized l) {action : TopAction} :
    (l.topRect action).contains x y = true ↔
      (l.controlX + topLeft action ≤ x ∧ x < l.controlX + topLeft action + 89) ∧
        l.boardY ≤ y ∧ y < l.boardY + 40 := by
  have hwidth : l.topWidth = 89 := by
    rw [PlayingLayout.topWidth, h.button, h.gap]
    rfl
  rw [Rect.contains_iff]
  cases action with
  | pause => simp only [PlayingLayout.topRect, topLeft, hwidth, h.top, Int.add_zero]
  | menu =>
    simp only [PlayingLayout.topRect, topLeft, hwidth, h.top, h.gap, Int.add_assoc]
    rfl

/-- The buttons are 56 wide and 66 apart, so a point is in one of them at most. -/
theorem hit_digit (h : Sized l) {index : Nat} (hindex : index < 9)
    (hin : (l.digitRect index).contains x y = true) :
    l.hitTest x y = some (.digit (index + 1)) := by
  have hpoint := h.digit_contains.mp hin
  have hfind : (List.range 9).find? (fun index => (l.digitRect index).contains x y) = some index :=
    find_eq_some_of_unique (List.mem_range.mpr hindex) hin fun other hother hhit => by
      have hpoint' := h.digit_contains.mp hhit
      have hnine := List.mem_range.mp hother
      omega
  rw [PlayingLayout.hitTest, if_neg (h.not_board (by omega)), hfind]

/-- Above and below the digits. -/
theorem no_digit (h : Sized l) (hy : y < l.controlY ∨ l.controlY + 188 ≤ y) :
    (List.range 9).find? (fun index => (l.digitRect index).contains x y) = none := by
  rw [List.find?_eq_none]
  intro index hindex hhit
  have hpoint := h.digit_contains.mp hhit
  have hnine := List.mem_range.mp hindex
  omega

theorem hit_action (h : Sized l) {action : PlayingAction}
    (hin : (l.actionRect action).contains x y = true) :
    l.hitTest x y = some (.action action) := by
  have hpoint := h.action_contains.mp hin
  have hfind : [PlayingAction.erase, .note, .hint].find?
      (fun action => (l.actionRect action).contains x y) = some action :=
    find_eq_some_of_unique (by cases action <;> decide) hin fun other _ hhit => by
      have hpoint' := h.action_contains.mp hhit
      have hindex : PlayingLayout.actionIndex other = PlayingLayout.actionIndex action := by omega
      revert hindex
      cases other <;> cases action <;> decide
  rw [PlayingLayout.hitTest, if_neg (h.not_board (by omega)), h.no_digit (by omega)]
  simp only [hfind]

theorem no_action (h : Sized l) (hy : y < l.controlY) :
    [PlayingAction.erase, .note, .hint].find?
      (fun action => (l.actionRect action).contains x y) = none := by
  rw [List.find?_eq_none]
  intro action _ hhit
  have hpoint := h.action_contains.mp hhit
  omega

theorem hit_top (h : Sized l) {action : TopAction} (hin : (l.topRect action).contains x y = true) :
    l.hitTest x y = some (.top action) := by
  have hpoint := h.top_contains.mp hin
  have hbelow := h.below
  have hleft : l.controlX ≤ x := by
    refine le_trans ?_ hpoint.1.1
    cases action <;> simp [topLeft]
  rw [PlayingLayout.hitTest, if_neg (h.not_board hleft), h.no_digit (by omega)]
  simp only [h.no_action (by omega : y < l.controlY)]
  cases action with
  | pause => rw [if_pos hin]
  | menu =>
    have hother : ¬ (l.topRect .pause).contains x y = true := by
      intro hpause
      have hpoint' := h.top_contains.mp hpause
      simp only [topLeft] at hpoint hpoint'
      omega
    rw [if_neg hother, if_pos hin]

/-- A control is hit in its area. -/
theorem hit_of_area (h : Sized l) {target : HitTarget} {r : Rect} (harea : l.area target = some r)
    (hin : r.contains x y = true) : l.hitTest x y = some target := by
  -- A control of another screen has no rectangle in this one.
  cases target with
  | menu action => cases harea
  | difficulty choice => cases harea
  | resultMenu => cases harea
  | cell row column =>
    simp only [PlayingLayout.area, PlayingLayout.painted] at harea
    split at harea
    · next hlt =>
      cases harea
      exact h.hit_cell hlt.1 hlt.2 hin
    · cases harea
  | digit value =>
    simp only [PlayingLayout.area, PlayingLayout.painted] at harea
    split at harea
    · next hvalue =>
      cases harea
      have hhit := h.hit_digit (by omega) hin
      rw [Nat.sub_add_cancel hvalue.1] at hhit
      exact hhit
    · cases harea
  | action action =>
    cases harea
    exact h.hit_action hin
  | top action =>
    cases harea
    exact h.hit_top hin

/-- And nowhere else. -/
theorem area_of_hit (h : Sized l) {target : HitTarget} (hhit : l.hitTest x y = some target) :
    ∃ r, l.area target = some r ∧ r.contains x y = true := by
  -- The questions in the order of the source. Each that is answered no puts the point outside of
  -- the rectangles before.
  by_cases hboard : l.boardRect.contains x y = true
  · obtain ⟨row, column, hrow, hcolumn, hcell, hin⟩ := h.cell_of_board hboard
    rw [hcell] at hhit
    cases hhit
    exact ⟨_, if_pos ⟨hrow, hcolumn⟩, hin⟩
  · rw [PlayingLayout.hitTest, if_neg hboard] at hhit
    cases hdigit : (List.range 9).find? fun index => (l.digitRect index).contains x y with
    | some index =>
      rw [hdigit] at hhit
      cases hhit
      have hnine := List.mem_range.mp (List.mem_of_find?_eq_some hdigit)
      have hin : (l.digitRect index).contains x y = true := by
        simpa using List.find?_some hdigit
      exact ⟨_, if_pos (by omega), hin⟩
    | none =>
      rw [hdigit] at hhit
      simp only at hhit
      cases haction : [PlayingAction.erase, .note, .hint].find?
          fun action => (l.actionRect action).contains x y with
      | some action =>
        rw [haction] at hhit
        cases hhit
        have hin : (l.actionRect action).contains x y = true := by
          simpa using List.find?_some haction
        exact ⟨_, rfl, hin⟩
      | none =>
        rw [haction] at hhit
        simp only at hhit
        split at hhit
        · next hpause =>
          cases hhit
          exact ⟨_, rfl, hpause⟩
        · split at hhit
          · next hmenu =>
            cases hhit
            exact ⟨_, rfl, hmenu⟩
          · cases hhit

end Sized

/-- **A click finds the control it is in**, whatever the size of the window. -/
theorem hitTest_iff {width height x y : Int} {target : HitTarget} :
    (PlayingLayout.forWindow width height).hitTest x y = some target ↔
      ∃ r, (PlayingLayout.forWindow width height).area target = some r ∧
        r.contains x y = true := by
  have hsized := sized_forWindow width height
  constructor
  · intro hhit
    exact hsized.area_of_hit hhit
  · intro hex
    obtain ⟨r, harea, hin⟩ := hex
    exact hsized.hit_of_area harea hin

/-- The board moves by six at most. -/
theorem shakeOffset_le (shakeRemainingNs shakePhase : Nat) :
    (PlayingLayout.shakeOffset shakeRemainingNs shakePhase).natAbs ≤ 6 := by
  rw [PlayingLayout.shakeOffset]
  split
  · decide
  · split <;> decide

/-- A cell is hit where it stands. -/
theorem Sized.hit_cell_iff {l : PlayingLayout} {x y : Int} (h : Sized l) {row column : Nat}
    (hrow : row < 9) (hcolumn : column < 9) :
    l.hitTest x y = some (.cell row column) ↔ (l.cellRect 0 row column).contains x y = true := by
  constructor
  · intro hhit
    obtain ⟨r, harea, hin⟩ := h.area_of_hit hhit
    rw [PlayingLayout.area, PlayingLayout.painted, if_pos ⟨hrow, hcolumn⟩] at harea
    · obtain rfl := Option.some.inj harea
      exact hin
    · exact fun _ heq => by cases heq
  · exact h.hit_cell hrow hcolumn

/-- **What is drawn is what is hit**, except for a strip of the button for the menu, and for what
    the board has been moved to, by six at most. -/
theorem hitTest_painted {width height x y : Int} {target : HitTarget} {r : Rect}
    {shakeRemainingNs shakePhase : Nat}
    (hpainted : (PlayingLayout.forWindow width height).painted
      (PlayingLayout.shakeOffset shakeRemainingNs shakePhase) target = some r)
    (hin : r.contains x y = true) :
    ((PlayingLayout.forWindow width height).hitTest x y = some target ↔
      ¬ (target = .top .menu ∧ x < r.left + 5) ∧
        ∀ row column, target = .cell row column →
          ((PlayingLayout.forWindow width height).cellRect 0 row column).contains x y = true) ∧
      (PlayingLayout.shakeOffset shakeRemainingNs shakePhase).natAbs ≤ 6 := by
  refine ⟨?_, shakeOffset_le shakeRemainingNs shakePhase⟩
  have hsized := sized_forWindow width height
  have hpoint := Rect.contains_iff.mp hin
  -- The board is the only one that moves, and the button for the menu the only one that is drawn
  -- elsewhere.
  cases target with
  | menu action => cases hpainted
  | difficulty choice => cases hpainted
  | resultMenu => cases hpainted
  | cell row column =>
    rw [PlayingLayout.painted] at hpainted
    split at hpainted
    · next hlt =>
      rw [hsized.hit_cell_iff hlt.1 hlt.2]
      simp
    · cases hpainted
  | digit value =>
    have hhit : (PlayingLayout.forWindow width height).hitTest x y = some (.digit value) :=
      hsized.hit_of_area (r := r) hpainted hin
    simp [hhit]
  | action action =>
    have hhit : (PlayingLayout.forWindow width height).hitTest x y = some (.action action) :=
      hsized.hit_of_area (r := r) hpainted hin
    simp [hhit]
  | top action =>
    have hwidth : (PlayingLayout.forWindow width height).paintedTopWidth = 84 := rfl
    have htop := hsized.top
    cases action with
    | pause =>
      cases hpainted
      have hhit : (PlayingLayout.forWindow width height).hitTest x y = some (.top .pause) := by
        refine hsized.hit_top (hsized.top_contains.mpr ?_)
        simp only [Sized.topLeft, hwidth, htop] at hpoint ⊢
        omega
      simp [hhit]
    | menu =>
      cases hpainted
      simp only [true_and, not_lt, reduceCtorEq, false_implies, implies_true, and_true]
      have hgap := hsized.gap
      constructor
      · intro hhit
        obtain ⟨r, harea, hr⟩ := hsized.area_of_hit hhit
        cases harea
        have hpoint' := hsized.top_contains.mp hr
        simp only [Sized.topLeft, hwidth] at hpoint' ⊢
        omega
      · intro hx
        refine hsized.hit_top (hsized.top_contains.mpr ?_)
        simp only [Sized.topLeft, hwidth, htop] at hpoint hx ⊢
        omega

/-- Just after a wrong move the corner of the board is drawn six to the left and six higher, and a
    click there hits nothing; the middle of the board is hit all the same. -/
theorem hitTest_painted_shaking :
    (PlayingLayout.forWindow designWidth designHeight).hitTest 36 120 ≠ some (.cell 0 0) ∧
      (PlayingLayout.forWindow designWidth designHeight).hitTest 330 400 = some (.cell 4 4) := by
  have hcorner : (PlayingLayout.forWindow designWidth designHeight).painted
      (PlayingLayout.shakeOffset 300000000 0) (.cell 0 0) = some ⟨34, 104, 64, 64⟩ := rfl
  have hmiddle : (PlayingLayout.forWindow designWidth designHeight).painted
      (PlayingLayout.shakeOffset 300000000 0) (.cell 4 4) = some ⟨290, 360, 64, 64⟩ := rfl
  have hin : (Rect.mk 34 104 64 64).contains 36 120 = true := by decide
  have hin' : (Rect.mk 290 360 64 64).contains 330 400 = true := by decide
  refine ⟨?_, (hitTest_painted hmiddle hin').1.mpr ⟨by decide, ?_⟩⟩
  · intro hhit
    exact absurd (((hitTest_painted hcorner hin).1.mp hhit).2 0 0 rfl) (by decide)
  · intro row column heq
    cases heq
    decide

/-! ## Within `i32` -/

/-- What an `i32` holds. -/
def InI32 (n : Int) : Prop := -2147483648 ≤ n ∧ n ≤ 2147483647

/-- **Nothing wraps** in the placing of the controls: not what is taken from the size of the window,
    and not the lower and the right edge of the lowest and the right-most control. -/
theorem forWindow_inI32 {width height : Int} (hwidth : InI32 width) (hheight : InI32 height)
    (hwide : -2147483648 + 460 ≤ width) (hhigh : -2147483648 + 200 ≤ height) :
    InI32 (width - 320) ∧ InI32 (height - 200) ∧
      InI32 (width - (PlayingLayout.forWindow width height).panelX - 30) ∧
      InI32 ((PlayingLayout.forWindow width height).controlX + 188) ∧
      InI32 ((PlayingLayout.forWindow width height).actionY + 72) := by
  obtain ⟨-, hwidth⟩ := hwidth
  obtain ⟨-, hheight⟩ := hheight
  simp only [InI32, PlayingLayout.forWindow]
  refine ⟨?_, ?_, ?_, ?_, ?_⟩ <;> omega

/-! ## The screens -/

/-- `hit_test` -/
def hitTest (screen : Screen) (x y : Int) : Option HitTarget :=
  match screen with
  | .mainMenu =>
    ([(0, .continue), (1, .newGame), (2, .leaderboard), (3, .quit)].find? fun (entry : Int × _) =>
      (Rect.mk ((designWidth - 280) / 2) (280 + entry.1 * 70) 280 56).contains x y).map
        fun entry => .menu entry.2
  | .difficulty =>
    ([(0, .easy), (1, .medium), (2, .hard)].find? fun (entry : Int × _) =>
      (Rect.mk ((designWidth - 220 * 3 - 24 * 2) / 2 + entry.1 * (220 + 24))
        ((designHeight - 280) / 2) 220 280).contains x y).map fun entry => .difficulty entry.2
  | .playing => (PlayingLayout.forWindow designWidth designHeight).hitTest x y

def hitTestResultMenu (x y : Int) : Option HitTarget :=
  if (Rect.mk 350 420 200 48).contains x y then some .resultMenu else none

/-- The cells and the digits that are hit are of the board. -/
def HitTarget.InRange : HitTarget → Prop
  | .cell row column => row < 9 ∧ column < 9
  | .digit value => 1 ≤ value ∧ value ≤ 9
  | _ => True

theorem hitTest_inRange {screen : Screen} {x y : Int} {target : HitTarget}
    (h : hitTest screen x y = some target) : target.InRange := by
  -- The rectangles of the two menus are fixed; the ones of the game are asked with the window's
  -- layout.
  cases screen with
  | mainMenu =>
    obtain ⟨entry, -, rfl⟩ := Option.map_eq_some_iff.mp h
    trivial
  | difficulty =>
    obtain ⟨entry, -, rfl⟩ := Option.map_eq_some_iff.mp h
    trivial
  | playing =>
    obtain ⟨r, harea, -⟩ := (sized_forWindow designWidth designHeight).area_of_hit h
    cases target with
    | cell row column =>
      simp only [PlayingLayout.area, PlayingLayout.painted] at harea
      split at harea
      · next hlt => exact hlt
      · cases harea
    | digit value =>
      simp only [PlayingLayout.area, PlayingLayout.painted] at harea
      split at harea
      · next hvalue => exact hvalue
      · cases harea
    | _ => trivial

end Sudoku
end EngineKit
