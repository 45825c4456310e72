import Mathlib.Data.Finset.Prod
import Mathlib.Data.List.Induction
import Mathlib.Data.Nat.Basic

/-!
# Greedy tiles of a grid

A grid of values, zero where there is nothing. The greedy cover goes through the cells by rows; at a
cell that is not zero it takes the tile that goes as far to the right as the value does, then as far
down as the whole row of it does, and clears it.

The tiles are an exact cover (`stack_tiles`): a cell with a value is in one tile, which has its
value, and a cell without is in none. If the grid is made of blocks that are as wide as `b`, so are
the tiles, and there are not more of them than cells by `b` (`length_tiles_le`).

A tile is proved right by what `grow` has checked: the first row has the value because the width
went as far as that, and every other row because the height did. Nothing is said of a tile being the
largest. The cover is an equation of lists at each cell, between the tiles it is in, what is left of
it, and its value (`Covered.stack`); so that it is in one tile and no more, and that the tile has
its value, are one statement.

The count goes along the same scan. Tiles of a grid of blocks begin and end where blocks do, and
this holds on because what is left is a grid of blocks again.
-/

set_option autoImplicit false

namespace EngineKit
namespace Lib

namespace Tiles

/-! ## Going on as long as something holds -/

/-- `while n < bound && p(n) { n += 1 }`, with the room that is left up to the bound. -/
def grow (p : Nat → Bool) : Nat → Nat → Nat
  | 0, n => n
  | room + 1, n => if p n then grow p room (n + 1) else n

section Grow

variable (p : Nat → Bool)

/-- Growing goes on and not back. -/
theorem le_grow (room n : Nat) : n ≤ grow p room n := by
  induction room generalizing n with
  | zero => exact Nat.le_refl n
  | succ room ih =>
    rw [grow]
    split
    · exact Nat.le_of_succ_le (ih (n + 1))
    · exact Nat.le_refl n

/-- Growing does not go beyond the bound. -/
theorem grow_le (room n : Nat) : grow p room n ≤ n + room := by
  induction room generalizing n with
  | zero => exact Nat.le_refl n
  | succ room ih =>
    rw [grow]
    split
    · have hle := ih (n + 1)
      omega
    · omega

/-- Growing goes only over what holds. -/
theorem grow_holds {room n k : Nat} (hn : n ≤ k) (hk : k < grow p room n) : p k = true := by
  induction room generalizing n with
  | zero =>
    rw [grow] at hk
    omega
  | succ room ih =>
    rw [grow] at hk
    split at hk
    · next hp =>
      by_cases heq : n = k
      · exact heq ▸ hp
      · exact ih (by omega) hk
    · omega

/-- It stops at the bound, or where the condition fails. -/
theorem grow_stops (room n : Nat) : grow p room n = n + room ∨ p (grow p room n) = false := by
  induction room generalizing n with
  | zero => exact .inl rfl
  | succ room ih =>
    rw [grow]
    split
    · rcases ih (n + 1) with hbound | hfails
      · exact .inl (by omega)
      · exact .inr hfails
    · next hp => exact .inr (Bool.eq_false_iff.mpr hp)

end Grow

/-! ## One tile -/

variable {α : Type}

/-- A rectangle of cells with one value: `w` columns from `i` on, `h` rows from `j` on. -/
structure Tile (α : Type) where
  i : Nat
  j : Nat
  w : Nat
  h : Nat
  value : α
deriving DecidableEq

def Tile.Covers (t : Tile α) (i j : Nat) : Prop :=
  (t.i ≤ i ∧ i < t.i + t.w) ∧ t.j ≤ j ∧ j < t.j + t.h

instance (t : Tile α) (i j : Nat) : Decidable (t.Covers i j) :=
  inferInstanceAs (Decidable (_ ∧ _))

/-- A tile is in the grid and not empty. -/
structure Tile.Fits (columns rows : Nat) (t : Tile α) : Prop where
  right : t.i + t.w ≤ columns
  bottom : t.j + t.h ≤ rows
  wide : 0 < t.w
  high : 0 < t.h

/-- What a tile covers is in the grid. -/
theorem Tile.Fits.lt {columns rows i j : Nat} {t : Tile α} (h : t.Fits columns rows)
    (hcovers : t.Covers i j) :
    i < columns ∧ j < rows :=
  ⟨Nat.lt_of_lt_of_le hcovers.1.2 h.right, Nat.lt_of_lt_of_le hcovers.2.2 h.bottom⟩

/-- The values of the tiles that a cell is in. -/
def stack (ts : List (Tile α)) (i j : Nat) : List α :=
  (ts.filter fun t => t.Covers i j).map (·.value)

/-- One tile more. -/
theorem stack_snoc (ts : List (Tile α)) (t : Tile α) (i j : Nat) :
    stack (ts ++ [t]) i j = stack ts i j ++ if t.Covers i j then [t.value] else [] := by
  rw [stack, List.filter_append, List.map_append]
  by_cases hcovers : t.Covers i j
  · simp [stack, hcovers]
  · simp [stack, hcovers]

section TileAt

variable [DecidableEq α] (columns rows : Nat)

/-- The tile that begins at a cell. -/
def tileAt (mask : Nat → Nat → α) (i j : Nat) : Tile α :=
  let value := mask i j
  let w := grow (fun k => mask (i + k) j = value) (columns - (i + 1)) 1
  let h := grow (fun k => (List.range w).all fun x => mask (i + x) (j + k) = value)
    (rows - (j + 1)) 1
  ⟨i, j, w, h, value⟩

variable {columns rows} {mask : Nat → Nat → α} {i j : Nat}

/-- The tile that begins at a cell is in the grid. -/
theorem tileAt_fits (mask : Nat → Nat → α) (hi : i < columns) (hj : j < rows) :
    (tileAt columns rows mask i j).Fits columns rows := by
  refine ⟨?_, ?_, le_grow _ _ 1, le_grow _ _ 1⟩
  · have hle := grow_le (fun k => mask (i + k) j = mask i j) (columns - (i + 1)) 1
    show i + grow _ _ _ ≤ columns
    omega
  · have hle := grow_le (fun k => (List.range (tileAt columns rows mask i j).w).all fun x =>
      mask (i + x) (j + k) = mask i j) (rows - (j + 1)) 1
    show j + grow _ _ _ ≤ rows
    exact Nat.le_trans (Nat.add_le_add_left hle j) (by omega)

/-- The first row of a tile has its value. -/
theorem mask_of_first {x : Nat} (hx : x < (tileAt columns rows mask i j).w) :
    mask (i + x) j = mask i j := by
  cases x with
  | zero => rfl
  | succ x => exact of_decide_eq_true (grow_holds _ (Nat.succ_pos x) hx)

/-- Every other row of a tile has its value too. -/
theorem mask_of_covers {x y : Nat} (h : (tileAt columns rows mask i j).Covers x y) :
    mask x y = mask i j := by
  obtain ⟨⟨hleft, hright⟩, htop, hbottom⟩ := h
  obtain ⟨dx, rfl⟩ := Nat.exists_eq_add_of_le hleft
  obtain ⟨dy, rfl⟩ := Nat.exists_eq_add_of_le htop
  have hx : dx < (tileAt columns rows mask i j).w := Nat.lt_of_add_lt_add_left hright
  have hy : dy < (tileAt columns rows mask i j).h := Nat.lt_of_add_lt_add_left hbottom
  show mask (i + dx) (j + dy) = mask i j
  cases dy with
  | zero => exact mask_of_first hx
  | succ dy =>
    have hrow := grow_holds _ (Nat.succ_pos dy) hy
    exact of_decide_eq_true (List.all_eq_true.mp hrow dx (List.mem_range.mpr hx))

/-- The tile that begins at a cell has that cell. -/
theorem covers_self (mask : Nat → Nat → α) (hi : i < columns) (hj : j < rows) :
    (tileAt columns rows mask i j).Covers i j := by
  have hfits := tileAt_fits mask hi hj
  exact ⟨⟨Nat.le_refl i, Nat.lt_add_of_pos_right hfits.wide⟩, Nat.le_refl j,
    Nat.lt_add_of_pos_right hfits.high⟩

end TileAt

/-! ## The cover -/

section Cover

variable [DecidableEq α] [Zero α] (columns rows : Nat)

def without (mask : Nat → Nat → α) (t : Tile α) : Nat → Nat → α :=
  fun i j => if t.Covers i j then 0 else mask i j

def tileStep (s : (Nat → Nat → α) × List (Tile α)) (cell : Nat × Nat) :
    (Nat → Nat → α) × List (Tile α) :=
  if s.1 cell.1 cell.2 = 0 then s
  else
    let t := tileAt columns rows s.1 cell.1 cell.2
    (without s.1 t, s.2 ++ [t])

/-- The cells by rows. -/
def scan : List (Nat × Nat) :=
  (List.range rows).flatMap fun j => (List.range columns).map fun i => (i, j)

/-- What is left of the grid, and the tiles. -/
def tiles (mask : Nat → Nat → α) : (Nat → Nat → α) × List (Tile α) :=
  (scan columns rows).foldl (tileStep columns rows) (mask, [])

variable {columns rows} {mask₀ : Nat → Nat → α} {i j : Nat}

/-! ## The order of the cells -/

/-- All cells of the grid. -/
theorem mem_scan : (i, j) ∈ scan columns rows ↔ i < columns ∧ j < rows := by
  simp [scan, and_comm]

/-- By rows, and from the left in a row. -/
theorem scan_sorted : (scan columns rows).Pairwise fun a b =>
    a.2 < b.2 ∨ a.2 = b.2 ∧ a.1 < b.1 := by
  refine List.pairwise_flatMap.mpr ⟨?_, ?_⟩
  · intro j _
    refine List.pairwise_map.mpr (List.pairwise_lt_range.imp ?_)
    intro a b hab
    exact .inr ⟨rfl, hab⟩
  · refine List.pairwise_lt_range.imp ?_
    intro a b hab x hx y hy
    obtain ⟨-, -, rfl⟩ := List.mem_map.mp hx
    obtain ⟨-, -, rfl⟩ := List.mem_map.mp hy
    exact .inl hab

/-! ## An exact cover -/

/-- A value that is there. -/
def present (value : α) : List α := if value = 0 then [] else [value]

/-- The cover after some cells: the tiles and what is left make up the grid, and nothing is left of
    those cells. -/
structure Covered (columns rows : Nat) (mask₀ : Nat → Nat → α) (cells : List (Nat × Nat))
    (s : (Nat → Nat → α) × List (Tile α)) : Prop where
  fits : ∀ t ∈ s.2, t.Fits columns rows
  stack : ∀ i j, i < columns → j < rows →
    stack s.2 i j ++ present (s.1 i j) = present (mask₀ i j)
  cleared : ∀ cell ∈ cells, s.1 cell.1 cell.2 = 0

theorem present_zero : present (0 : α) = [] := if_pos rfl

/-- **One cell**: its tile, if it begins one, takes over what it covers. -/
theorem Covered.step {cells : List (Nat × Nat)} {s : (Nat → Nat → α) × List (Tile α)}
    (h : Covered columns rows mask₀ cells s) (hi : i < columns) (hj : j < rows) :
    Covered columns rows mask₀ (cells ++ [(i, j)]) (tileStep columns rows s (i, j)) := by
  rw [tileStep]
  -- A cell that is zero is passed over; one that is not begins a tile.
  split
  · next hzero =>
    refine ⟨h.fits, h.stack, ?_⟩
    intro cell hcell
    rcases List.mem_append.mp hcell with hold | hnew
    · exact h.cleared cell hold
    · obtain rfl := List.mem_singleton.mp hnew
      exact hzero
  · next hvalue =>
    refine ⟨?_, ?_, ?_⟩
    · intro t ht
      rcases List.mem_append.mp ht with hold | hnew
      · exact h.fits t hold
      · obtain rfl := List.mem_singleton.mp hnew
        exact tileAt_fits s.1 hi hj
    · intro x y hx hy
      dsimp only
      have hstack := h.stack x y hx hy
      -- In the tile the value goes from what is left to the tiles; outside nothing changes.
      by_cases hcovers : (tileAt columns rows s.1 i j).Covers x y
      · have hmask := mask_of_covers hcovers
        rw [hmask] at hstack
        rw [stack_snoc, if_pos hcovers, without, if_pos hcovers, present_zero, List.append_nil,
          ← hstack, present, if_neg hvalue]
        rfl
      · rw [stack_snoc, if_neg hcovers, List.append_nil, without, if_neg hcovers, hstack]
    · intro cell hcell
      dsimp only
      rw [without]
      split
      · rfl
      · next hcovers =>
        rcases List.mem_append.mp hcell with hold | hnew
        · exact h.cleared cell hold
        · obtain rfl := List.mem_singleton.mp hnew
          exact absurd (covers_self s.1 hi hj) hcovers

/-- The cells up to some cell. -/
theorem covered (mask : Nat → Nat → α) {cells : List (Nat × Nat)}
    (hcells : cells <+: scan columns rows) :
    Covered columns rows mask cells (cells.foldl (tileStep columns rows) (mask, [])) := by
  induction cells using List.reverseRecOn with
  | nil => exact ⟨nofun, fun _ _ _ _ => rfl, nofun⟩
  | append_singleton cells cell ih =>
    obtain ⟨i, j⟩ := cell
    have hmem : (i, j) ∈ scan columns rows :=
      hcells.subset (List.mem_append_right _ (List.mem_singleton_self _))
    obtain ⟨hi, hj⟩ := mem_scan.mp hmem
    rw [List.foldl_append]
    exact (ih ((List.prefix_append _ _).trans hcells)).step hi hj

/-- **The tiles are an exact cover.** -/
theorem stack_tiles (mask : Nat → Nat → α) (i j : Nat) :
    stack (tiles columns rows mask).2 i j =
      if i < columns ∧ j < rows then present (mask i j) else [] := by
  have hcovered := covered mask (List.prefix_refl (scan columns rows))
  split
  · next hin =>
    have hstack := hcovered.stack i j hin.1 hin.2
    rw [hcovered.cleared (i, j) (mem_scan.mpr hin), present_zero, List.append_nil] at hstack
    exact hstack
  · next hout =>
    rw [stack, List.map_eq_nil_iff, List.filter_eq_nil_iff]
    intro t ht hcovers
    exact hout ((hcovered.fits t ht).lt (of_decide_eq_true hcovers))

/-! ## How many tiles -/

/-- How many cells have a value. -/
def live (columns rows : Nat) (mask : Nat → Nat → α) : Nat :=
  ((Finset.range columns ×ˢ Finset.range rows).filter fun cell => mask cell.1 cell.2 ≠ 0).card

/-- The grid is made of blocks as wide as `b`. -/
def Blocks (columns b : Nat) (mask : Nat → Nat → α) : Prop :=
  ∀ i i' j, i < columns → i' < columns → i / b = i' / b → mask i j = mask i' j

section Count

variable {b : Nat} {mask : Nat → Nat → α}

omit [Zero α] in
/-- A tile ends where a block does. -/
theorem dvd_width (hcolumns : b ∣ columns) (hblocks : Blocks columns b mask)
    (hi : i < columns) (hj : j < rows) (hdvd : b ∣ i) :
    b ∣ (tileAt columns rows mask i j).w := by
  have hfits := tileAt_fits mask hi hj
  have hright : i + (tileAt columns rows mask i j).w ≤ columns := hfits.right
  have hwide := hfits.wide
  refine (Nat.dvd_add_right hdvd).mp ?_
  -- The tile ends with the row, or at a cell that differs from the one before it; within a block
  -- none does.
  rcases Nat.eq_or_lt_of_le hright with hend | hin
  · rw [hend]
    exact hcolumns
  · by_contra hinside
    obtain ⟨w, hw⟩ := Nat.exists_eq_succ_of_ne_zero (Nat.ne_of_gt hwide)
    have hsame : mask (i + (w + 1)) j = mask (i + w) j := by
      rw [hw] at hin hinside
      refine hblocks _ _ j hin (Nat.lt_of_succ_lt hin) ?_
      have hinside : ¬ b ∣ i + w + 1 := hinside
      show (i + w + 1) / b = (i + w) / b
      rw [Nat.succ_div, if_neg hinside, Nat.add_zero]
    have hlast : mask (i + w) j = mask i j := by
      refine @mask_of_first _ _ columns rows mask i j w ?_
      rw [hw]
      exact Nat.lt_succ_self w
    have hstops := grow_stops (fun k => mask (i + k) j = mask i j) (columns - (i + 1)) 1
    rcases hstops with hbound | hfails
    · have hbound : (tileAt columns rows mask i j).w = 1 + (columns - (i + 1)) := hbound
      omega
    · have hfails : mask (i + (tileAt columns rows mask i j).w) j ≠ mask i j :=
        of_decide_eq_false hfails
      rw [hw] at hfails
      exact hfails (hsame.trans hlast)

omit [DecidableEq α] [Zero α] in
/-- A tile has a block's cells of one row all or not at all. -/
theorem covers_block {t : Tile α} {i i' : Nat} (hb : 0 < b) (hi : b ∣ t.i) (hw : b ∣ t.w)
    (hsame : i / b = i' / b) : t.Covers i j ↔ t.Covers i' j := by
  obtain ⟨q, hq⟩ := hi
  obtain ⟨r, hr⟩ := Nat.dvd_add ⟨q, hq⟩ hw
  have hleft (x : Nat) : t.i ≤ x ↔ q ≤ x / b := by
    rw [hq, Nat.le_div_iff_mul_le hb, Nat.mul_comm]
  have hright (x : Nat) : x < t.i + t.w ↔ x / b < r := by
    rw [hr, Nat.div_lt_iff_lt_mul hb, Nat.mul_comm]
  rw [Tile.Covers, Tile.Covers, hleft, hleft, hright, hright, hsame]

/-- A tile that covers `b` cells with a value leaves as many fewer. -/
theorem live_without {t : Tile α}
    (hcells : ∀ k < b, t.Covers (i + k) j ∧ i + k < columns ∧ mask (i + k) j ≠ 0) (hj : j < rows) :
    b + live columns rows (without mask t) ≤ live columns rows mask := by
  let row := (Finset.range b).image fun k => (i + k, j)
  have hrow : row.card = b := by
    rw [Finset.card_image_of_injective, Finset.card_range]
    intro k k' heq
    exact Nat.add_left_cancel (Prod.mk.inj heq).1
  rw [← hrow, live, ← Finset.card_union_of_disjoint]
  · refine Finset.card_le_card ?_
    intro cell hcell
    -- The cells that are cleared and those that are left are not the same.
    rcases Finset.mem_union.mp hcell with hnew | hold
    · obtain ⟨k, hk, rfl⟩ := Finset.mem_image.mp hnew
      obtain ⟨-, hin, hvalue⟩ := hcells k (Finset.mem_range.mp hk)
      exact Finset.mem_filter.mpr ⟨Finset.mem_product.mpr
        ⟨Finset.mem_range.mpr hin, Finset.mem_range.mpr hj⟩, hvalue⟩
    · obtain ⟨hin, hvalue⟩ := Finset.mem_filter.mp hold
      refine Finset.mem_filter.mpr ⟨hin, ?_⟩
      intro hzero
      refine hvalue ?_
      rw [without, hzero, ite_self]
  · refine Finset.disjoint_left.mpr ?_
    intro cell hnew hold
    obtain ⟨k, hk, rfl⟩ := Finset.mem_image.mp hnew
    refine (Finset.mem_filter.mp hold).2 ?_
    rw [without, if_pos (hcells k (Finset.mem_range.mp hk)).1]

/-- The cover, of blocks. -/
structure Counted (columns rows b : Nat) (mask₀ : Nat → Nat → α)
    (s : (Nat → Nat → α) × List (Tile α)) : Prop where
  blocks : Blocks columns b s.1
  count : b * s.2.length + live columns rows s.1 ≤ live columns rows mask₀

/-- **One cell**: a tile takes at least `b` cells away. -/
theorem Counted.step {s : (Nat → Nat → α) × List (Tile α)} (hb : 0 < b) (hcolumns : b ∣ columns)
    (h : Counted columns rows b mask₀ s) (hi : i < columns) (hj : j < rows)
    (hbefore : ¬ b ∣ i → s.1 (i / b * b) j = 0) :
    Counted columns rows b mask₀ (tileStep columns rows s (i, j)) := by
  rw [tileStep]
  -- No tile begins within a block.
  split
  · exact h
  · next hvalue =>
    have hvalue : s.1 i j ≠ 0 := hvalue
    -- the blocks of a row are cleared as a whole, from their first cell on
    have hdvd : b ∣ i := by
      by_contra hinside
      refine hvalue ?_
      rw [← hbefore hinside]
      refine h.blocks _ _ j hi (Nat.lt_of_le_of_lt (Nat.div_mul_le_self i b) hi) ?_
      rw [Nat.mul_div_cancel _ hb]
    have hwidth : b ∣ (tileAt columns rows s.1 i j).w :=
      dvd_width hcolumns h.blocks hi hj hdvd
    have hfits := tileAt_fits s.1 hi hj
    refine ⟨?_, ?_⟩
    · intro x x' y hx hx' hsame
      have hcovers := covers_block (t := tileAt columns rows s.1 i j) (j := y) hb hdvd hwidth hsame
      show without s.1 _ x y = without s.1 _ x' y
      rw [without, without, h.blocks x x' y hx hx' hsame]
      exact if_congr hcovers rfl rfl
    · have hlive : b + live columns rows (without s.1 (tileAt columns rows s.1 i j)) ≤
          live columns rows s.1 := by
        refine live_without (i := i) ?_ hj
        intro k hk
        have hin : k < (tileAt columns rows s.1 i j).w :=
          Nat.lt_of_lt_of_le hk (Nat.le_of_dvd hfits.wide hwidth)
        have hright : i + (tileAt columns rows s.1 i j).w ≤ columns := hfits.right
        refine ⟨⟨⟨Nat.le_add_right i k, Nat.add_lt_add_left hin i⟩, Nat.le_refl j,
          Nat.lt_add_of_pos_right hfits.high⟩, by omega, ?_⟩
        rw [mask_of_first hin]
        exact hvalue
      have hcount := h.count
      show b * (s.2 ++ [tileAt columns rows s.1 i j]).length +
        live columns rows (without s.1 (tileAt columns rows s.1 i j)) ≤ _
      rw [List.length_append, List.length_singleton, Nat.mul_add, Nat.mul_one]
      omega

/-- **A grid of blocks has few tiles**: not more than cells with a value, by the width. -/
theorem length_tiles_le (hb : 0 < b) (hcolumns : b ∣ columns) (hblocks : Blocks columns b mask₀) :
    b * (tiles columns rows mask₀).2.length ≤ live columns rows mask₀ := by
  have hrun : ∀ cells, cells <+: scan columns rows →
      Counted columns rows b mask₀ (cells.foldl (tileStep columns rows) (mask₀, [])) := by
    intro cells
    induction cells using List.reverseRecOn with
    | nil => exact fun _ => ⟨hblocks, by simp⟩
    | append_singleton cells cell ih =>
      intro hcells
      obtain ⟨i, j⟩ := cell
      have hshort := (List.prefix_append cells [(i, j)]).trans hcells
      have hmem : (i, j) ∈ scan columns rows :=
        hcells.subset (List.mem_append_right _ (List.mem_singleton_self _))
      obtain ⟨hi, hj⟩ := mem_scan.mp hmem
      rw [List.foldl_append]
      refine (ih hshort).step hb hcolumns hi hj ?_
      intro hinside
      refine (covered mask₀ hshort).cleared (i / b * b, j) ?_
      -- the first cell of the block comes before
      have hlt : i / b * b < i := by
        refine Nat.lt_of_le_of_ne (Nat.div_mul_le_self i b) ?_
        intro heq
        exact hinside (heq ▸ Nat.dvd_mul_left b (i / b))
      obtain ⟨rest, hsplit⟩ := hcells
      have hfirst : (i / b * b, j) ∈ scan columns rows := mem_scan.mpr ⟨hlt.trans hi, hj⟩
      rw [← hsplit, List.append_assoc] at hfirst
      rcases List.mem_append.mp hfirst with hdone | hlater
      · exact hdone
      · have hsorted := @scan_sorted columns rows
        rw [← hsplit, List.append_assoc] at hsorted
        have hafter := (List.pairwise_append.mp hsorted).2.1
        rcases List.mem_cons.mp hlater with heq | hrest
        · exact absurd (Prod.mk.inj heq).1 (Nat.ne_of_lt hlt)
        · rcases List.rel_of_pairwise_cons hafter hrest with hrow | ⟨-, hcolumn⟩
          · exact absurd hrow (Nat.lt_irrefl j)
          · exact absurd hcolumn (Nat.lt_asymm hlt)
  exact Nat.le_of_add_right_le (hrun _ (List.prefix_refl _)).count

end Count

end Cover

end Tiles

end Lib
end EngineKit
