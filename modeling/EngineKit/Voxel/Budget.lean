import Mathlib.Algebra.BigOperators.Group.Finset.Piecewise
import Mathlib.Algebra.BigOperators.Ring.Finset
import Mathlib.Algebra.Order.BigOperators.Group.Finset
import Mathlib.Order.Interval.Finset.Nat
import EngineKit.Voxel.Draws

/-!
# A chunk is in the budget

The columns of the terrain are as high as each other by fours. So the masks of a chunk are made of
blocks four wide, and there are at most as many quads as there are sides shown, by four. A side of a
column is shown between the heights of two columns, of different fours: seven blocks at most. That
is 448 sides in each of the four directions, 256 at the top and as many at the bottom
(`length_groups_le`), and a mesh of 576 quads at most: a chunk is never refused (`buildChunk_eq`).

The bound is a count of sides and not of quads. How the greedy mesh cuts a mask into quads is left
to the library, which needs the mask to be made of blocks and no more; how many sides a mask shows
is read off the heights, which differ between fours alone and lie between 5 and 12.
-/

set_option autoImplicit false

namespace EngineKit
namespace Voxel

open Lib Lib.Tiles

namespace VoxelWorld

/-- The world that a chunk is built of. -/
def chunk (world : VoxelWorld) (coordinate : Int × Int) : VoxelWorld :=
  { world with region := some (coordinate.1 * 16, coordinate.2 * 16) }

variable (world : VoxelWorld) (coordinate : Int × Int)

/-! ## Fours -/

/-- Blocks as high up, in columns of one four. -/
structure SameFour (p p' : Cell) : Prop where
  x : p .x / 4 = p' .x / 4
  y : p .y = p' .y
  z : p .z / 4 = p' .z / 4

/-- The columns of a four are as high as each other. -/
theorem SameFour.height {p p' : Cell} (h : SameFour p p') :
    (world.chunk coordinate).height (p .x) (p .z) =
      (world.chunk coordinate).height (p' .x) (p' .z) := by
  have hx := h.x
  have hz := h.z
  refine terrain_congr ?_ ?_
  · show (p .x + coordinate.1 * 16) / 4 = (p' .x + coordinate.1 * 16) / 4
    omega
  · show (p .z + coordinate.2 * 16) / 4 = (p' .z + coordinate.2 * 16) / 4
    omega

/-- What a block of a chunk is made of. -/
theorem material_chunk (p : Cell) : (world.chunk coordinate).material p =
    if p .y < 0 then 0
    else
      if (world.chunk coordinate).height (p .x) (p .z) ≤ p .y then 0
      else if p .y = (world.chunk coordinate).height (p .x) (p .z) - 1 then 1
      else if (world.chunk coordinate).height (p .x) (p .z) - 3 ≤ p .y then 2
      else 3 := by
  have hregion : (world.chunk coordinate).region ≠ none := nofun
  rw [material]
  refine if_congr ?_ rfl rfl
  simp only [hregion, false_and, or_false]

/-- The columns of a four are made of the same. -/
theorem SameFour.material {p p' : Cell} (h : SameFour p p') :
    (world.chunk coordinate).material p = (world.chunk coordinate).material p' := by
  rw [material_chunk, material_chunk, h.height, h.y]

/-- A block is there from the ground up to the height of its column. -/
theorem material_ne_zero {p : Cell} : (world.chunk coordinate).material p ≠ 0 ↔
    0 ≤ p .y ∧ p .y < (world.chunk coordinate).height (p .x) (p .z) := by
  rw [material_chunk]
  split
  · next hneg => simp [Int.not_le.mpr hneg]
  · next hpos =>
    split
    · next habove => simp [Int.not_lt.mpr habove]
    · next hbelow =>
      have hin : 0 ≤ p .y ∧ p .y < (world.chunk coordinate).height (p .x) (p .z) := by omega
      refine iff_of_true ?_ hin
      split
      · decide
      · split <;> decide

/-- A side is shown between a block and air. -/
theorem shown_chunk {f : Face} {p : Cell} (h : (world.chunk coordinate).shown f p ≠ 0) :
    (0 ≤ p .y ∧ p .y < (world.chunk coordinate).height (p .x) (p .z)) ∧
      ¬ (0 ≤ p.add f.axis f.sign .y ∧ p.add f.axis f.sign .y <
        (world.chunk coordinate).height (p.add f.axis f.sign .x) (p.add f.axis f.sign .z)) := by
  rw [shown] at h
  have hboth : (world.chunk coordinate).material p ≠ 0 ∧
      (world.chunk coordinate).material (p.add f.axis f.sign) = 0 := by
    by_contra hnot
    exact h (if_neg hnot)
  refine ⟨(world.material_ne_zero coordinate).mp hboth.1, ?_⟩
  intro hsolid
  exact (world.material_ne_zero coordinate).mpr hsolid hboth.2

/-! ## The masks of a chunk -/

/-- The block of a slice at a place of the mask. -/
def cellAt (k slice i j : Nat) : Cell :=
  (((chunkOrigin 0 0).add (face k).axis slice).add (face k).u i).add (face k).v j

/-- The block next to it. -/
def besides (k : Nat) (p : Cell) : Cell := p.add (face k).axis (face k).sign

/-- Four places of a row of the mask are of one four, and so are the blocks beside them. -/
theorem sameFour_cellAt (k slice : Nat) {i i' : Nat} (j : Nat) (h : i / 4 = i' / 4) :
    SameFour (cellAt k slice i j) (cellAt k slice i' j) ∧
      SameFour (besides k (cellAt k slice i j)) (besides k (cellAt k slice i' j)) := by
  have hint : (i : Int) / 4 = (i' : Int) / 4 := by omega
  match k with
  | 0 | 1 | 2 | 3 | 4 | _ + 5 =>
    refine ⟨⟨?_, ?_, ?_⟩, ⟨?_, ?_, ?_⟩⟩ <;>
      simp [cellAt, besides, face, Cell.add, chunkOrigin, hint]

/-- **A mask is made of blocks** four wide. -/
theorem blocks_mask (k slice : Nat) :
    Blocks 16 4 ((world.chunk coordinate).mask (face k) (chunkOrigin 0 0) slice) := by
  intro i i' j _ _ hsame
  obtain ⟨hself, hbesides⟩ := sameFour_cellAt k slice j hsame
  have hmaterial := hself.material world coordinate
  have hnext := hbesides.material world coordinate
  show (world.chunk coordinate).shown (face k) (cellAt k slice i j) =
    (world.chunk coordinate).shown (face k) (cellAt k slice i' j)
  unfold shown
  show (if (world.chunk coordinate).material (cellAt k slice i j) ≠ 0 ∧
    (world.chunk coordinate).material (besides k (cellAt k slice i j)) = 0 then _ else _) = _
  rw [hmaterial, hnext]
  rfl

theorem cellAt_coords (k slice i j : Nat) : cellAt k slice i j (face k).axis = slice ∧
    cellAt k slice i j (face k).u = i ∧ cellAt k slice i j (face k).v = j := by
  have hzero (a : Axis) : chunkOrigin 0 0 a = 0 := by cases a <;> rfl
  obtain ⟨hu, hv, huv⟩ := proper_face k
  simp [cellAt, Cell.add, hzero, hu, hv, huv, Ne.symm hu, Ne.symm hv, Ne.symm huv]

/-- The directions to the sides. -/
theorem face_side {k : Nat} (hk : k < 4) : (face k).v = .y ∧ (face k).axis ≠ .y ∧
    ((face k).sign = 1 ∨ (face k).sign = -1) := by
  match k, hk with
  | 0, _ | 1, _ | 2, _ | 3, _ => simp [face]

/-- Up and down. -/
theorem face_flat {k : Nat} (hk : 4 ≤ k) : (face k).axis = .y ∧ (face k).u = .x ∧
    (face k).v = .z ∧ ((face k).sign = 1 ∨ (face k).sign = -1) := by
  obtain ⟨k, rfl⟩ := Nat.exists_eq_add_of_le hk
  cases k with
  | zero => exact ⟨rfl, rfl, rfl, .inl rfl⟩
  | succ k =>
    rw [Nat.add_comm 4]
    exact ⟨rfl, rfl, rfl, .inr rfl⟩

/-- The slice at the side of a four. -/
def Edge (k slice : Nat) : Prop := slice % 4 = if 0 < (face k).sign then 3 else 0

instance (k slice : Nat) : Decidable (Edge k slice) := inferInstanceAs (Decidable (_ = _))

/-- Inside a four the next block is in it too. -/
theorem sameFour_besides {k slice : Nat} (hk : k < 4) (i j : Nat) (h : ¬ Edge k slice) :
    SameFour (cellAt k slice i j) (besides k (cellAt k slice i j)) := by
  obtain ⟨-, haxis, hsign⟩ := face_side hk
  have hstep (a : Axis) :
      cellAt k slice i j a / 4 = besides k (cellAt k slice i j) a / 4 := by
    rw [besides, Cell.add]
    -- Within a four the next block has the same quotient.
    split
    · next ha =>
      rw [ha, (cellAt_coords k slice i j).1]
      rw [Edge] at h
      rcases hsign with hup | hdown
      · rw [hup] at h ⊢
        rw [if_pos (by decide)] at h
        omega
      · rw [hdown] at h ⊢
        rw [if_neg (by decide)] at h
        omega
    · rfl
  refine ⟨hstep .x, ?_, hstep .z⟩
  rw [besides, Cell.add, if_neg (Ne.symm haxis)]

/-- A side between columns is above the lowest and below the highest column there is, and between
    two fours. -/
theorem side_shown {k slice i j : Nat} (hk : k < 4)
    (h : (world.chunk coordinate).mask (face k) (chunkOrigin 0 0) slice i j ≠ 0) :
    (5 ≤ j ∧ j < 12) ∧ Edge k slice := by
  obtain ⟨hv, haxis, -⟩ := face_side hk
  have hup : cellAt k slice i j .y = j := by
    rw [← hv]
    exact (cellAt_coords k slice i j).2.2
  have hlevel : besides k (cellAt k slice i j) .y = j := by
    rw [besides, Cell.add, if_neg (Ne.symm haxis), hup]
  obtain ⟨⟨-, hbelow⟩, hair⟩ := world.shown_chunk coordinate
    (show (world.chunk coordinate).shown (face k) (cellAt k slice i j) ≠ 0 from h)
  have hair : ¬ (0 ≤ besides k (cellAt k slice i j) .y ∧ besides k (cellAt k slice i j) .y <
    (world.chunk coordinate).height (besides k (cellAt k slice i j) .x)
      (besides k (cellAt k slice i j) .z)) := hair
  rw [hup] at hbelow
  rw [hlevel] at hair
  have hfloor : 5 ≤ (world.chunk coordinate).height (besides k (cellAt k slice i j) .x)
    (besides k (cellAt k slice i j) .z) := (terrain_bounds _ _ _).1
  have hroof : (world.chunk coordinate).height (cellAt k slice i j .x)
    (cellAt k slice i j .z) ≤ 12 := (terrain_bounds _ _ _).2
  refine ⟨by omega, ?_⟩
  -- inside a four both columns are as high as each other
  by_contra hinside
  have hheight := (sameFour_besides hk i j hinside).height world coordinate
  omega

/-- Sides between columns are in every fourth slice. -/
theorem live_side {k slice : Nat} (hk : k < 4) :
    live 16 16 ((world.chunk coordinate).mask (face k) (chunkOrigin 0 0) slice) ≤
      if Edge k slice then 112 else 0 := by
  by_cases hslice : Edge k slice
  · rw [if_pos hslice]
    refine (Finset.card_le_card (t := Finset.range 16 ×ˢ Finset.Ico 5 12) ?_).trans_eq ?_
    · intro cell hcell
      obtain ⟨hin, hvalue⟩ := Finset.mem_filter.mp hcell
      obtain ⟨hj, -⟩ := world.side_shown coordinate hk hvalue
      exact Finset.mem_product.mpr ⟨(Finset.mem_product.mp hin).1, Finset.mem_Ico.mpr hj⟩
    · rw [Finset.card_product, Finset.card_range, Nat.card_Ico]
  · rw [if_neg hslice]
    refine (Finset.card_eq_zero.mpr ?_).le
    refine Finset.filter_eq_empty_iff.mpr ?_
    intro cell _ hvalue
    exact hslice (world.side_shown coordinate hk hvalue).2

/-- Of a column one side is shown at the top, and one at the bottom. -/
theorem flat_shown {k slice slice' i j : Nat} (hk : 4 ≤ k)
    (h : (world.chunk coordinate).mask (face k) (chunkOrigin 0 0) slice i j ≠ 0)
    (h' : (world.chunk coordinate).mask (face k) (chunkOrigin 0 0) slice' i j ≠ 0) :
    slice = slice' := by
  obtain ⟨haxis, hu, hv, hsign⟩ := face_flat hk
  have hcolumn (slice : Nat) : cellAt k slice i j .y = slice ∧ cellAt k slice i j .x = i ∧
      cellAt k slice i j .z = j := by
    rw [← haxis, ← hu, ← hv]
    exact cellAt_coords k slice i j
  have hplace (slice : Nat)
      (hshown : (world.chunk coordinate).mask (face k) (chunkOrigin 0 0) slice i j ≠ 0) :
      (0 ≤ (slice : Int) ∧ (slice : Int) < (world.chunk coordinate).height i j) ∧
        ¬ (0 ≤ slice + (face k).sign ∧
          slice + (face k).sign < (world.chunk coordinate).height i j) := by
    obtain ⟨hy, hx, hz⟩ := hcolumn slice
    have hboth := world.shown_chunk coordinate
      (show (world.chunk coordinate).shown (face k) (cellAt k slice i j) ≠ 0 from hshown)
    simp only [haxis, Cell.add, if_true, hy, hx, hz] at hboth
    exact hboth
  have hfirst := hplace slice h
  have hsecond := hplace slice' h'
  -- The top of a column, or its bottom.
  rcases hsign with hup | hdown
  · rw [hup] at hfirst hsecond
    omega
  · rw [hdown] at hfirst hsecond
    omega

/-- So at the top there are as many sides as columns, and at the bottom as well. -/
theorem live_flat {k : Nat} (hk : 4 ≤ k) :
    ∑ slice ∈ Finset.range 16,
      live 16 16 ((world.chunk coordinate).mask (face k) (chunkOrigin 0 0) slice) ≤ 256 := by
  simp only [live, Finset.card_filter]
  rw [Finset.sum_comm]
  refine (Finset.sum_le_card_nsmul _ _ 1 ?_).trans ?_
  · intro cell _
    rw [← Finset.card_filter]
    refine Finset.card_le_one.mpr ?_
    intro slice hslice slice' hslice'
    exact world.flat_shown coordinate hk (Finset.mem_filter.mp hslice).2
      (Finset.mem_filter.mp hslice').2
  · rw [Finset.card_product, Finset.card_range]
    decide

/-! ## The mesh of a chunk -/

theorem group_chunk (f : Face) : (world.chunk coordinate).group f =
    (List.range 16).flatMap fun slice =>
      (world.chunk coordinate).quads f (chunkOrigin 0 0) slice := by
  have hside : ((world.chunk coordinate).side + 15) / 16 = 1 := by simp [side, chunk]
  rw [group_eq, hside]
  simp

/-- Four sides to a quad. -/
theorem length_group_chunk (k : Nat) : 4 * ((world.chunk coordinate).group (face k)).length ≤
    ∑ slice ∈ Finset.range 16,
      live 16 16 ((world.chunk coordinate).mask (face k) (chunkOrigin 0 0) slice) := by
  have hlength : ((world.chunk coordinate).group (face k)).length = ∑ slice ∈ Finset.range 16,
      ((world.chunk coordinate).quads (face k) (chunkOrigin 0 0) slice).length := by
    rw [group_chunk, List.length_flatMap]
    rfl
  rw [hlength, Finset.mul_sum]
  refine Finset.sum_le_sum ?_
  intro slice _
  rw [quads, List.length_map]
  exact length_tiles_le (by decide) (by decide) (world.blocks_mask coordinate k slice)

/-- A direction to the side has four such slices. -/
theorem length_side {k : Nat} (hk : k < 4) :
    ((world.chunk coordinate).group (face k)).length ≤ 112 := by
  have hgroup := world.length_group_chunk coordinate k
  have hslices : ∑ slice ∈ Finset.range 16,
      live 16 16 ((world.chunk coordinate).mask (face k) (chunkOrigin 0 0) slice) ≤
        ∑ slice ∈ Finset.range 16, if Edge k slice then 112 else 0 :=
    Finset.sum_le_sum fun slice _ => world.live_side coordinate hk
  have hedges : ∀ k < 4, (∑ slice ∈ Finset.range 16, if Edge k slice then 112 else 0) = 448 := by
    decide +kernel
  have hfour := hedges k hk
  omega

/-- The direction up or down has a quarter of the columns. -/
theorem length_flat {k : Nat} (hk : 4 ≤ k) :
    ((world.chunk coordinate).group (face k)).length ≤ 64 := by
  have hgroup := world.length_group_chunk coordinate k
  have hslices := world.live_flat coordinate hk
  omega

/-- What a chunk has in the six directions. -/
def groups : List (List VoxelInstance) := (List.range 6).map fun k => world.group (face k)

/-- **A chunk has few quads.** -/
theorem length_groups_le : (world.chunk coordinate).groups.flatten.length ≤ 576 := by
  have hside {k : Nat} (hk : k < 4) := world.length_side coordinate hk
  have hflat {k : Nat} (hk : 4 ≤ k) := world.length_flat coordinate hk
  have h0 := hside (k := 0) (by decide)
  have h1 := hside (k := 1) (by decide)
  have h2 := hside (k := 2) (by decide)
  have h3 := hside (k := 3) (by decide)
  have h4 := hflat (k := 4) (by decide)
  have h5 := hflat (k := 5) (by decide)
  have hrange : List.range 6 = [0, 1, 2, 3, 4, 5] := rfl
  rw [groups, hrange]
  simp only [List.map_cons, List.map_nil, List.flatten_cons, List.flatten_nil, List.length_append,
    List.length_nil]
  omega

end VoxelWorld

end Voxel
end EngineKit
