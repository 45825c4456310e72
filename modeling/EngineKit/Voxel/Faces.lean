import EngineKit.Voxel.Mesh

/-!
# The mesh is the surface

A quad covers the side of a block if it is in the plane of that side and has its square. The quads
of a direction cover the sides that are shown in that direction, each one once and with its
material, and nothing else (`layers_group`). The greedy rectangles make fewer quads of them, never
others.

The corner is doubled because the quads are: their centers lie halfway between blocks, and in
doubled units they are integers, so covering is decided without fractions. `layers` lists the
materials of all quads over a side, in place of asking that there is one. A list of length one says
both that the side is covered and that it is covered once, and two quads over one side, the fault of
a greedy mesher, would be seen in it.
-/

set_option autoImplicit false

namespace EngineKit
namespace Voxel

open Lib Lib.Tiles

/-! ## What a quad covers -/

/-- The quad covers the side of the block with this corner, doubled, in a direction. -/
def VoxelInstance.Covers (quad : VoxelInstance) (f : Face) (corner : Axis → Int) : Prop :=
  quad.center f.axis = corner f.axis + (if 0 < f.sign then 2 else 0) ∧
    (quad.center f.u - quad.size f.u ≤ corner f.u ∧
      corner f.u + 2 ≤ quad.center f.u + quad.size f.u) ∧
    quad.center f.v - quad.size f.v ≤ corner f.v ∧
      corner f.v + 2 ≤ quad.center f.v + quad.size f.v

instance (quad : VoxelInstance) (f : Face) (corner : Axis → Int) :
    Decidable (quad.Covers f corner) := inferInstanceAs (Decidable (_ ∧ _))

/-- The materials of the quads over a side. -/
def layers (f : Face) (quads : List VoxelInstance) (corner : Axis → Int) : List UInt8 :=
  (quads.filter fun quad => quad.Covers f corner).map (·.material)

/-- The quads of a list of lists. -/
theorem layers_flatMap {α : Type} (f : Face) (xs : List α) (g : α → List VoxelInstance)
    (corner : Axis → Int) :
    layers f (xs.flatMap g) corner = xs.flatMap fun x => layers f (g x) corner := by
  rw [layers, List.filter_flatMap, List.map_flatMap]
  rfl

/-- One of many, each of which is there once. -/
theorem flatMap_eq_of_unique {α β : Type} [DecidableEq α] {xs : List α} (hxs : xs.Nodup) {x : α}
    {g : α → List β} (hg : ∀ y ∈ xs, y ≠ x → g y = []) :
    xs.flatMap g = if x ∈ xs then g x else [] := by
  induction xs with
  | nil => rfl
  | cons y ys ih =>
    obtain ⟨hy, hys⟩ := List.nodup_cons.mp hxs
    rw [List.flatMap_cons, ih hys fun z hz => hg z (List.mem_cons_of_mem y hz)]
    by_cases hyx : y = x
    · subst hyx
      rw [if_neg hy, if_pos List.mem_cons_self, List.append_nil]
    · rw [hg y List.mem_cons_self hyx, List.nil_append]
      have hmem : x ∈ y :: ys ↔ x ∈ ys := by
        rw [List.mem_cons, or_iff_right (Ne.symm hyx)]
      exact if_congr hmem.symm rfl rfl

/-- The three axes of a direction are the three that there are. -/
structure Face.Proper (f : Face) : Prop where
  axis_u : f.axis ≠ f.u
  axis_v : f.axis ≠ f.v
  u_v : f.u ≠ f.v

/-- All six are proper. -/
theorem proper_face (k : Nat) : (face k).Proper := by
  match k with
  | 0 | 1 | 2 | 3 | 4 | _ + 5 => exact ⟨nofun, nofun, nofun⟩

/-- An axis is one of the three. -/
theorem Face.Proper.cases {f : Face} (h : f.Proper) (a : Axis) :
    a = f.axis ∨ a = f.u ∨ a = f.v := by
  obtain ⟨hu, hv, huv⟩ := h
  revert hu hv huv
  cases f.axis <;> cases f.u <;> cases f.v <;> cases a <;> simp

/-! ## A slice -/

namespace VoxelWorld

variable (world : VoxelWorld)

/-- Where a world is drawn, doubled: a chunk at its place, a finite world about the origin. -/
def offset : Axis → Int
  | .x =>
    match world.region with
    | some (ox, _) => 2 * ox
    | none => -world.side
  | .y => 0
  | .z =>
    match world.region with
    | some (_, oz) => 2 * oz
    | none => -world.side

/-- Of a block, where the world is drawn. -/
def corner (p : Cell) : Axis → Int := fun a => 2 * p a + world.offset a

/-- The center of a quad and the place of its tile. -/
theorem quad_center {f : Face} (hf : f.Proper) (origin : Cell) (slice : Nat) (tile : Tile UInt8) :
    (world.quad f origin slice tile).center f.axis =
        world.corner origin f.axis + 2 * slice + (if 0 < f.sign then 2 else 0) ∧
      (world.quad f origin slice tile).center f.u =
        world.corner origin f.u + (2 * tile.i + tile.w) ∧
      (world.quad f origin slice tile).center f.v =
        world.corner origin f.v + (2 * tile.j + tile.h) := by
  obtain ⟨hu, hv, huv⟩ := hf
  have hcenter (a : Axis) : (world.quad f origin slice tile).center a =
      (((Cell.add (fun axis => 2 * origin axis) f.axis
        (2 * slice + if 0 < f.sign then 2 else 0)).add f.u (2 * tile.i + tile.w)).add f.v
          (2 * tile.j + tile.h)) a + world.offset a := by
    unfold quad offset
    cases world.region <;> cases a <;> simp [Cell.add]
  simp only [hcenter, Cell.add, corner, hu, hv, huv, Ne.symm hu, Ne.symm hv, Ne.symm huv, if_true,
    if_false]
  omega

/-- Its size is the size of the tile; in doubled units that is the distance from its center to its
    edge. -/
theorem quad_size {f : Face} (hf : f.Proper) (origin : Cell) (slice : Nat) (tile : Tile UInt8) :
    (world.quad f origin slice tile).size f.u = tile.w ∧
      (world.quad f origin slice tile).size f.v = tile.h :=
  ⟨(if_neg hf.u_v).trans (if_pos rfl), if_pos rfl⟩

/-- A quad covers the sides that its tile does. -/
theorem quad_covers {f : Face} (hf : f.Proper) (origin p : Cell) (slice : Nat) (tile : Tile UInt8) :
    (world.quad f origin slice tile).Covers f (world.corner p) ↔
      p f.axis = origin f.axis + slice ∧
        (origin f.u + tile.i ≤ p f.u ∧ p f.u < origin f.u + tile.i + tile.w) ∧
          origin f.v + tile.j ≤ p f.v ∧ p f.v < origin f.v + tile.j + tile.h := by
  obtain ⟨haxis, hu, hv⟩ := world.quad_center hf origin slice tile
  obtain ⟨hw, hh⟩ := world.quad_size hf origin slice tile
  rw [VoxelInstance.Covers, haxis, hu, hv, hw, hh]
  simp only [corner]
  omega

/-- The block of a slice at a place of the mask. -/
theorem mask_eq_shown {f : Face} (hf : f.Proper) {origin p : Cell} {slice i j : Nat}
    (haxis : p f.axis = origin f.axis + slice) (hu : p f.u = origin f.u + i)
    (hv : p f.v = origin f.v + j) : world.mask f origin slice i j = world.shown f p := by
  have hp : ((origin.add f.axis slice).add f.u i).add f.v j = p := by
    funext a
    rcases hf.cases a with rfl | rfl | rfl
    · simp [Cell.add, hf.axis_u, hf.axis_v, haxis]
    · simp [Cell.add, hf.u_v, Ne.symm hf.axis_u, hu]
    · simp [Cell.add, Ne.symm hf.u_v, Ne.symm hf.axis_v, hv]
  rw [mask, hp]

/-- **The quads of a slice** cover what is shown in it. -/
theorem layers_quads {f : Face} (hf : f.Proper) (origin p : Cell) (slice : Nat) :
    layers f (world.quads f origin slice) (world.corner p) =
      if p f.axis = origin f.axis + slice ∧ (origin f.u ≤ p f.u ∧ p f.u < origin f.u + 16) ∧
          origin f.v ≤ p f.v ∧ p f.v < origin f.v + 16 then present (world.shown f p)
      else [] := by
  have hfilter : layers f (world.quads f origin slice) (world.corner p) =
      ((rectangles (world.mask f origin slice)).filter fun tile =>
        (world.quad f origin slice tile).Covers f (world.corner p)).map (·.value) := by
    rw [layers, quads, List.filter_map, List.map_map]
    rfl
  rw [hfilter]
  -- In the slice a side has a place of the mask, and the tiles cover each place with a value once.
  split
  · next hin =>
    obtain ⟨haxis, ⟨hu, hu'⟩, hv, hv'⟩ := hin
    obtain ⟨i, hi⟩ := Int.eq_ofNat_of_zero_le (Int.sub_nonneg_of_le hu)
    obtain ⟨j, hj⟩ := Int.eq_ofNat_of_zero_le (Int.sub_nonneg_of_le hv)
    have hpu : p f.u = origin f.u + i := by omega
    have hpv : p f.v = origin f.v + j := by omega
    have hcovers : (fun tile : Tile UInt8 =>
        decide ((world.quad f origin slice tile).Covers f (world.corner p))) =
          fun tile => decide (tile.Covers i j) := by
      funext tile
      refine decide_eq_decide.mpr ((world.quad_covers hf origin p slice tile).trans ?_)
      rw [Tile.Covers, hpu, hpv]
      omega
    rw [hcovers]
    have hstack := @stack_tiles UInt8 _ _ 16 16 (world.mask f origin slice) i j
    rw [stack, if_pos ⟨by omega, by omega⟩, world.mask_eq_shown hf haxis hpu hpv] at hstack
    exact hstack
  · next hout =>
    rw [List.map_eq_nil_iff, List.filter_eq_nil_iff]
    intro tile htile hcovers
    refine hout ?_
    obtain ⟨haxis, hu, hv⟩ :=
      (world.quad_covers hf origin p slice tile).mp (of_decide_eq_true hcovers)
    have hcovered := covered (world.mask f origin slice) (List.prefix_refl (scan 16 16))
    have hfits := hcovered.fits tile htile
    have hright := hfits.right
    have hbottom := hfits.bottom
    exact ⟨haxis, by omega, by omega⟩

/-! ## A direction -/

/-- A block of the chunk at this corner. -/
def Within (origin p : Cell) : Prop :=
  (origin .x ≤ p .x ∧ p .x < origin .x + 16) ∧ (origin .y ≤ p .y ∧ p .y < origin .y + 16) ∧
    origin .z ≤ p .z ∧ p .z < origin .z + 16

instance (origin p : Cell) : Decidable (Within origin p) := inferInstanceAs (Decidable (_ ∧ _))

/-- The sixteen blocks along each axis, in whatever order the direction has the axes. -/
theorem within_iff {f : Face} (hf : f.Proper) (origin p : Cell) : Within origin p ↔
    (origin f.axis ≤ p f.axis ∧ p f.axis < origin f.axis + 16) ∧
      (origin f.u ≤ p f.u ∧ p f.u < origin f.u + 16) ∧
        origin f.v ≤ p f.v ∧ p f.v < origin f.v + 16 := by
  have hall : Within origin p ↔ ∀ a, origin a ≤ p a ∧ p a < origin a + 16 := by
    constructor
    · intro h a
      cases a with
      | x => exact h.1
      | y => exact h.2.1
      | z => exact h.2.2
    · intro h
      exact ⟨h .x, h .y, h .z⟩
  rw [hall]
  constructor
  · intro h
    exact ⟨h f.axis, h f.u, h f.v⟩
  · intro h a
    rcases hf.cases a with rfl | rfl | rfl
    · exact h.1
    · exact h.2.1
    · exact h.2.2

/-- A chunk has the sides of its blocks. -/
theorem layers_chunk {f : Face} (hf : f.Proper) (origin p : Cell) :
    layers f ((List.range 16).flatMap fun slice => world.quads f origin slice) (world.corner p) =
      if Within origin p then present (world.shown f p) else [] := by
  rw [layers_flatMap]
  have hunique : ∀ slice ∈ List.range 16, slice ≠ (p f.axis - origin f.axis).toNat →
      layers f (world.quads f origin slice) (world.corner p) = [] := by
    intro slice _ hne
    rw [world.layers_quads hf, if_neg]
    intro hin
    omega
  rw [flatMap_eq_of_unique List.nodup_range hunique, world.layers_quads hf]
  -- The slice of the block is one of the sixteen.
  by_cases hin : Within origin p
  · obtain ⟨haxis, hu, hv⟩ := (within_iff hf origin p).mp hin
    rw [if_pos hin, if_pos (List.mem_range.mpr (by omega)), if_pos ⟨by omega, hu, hv⟩]
  · rw [if_neg hin]
    split
    · next hmem =>
      have hlt := List.mem_range.mp hmem
      rw [if_neg]
      intro hplace
      exact hin ((within_iff hf origin p).mpr ⟨by omega, hplace.2⟩)
    · rfl

/-- The chunks of a finite world, row by row; an endless one has one chunk at a time. -/
theorem group_eq (f : Face) : world.group f =
    (List.range ((world.side + 15) / 16)).flatMap fun cx =>
      (List.range ((world.side + 15) / 16)).flatMap fun cz =>
        (List.range 16).flatMap fun slice => world.quads f (chunkOrigin cx cz) slice := by
  rw [group, chunkOrigins, List.flatMap_assoc]
  simp only [List.flatMap_map]

/-- Each column is in one chunk. -/
theorem within_chunkOrigin {cx cz : Nat} {p : Cell} (hy : 0 ≤ p .y ∧ p .y < 16) :
    Within (chunkOrigin cx cz) p ↔ p .x / 16 = cx ∧ p .z / 16 = cz := by
  simp only [Within, chunkOrigin, Axis.array_x, Axis.array_y, Axis.array_z]
  omega

/-- What is shown is not above the terrain or below it, and in the world. -/
theorem of_shown {f : Face} {p : Cell} (h : world.shown f p ≠ 0) :
    (0 ≤ p .y ∧ p .y < 16) ∧ (world.region = none →
      (0 ≤ p .x ∧ p .x < world.side) ∧ 0 ≤ p .z ∧ p .z < world.side) := by
  have hmaterial : world.material p ≠ 0 := by
    intro hzero
    refine h ?_
    rw [shown, if_neg]
    exact fun hshown => hshown.1 hzero
  have hout : ¬ (p .y < 0 ∨ world.region = none ∧
      (p .x < 0 ∨ p .z < 0 ∨ world.side ≤ p .x ∨ world.side ≤ p .z)) := by
    intro hout
    exact hmaterial (if_pos hout)
  have hbelow : p .y < world.height (p .x) (p .z) := by
    by_contra habove
    refine hmaterial ?_
    rw [material, if_neg hout]
    exact if_pos (Int.not_lt.mp habove)
  have hheight : world.height (p .x) (p .z) ≤ 12 := (terrain_bounds _ _ _).2
  refine ⟨by omega, ?_⟩
  intro hregion
  simp only [hregion, true_and] at hout
  omega

/-- **A direction has the sides that are shown in it**, of the blocks of the chunks: each is covered
    once, with its material. -/
theorem layers_group {f : Face} (hf : f.Proper) (p : Cell) :
    layers f (world.group f) (world.corner p) =
      if (0 ≤ p .x ∧ p .x < 16 * ((world.side + 15) / 16 : Nat)) ∧
          0 ≤ p .z ∧ p .z < 16 * ((world.side + 15) / 16 : Nat) then present (world.shown f p)
      else [] := by
  -- A side that is not shown is covered by nothing, wherever it is.
  by_cases hzero : world.shown f p = 0
  · have hnone : ∀ origin, layers f ((List.range 16).flatMap fun slice =>
        world.quads f origin slice) (world.corner p) = [] := by
      intro origin
      rw [world.layers_chunk hf, hzero, present_zero, ite_self]
    rw [group, layers_flatMap, hzero, present_zero, ite_self]
    simp only [hnone, List.flatMap_eq_nil_iff, implies_true]
  · obtain ⟨hy, -⟩ := world.of_shown hzero
    have hchunk (cx cz : Nat) := world.layers_chunk hf (chunkOrigin cx cz) p
    simp only [within_chunkOrigin hy] at hchunk
    have hrow : ∀ cx, layers f ((List.range ((world.side + 15) / 16)).flatMap fun cz =>
        (List.range 16).flatMap fun slice => world.quads f (chunkOrigin cx cz) slice)
          (world.corner p) =
        if (p .z / 16).toNat ∈ List.range ((world.side + 15) / 16) then
          if p .x / 16 = cx ∧ p .z / 16 = (p .z / 16).toNat then present (world.shown f p) else []
        else [] := by
      intro cx
      rw [layers_flatMap, flatMap_eq_of_unique List.nodup_range (x := (p .z / 16).toNat), hchunk]
      intro cz _ hne
      rw [hchunk, if_neg]
      omega
    rw [group_eq, layers_flatMap]
    simp only [hrow]
    rw [flatMap_eq_of_unique List.nodup_range (x := (p .x / 16).toNat)]
    · simp only [List.mem_range]
      by_cases hin : (0 ≤ p .x ∧ p .x < 16 * ((world.side + 15) / 16 : Nat)) ∧
          0 ≤ p .z ∧ p .z < 16 * ((world.side + 15) / 16 : Nat)
      · rw [if_pos hin, if_pos (by omega), if_pos (by omega), if_pos (by omega)]
      · rw [if_neg hin]
        by_cases hplace : p .x / 16 = (p .x / 16).toNat ∧ p .z / 16 = (p .z / 16).toNat
        · by_cases hx : (p .x / 16).toNat < (world.side + 15) / 16
          · rw [if_pos hx, if_neg (by omega)]
          · rw [if_neg hx]
        · rw [if_neg hplace, ite_self, ite_self]
    · intro cx _ hne
      have hother : ¬ (p .x / 16 = cx ∧ p .z / 16 = (p .z / 16).toNat) := by omega
      rw [if_neg hother, ite_self]

end VoxelWorld

end Voxel
end EngineKit
