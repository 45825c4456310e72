import EngineKit.Voxel.Budget

/-!
# A mesh draws the surface

The mesh of a chunk is drawn at its place in the terrain that has no end, and draws of it the sides
of the blocks of its columns that are next to air, whatever chunk that air is in. Every such side is
drawn once, with its material, and nothing else is (`buildChunk_surface`). So two chunks that are
next to each other have no seam.

A chunk is a world of its own, whose origin is at its corner, and the terrain is the chunk at the
origin. `inChunk` goes from the one to the other. What a chunk shows at its edge is decided by
blocks it does not have; that it is decided as in the terrain is because the height of a column is a
function of its place in the terrain, which the chunk adds its own place to.
-/

set_option autoImplicit false

namespace EngineKit
namespace Voxel

open Lib Lib.Tiles Vulkan

/-! ## A mesh -/

/-- The frame of a mesh that is not too large. -/
def meshFrame (world : VoxelWorld) (revision : UInt64) : VoxelFrame where
  upload := (layout world.groups).1
  draws := (layout world.groups).2
  blockCount := world.blockCount
  batchCount := (layout world.groups).2.length
  exposedFaces := world.faceCount
  revision := revision
  residentChunks := ((world.side + 15) / 16) ^ 2
  pendingChunks := 0
  builtThisFrame := ((world.side + 15) / 16) ^ 2

/-- The two checks of the source, and the frame behind them. -/
theorem mesh_eq (world : VoxelWorld) (revision : UInt64) : mesh world revision =
    if world.groups.any fun group => LIMIT < 80 * group.length then .error .group
    else if LIMIT < (world.groups.map fun group => 80 * group.length).sum then .error .mesh
    else .ok (meshFrame world revision) := rfl

theorem sum_groups (world : VoxelWorld) :
    (world.groups.map fun group => 80 * group.length).sum = 80 * world.groups.flatten.length := by
  rw [List.length_flatten, ← List.sum_map_mul_left]

/-- Nothing else can go wrong. -/
theorem mesh_cases (world : VoxelWorld) (revision : UInt64) :
    80 * world.groups.flatten.length ≤ LIMIT ∧
        mesh world revision = .ok (meshFrame world revision) ∨
      LIMIT < 80 * world.groups.flatten.length ∧ ∃ error, mesh world revision = .error error := by
  rw [mesh_eq, sum_groups]
  -- A mesh that fits as a whole has groups that fit; one that does not is refused for a group or
  -- for the sum.
  by_cases hsmall : 80 * world.groups.flatten.length ≤ LIMIT
  · have hgroup : ¬ (world.groups.any fun group => LIMIT < 80 * group.length) = true := by
      intro hany
      obtain ⟨group, hmem, hlarge⟩ := List.any_eq_true.mp hany
      have hlarge : LIMIT < 80 * group.length := of_decide_eq_true hlarge
      have hle : group.length ≤ world.groups.flatten.length :=
        (List.sublist_flatten_of_mem hmem).length_le
      omega
    exact .inl ⟨hsmall, (if_neg hgroup).trans (if_neg (Nat.not_lt.mpr hsmall))⟩
  · have hlarge := Nat.not_le.mp hsmall
    refine .inr ⟨hlarge, ?_⟩
    rw [if_pos hlarge]
    split
    · exact ⟨_, rfl⟩
    · exact ⟨_, rfl⟩

theorem length_groups (world : VoxelWorld) : world.groups.length = 6 := by
  rw [VoxelWorld.groups, List.length_map, List.length_range]

theorem laidOut_groups {world : VoxelWorld} (h : 80 * world.groups.flatten.length ≤ LIMIT) :
    LaidOut world.groups (layout world.groups) := by
  have hlimit : LIMIT < 2 ^ 32 := by decide
  exact laidOut_layout (length_groups world).le (by omega)

theorem drawn_groups {world : VoxelWorld} (h : 80 * world.groups.flatten.length ≤ LIMIT) {k : Nat}
    (hk : k < 6) :
    drawn (layout world.groups).1 (layout world.groups).2 k = world.group (face k) := by
  rw [(laidOut_groups h).drawn k (by rw [length_groups]; exact hk), VoxelWorld.groups,
    List.getElem?_map, List.getElem?_range hk]
  rfl

/-! ## A chunk of the terrain -/

namespace VoxelWorld

variable (world : VoxelWorld)

/-- The terrain of a world, which has no end. -/
def endless : VoxelWorld := world.chunk (0, 0)

/-- The place of a block of a chunk in the terrain. -/
def inChunk (coordinate : Int × Int) (p : Cell) : Cell :=
  (p.add .x (-(coordinate.1 * 16))).add .z (-(coordinate.2 * 16))

/-- The height of a column does not depend on the chunk it is looked at from. -/
theorem height_inChunk (coordinate : Int × Int) (p : Cell) :
    (world.chunk coordinate).height (inChunk coordinate p .x) (inChunk coordinate p .z) =
      world.endless.height (p .x) (p .z) := by
  show terrain world.seed _ _ = terrain world.seed _ _
  congr 1 <;>
  · simp [inChunk, Cell.add, chunk, endless]

theorem material_inChunk (coordinate : Int × Int) (p : Cell) :
    (world.chunk coordinate).material (inChunk coordinate p) = world.endless.material p := by
  rw [material_chunk, endless, material_chunk, ← endless, height_inChunk]
  rfl

/-- A side is shown in a chunk if it is in the terrain. -/
theorem shown_inChunk (coordinate : Int × Int) (f : Face) (p : Cell) :
    (world.chunk coordinate).shown f (inChunk coordinate p) = world.endless.shown f p := by
  have hbesides : (inChunk coordinate p).add f.axis f.sign =
      inChunk coordinate (p.add f.axis f.sign) := by
    funext a
    simp only [inChunk, Cell.add]
    split <;> split <;> split <;> omega
  rw [shown, shown, hbesides, material_inChunk, material_inChunk]

/-- A frame draws in the coordinates of the terrain. -/
theorem corner_inChunk (coordinate : Int × Int) (p : Cell) :
    (world.chunk coordinate).corner (inChunk coordinate p) = fun a => 2 * p a := by
  funext a
  cases a <;> simp [corner, offset, inChunk, Cell.add, chunk] <;> omega

/-- What a chunk draws of the terrain. -/
theorem layers_terrain (coordinate : Int × Int) {f : Face} (hf : f.Proper) (p : Cell) :
    layers f ((world.chunk coordinate).group f) (fun a => 2 * p a) =
      if p .x / 16 = coordinate.1 ∧ p .z / 16 = coordinate.2 then
        present (world.endless.shown f p)
      else [] := by
  have hside : ((world.chunk coordinate).side + 15) / 16 = 1 := by simp [side, chunk]
  rw [← world.corner_inChunk coordinate, layers_group _ hf, hside, shown_inChunk]
  refine if_congr ?_ rfl rfl
  simp only [inChunk, Cell.add]
  simp
  omega

end VoxelWorld

/-! ## The chunk that is built -/

/-- What a chunk is. -/
structure DrawsChunk (world : VoxelWorld) (coordinate : Int × Int) (frame : VoxelFrame) : Prop where
  /-- The sides of its blocks, once each. -/
  surface : ∀ k < 6, ∀ p : Cell,
    layers (face k) (drawn frame.upload frame.draws k) (fun a => 2 * p a) =
      if p .x / 16 = coordinate.1 ∧ p .z / 16 = coordinate.2 then
        present (world.endless.shown (face k) p)
      else []
  /-- No more than there is room for. -/
  small : frame.upload.length ≤ 576
  /-- A presenter takes it. -/
  packet : ∀ (scalars : Scalars) (camera : Camera), camera.toList.all f32IsFinite →
    validWorldPacket (frame.instanceBytes scalars) LIMIT camera frame.draws = true

/-- No chunk is too large: 576 quads fit. -/
theorem buildChunk_eq (world : VoxelWorld) (coordinate : Int × Int) :
    buildChunk world coordinate = .ok (meshFrame (world.chunk coordinate) 1) := by
  have hsmall := world.length_groups_le coordinate
  have hlimit : 80 * 576 ≤ LIMIT := by decide
  rcases mesh_cases (world.chunk coordinate) 1 with ⟨-, hok⟩ | ⟨hlarge, -⟩
  · show (FiniteScene.new.rebuild (world.chunk coordinate)).1 = _
    have hrevision : FiniteScene.new.revision + 1 = 1 := rfl
    rw [FiniteScene.rebuild, hrevision, hok]
  · omega

/-- The top of a column is shown. -/
theorem shown_top (world : VoxelWorld) (x z : Int) : ∃ p : Cell, (p .x = x ∧ p .z = z) ∧
    world.endless.shown (face 4) p ≠ 0 := by
  let p : Cell := Axis.array x (world.endless.height x z - 1) z
  have hlow : 5 ≤ world.endless.height x z := (VoxelWorld.terrain_bounds _ _ _).1
  refine ⟨p, ⟨rfl, rfl⟩, ?_⟩
  have hself : world.endless.material p ≠ 0 := by
    refine (world.material_ne_zero (0, 0)).mpr ⟨?_, ?_⟩
    · show 0 ≤ world.endless.height x z - 1
      omega
    · show world.endless.height x z - 1 < world.endless.height x z
      omega
  have habove : world.endless.material (p.add (face 4).axis (face 4).sign) = 0 := by
    -- What is solid is below the height of its column.
    by_contra hsolid
    have hup := ((world.material_ne_zero (0, 0)).mp hsolid).2
    have hup : world.endless.height x z - 1 + 1 < world.endless.height x z := hup
    omega
  rw [VoxelWorld.shown, if_pos ⟨hself, habove⟩]
  exact hself

/-- What a chunk's frame draws. -/
theorem drawsChunk (world : VoxelWorld) (coordinate : Int × Int) :
    DrawsChunk world coordinate (meshFrame (world.chunk coordinate) 1) := by
  have hsmall := world.length_groups_le coordinate
  have hlimit : 80 * 576 ≤ LIMIT := by decide
  have hroom : 80 * (world.chunk coordinate).groups.flatten.length ≤ LIMIT := by omega
  have hlaid := laidOut_groups hroom
  have hsurface : ∀ k < 6, ∀ p : Cell,
      layers (face k) (drawn (layout (world.chunk coordinate).groups).1
        (layout (world.chunk coordinate).groups).2 k) (fun a => 2 * p a) =
        if p .x / 16 = coordinate.1 ∧ p .z / 16 = coordinate.2 then
          present (world.endless.shown (face k) p)
        else [] := by
    intro k hk p
    rw [drawn_groups hroom hk]
    exact world.layers_terrain coordinate (proper_face k) p
  refine ⟨hsurface, ?_, ?_⟩
  · show (layout _).1.length ≤ 576
    rw [hlaid.upload]
    exact hsmall
  · intro scalars camera hcamera
    refine validWorldPacket_layout (length_groups _).le hlaid ?_ ?_ ?_ hcamera scalars
    · intro hnone
      obtain ⟨p, ⟨hx, hz⟩, hshown⟩ := shown_top world (coordinate.1 * 16) (coordinate.2 * 16)
      have htop := hsurface 4 (by decide) p
      rw [hnone, if_pos ⟨by omega, by omega⟩, present, if_neg hshown] at htop
      have hempty : drawn [] (layout (world.chunk coordinate).groups).2 4 = [] := by
        simp [drawn, cut]
      rw [hempty] at htop
      cases htop
    · rw [hlaid.upload]
      exact hroom
    · rw [hlaid.upload]
      exact Nat.lt_of_le_of_lt hsmall (by decide)

/-- **Every chunk is built, and draws the surface of its columns.** -/
theorem buildChunk_surface (world : VoxelWorld) (coordinate : Int × Int) :
    ∃ frame, buildChunk world coordinate = .ok frame ∧ DrawsChunk world coordinate frame :=
  ⟨_, buildChunk_eq world coordinate, drawsChunk world coordinate⟩

end Voxel
end EngineKit
