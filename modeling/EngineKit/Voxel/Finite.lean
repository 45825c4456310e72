import Mathlib.Algebra.Group.Action.Defs
import EngineKit.Lib.Reach
import EngineKit.Voxel.Surface

/-!
# The world that has an end

Without a radius the whole world is one mesh, which is kept for as long as neither the number of
blocks nor the seed changes. After any calls that is the mesh of the world it is kept for; so a
frame draws every side of the world that is shown, those at its edges too, and a world that is too
large is refused, and what was kept is kept (`finite_run`).

There are worlds of both kinds. A mask has no more quads than places, so one chunk always fits; and
below every chunk there is a quad, so with 229 chunks on a side nothing fits any more.

The key of what is kept has three parts, and the mesh depends on no more (`meshFrame_eq_of_key`); so
the invariant is about every world of the key and not about the one the mesh was made from, which
the scene does not have. What `Coherent` leaves open is the number of chunks that were built: a
frame that is handed out again says zero.

What is shown and what is refused are two implications, and not one answer, because a call that is
refused is so for what it asks, whatever is kept.
-/

set_option autoImplicit false

namespace EngineKit
namespace Voxel

open Lib Lib.Tiles Vulkan

/-- The key determines the mesh. -/
theorem meshFrame_eq_of_key {world world' : VoxelWorld}
    (h : (world.blocks, world.seed, world.region) = (world'.blocks, world'.seed, world'.region))
    (revision : UInt64) : world.groups = world'.groups ∧
      meshFrame world revision = meshFrame world' revision := by
  obtain ⟨blocks, seed, position, streamRadius, region, hblocks⟩ := world
  obtain ⟨blocks', seed', position', streamRadius', region', hblocks'⟩ := world'
  obtain ⟨rfl, hrest⟩ := Prod.mk.inj h
  obtain ⟨rfl, rfl⟩ := Prod.mk.inj hrest
  exact ⟨rfl, rfl⟩

/-! ## How large a world is -/

section Range

variable {n b : Nat}

/-- A sum, from a bound on its summands. -/
theorem sum_range_le {f : Nat → Nat} (h : ∀ k < n, f k ≤ b) :
    ((List.range n).map f).sum ≤ n * b := by
  refine (List.sum_le_card_nsmul _ b ?_).trans ?_
  · intro x hx
    obtain ⟨k, hk, rfl⟩ := List.mem_map.mp hx
    exact h k (List.mem_range.mp hk)
  · rw [List.length_map, List.length_range, smul_eq_mul]

theorem le_sum_range {f : Nat → Nat} (h : ∀ k < n, b ≤ f k) :
    n * b ≤ ((List.range n).map f).sum := by
  refine le_trans ?_ (List.card_nsmul_le_sum _ b ?_)
  · rw [List.length_map, List.length_range, smul_eq_mul]
  · intro x hx
    obtain ⟨k, hk, rfl⟩ := List.mem_map.mp hx
    exact h k (List.mem_range.mp hk)

end Range

namespace VoxelWorld

variable (world : VoxelWorld)

/-- The blocks are counted in a `u32`. -/
theorem blockCount_lt : world.blockCount < 2 ^ 32 := by
  have hside := world.side_le
  have hcolumn (x z : Int) : (world.height x z).toNat ≤ 12 := by
    have hbounds : world.height x z ≤ 12 := (terrain_bounds world.seed _ _).2
    omega
  have hall : world.blockCount ≤ world.side * (world.side * 12) :=
    sum_range_le fun x _ => sum_range_le fun z _ => hcolumn x z
  have hsquare := Nat.mul_le_mul hside (Nat.mul_le_mul_right 12 hside)
  omega

/-- The quads of a face, chunk by chunk and slice by slice. -/
theorem length_group (f : Face) : (world.group f).length =
    ((List.range ((world.side + 15) / 16)).map fun cx =>
      ((List.range ((world.side + 15) / 16)).map fun cz =>
        ((List.range 16).map fun slice =>
          (world.quads f (chunkOrigin cx cz) slice).length).sum).sum).sum := by
  rw [group_eq]
  simp only [List.length_flatMap]

/-- A mask has no more quads than places. -/
theorem length_quads_le (f : Face) (origin : Cell) (slice : Nat) :
    (world.quads f origin slice).length ≤ 256 := by
  have hblocks : Blocks 16 1 (world.mask f origin slice) := by
    intro i i' j _ _ hsame
    rw [Nat.div_one, Nat.div_one] at hsame
    rw [hsame]
  have htiles : 1 * (tiles 16 16 (world.mask f origin slice)).2.length ≤
      live 16 16 (world.mask f origin slice) :=
    length_tiles_le Nat.one_pos (Nat.one_dvd 16) hblocks
  have hlive : live 16 16 (world.mask f origin slice) ≤ 256 :=
    (Finset.card_filter_le _ _).trans (by rw [Finset.card_product, Finset.card_range])
  rw [quads, List.length_map]
  exact (Nat.one_mul _).symm.le.trans (htiles.trans hlive)

/-- The lowest block of a column is shown from below. -/
theorem shown_below {p : Cell} (hx : 0 ≤ p .x ∧ p .x < world.side)
    (hy : p .y = 0) (hz : 0 ≤ p .z ∧ p .z < world.side) : world.shown (face 5) p ≠ 0 := by
  have hheight : 5 ≤ world.height (p .x) (p .z) := (terrain_bounds world.seed _ _).1
  have hout : ¬ (p .y < 0 ∨ world.region = none ∧
      (p .x < 0 ∨ p .z < 0 ∨ world.side ≤ p .x ∨ world.side ≤ p .z)) := by omega
  have hblock : world.material p ≠ 0 := by
    rw [material, if_neg hout]
    dsimp only
    rw [if_neg (by omega), if_neg (by omega)]
    split <;> decide
  have hair : world.material (p.add .y (-1)) = 0 := by
    refine if_pos (.inl ?_)
    rw [Cell.add, if_pos rfl, hy]
    decide
  rw [shown, if_pos ⟨hblock, hair⟩]
  exact hblock

/-- So there is a quad below every chunk. -/
theorem quads_below_ne_nil {cx cz : Nat} (hx : cx < (world.side + 15) / 16)
    (hz : cz < (world.side + 15) / 16) :
    world.quads (face 5) (chunkOrigin cx cz) 0 ≠ [] := by
  intro hnone
  have hshown : world.shown (face 5) (chunkOrigin cx cz) ≠ 0 := by
    refine world.shown_below ?_ rfl ?_ <;>
    · simp only [chunkOrigin, Axis.array_x, Axis.array_z]
      omega
  have hlayers := world.layers_quads (proper_face 5) (chunkOrigin cx cz) (chunkOrigin cx cz) 0
  rw [hnone, if_pos ⟨by simp, by omega, by omega⟩, present, if_neg hshown] at hlayers
  cases hlayers

/-- There are at least as many quads as chunks. -/
theorem chunks_le_length_groups :
    ((world.side + 15) / 16) ^ 2 ≤ world.groups.flatten.length := by
  have hchunk {cx cz : Nat} (hx : cx < (world.side + 15) / 16)
      (hz : cz < (world.side + 15) / 16) : 1 ≤ ((List.range 16).map fun slice =>
        (world.quads (face 5) (chunkOrigin cx cz) slice).length).sum :=
    (List.length_pos_of_ne_nil (world.quads_below_ne_nil hx hz)).trans_le
      (Nat.le_add_right _ _)
  have hgroup : ((world.side + 15) / 16) ^ 2 ≤ (world.group (face 5)).length := by
    rw [length_group, sq]
    refine le_sum_range fun cx hx => ?_
    exact (Nat.mul_one _).symm.le.trans (le_sum_range fun cz hz => hchunk hx hz)
  refine hgroup.trans (List.sublist_flatten_of_mem ?_).length_le
  exact List.mem_map_of_mem (List.mem_range.mpr (by decide : 5 < 6))

/-- And there are not more of them than places in the masks. -/
theorem length_groups_le_chunks :
    world.groups.flatten.length ≤ 24576 * ((world.side + 15) / 16) ^ 2 := by
  have hgroup (k : Nat) : (world.group (face k)).length ≤
      (world.side + 15) / 16 * ((world.side + 15) / 16 * (16 * 256)) := by
    rw [length_group]
    exact sum_range_le fun cx _ => sum_range_le fun cz _ => sum_range_le fun slice _ =>
      world.length_quads_le (face k) (chunkOrigin cx cz) slice
  rw [List.length_flatten, groups, List.map_map]
  refine (sum_range_le fun k _ => hgroup k).trans (le_of_eq ?_)
  ring

/-- A world of one chunk is small enough. -/
theorem small_of_side_le (h : world.side ≤ 16) : 80 * world.groups.flatten.length ≤ LIMIT := by
  have hone : (world.side + 15) / 16 ≤ 1 := by omega
  have hmany := world.length_groups_le_chunks.trans
    (Nat.mul_le_mul_left 24576 (Nat.pow_le_pow_left hone 2))
  rw [LIMIT]
  omega

/-- A world with 229 chunks on a side is not. -/
theorem large_of_lt_side (h : 3648 < world.side) : LIMIT < 80 * world.groups.flatten.length := by
  have hmany : 229 ≤ (world.side + 15) / 16 := by omega
  have hquads := (Nat.pow_le_pow_left hmany 2).trans world.chunks_le_length_groups
  rw [LIMIT]
  omega

end VoxelWorld

namespace FiniteScene

/-- What is kept is a mesh of the world of its key. -/
structure Coherent (scene : FiniteScene) : Prop where
  mesh : ∀ key frame, scene.built = some (key, frame) → ∀ world : VoxelWorld,
    key = (world.blocks, world.seed, world.region) →
      80 * world.groups.flatten.length ≤ LIMIT ∧
        frame = { meshFrame world scene.revision with builtThisFrame := frame.builtThisFrame }

/-- What a player is shown of a world that is small enough. -/
structure Shown (world : VoxelWorld) (frame : VoxelFrame) : Prop where
  surface : ∀ k < 6, ∀ p : Cell, layers (face k) (drawn frame.upload frame.draws k)
    (world.corner p) = present (world.shown (face k) p)
  small : 80 * frame.upload.length ≤ LIMIT
  blocks : frame.blockCount = world.blockCount ∧ frame.blockCount < 2 ^ 32
  faces : frame.exposedFaces = world.faceCount

variable {scene : FiniteScene} {world : VoxelWorld}

/-- The frame of a mesh that fits has each side once. -/
theorem shown_of_small (hregion : world.region = none)
    (hsmall : 80 * world.groups.flatten.length ≤ LIMIT) (revision : UInt64) (built : Nat) :
    Shown world { meshFrame world revision with builtThisFrame := built } := by
  refine ⟨?_, ?_, ⟨rfl, world.blockCount_lt⟩, rfl⟩
  · intro k hk p
    show layers (face k) (drawn (layout world.groups).1 (layout world.groups).2 k) _ = _
    rw [drawn_groups hsmall hk, world.layers_group (proper_face k)]
    by_cases hzero : world.shown (face k) p = 0
    · rw [hzero, present_zero, ite_self]
    · obtain ⟨hx, hz⟩ := (world.of_shown hzero).2 hregion
      rw [if_pos ⟨by omega, by omega⟩]
  · show 80 * (layout world.groups).1.length ≤ LIMIT
    rw [(laidOut_groups hsmall).upload]
    exact hsmall

/-- A call answers with the mesh of the world, or refuses it. -/
structure Answered (scene : FiniteScene) (world : VoxelWorld)
    (result : Except VoxelError VoxelFrame × FiniteScene) : Prop where
  shown : 80 * world.groups.flatten.length ≤ LIMIT → ∃ frame, result.1 = .ok frame ∧
    ∃ built, frame = { meshFrame world result.2.revision with builtThisFrame := built }
  refused : LIMIT < 80 * world.groups.flatten.length →
    (∃ error, result.1 = .error error) ∧ result.2 = scene

/-- A mesh that is made answers for its world, and what is kept is it. -/
theorem rebuild_cases (scene : FiniteScene) (world : VoxelWorld) :
    Answered scene world (scene.rebuild world) ∧
      (scene.Coherent → (scene.rebuild world).2.Coherent) := by
  rw [rebuild]
  -- The mesh is small enough and is kept with its key, or it is refused before anything is written.
  rcases mesh_cases world (scene.revision + 1) with ⟨hsmall, hmesh⟩ | ⟨hlarge, error, hmesh⟩
  · rw [hmesh]
    refine ⟨⟨fun _ => ⟨_, rfl, _, rfl⟩, fun hlarge => absurd hsmall (Nat.not_le.mpr hlarge)⟩, ?_⟩
    intro _
    refine ⟨?_⟩
    intro key frame hbuilt world' hkey
    obtain ⟨rfl, rfl⟩ := Prod.mk.inj (Option.some.inj hbuilt)
    obtain ⟨hgroups, hframe⟩ := meshFrame_eq_of_key hkey (scene.revision + 1)
    rw [← hgroups]
    refine ⟨hsmall, ?_⟩
    show meshFrame world (scene.revision + 1) =
      { meshFrame world' (scene.revision + 1) with
        builtThisFrame := (meshFrame world (scene.revision + 1)).builtThisFrame }
    rw [hframe]
  · rw [hmesh]
    exact ⟨⟨fun hsmall => absurd hsmall (Nat.not_le.mpr hlarge), fun _ => ⟨⟨_, rfl⟩, rfl⟩⟩, id⟩

/-- **A call** answers for the world it was asked for, whatever is kept. -/
theorem Coherent.answered (h : scene.Coherent) (world : VoxelWorld) :
    Answered scene world (scene.buildFrame world) ∧ (scene.buildFrame world).2.Coherent := by
  obtain ⟨hanswer, hnext⟩ := rebuild_cases scene world
  rw [buildFrame]
  -- The key is the one that is kept, or the mesh is made.
  split
  · exact ⟨hanswer, hnext h⟩
  · next key frame hbuilt =>
    split
    · exact ⟨hanswer, hnext h⟩
    · next hsame =>
      obtain ⟨hsmall, hframe⟩ := h.mesh key frame hbuilt world (not_not.mp hsame)
      refine ⟨⟨fun _ => ⟨_, rfl, 0, ?_⟩, fun hlarge => absurd hsmall (Nat.not_le.mpr hlarge)⟩, ?_⟩
      · rw [hframe]
      · refine ⟨?_⟩
        intro key' frame' hbuilt' world' hkey'
        obtain ⟨rfl, rfl⟩ := Prod.mk.inj (Option.some.inj hbuilt')
        obtain ⟨hsmall', hframe'⟩ := h.mesh key frame hbuilt world' hkey'
        refine ⟨hsmall', ?_⟩
        rw [hframe']

/-- Nothing is kept at first. -/
theorem coherent_new : new.Coherent := by
  refine ⟨?_⟩
  intro key frame hbuilt
  cases hbuilt

def called (scene : FiniteScene) (worlds : List VoxelWorld) : FiniteScene :=
  worlds.foldl (fun scene world => (scene.buildFrame world).2) scene

/-- The invariant of any calls. -/
theorem Coherent.called (h : scene.Coherent) (worlds : List VoxelWorld) :
    (scene.called worlds).Coherent := by
  refine (Reaches.run _ scene worlds).invariant Coherent h ?_
  rintro _ world _ h rfl
  exact (h.answered world).2

/-- **The world is shown or refused**, after any calls. -/
theorem finite_run (worlds : List VoxelWorld) {world : VoxelWorld} (hregion : world.region = none) :
    (80 * world.groups.flatten.length ≤ LIMIT →
      ∃ frame, ((new.called worlds).buildFrame world).1 = .ok frame ∧ Shown world frame) ∧
      (LIMIT < 80 * world.groups.flatten.length →
        (∃ error, ((new.called worlds).buildFrame world).1 = .error error) ∧
          ((new.called worlds).buildFrame world).2 = new.called worlds) := by
  obtain ⟨hanswer, -⟩ := (coherent_new.called worlds).answered world
  refine ⟨?_, hanswer.refused⟩
  intro hsmall
  obtain ⟨frame, hframe, built, rfl⟩ := hanswer.shown hsmall
  exact ⟨_, hframe, shown_of_small hregion hsmall _ _⟩

/-- A world of one chunk that is asked for when a large one was refused and another one is kept;
    and the large one, when it is the small one that is kept. -/
theorem finite_run_new :
    let small := VoxelWorld.new (some 2048) none
    let large : VoxelWorld :=
      { VoxelWorld.new none none with blocks := 8 * 3649 ^ 2, blocks_le := by decide }
    (∃ frame, ((new.called [large, .new none none]).buildFrame small).1 = .ok frame ∧
      Shown small frame) ∧
      (∃ error, ((new.called [small]).buildFrame large).1 = .error error) ∧
        ((new.called [small]).buildFrame large).2 = new.called [small] := by
  intro small large
  have hsmall : small.side ≤ 16 :=
    (VoxelWorld.side_le_iff rfl (by decide)).mpr (by decide)
  have hlarge : 3648 < large.side := by
    rw [← Nat.not_le, VoxelWorld.side_le_iff rfl (by decide)]
    decide
  exact ⟨(finite_run [large, .new none none] rfl).1 (small.small_of_side_le hsmall),
    (finite_run [small] rfl).2 (large.large_of_lt_side hlarge)⟩

end FiniteScene

end Voxel
end EngineKit
