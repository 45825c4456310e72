import EngineKit.Voxel.Residency

/-!
# The player moves

Any calls of `build_frame`, with the player anywhere, the terrain regenerated and the radius changed
between them, leave a scene coherent: what it keeps are meshes of the terrain it was last asked for,
and its frame is laid out of all of them and of nothing else. So every frame that is returned draws
the surface of the chunks that are resident, in the window about the player, and that of the chunk
he is in (`stream_run`); and if he stays where he is, 41 calls fill the widest window, and further
ones change nothing (`stream_settles`). A terrain that is regenerated is another one, and of that
nothing is kept (`kept_regenerate`).

The invariant over any calls is `Coherent`, and it has two halves because a call may end in two
ways. If something changed the chunks are filled and laid out, and of the old scene only the chunks
matter. If nothing changed the frame that is there is handed out again, so the invariant has to say
of that frame that it is the one of the chunks. It says so with the frame's own count of what is
pending, since that is all the frame remembers of the radius it was built for.

`Streamed` is what one call does, in both cases; what a player is shown (`Shown`) is read off it and
never off the code again. How many chunks are built is not a part of either that could be chosen:
the keys of `Streamed` are those that were kept and the nearest missing ones, and the rest is
counting.
-/

set_option autoImplicit false

namespace EngineKit
namespace Voxel

open Lib Lib.Tiles Vulkan

/-! ## A seed is a terrain

The key of a scene has the seed and not the blocks. That is enough: the cells of a chunk are read
off the seed alone, so two worlds of one seed have the same meshes, and what was built for the one
is resident for the other.
-/

theorem meshFrame_congr {world world' : VoxelWorld} (h : world.seed = world'.seed)
    (c : Coordinate) : meshFrame (world.chunk c) 1 = meshFrame (world'.chunk c) 1 := by
  have hheight (x z : Int) : (world.chunk c).height x z = (world'.chunk c).height x z := by
    show VoxelWorld.terrain world.seed _ _ = VoxelWorld.terrain world'.seed _ _
    rw [h]
    rfl
  have hmaterial (p : Cell) : (world.chunk c).material p = (world'.chunk c).material p := by
    rw [VoxelWorld.material_chunk, VoxelWorld.material_chunk, hheight]
  have hshown (f : Face) (p : Cell) : (world.chunk c).shown f p = (world'.chunk c).shown f p := by
    rw [VoxelWorld.shown, VoxelWorld.shown, hmaterial, hmaterial]
  have hmask (f : Face) (origin : Cell) (slice : Nat) :
      (world.chunk c).mask f origin slice = (world'.chunk c).mask f origin slice := by
    funext i j
    exact hshown f _
  have hgroup (f : Face) : (world.chunk c).group f = (world'.chunk c).group f := by
    rw [VoxelWorld.group_chunk, VoxelWorld.group_chunk]
    refine List.flatMap_congr ?_
    intro slice _
    rw [VoxelWorld.quads, VoxelWorld.quads, hmask]
    rfl
  have hgroups : (world.chunk c).groups = (world'.chunk c).groups :=
    List.map_congr_left fun k _ => hgroup (face k)
  have hside : (world.chunk c).side = (world'.chunk c).side := rfl
  have hblocks : (world.chunk c).blockCount = (world'.chunk c).blockCount := by
    simp only [VoxelWorld.blockCount, hheight, hside]
  have hfaces : (world.chunk c).faceCount = (world'.chunk c).faceCount := by
    simp only [VoxelWorld.faceCount, VoxelWorld.exposedFaces, hmask, VoxelWorld.chunkOrigins, hside]
  rw [meshFrame, meshFrame, hgroups, hblocks, hfaces, hside]

theorem Resident.congr {world world' : VoxelWorld} (h : world.seed = world'.seed)
    {chunks : Chunks} (hresident : Resident world chunks) : Resident world' chunks := by
  refine ⟨hresident.sorted, ?_⟩
  intro chunk hchunk
  rw [hresident.mesh chunk hchunk, meshFrame_congr h]

/-! ## The nearest first -/

namespace VoxelWorld

variable (world : VoxelWorld)

instance : Std.Total world.Nearer where
  total a b := by
    rw [Nearer, Nearer, Coordinate.Before, Coordinate.Before]
    omega

instance : IsTrans Coordinate world.Nearer where
  trans a b c hab hbc := by
    rw [Nearer, Coordinate.Before] at *
    omega

/-- The player's own chunk is at distance zero, and no other is. -/
theorem distance_center : world.distance world.center = 0 := by
  rw [distance, sub_self, sub_self]
  rfl

theorem eq_center {c : Coordinate} (h : world.distance c ≤ 0) : c = world.center := by
  rw [distance] at h
  have hfirst := sq_nonneg (c.1 - world.center.1)
  have hsecond := sq_nonneg (c.2 - world.center.2)
  have hx : (c.1 - world.center.1) ^ 2 = 0 := by omega
  have hz : (c.2 - world.center.2) ^ 2 = 0 := by omega
  exact Prod.ext (sub_eq_zero.mp (pow_eq_zero_iff two_ne_zero |>.mp hx))
    (sub_eq_zero.mp (pow_eq_zero_iff two_ne_zero |>.mp hz))

theorem inWindow_center : world.InWindow world.center := by
  rw [InWindow, sub_self, sub_self]
  exact ⟨Nat.zero_le _, Nat.zero_le _⟩

/-- What is built is no farther than what is not. -/
theorem nearer_missing {chunks : Chunks} {n : Nat} {c c' : Coordinate}
    (h : c ∈ (world.missing chunks).take n) (h' : c' ∈ (world.missing chunks).drop n) :
    world.distance c ≤ world.distance c' := by
  have hsorted : (world.missing chunks).Pairwise world.Nearer := List.pairwise_insertionSort _ _
  rw [← List.take_append_drop n (world.missing chunks)] at hsorted
  rcases (List.pairwise_append.mp hsorted).2.2 c h c' h' with hlt | ⟨heq, -⟩
  · exact hlt.le
  · exact heq.le

end VoxelWorld

/-! ## One call -/

namespace VoxelScene

/-- What is so of a scene. Nothing is said of the chunks but under the key they were built for: a
    call with another seed or radius does not clear them, it filters them by the key first. And the
    frame is laid out of the chunks as they are now, which is what lets a call that changes nothing
    hand it out again. -/
structure Coherent (scene : VoxelScene) : Prop where
  resident : ∀ world : VoxelWorld, ∀ radius, scene.key = some (world.seed, radius) →
    Resident world scene.chunks
  laid : ∀ frame, scene.frame = some frame → ∃ seed radius, scene.key = some (seed, radius) ∧
    frame = streamFrame scene.chunks scene.revision frame.pendingChunks frame.builtThisFrame ∧
      scene.chunks.length + frame.pendingChunks = (2 * radius + 1) ^ 2

/-- What a call with a radius does. -/
structure Streamed (scene : VoxelScene) (world : VoxelWorld) (frame : VoxelFrame)
    (scene' : VoxelScene) : Prop where
  key : scene'.key = some (world.seed, world.radius)
  resident : Resident world scene'.chunks
  keys : (scene'.chunks.map (·.1)).Perm
    ((scene.kept world).map (·.1) ++ (scene.missing world).take (scene.built world))
  laid : frame = streamFrame scene'.chunks scene'.revision (scene.pending world)
    (scene.built world)
  published : scene'.frame = some frame
  /-- Nothing is laid out anew if nothing changed. -/
  idle : scene.frame ≠ none → ¬ scene.Changed world →
    scene'.chunks = scene.chunks ∧ scene'.revision = scene.revision

variable {scene : VoxelScene} {world : VoxelWorld}

theorem Coherent.resident_kept (h : scene.Coherent) (world : VoxelWorld) :
    Resident world (scene.kept world) := by
  refine Resident.filter ?_ _
  rw [old]
  split
  · next hkey => exact h.resident world _ hkey
  · exact ⟨List.Pairwise.nil, fun _ hchunk => absurd hchunk List.not_mem_nil⟩

theorem inWindow_kept {chunk : Coordinate × VoxelFrame} (h : chunk ∈ scene.kept world) :
    world.InWindow chunk.1 :=
  of_decide_eq_true (List.mem_filter.mp h).2

/-- The window is what is kept and what is missing. -/
theorem Coherent.keys_missing (h : scene.Coherent) (world : VoxelWorld) :
    ((scene.kept world).map (·.1) ++ scene.missing world).Perm world.window :=
  Voxel.keys_missing (h.resident_kept world).sorted fun _ => inWindow_kept

theorem Coherent.length_kept (h : scene.Coherent) (world : VoxelWorld) :
    (scene.kept world).length + (scene.missing world).length = (2 * world.radius + 1) ^ 2 :=
  length_missing (h.resident_kept world).sorted fun _ => inWindow_kept

/-- With the widest radius the window has 81 chunks. -/
theorem Coherent.length_kept_le (h : scene.Coherent) (world : VoxelWorld) :
    (scene.kept world).length + (scene.missing world).length ≤ 81 := by
  rw [h.length_kept, ← world.length_window]
  exact world.length_window_le

theorem built_le : scene.built world ≤ (scene.missing world).length := Nat.min_le_left _ _

theorem length_take_missing :
    ((scene.missing world).take (scene.built world)).length = scene.built world := by
  rw [List.length_take, Nat.min_eq_left built_le]

/-- What is kept, filled up: no chunk is refused. -/
theorem Coherent.filled (h : scene.Coherent) (world : VoxelWorld) : ∃ chunks,
    fill world ((scene.missing world).take (scene.built world)) (scene.kept world) =
        (.ok (), chunks) ∧
      Resident world chunks ∧
        (chunks.map (·.1)).Perm
          ((scene.kept world).map (·.1) ++ (scene.missing world).take (scene.built world)) := by
  refine fill_eq (h.resident_kept world) ?_ ?_
  · have hwindow := (h.keys_missing world).nodup_iff.mpr world.nodup_window
    exact hwindow.sublist ((List.Sublist.refl _).append (List.take_sublist _ _))
  · have htotal := h.length_kept_le world
    have hbuilt : scene.built world ≤ _ := built_le
    rw [length_take_missing]
    omega

/-- If nothing changed the chunks are those there were. -/
theorem kept_of_not_changed (h : ¬ scene.Changed world) :
    scene.key = some (world.seed, world.radius) ∧ scene.kept world = scene.chunks ∧
      scene.built world = 0 := by
  rw [Changed, not_or, not_or, not_not, not_not, not_not] at h
  obtain ⟨hkey, hlength, hbuilt⟩ := h
  have hold : scene.old world = scene.chunks := if_pos hkey
  have hkept : scene.kept world = scene.old world :=
    List.filter_sublist.eq_of_length hlength.symm
  exact ⟨hkey, hkept.trans hold, hbuilt⟩

/-- Publishing is never refused for the size: 81 chunks of at most 576 quads fit. -/
theorem publish_eq (next : VoxelScene) (hresident : Resident world next.chunks)
    (hlength : next.chunks.length ≤ 81) (pending built : Nat) :
    next.publish pending built =
      (.ok (streamFrame next.chunks (next.revision + 1) pending built),
        { next with
          revision := next.revision + 1
          frame := some (streamFrame next.chunks (next.revision + 1) pending built) }) := by
  have hroom := hresident.room hlength
  rw [publish, if_neg (Nat.not_lt.mpr hroom)]

/-- **A call with a radius is never refused.** -/
theorem Coherent.stream (h : scene.Coherent) (world : VoxelWorld) : ∃ frame scene',
    scene.stream world = (.ok frame, scene') ∧ Streamed scene world frame scene' := by
  obtain ⟨chunks, hfill, hresident, hkeys⟩ := h.filled world
  have hlength := hkeys.length_eq
  rw [List.length_map, List.length_append, List.length_map, length_take_missing] at hlength
  have hsmall : chunks.length ≤ 81 := by
    have htotal := h.length_kept_le world
    have hbuilt : scene.built world ≤ _ := built_le
    omega
  have hpublish := publish_eq { scene with key := some (world.seed, world.radius), chunks }
    hresident hsmall (scene.pending world) (scene.built world)
  dsimp only at hpublish
  rw [VoxelScene.stream, hfill]
  dsimp only
  -- The first frame, a frame laid out anew, or the one that is there.
  cases hframe : scene.frame with
  | none =>
    rw [hframe] at hpublish
    exact ⟨_, _, hpublish, rfl, hresident, hkeys, rfl, rfl, fun hsome => absurd hframe hsome⟩
  | some shown =>
    rw [hframe] at hpublish
    by_cases hchanged : scene.Changed world
    · exact ⟨_, _, (if_pos hchanged).trans hpublish, rfl, hresident, hkeys, rfl, rfl,
        fun _ hidle => absurd hchanged hidle⟩
    · obtain ⟨hkey, hkept, hbuilt⟩ := kept_of_not_changed hchanged
      have hsame : scene.chunks = chunks := by
        rw [hbuilt, List.take_zero, hkept] at hfill
        exact (Prod.mk.inj hfill).2
      refine ⟨_, _, if_neg hchanged, rfl, hresident, hkeys, ?_, rfl, fun _ _ => ⟨hsame.symm, rfl⟩⟩
      obtain ⟨seed, radius, hlast, hlaid, htotal⟩ := h.laid shown hframe
      obtain ⟨rfl, rfl⟩ := Prod.mk.inj (Option.some.inj (hlast.symm.trans hkey))
      have hpending : scene.pending world = shown.pendingChunks := by
        have hkeptLength := h.length_kept world
        rw [hkept] at hkeptLength
        rw [pending, hbuilt]
        omega
      rw [hpending, hbuilt, ← hsame]
      exact congrArg (fun frame : VoxelFrame => { frame with builtThisFrame := 0 }) hlaid

/-- As many as were kept, and those that were built. -/
theorem Streamed.length {frame : VoxelFrame} {scene' : VoxelScene}
    (hs : Streamed scene world frame scene') :
    scene'.chunks.length = (scene.kept world).length + scene.built world := by
  have hlength := hs.keys.length_eq
  rw [List.length_map, List.length_append, List.length_map, length_take_missing] at hlength
  exact hlength

/-- Resident and pending chunks are the window. -/
theorem Streamed.total {frame : VoxelFrame} {scene' : VoxelScene}
    (hs : Streamed scene world frame scene') (h : scene.Coherent) :
    scene'.chunks.length + scene.pending world = (2 * world.radius + 1) ^ 2 := by
  have htotal := h.length_kept world
  have hbuilt : scene.built world ≤ _ := built_le
  rw [hs.length, pending]
  omega

theorem Streamed.coherent {frame : VoxelFrame} {scene' : VoxelScene}
    (hs : Streamed scene world frame scene') (h : scene.Coherent) : scene'.Coherent := by
  refine ⟨?_, ?_⟩
  · intro world' radius hkey
    have hseed := (Prod.mk.inj (Option.some.inj (hs.key.symm.trans hkey))).1
    exact hs.resident.congr hseed
  · intro shown hshown
    obtain rfl := Option.some.inj (hs.published.symm.trans hshown)
    have hpending : frame.pendingChunks = scene.pending world :=
      congrArg VoxelFrame.pendingChunks hs.laid
    have hbuilt : frame.builtThisFrame = scene.built world :=
      congrArg VoxelFrame.builtThisFrame hs.laid
    refine ⟨world.seed, world.radius, hs.key, ?_, ?_⟩
    · rw [hpending, hbuilt]
      exact hs.laid
    · rw [hpending]
      exact hs.total h

/-! ## Any calls -/

/-- With a radius, and at a place. -/
structure Streaming (world : VoxelWorld) : Prop where
  radius : world.streamRadius ≠ 0
  finite : (world.position .x).isFinite ∧ (world.position .y).isFinite ∧
    (world.position .z).isFinite

theorem buildFrame_streaming (hworld : Streaming world) :
    scene.buildFrame world = scene.stream world := by
  rw [buildFrame, if_neg hworld.radius, if_pos hworld.finite]

theorem Coherent.buildFrame (h : scene.Coherent) (world : VoxelWorld) :
    (scene.buildFrame world).2.Coherent := by
  rw [VoxelScene.buildFrame]
  split
  · exact ⟨h.resident, h.laid⟩
  · split
    · obtain ⟨frame, scene', hstream, hs⟩ := h.stream world
      rw [hstream]
      exact hs.coherent h
    · exact h

theorem coherent_new : new.Coherent := by
  refine ⟨?_, ?_⟩
  · intro world radius hkey
    cases hkey
  · intro frame hframe
    cases hframe

/-- What calls leave. -/
def called (scene : VoxelScene) (worlds : List VoxelWorld) : VoxelScene :=
  worlds.foldl (fun scene world => (scene.buildFrame world).2) scene

theorem Coherent.called (h : scene.Coherent) (worlds : List VoxelWorld) :
    (scene.called worlds).Coherent := by
  refine (Reaches.run _ scene worlds).invariant Coherent h ?_
  rintro _ world _ h rfl
  exact h.buildFrame world

/-- What a player is shown. -/
structure Shown (scene : VoxelScene) (world : VoxelWorld) (frame : VoxelFrame)
    (scene' : VoxelScene) : Prop where
  /-- The surface of what is resident, once. -/
  surface : ∀ k < 6, ∀ p : Cell,
    layers (face k) (drawn frame.upload frame.draws k) (fun a => 2 * p a) =
      if (p .x / 16, p .z / 16) ∈ scene'.chunks.map (·.1) then
        present (world.endless.shown (face k) p)
      else []
  inWindow : ∀ c ∈ scene'.chunks.map (·.1), world.InWindow c
  center : world.center ∈ scene'.chunks.map (·.1)
  kept : scene.kept world ⊆ scene'.chunks
  nearest : ∀ c ∈ scene'.chunks.map (·.1), c ∉ (scene.kept world).map (·.1) →
    ∀ c', world.InWindow c' → c' ∉ scene'.chunks.map (·.1) → world.distance c ≤ world.distance c'
  resident : frame.residentChunks = scene'.chunks.length
  pending : frame.residentChunks + frame.pendingChunks = (2 * world.radius + 1) ^ 2
  /-- The frame tells how many chunks there are more than were kept, and those are few. -/
  grown : scene'.chunks.length = (scene.kept world).length + frame.builtThisFrame
  built : frame.builtThisFrame ≤ CHUNKS_PER_FRAME
  packet : ∀ (scalars : Scalars) (camera : Camera), camera.toList.all f32IsFinite →
    validWorldPacket (frame.instanceBytes scalars) LIMIT camera frame.draws = true

section Streamed

variable {frame : VoxelFrame} {scene' : VoxelScene}

theorem Streamed.length_le (hs : Streamed scene world frame scene') (h : scene.Coherent) :
    scene'.chunks.length ≤ 81 := by
  have htotal := hs.total h
  have hwindow := world.length_window_le
  rw [world.length_window] at hwindow
  omega

theorem Streamed.inWindow (hs : Streamed scene world frame scene') (h : scene.Coherent) :
    ∀ c ∈ scene'.chunks.map (·.1), world.InWindow c := by
  intro c hc
  refine world.mem_window.mp ((h.keys_missing world).mem_iff.mp ?_)
  exact ((List.Sublist.refl _).append (List.take_sublist _ _)).subset (hs.keys.mem_iff.mp hc)

/-- What is not resident is yet to come. -/
theorem Streamed.mem_drop (hs : Streamed scene world frame scene') (h : scene.Coherent)
    {c : Coordinate} (hc : world.InWindow c) (hnew : c ∉ scene'.chunks.map (·.1)) :
    c ∈ (scene.missing world).drop (scene.built world) := by
  rw [hs.keys.mem_iff, List.mem_append, not_or] at hnew
  have hall := (h.keys_missing world).mem_iff.mpr (world.mem_window.mpr hc)
  rcases List.mem_append.mp hall with hkept | hmissing
  · exact absurd hkept hnew.1
  · rw [← List.take_append_drop (scene.built world) (scene.missing world)] at hmissing
    exact (List.mem_append.mp hmissing).resolve_left hnew.2

theorem Streamed.nearest (hs : Streamed scene world frame scene') (h : scene.Coherent)
    {c c' : Coordinate} (hc : c ∈ scene'.chunks.map (·.1))
    (hold : c ∉ (scene.kept world).map (·.1)) (hc' : world.InWindow c')
    (hnew : c' ∉ scene'.chunks.map (·.1)) : world.distance c ≤ world.distance c' := by
  have htaken := (List.mem_append.mp (hs.keys.mem_iff.mp hc)).resolve_left hold
  exact world.nearer_missing htaken (hs.mem_drop h hc' hnew)

/-- The chunk the player is in comes first. -/
theorem Streamed.center (hs : Streamed scene world frame scene') (h : scene.Coherent) :
    world.center ∈ scene'.chunks.map (·.1) := by
  -- Were the center missing after the call, two nearer chunks would have been built, and none is
  -- nearer.
  by_contra hnew
  have hdrop := hs.mem_drop h world.inWindow_center hnew
  have hlength := List.length_pos_of_mem hdrop
  rw [List.length_drop] at hlength
  have hbuilt : scene.built world = 2 := by
    rw [built, CHUNKS_PER_FRAME] at hlength ⊢
    omega
  have htake : ((scene.missing world).take (scene.built world)) ≠ [] := by
    refine List.ne_nil_of_length_pos ?_
    rw [length_take_missing, hbuilt]
    decide
  obtain ⟨c, hc⟩ := List.exists_mem_of_ne_nil _ htake
  have hdistance := world.nearer_missing hc hdrop
  rw [world.distance_center] at hdistance
  obtain rfl := world.eq_center hdistance
  exact hnew (hs.keys.mem_iff.mpr (List.mem_append_right _ hc))

/-- The meshes that are kept are not built again. -/
theorem Streamed.kept_subset (hs : Streamed scene world frame scene') (h : scene.Coherent) :
    scene.kept world ⊆ scene'.chunks := by
  intro chunk hchunk
  have hkey : chunk.1 ∈ scene'.chunks.map (·.1) :=
    hs.keys.mem_iff.mpr (List.mem_append_left _ (List.mem_map_of_mem hchunk))
  obtain ⟨chunk', hchunk', heq⟩ := List.mem_map.mp hkey
  have hmesh : chunk'.2 = chunk.2 := by
    rw [hs.resident.mesh chunk' hchunk', (h.resident_kept world).mesh chunk hchunk, heq]
  rw [← Prod.ext heq hmesh]
  exact hchunk'

/-- The frame is laid out of the resident chunks, and their surfaces tile. -/
theorem Streamed.surface (hs : Streamed scene world frame scene') (h : scene.Coherent) {k : Nat}
    (hk : k < 6) (p : Cell) :
    layers (face k) (drawn frame.upload frame.draws k) (fun a => 2 * p a) =
      if (p .x / 16, p .z / 16) ∈ scene'.chunks.map (·.1) then
        present (world.endless.shown (face k) p)
      else [] := by
  rw [hs.laid]
  exact surface_streamFrame hs.resident (hs.length_le h) _ _ _ hk p

/-- A frame is never empty: the ground under the player is in it. -/
theorem Streamed.upload_ne_nil (hs : Streamed scene world frame scene') (h : scene.Coherent) :
    frame.upload ≠ [] := by
  intro hnone
  obtain ⟨p, ⟨hx, hz⟩, hshown⟩ := shown_top world (world.center.1 * 16) (world.center.2 * 16)
  have hplace : (p .x / 16, p .z / 16) = world.center :=
    Prod.ext (by dsimp only; omega) (by dsimp only; omega)
  have htop := hs.surface h (by decide : 4 < 6) p
  rw [hplace, if_pos (hs.center h), present, if_neg hshown, hnone] at htop
  have hempty : drawn [] frame.draws 4 = [] := by
    simp [drawn, cut]
  rw [hempty] at htop
  cases htop

theorem Streamed.packet (hs : Streamed scene world frame scene') (h : scene.Coherent)
    (scalars : Scalars) {camera : Camera} (hcamera : camera.toList.all f32IsFinite) :
    validWorldPacket (frame.instanceBytes scalars) LIMIT camera frame.draws = true := by
  have hsome := hs.upload_ne_nil h
  have hlaid := hs.resident.laidOut (hs.length_le h)
  have hroom := hs.resident.room (hs.length_le h)
  rw [← hs.resident.length_compacted, ← hlaid.upload] at hroom
  rw [hs.laid] at hsome ⊢
  refine validWorldPacket_layout ?_ hlaid hsome hroom ?_ hcamera scalars
  · rw [List.length_map, List.length_range]
  · refine Nat.lt_of_le_of_lt (Nat.le_mul_of_pos_left _ (by decide : 0 < 80)) ?_
    exact Nat.lt_of_le_of_lt hroom (by decide)

theorem Streamed.shown (hs : Streamed scene world frame scene') (h : scene.Coherent) :
    Shown scene world frame scene' := by
  have hresident : frame.residentChunks = scene'.chunks.length :=
    congrArg VoxelFrame.residentChunks hs.laid
  have hpending : frame.pendingChunks = scene.pending world :=
    congrArg VoxelFrame.pendingChunks hs.laid
  have hbuilt : frame.builtThisFrame = scene.built world :=
    congrArg VoxelFrame.builtThisFrame hs.laid
  exact {
    surface := fun k hk p => hs.surface h hk p
    inWindow := hs.inWindow h
    center := hs.center h
    kept := hs.kept_subset h
    nearest := fun c hc hold c' hc' hnew => hs.nearest h hc hold hc' hnew
    resident := hresident
    pending := by
      rw [hresident, hpending]
      exact hs.total h
    grown := by
      rw [hbuilt]
      exact hs.length
    built := by
      rw [hbuilt]
      exact Nat.min_le_right _ _
    packet := fun scalars camera hcamera => hs.packet h scalars hcamera }

end Streamed

/-- **Every call shows the player the surface about him**, after any others. -/
theorem stream_run (worlds : List VoxelWorld) {world : VoxelWorld} (hworld : Streaming world) :
    ∃ frame, ((new.called worlds).buildFrame world).1 = .ok frame ∧
      Shown (new.called worlds) world frame ((new.called worlds).buildFrame world).2 := by
  have hcoherent := coherent_new.called worlds
  obtain ⟨frame, scene', hstream, hs⟩ := hcoherent.stream world
  rw [buildFrame_streaming hworld, hstream]
  exact ⟨frame, rfl, hs.shown hcoherent⟩

/-- The position of a new world is finite. -/
theorem streaming_new {streamRadius : Nat} (h : streamRadius ≠ 0) (blocks : Option Nat) :
    Streaming (.new blocks (some streamRadius)) := by
  refine ⟨?_, rfl, rfl, rfl⟩
  show min streamRadius 4 ≠ 0
  omega

/-- A finite world is drawn first, and then the player is given a radius. -/
theorem stream_run_new : ∃ frame,
    ((new.called [.new none none]).buildFrame (.new none (some 1))).1 = .ok frame ∧
      Shown (new.called [.new none none]) (.new none (some 1)) frame
        ((new.called [.new none none]).buildFrame (.new none (some 1))).2 :=
  stream_run [.new none none] (streaming_new one_ne_zero none)

/-! ## Staying

While the world does not change the number of chunks grows by two a call. What has to go along with
it is that the chunks are all kept, which is true from the second call on: before it they may be
those of another terrain, or out of the window.
-/

/-- After a number of calls with the same world. Each keeps all there was and builds two, so the
    lower bound grows by two until the window is full; from the first call on the key is the one
    asked for, and nothing that is kept is filtered out. -/
structure Stayed (scene : VoxelScene) (world : VoxelWorld) (n : Nat) : Prop where
  coherent : scene.Coherent
  length : min ((2 * world.radius + 1) ^ 2) (2 * n) ≤ (scene.kept world).length
  last : n ≠ 0 → scene.key = some (world.seed, world.radius) ∧
    scene.kept world = scene.chunks ∧ scene.frame ≠ none

/-- Two more, or all there are. -/
theorem Stayed.next {n : Nat} (h : Stayed scene world n) (hworld : Streaming world) :
    Stayed (scene.buildFrame world).2 world (n + 1) := by
  obtain ⟨frame, scene', hstream, hs⟩ := h.coherent.stream world
  rw [buildFrame_streaming hworld, hstream]
  have hkept : scene'.kept world = scene'.chunks := by
    rw [kept, old, if_pos hs.key]
    refine List.filter_eq_self.mpr ?_
    intro chunk hchunk
    exact decide_eq_true (hs.inWindow h.coherent _ (List.mem_map_of_mem hchunk))
  refine ⟨hs.coherent h.coherent, ?_, ?_⟩
  · have hlength := h.length
    have htotal := h.coherent.length_kept world
    rw [hkept, hs.length, built, CHUNKS_PER_FRAME]
    omega
  · intro _
    refine ⟨hs.key, hkept, ?_⟩
    rw [hs.published]
    exact Option.some_ne_none frame

theorem Stayed.run (h : scene.Coherent) (hworld : Streaming world) (n : Nat) :
    Stayed (scene.called (List.replicate n world)) world n := by
  induction n with
  | zero => exact ⟨h, (Nat.min_le_right _ _).trans (Nat.zero_le _), fun hne => absurd rfl hne⟩
  | succ n ih =>
    rw [List.replicate_succ', VoxelScene.called, List.foldl_append]
    exact ih.next hworld

/-- Everything about the player is there. -/
structure Settled (scene : VoxelScene) (world : VoxelWorld) (frame : VoxelFrame)
    (scene' : VoxelScene) : Prop where
  /-- The surface of the window, once. -/
  surface : ∀ k < 6, ∀ p : Cell,
    layers (face k) (drawn frame.upload frame.draws k) (fun a => 2 * p a) =
      if world.InWindow (p .x / 16, p .z / 16) then present (world.endless.shown (face k) p)
      else []
  pending : frame.pendingChunks = 0
  built : frame.builtThisFrame = 0
  chunks : scene'.chunks = scene.chunks
  revision : scene'.revision = scene.revision

theorem Stayed.settled {n : Nat} (h : Stayed scene world n)
    (hn : (2 * world.radius + 1) ^ 2 ≤ 2 * n) {frame : VoxelFrame} {scene' : VoxelScene}
    (hs : Streamed scene world frame scene') : Settled scene world frame scene' := by
  have hsome : n ≠ 0 := by
    rintro rfl
    exact absurd (Nat.pow_pos (Nat.succ_pos _)) (Nat.not_lt.mpr hn)
  obtain ⟨hkey, hkept, hframe⟩ := h.last hsome
  have htotal := h.coherent.length_kept world
  have hlength := h.length
  have hmissing : (scene.missing world).length = 0 := by omega
  have hbuilt : scene.built world = 0 := by
    rw [built, hmissing]
    rfl
  have hsame : ¬ scene.Changed world := by
    rw [Changed, not_or, not_or, not_not, not_not, not_not, hkept, old, if_pos hkey]
    exact ⟨hkey, rfl, hbuilt⟩
  obtain ⟨hchunks, hrevision⟩ := hs.idle hframe hsame
  have hwindow (c : Coordinate) : c ∈ scene'.chunks.map (·.1) ↔ world.InWindow c := by
    refine ⟨hs.inWindow h.coherent c, ?_⟩
    intro hc
    -- What is in the window is resident, because nothing is left to be dropped.
    by_contra hnew
    have hdrop := List.length_pos_of_mem (hs.mem_drop h.coherent hc hnew)
    rw [List.length_drop] at hdrop
    omega
  have hlaid := hs.laid
  rw [pending, hmissing, hbuilt] at hlaid
  exact {
    surface := by
      intro k hk p
      rw [hs.surface h.coherent hk p]
      exact if_congr (hwindow _) rfl rfl
    pending := congrArg VoxelFrame.pendingChunks hlaid
    built := congrArg VoxelFrame.builtThisFrame hlaid
    chunks := hchunks
    revision := hrevision }

/-- **Who stays sees the whole window**, and nothing is built or laid out any more. -/
theorem stream_settles (worlds : List VoxelWorld) {world : VoxelWorld} (hworld : Streaming world)
    {n : Nat} (hn : (2 * world.radius + 1) ^ 2 ≤ 2 * n) :
    ∃ frame, (((new.called worlds).called (List.replicate n world)).buildFrame world).1 =
        .ok frame ∧
      Settled ((new.called worlds).called (List.replicate n world)) world frame
        (((new.called worlds).called (List.replicate n world)).buildFrame world).2 := by
  have hstayed := Stayed.run (coherent_new.called worlds) hworld n
  obtain ⟨frame, scene', hstream, hs⟩ := hstayed.coherent.stream world
  rw [buildFrame_streaming hworld, hstream]
  exact ⟨frame, rfl, hstayed.settled hn hs⟩

/-- 81 chunks in 41 calls. -/
theorem stream_settles_new : ∃ frame,
    (((new.called []).called (List.replicate 41 (.new none (some 4)))).buildFrame
      (.new none (some 4))).1 = .ok frame ∧
      Settled ((new.called []).called (List.replicate 41 (.new none (some 4))))
        (.new none (some 4)) frame
        (((new.called []).called (List.replicate 41 (.new none (some 4)))).buildFrame
          (.new none (some 4))).2 :=
  stream_settles [] (streaming_new four_ne_zero none) (by decide)

/-- Of another terrain nothing is kept. -/
theorem kept_regenerate {radius : Nat} (h : scene.key = some (world.seed, radius)) :
    scene.kept world.regenerate = [] := by
  have hother : scene.key ≠ some (world.regenerate.seed, world.regenerate.radius) := by
    intro hkey
    exact world.seed_regenerate_ne (Prod.mk.inj (Option.some.inj (hkey.symm.trans h))).1
  rw [kept, old, if_neg hother]
  rfl

end VoxelScene

end Voxel
end EngineKit
