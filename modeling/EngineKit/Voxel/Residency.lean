import EngineKit.Voxel.Stream

/-!
# What is resident

The window about the player is cut in two: the chunks that are kept, and those that are missing. A
call moves two of the missing ones over, the nearest first, and no chunk is ever too large for that:
the 81 chunks of the widest window take less than the 4 MiB there are (`fill_eq`). What is resident
are meshes of the terrain as it is now, so a frame draws their surface, and no other
(`surface_streamFrame`).

`Resident` asks for the meshes of `world` as it is in this call. The terrain of a chunk depends on
the seed and on where it is, so chunks kept from earlier calls are still right as long as the seed
is the same; that this is so is not for this module to show but for the runs (`Coherent`). Sorting
is part of the invariant because the frame lists the groups in the order of the keys, and a key that
stood twice would be drawn twice.
-/

set_option autoImplicit false

namespace EngineKit
namespace Voxel

open Lib Lib.Tiles Vulkan

/-! ## The window -/

namespace VoxelWorld

variable (world : VoxelWorld)

theorem radius_le : world.radius ≤ 4 := Nat.min_le_right _ _

/-- The two loops about the player list the square. -/
theorem mem_window {c : Coordinate} : c ∈ world.window ↔ world.InWindow c := by
  rw [window, InWindow]
  simp only [List.mem_flatMap, List.mem_map, List.mem_range]
  constructor
  · intro h
    obtain ⟨i, hi, j, hj, rfl⟩ := h
    omega
  · intro h
    refine ⟨(c.1 - (world.center.1 - world.radius)).toNat, by omega,
      (c.2 - (world.center.2 - world.radius)).toNat, by omega, ?_⟩
    ext
    · show world.center.1 - world.radius + _ = c.1
      omega
    · show world.center.2 - world.radius + _ = c.2
      omega

/-- No chunk is listed twice. -/
theorem nodup_window : world.window.Nodup := by
  refine List.nodup_flatMap.mpr ⟨?_, ?_⟩
  · intro i _
    refine List.Nodup.map ?_ List.nodup_range
    intro j j' heq
    have hsecond := (Prod.mk.inj heq).2
    omega
  · refine List.Pairwise.imp ?_ (List.pairwise_lt_range (n := 2 * world.radius + 1))
    intro i i' hlt c hc hc'
    obtain ⟨j, -, rfl⟩ := List.mem_map.mp hc
    obtain ⟨j', -, heq⟩ := List.mem_map.mp hc'
    have hfirst := (Prod.mk.inj heq).1
    omega

theorem length_window : world.window.length = (2 * world.radius + 1) ^ 2 := by
  rw [window, List.length_flatMap]
  simp [Nat.pow_two]

theorem length_window_le : world.window.length ≤ 81 := by
  rw [length_window]
  have hle : 2 * world.radius + 1 ≤ 9 := by
    have hradius := world.radius_le
    omega
  exact (Nat.pow_le_pow_left hle 2).trans (by decide)

end VoxelWorld

/-! ## The order of the keys -/

namespace Coordinate

/-- The keys are compared as the map of the source compares them. -/
theorem Before.trans {a b c : Coordinate} (hab : a.Before b) (hbc : b.Before c) : a.Before c := by
  rw [Before] at *
  omega

theorem Before.ne {a b : Coordinate} (h : a.Before b) : a ≠ b := by
  rintro rfl
  rw [Before] at h
  omega

theorem before_of_not {a b : Coordinate} (h : ¬ a.Before b) (hne : a ≠ b) : b.Before a := by
  rw [Before] at *
  have hor : a.1 ≠ b.1 ∨ a.2 ≠ b.2 := by
    by_contra hboth
    obtain ⟨hfirst, hsecond⟩ := not_or.mp hboth
    exact hne (Prod.ext (not_not.mp hfirst) (not_not.mp hsecond))
  omega

end Coordinate

/-- In the order of their keys. -/
def Sorted (chunks : Chunks) : Prop := chunks.Pairwise fun a b => a.1.Before b.1

theorem Sorted.nodup {chunks : Chunks} (h : Sorted chunks) : (chunks.map (·.1)).Nodup :=
  List.pairwise_map.mpr (h.imp Coordinate.Before.ne)

/-- A key that is not there is added, and the others stay. -/
theorem perm_insertChunk {c : Coordinate} (mesh : VoxelFrame) {chunks : Chunks}
    (h : c ∉ chunks.map (·.1)) : (insertChunk c mesh chunks).Perm ((c, mesh) :: chunks) := by
  induction chunks with
  | nil => exact List.Perm.refl _
  | cons chunk rest ih =>
    obtain ⟨other, frame⟩ := chunk
    rw [List.map_cons, List.mem_cons, not_or] at h
    rw [insertChunk]
    split
    · exact List.Perm.refl _
    · rw [if_neg h.1]
      exact (List.Perm.cons _ (ih h.2)).trans (List.Perm.swap _ _ _)

/-- In its place. -/
theorem Sorted.insertChunk {chunks : Chunks} (h : Sorted chunks) {c : Coordinate}
    (mesh : VoxelFrame) (hnew : c ∉ chunks.map (·.1)) : Sorted (insertChunk c mesh chunks) := by
  induction chunks with
  | nil => exact List.pairwise_singleton _ _
  | cons chunk rest ih =>
    obtain ⟨other, frame⟩ := chunk
    rw [List.map_cons, List.mem_cons, not_or] at hnew
    obtain ⟨hfirst, hrest⟩ := List.pairwise_cons.mp h
    rw [Voxel.insertChunk]
    split
    · next hbefore =>
      refine List.pairwise_cons.mpr ⟨?_, h⟩
      intro a ha
      rcases List.mem_cons.mp ha with rfl | hin
      · exact hbefore
      · exact hbefore.trans (hfirst a hin)
    · next hafter =>
      rw [if_neg hnew.1]
      refine List.pairwise_cons.mpr ⟨?_, ih hrest hnew.2⟩
      intro a ha
      rcases List.mem_cons.mp ((perm_insertChunk mesh hnew.2).mem_iff.mp ha) with rfl | hin
      · exact Coordinate.before_of_not hafter hnew.1
      · exact hfirst a hin

/-! ## What is kept and what is built

The code checks the budget before each chunk it builds and stops with an error where it is exceeded.
The lemmas below say that this never happens: a chunk has at most 576 quads of 80 bytes, and 81
times that is below the limit. So the queue of missing chunks is always worked off from the front.
-/

/-- The chunks are meshes of the terrain. -/
structure Resident (world : VoxelWorld) (chunks : Chunks) : Prop where
  sorted : Sorted chunks
  mesh : ∀ chunk ∈ chunks, chunk.2 = meshFrame (world.chunk chunk.1) 1

section Resident

variable {world : VoxelWorld} {chunks : Chunks}

/-- The bound of one chunk, from its seams. -/
theorem Resident.length_upload (h : Resident world chunks) :
    ∀ chunk ∈ chunks, chunk.2.upload.length ≤ 576 := by
  intro chunk hchunk
  rw [h.mesh chunk hchunk]
  exact (drawsChunk world chunk.1).small

/-- 46080 bytes are 576 quads. -/
theorem Resident.residentBytes_le (h : Resident world chunks) :
    residentBytes chunks ≤ chunks.length * 46080 := by
  have hsum := List.sum_le_card_nsmul (chunks.map fun chunk => 80 * chunk.2.upload.length) 46080 ?_
  · rw [List.length_map] at hsum
    exact hsum
  · intro bytes hbytes
    obtain ⟨chunk, hchunk, rfl⟩ := List.mem_map.mp hbytes
    have hlength := h.length_upload chunk hchunk
    omega

/-- A chunk just built is resident. -/
theorem Resident.insert (h : Resident world chunks) {c : Coordinate}
    (hnew : c ∉ chunks.map (·.1)) :
    Resident world (insertChunk c (meshFrame (world.chunk c) 1) chunks) := by
  refine ⟨h.sorted.insertChunk _ hnew, ?_⟩
  intro chunk hchunk
  rcases List.mem_cons.mp ((perm_insertChunk _ hnew).mem_iff.mp hchunk) with rfl | hold
  · rfl
  · exact h.mesh chunk hold

/-- And those that are kept of the resident chunks are. -/
theorem Resident.filter (h : Resident world chunks) (p : Coordinate × VoxelFrame → Bool) :
    Resident world (chunks.filter p) :=
  ⟨h.sorted.filter p, fun chunk hchunk => h.mesh chunk (List.mem_filter.mp hchunk).1⟩

/-- **No chunk is refused**, as long as they are of one window. -/
theorem fill_eq (h : Resident world chunks) {cs : List Coordinate}
    (hnodup : (chunks.map (·.1) ++ cs).Nodup) (hroom : chunks.length + cs.length ≤ 81) :
    ∃ chunks', fill world cs chunks = (.ok (), chunks') ∧ Resident world chunks' ∧
      (chunks'.map (·.1)).Perm (chunks.map (·.1) ++ cs) := by
  -- On the chunks still to be built; those built so far are resident, and the two together stay
  -- within the window.
  induction cs generalizing chunks with
  | nil =>
    refine ⟨chunks, rfl, h, ?_⟩
    rw [List.append_nil]
  | cons c cs ih =>
    have hnew : c ∉ chunks.map (·.1) := by
      intro hmem
      exact (List.nodup_append.mp hnodup).2.2 c hmem c List.mem_cons_self rfl
    have hinsert := perm_insertChunk (meshFrame (world.chunk c) 1) hnew
    have hkeys : ((insertChunk c (meshFrame (world.chunk c) 1) chunks).map (·.1) ++ cs).Perm
        (chunks.map (·.1) ++ c :: cs) :=
      ((hinsert.map _).append_right cs).trans List.perm_middle.symm
    have hlength : (insertChunk c (meshFrame (world.chunk c) 1) chunks).length =
        chunks.length + 1 := hinsert.length_eq
    rw [List.length_cons] at hroom
    obtain ⟨chunks', hfill, hresident, hperm⟩ :=
      ih (h.insert hnew) (hkeys.nodup_iff.mpr hnodup) (by omega)
    refine ⟨chunks', ?_, hresident, hperm.trans hkeys⟩
    have hbytes := h.residentBytes_le
    have hsmall : (meshFrame (world.chunk c) 1).upload.length ≤ 576 := (drawsChunk world c).small
    have hlimit : LIMIT = 4194304 := rfl
    rw [fill, buildChunk_eq]
    dsimp only
    rw [if_neg (by omega)]
    exact hfill

/-- The chunks of a window that are kept and those that are missing are all of it. -/
theorem keys_missing (hsorted : Sorted chunks)
    (hwindow : ∀ chunk ∈ chunks, world.InWindow chunk.1) :
    (chunks.map (·.1) ++ world.missing chunks).Perm world.window := by
  have hkept : (chunks.map (·.1)).Perm (world.window.filter fun c => c ∈ chunks.map (·.1)) := by
    refine (List.perm_ext_iff_of_nodup hsorted.nodup (world.nodup_window.filter _)).mpr ?_
    intro c
    rw [List.mem_filter, decide_eq_true_eq, world.mem_window]
    constructor
    · intro hc
      obtain ⟨chunk, hchunk, rfl⟩ := List.mem_map.mp hc
      exact ⟨hwindow chunk hchunk, hc⟩
    · exact fun hc => hc.2
  have hmissing : (world.missing chunks).Perm
      (world.window.filter fun c => !decide (c ∈ chunks.map (·.1))) := by
    refine (List.perm_insertionSort _ _).trans (List.Perm.of_eq ?_)
    refine List.filter_congr ?_
    intro c _
    exact decide_not
  exact (hkept.append hmissing).trans (List.filter_append_perm _ _)

/-- So the number of calls until nothing is missing is known beforehand. -/
theorem length_missing (hsorted : Sorted chunks)
    (hwindow : ∀ chunk ∈ chunks, world.InWindow chunk.1) :
    chunks.length + (world.missing chunks).length = (2 * world.radius + 1) ^ 2 := by
  have hlength := (keys_missing hsorted hwindow).length_eq
  rw [List.length_append, List.length_map, world.length_window] at hlength
  exact hlength

/-! ## The frame of the resident chunks -/

theorem room_chunk (world : VoxelWorld) (c : Coordinate) :
    80 * (world.chunk c).groups.flatten.length ≤ LIMIT := by
  have hsmall := world.length_groups_le c
  have hlimit : LIMIT = 4194304 := rfl
  omega

theorem Resident.drawn_eq (h : Resident world chunks) {chunk : Coordinate × VoxelFrame}
    (hchunk : chunk ∈ chunks) {k : Nat} (hk : k < 6) :
    drawn chunk.2.upload chunk.2.draws k = (world.chunk chunk.1).group (face k) := by
  rw [h.mesh chunk hchunk]
  exact drawn_groups (room_chunk world chunk.1) hk

/-- Grouping by direction first or by chunk first makes no difference to the length. -/
theorem length_flatten_flatMap {ι α β : Type} (f : ι → α → List β) (ks : List ι) (xs : List α) :
    (ks.map fun k => xs.flatMap (f k)).flatten.length =
      (xs.map fun x => (ks.map fun k => f k x).flatten.length).sum := by
  induction xs with
  | nil => simp
  | cons x xs ih =>
    rw [List.map_cons, List.sum_cons, ← ih]
    simp only [List.flatMap_cons, List.length_flatten, List.map_map, ← List.sum_map_add]
    refine congrArg List.sum (List.map_congr_left ?_)
    intro k _
    exact List.length_append

/-- The quads are those of the chunks, in another order. -/
theorem Resident.length_compacted (h : Resident world chunks) :
    80 * ((List.range 6).map (compacted chunks)).flatten.length = residentBytes chunks := by
  have hchunk : ∀ chunk ∈ chunks,
      ((List.range 6).map fun k => drawn chunk.2.upload chunk.2.draws k).flatten.length =
        chunk.2.upload.length := by
    intro chunk hmem
    have hdrawn : ((List.range 6).map fun k => drawn chunk.2.upload chunk.2.draws k) =
        (world.chunk chunk.1).groups :=
      List.map_congr_left fun k hk => h.drawn_eq hmem (List.mem_range.mp hk)
    rw [hdrawn, h.mesh chunk hmem]
    exact (congrArg List.length (laidOut_groups (room_chunk world chunk.1)).upload).symm
  have hquads := length_flatten_flatMap
    (fun k (chunk : Coordinate × VoxelFrame) => drawn chunk.2.upload chunk.2.draws k)
    (List.range 6) chunks
  rw [List.map_congr_left hchunk] at hquads
  rw [residentBytes, List.sum_map_mul_left, ← hquads]
  rfl

/-- 81 chunks fit. -/
theorem Resident.room (h : Resident world chunks) (hlength : chunks.length ≤ 81) :
    residentBytes chunks ≤ LIMIT := by
  have hbytes := h.residentBytes_le
  have hlimit : LIMIT = 4194304 := rfl
  omega

/-- The groups one after the other, without a gap. -/
theorem Resident.laidOut (h : Resident world chunks) (hlength : chunks.length ≤ 81) :
    LaidOut ((List.range 6).map (compacted chunks))
      (layout ((List.range 6).map (compacted chunks))) := by
  have hroom := h.room hlength
  rw [← h.length_compacted] at hroom
  have hlimit : LIMIT = 4194304 := rfl
  refine laidOut_layout ?_ ?_
  · rw [List.length_map, List.length_range]
  · refine Nat.lt_of_le_of_lt (Nat.le_mul_of_pos_left _ (by decide : 0 < 80)) ?_
    exact Nat.lt_of_le_of_lt hroom (by decide)

/-- **A frame draws the surface of the resident chunks.** -/
theorem surface_streamFrame (h : Resident world chunks) (hlength : chunks.length ≤ 81)
    (revision : UInt64) (pending built : Nat) {k : Nat} (hk : k < 6) (p : Cell) :
    layers (face k) (drawn (streamFrame chunks revision pending built).upload
        (streamFrame chunks revision pending built).draws k) (fun a => 2 * p a) =
      if (p .x / 16, p .z / 16) ∈ chunks.map (·.1) then present (world.endless.shown (face k) p)
      else [] := by
  have hdrawn : drawn (streamFrame chunks revision pending built).upload
      (streamFrame chunks revision pending built).draws k = compacted chunks k := by
    have hlaid := (h.laidOut hlength).drawn k (by rw [List.length_map, List.length_range]; exact hk)
    rw [List.getElem?_map, List.getElem?_range hk] at hlaid
    exact hlaid
  have hchunk : ∀ chunk ∈ chunks, layers (face k) (drawn chunk.2.upload chunk.2.draws k)
      (fun a => 2 * p a) =
        if (p .x / 16, p .z / 16) = chunk.1 then present (world.endless.shown (face k) p)
        else [] := by
    intro chunk hmem
    rw [h.drawn_eq hmem hk, world.layers_terrain chunk.1 (proper_face k)]
    refine if_congr ?_ rfl rfl
    rw [Prod.ext_iff]
  rw [hdrawn, compacted, layers_flatMap, List.flatMap_congr hchunk]
  have hkeys : (chunks.flatMap fun chunk => if (p .x / 16, p .z / 16) = chunk.1 then
      present (world.endless.shown (face k) p) else []) =
        (chunks.map (·.1)).flatMap fun c => if (p .x / 16, p .z / 16) = c then
          present (world.endless.shown (face k) p) else [] := by
    rw [List.flatMap_map]
  have hunique : ∀ c ∈ chunks.map (·.1), c ≠ (p .x / 16, p .z / 16) →
      (if (p .x / 16, p .z / 16) = c then present (world.endless.shown (face k) p) else []) = [] :=
    fun c _ hne => if_neg (Ne.symm hne)
  rw [hkeys, flatMap_eq_of_unique h.sorted.nodup hunique, if_pos rfl]
  -- Of all resident chunks the one whose column the cell is in shows it, and no other.
  by_cases hmem : (p .x / 16, p .z / 16) ∈ chunks.map (·.1)
  · rw [if_pos hmem, if_pos hmem]
  · rw [if_neg hmem, if_neg hmem]

end Resident

end Voxel
end EngineKit
