import EngineKit.Lib.Reach
import EngineKit.Voxel.Surface
import Mathlib.Data.List.Sort

/-!
# Streaming the terrain

`VoxelScene` of `examples/gpu_stress_3d/voxel_stream.rs`. The chunks about the player are kept, and
of those that are missing at most two are built in a call, the nearest first. If any chunk came or
went a new frame is laid out of all of them.

The missing chunks are sorted whole and the first two are taken, as in the source; ties of distance
are broken by the key, so the order is one of all chunks and a call has no choice. The chunks
themselves are a list in ascending order of their keys, since the frame is laid out in that order.
-/

set_option autoImplicit false

namespace EngineKit
namespace Voxel

open Lib Lib.Tiles Vulkan

abbrev Coordinate := Int × Int

def CHUNKS_PER_FRAME : Nat := 2

/-- The order of the keys. -/
def Coordinate.Before (a b : Coordinate) : Prop := a.1 < b.1 ∨ a.1 = b.1 ∧ a.2 < b.2

instance (a b : Coordinate) : Decidable (a.Before b) := inferInstanceAs (Decidable (_ ∨ _))

/-- A `BTreeMap`, in ascending order. -/
abbrev Chunks := List (Coordinate × VoxelFrame)

def insertChunk (coordinate : Coordinate) (mesh : VoxelFrame) : Chunks → Chunks
  | [] => [(coordinate, mesh)]
  | (other, frame) :: rest =>
    if coordinate.Before other then (coordinate, mesh) :: (other, frame) :: rest
    else if coordinate = other then (coordinate, mesh) :: rest
    else (other, frame) :: insertChunk coordinate mesh rest

def residentBytes (chunks : Chunks) : Nat :=
  (chunks.map fun chunk => 80 * chunk.2.upload.length).sum

structure VoxelScene where
  finite : FiniteScene
  chunks : Chunks
  key : Option (UInt32 × Nat)
  frame : Option VoxelFrame
  revision : UInt64

namespace VoxelWorld

variable (world : VoxelWorld)

def radius : Nat := min world.streamRadius 4

def center : Coordinate :=
  ((world.position .x).clampFloor / 16, (world.position .z).clampFloor / 16)

def InWindow (coordinate : Coordinate) : Prop :=
  (coordinate.1 - world.center.1).natAbs ≤ world.radius ∧
    (coordinate.2 - world.center.2).natAbs ≤ world.radius

instance (coordinate : Coordinate) : Decidable (world.InWindow coordinate) :=
  inferInstanceAs (Decidable (_ ∧ _))

/-- `center[0] - radius..=center[0] + radius`, and the same for the other. -/
def window : List Coordinate :=
  (List.range (2 * world.radius + 1)).flatMap fun (i : Nat) =>
    (List.range (2 * world.radius + 1)).map fun (j : Nat) =>
      (world.center.1 - world.radius + i, world.center.2 - world.radius + j)

def distance (coordinate : Coordinate) : Int :=
  (coordinate.1 - world.center.1) ^ 2 + (coordinate.2 - world.center.2) ^ 2

/-- In the order of `(distance, coordinate)`. -/
def Nearer (a b : Coordinate) : Prop :=
  world.distance a < world.distance b ∨ world.distance a = world.distance b ∧ ¬ b.Before a

instance : DecidableRel world.Nearer := fun _ _ => inferInstanceAs (Decidable (_ ∨ _))

def missing (chunks : Chunks) : List Coordinate :=
  (world.window.filter fun c => c ∉ chunks.map (·.1)).insertionSort world.Nearer

end VoxelWorld

/-- Builds and inserts, up to the first error. -/
def fill (world : VoxelWorld) : List Coordinate → Chunks → Except VoxelError Unit × Chunks
  | [], chunks => (.ok (), chunks)
  | coordinate :: rest, chunks =>
    match buildChunk world coordinate with
    | .error error => (.error error, chunks)
    | .ok mesh =>
      if LIMIT - residentBytes chunks < 80 * mesh.upload.length then (.error .residency, chunks)
      else fill world rest (insertChunk coordinate mesh chunks)

/-- The quads of a direction, of all chunks. -/
def compacted (chunks : Chunks) (k : Nat) : List VoxelInstance :=
  chunks.flatMap fun chunk => drawn chunk.2.upload chunk.2.draws k

/-- The frame of some chunks. -/
def streamFrame (chunks : Chunks) (revision : UInt64) (pending built : Nat) : VoxelFrame :=
  let (upload, draws) := layout ((List.range 6).map (compacted chunks))
  { upload
    draws
    batchCount := draws.length
    blockCount := (chunks.map fun chunk => chunk.2.blockCount).sum
    exposedFaces := (chunks.map fun chunk => chunk.2.exposedFaces).sum
    revision
    residentChunks := chunks.length
    pendingChunks := pending
    builtThisFrame := built }

namespace VoxelScene

def new : VoxelScene := ⟨.new, [], none, none, 0⟩

/-- A new frame. -/
def publish (scene : VoxelScene) (pending built : Nat) :
    Except VoxelError VoxelFrame × VoxelScene :=
  if LIMIT < residentBytes scene.chunks then (.error .geometry, scene)
  else
    let frame := streamFrame scene.chunks (scene.revision + 1) pending built
    (.ok frame, { scene with revision := scene.revision + 1, frame := some frame })

/-- The chunks of another terrain, or for another radius, are dropped. -/
def old (scene : VoxelScene) (world : VoxelWorld) : Chunks :=
  if scene.key = some (world.seed, world.radius) then scene.chunks else []

/-- And of the others those that are too far away. -/
def kept (scene : VoxelScene) (world : VoxelWorld) : Chunks :=
  (scene.old world).filter fun chunk => world.InWindow chunk.1

def missing (scene : VoxelScene) (world : VoxelWorld) : List Coordinate :=
  world.missing (scene.kept world)

def built (scene : VoxelScene) (world : VoxelWorld) : Nat :=
  min (scene.missing world).length CHUNKS_PER_FRAME

def pending (scene : VoxelScene) (world : VoxelWorld) : Nat :=
  (scene.missing world).length - scene.built world

def Changed (scene : VoxelScene) (world : VoxelWorld) : Prop :=
  scene.key ≠ some (world.seed, world.radius) ∨
    (scene.old world).length ≠ (scene.kept world).length ∨ scene.built world ≠ 0

instance (scene : VoxelScene) (world : VoxelWorld) : Decidable (scene.Changed world) :=
  inferInstanceAs (Decidable (_ ∨ _ ∨ _))

/-- `build_frame` with a radius, at a place. -/
def stream (scene : VoxelScene) (world : VoxelWorld) :
    Except VoxelError VoxelFrame × VoxelScene :=
  let key := some (world.seed, world.radius)
  match fill world ((scene.missing world).take (scene.built world)) (scene.kept world) with
  | (.error error, chunks) => (.error error, { scene with key, chunks })
  | (.ok (), chunks) =>
    match scene.frame with
    | none => publish { scene with key, chunks } (scene.pending world) (scene.built world)
    | some frame =>
      if scene.Changed world then
        publish { scene with key, chunks } (scene.pending world) (scene.built world)
      else
        let frame := { frame with builtThisFrame := 0 }
        (.ok frame, { scene with key, chunks, frame := some frame })

def buildFrame (scene : VoxelScene) (world : VoxelWorld) :
    Except VoxelError VoxelFrame × VoxelScene :=
  if world.streamRadius = 0 then
    let (answer, finite) := scene.finite.buildFrame world
    (answer, { scene with finite })
  else if (world.position .x).isFinite ∧ (world.position .y).isFinite ∧
      (world.position .z).isFinite then scene.stream world
  else (.error .position, scene)

end VoxelScene

end Voxel
end EngineKit
