import EngineKit.Lib.Tiles
import EngineKit.Vulkan.WorldUpload
import EngineKit.Voxel.World
import Mathlib.Data.UInt

/-!
# The mesh of the terrain

`VoxelScene` of `examples/gpu_stress_3d/voxel_scene.rs`. For each of the six directions a chunk is
cut in 16 slices. The blocks of a slice that have air next to them in that direction make a mask,
and every rectangle of the greedy cover of the mask is one quad.

The places and sizes of a quad are halves of integers below 2 ^ 23, which an `f32` has exactly; they
are kept doubled. A buffer of quads is kept as the list of them; `encode` has the 80 bytes of one.
How an `f32` is written, and the radius about a quad, are parameters.
-/

set_option autoImplicit false

namespace EngineKit
namespace Voxel

open Lib Lib.Tiles Vulkan

def LIMIT : Nat := 4 * 1024 * 1024

/-! ## A quad -/

/-- One record of the upload: the middle of the quad and how far it goes from there, doubled. -/
structure VoxelInstance where
  center : Axis → Int
  size : Axis → Int
  material : UInt8

/-- How an `f32` is written: the bits of half an integer, and those of
    `s[0].hypot(s[1]).hypot(s[2])`. -/
structure Scalars where
  bits : Int → UInt32
  radius : (Axis → Int) → UInt32

def encode (scalars : Scalars) (quad : VoxelInstance) : List UInt8 :=
  let p := fun axis => scalars.bits (quad.center axis)
  let s := fun axis => scalars.bits (quad.size axis)
  let zero := scalars.bits 0
  [s .x, zero, zero, p .x, zero, s .y, zero, p .y, zero, zero, s .z, p .z, p .x, p .y, p .z,
    scalars.radius quad.size, 0, 0, 0, 0x80000000 ||| (quad.material - 1).toUInt32].flatMap u32ToLe

/-! ## A slice of a chunk -/

/-- `(axis, u, v, sign)`. -/
structure Face where
  axis : Axis
  u : Axis
  v : Axis
  sign : Int

def face : Nat → Face
  | 0 => ⟨.z, .x, .y, 1⟩
  | 1 => ⟨.z, .x, .y, -1⟩
  | 2 => ⟨.x, .z, .y, -1⟩
  | 3 => ⟨.x, .z, .y, 1⟩
  | 4 => ⟨.y, .x, .z, 1⟩
  | _ => ⟨.y, .x, .z, -1⟩

def rectangles (mask : Nat → Nat → UInt8) : List (Tile UInt8) := (tiles 16 16 mask).2

namespace VoxelWorld

variable (world : VoxelWorld)

/-- What a block shows in a direction: its material, if there is air next to it. -/
def shown (f : Face) (p : Cell) : UInt8 :=
  let material := world.material p
  if material ≠ 0 ∧ world.material (p.add f.axis f.sign) = 0 then material else 0

/-- `mask[j * 16 + i]`. -/
def mask (f : Face) (origin : Cell) (slice : Nat) (i j : Nat) : UInt8 :=
  world.shown f (((origin.add f.axis slice).add f.u i).add f.v j)

/-- How many of them are not zero. -/
def exposedFaces (f : Face) (origin : Cell) (slice : Nat) : Nat :=
  live 16 16 (world.mask f origin slice)

def quad (f : Face) (origin : Cell) (slice : Nat) (tile : Tile UInt8) : VoxelInstance :=
  let p := (((Cell.add (fun axis => 2 * origin axis) f.axis
    (2 * slice + if 0 < f.sign then 2 else 0)).add f.u (2 * tile.i + tile.w)).add f.v
      (2 * tile.j + tile.h))
  let center : Axis → Int :=
    match world.region with
    | some (ox, oz) => (Cell.add p .x (2 * ox)).add .z (2 * oz)
    | none => (Cell.add p .x (-world.side)).add .z (-world.side)
  ⟨center, fun axis => if axis = f.v then tile.h else if axis = f.u then tile.w else 0, tile.value⟩

def quads (f : Face) (origin : Cell) (slice : Nat) : List VoxelInstance :=
  (rectangles (world.mask f origin slice)).map (world.quad f origin slice)

def chunkOrigin (cx cz : Nat) : Cell := Axis.array (16 * cx) 0 (16 * cz)

/-- `(0..side).step_by(16)`, twice. -/
def chunkOrigins : List Cell :=
  (List.range ((world.side + 15) / 16)).flatMap fun cx =>
    (List.range ((world.side + 15) / 16)).map fun cz => chunkOrigin cx cz

/-- `groups[face]`. -/
def group (f : Face) : List VoxelInstance :=
  world.chunkOrigins.flatMap fun origin =>
    (List.range 16).flatMap fun slice => world.quads f origin slice

def faceCount : Nat :=
  ((List.range 6).map fun k => (world.chunkOrigins.map fun origin =>
    ((List.range 16).map fun slice => world.exposedFaces (face k) origin slice).sum).sum).sum

def blockCount : Nat :=
  ((List.range world.side).map fun (x : Nat) =>
    ((List.range world.side).map fun (z : Nat) => (world.height x z).toNat).sum).sum

end VoxelWorld

/-! ## A frame -/

structure VoxelFrame where
  upload : List VoxelInstance
  draws : List WorldDrawCommand
  blockCount : Nat
  batchCount : Nat
  exposedFaces : Nat
  revision : UInt64
  residentChunks : Nat
  pendingChunks : Nat
  builtThisFrame : Nat

/-- `upload.instance_bytes()`. -/
def VoxelFrame.instanceBytes (scalars : Scalars) (frame : VoxelFrame) : List UInt8 :=
  frame.upload.flatMap (encode scalars)

/-- One more direction behind the ones before it; nothing is drawn of an empty one. -/
def layOut (s : List VoxelInstance × List WorldDrawCommand) (entry : List VoxelInstance × Nat) :
    List VoxelInstance × List WorldDrawCommand :=
  let (group, k) := entry
  if group.isEmpty then s
  else (s.1 ++ group, s.2 ++ [⟨6, .ofNat group.length, .ofNat k * 6, .ofNat s.1.length⟩])

/-- The quads of all directions, and the draws. -/
def layout (groups : List (List VoxelInstance)) : List VoxelInstance × List WorldDrawCommand :=
  groups.zipIdx.foldl layOut ([], [])

inductive VoxelError where
  /-- "voxel mesh exceeds bounded upload budget" -/
  | group
  /-- "voxel mesh exceeds 4 MiB upload budget" -/
  | mesh
  /-- "non-finite streaming position" -/
  | position
  /-- "streaming residency exceeds 4 MiB budget" -/
  | residency
  /-- "streaming geometry exceeds 4 MiB upload budget" -/
  | geometry
deriving DecidableEq

/-- The mesh of a world, from the beginning. The source stops at the first quad that is too many in
    its direction; the error is the same for all of them. -/
def mesh (world : VoxelWorld) (revision : UInt64) : Except VoxelError VoxelFrame :=
  let groups := (List.range 6).map fun k => world.group (face k)
  if groups.any fun group => LIMIT < 80 * group.length then .error .group
  else if LIMIT < (groups.map fun group => 80 * group.length).sum then .error .mesh
  else
    let (upload, draws) := layout groups
    let chunks := ((world.side + 15) / 16) ^ 2
    .ok
      { upload
        draws
        blockCount := world.blockCount
        batchCount := draws.length
        exposedFaces := world.faceCount
        revision
        residentChunks := chunks
        pendingChunks := 0
        builtThisFrame := chunks }

/-- `scene::VoxelScene`. Its key and its frame are set together. -/
structure FiniteScene where
  built : Option ((Nat × UInt32 × Option (Int × Int)) × VoxelFrame)
  revision : UInt64

namespace FiniteScene

def new : FiniteScene := ⟨none, 0⟩

/-- A mesh for another key, with the next revision. -/
def rebuild (scene : FiniteScene) (world : VoxelWorld) :
    Except VoxelError VoxelFrame × FiniteScene :=
  let revision := scene.revision + 1
  match mesh world revision with
  | .error error => (.error error, scene)
  | .ok frame => (.ok frame, ⟨some ((world.blocks, world.seed, world.region), frame), revision⟩)

/-- The answer, and the scene. -/
def buildFrame (scene : FiniteScene) (world : VoxelWorld) :
    Except VoxelError VoxelFrame × FiniteScene :=
  match scene.built with
  | none => scene.rebuild world
  | some (key, frame) =>
    if key ≠ (world.blocks, world.seed, world.region) then scene.rebuild world
    else
      let frame := { frame with builtThisFrame := 0 }
      (.ok frame, { scene with built := some (key, frame) })

end FiniteScene

def buildChunk (world : VoxelWorld) (coordinate : Int × Int) : Except VoxelError VoxelFrame :=
  (FiniteScene.new.buildFrame
    { world with region := some (coordinate.1 * 16, coordinate.2 * 16) }).1

end Voxel
end EngineKit
