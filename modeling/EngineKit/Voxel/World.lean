import Mathlib.Data.Nat.Sqrt
import Mathlib.Data.Rat.Floor

/-!
# The terrain

`VoxelWorld` of `examples/gpu_stress_3d/voxel_state.rs`. A column of the terrain is as high as its
place and the seed make it, 5 to 12 blocks, and what a block is made of follows from how far below
the top it is. The terrain has no end; a world without a region is the square of it at the origin
that has about as many blocks as were asked for. A region is the place of a chunk, 16 by 16.

The coordinates are numbers without bound. The source has `i32`: a column is 65 000 blocks away at
most, with what is added, and nothing wraps. `new` asks for 250 000 blocks at most, but the field is
there for all to set, and a world may be larger than a mesh can be. The bound here is what the
numbers of the source are good for: up to `2 ^ 31` blocks the square root in `side` comes out right
in an `f64`, a side is `2 ^ 14` at most (`side_le`), and an `u32` counts the blocks.
-/

set_option autoImplicit false

namespace EngineKit
namespace Voxel

/-- What an `f32` is: a number, an infinity, or neither. -/
inductive F32 where
  | finite (value : ℚ)
  | infinite (negative : Bool)
  | nan

def F32.isFinite : F32 → Bool
  | .finite _ => true
  | .infinite _ => false
  | .nan => false

/-- `v.clamp(-65_000.0, 65_000.0).floor() as i32`. -/
def F32.clampFloor : F32 → Int
  | .finite value => ⌊max (-65000) (min value 65000)⌋
  | .infinite negative => if negative then -65000 else 65000
  | .nan => 0

/-- The three places of a `[i32; 3]`. -/
inductive Axis where
  | x | y | z
deriving DecidableEq

/-- `[x, y, z]`. -/
def Axis.array {α : Type} (x y z : α) : Axis → α
  | .x => x
  | .y => y
  | .z => z

section array

variable {α : Type} (x y z : α)

@[simp] theorem Axis.array_x : Axis.array x y z .x = x := rfl

@[simp] theorem Axis.array_y : Axis.array x y z .y = y := rfl

@[simp] theorem Axis.array_z : Axis.array x y z .z = z := rfl

end array

/-- The place of a block. -/
abbrev Cell := Axis → Int

/-- `p[axis] += n`. -/
def Cell.add (p : Cell) (axis : Axis) (n : Int) : Cell := fun a => if a = axis then p a + n else p a

structure VoxelWorld where
  blocks : Nat
  seed : UInt32
  /-- `player.position`. -/
  position : Axis → F32
  streamRadius : Nat
  region : Option (Int × Int)
  blocks_le : blocks ≤ 2 ^ 31

namespace VoxelWorld

/-- The least `n` with `8 * n * n` blocks or more, which is what the `f64` comes to for as few
    blocks. -/
def side (world : VoxelWorld) : Nat :=
  match world.region with
  | some _ => 16
  | none =>
    let columns := (world.blocks + 7) / 8
    max (if columns = 0 then 0 else Nat.sqrt (columns - 1) + 1) 1

theorem side_le_iff {world : VoxelWorld} (hregion : world.region = none) {n : Nat} (hn : 0 < n) :
    world.side ≤ n ↔ world.blocks ≤ 8 * n ^ 2 := by
  rw [side, hregion]
  dsimp only
  split
  · next hnone => exact iff_of_true (by omega) (by omega)
  · next hsome =>
    have hroot : Nat.sqrt ((world.blocks + 7) / 8 - 1) + 1 ≤ n ↔
        (world.blocks + 7) / 8 - 1 < n ^ 2 := Nat.sqrt_lt'
    rw [max_le_iff, and_iff_left (by omega), hroot]
    omega

/-- A world of a chunk, or of as many blocks as there are at most. -/
theorem side_le (world : VoxelWorld) : world.side ≤ 2 ^ 14 := by
  cases hregion : world.region with
  | some _ =>
    rw [side, hregion]
    exact (by decide : 16 ≤ 2 ^ 14)
  | none => exact (side_le_iff hregion (by decide)).mpr (world.blocks_le.trans (by decide))

/-- A column of the terrain. -/
def terrain (seed : UInt32) (x z : Int) : Int :=
  5 + ((UInt32.ofInt (x / 4) * 17 ^^^ UInt32.ofInt (z / 4) * 31 ^^^ seed) &&& 7).toNat

def height (world : VoxelWorld) (x z : Int) : Int :=
  let (ox, oz) := world.region.getD (0, 0)
  terrain world.seed (x + ox) (z + oz)

def material (world : VoxelWorld) (p : Cell) : UInt8 :=
  if p .y < 0 ∨ world.region = none ∧
      (p .x < 0 ∨ p .z < 0 ∨ world.side ≤ p .x ∨ world.side ≤ p .z) then 0
  else
    let height := world.height (p .x) (p .z)
    if height ≤ p .y then 0
    else if p .y = height - 1 then 1
    else if height - 3 ≤ p .y then 2
    else 3

/-- With what the environment asks for, if it can be read. -/
def new (blocks streamRadius : Option Nat) : VoxelWorld where
  blocks := min (max (blocks.getD 16384) 1) 250000
  seed := 0x51f1aa11
  position := Axis.array (.finite 0) (.finite 12) (.finite 8)
  streamRadius := min (streamRadius.getD 0) 4
  region := none
  blocks_le := (Nat.min_le_right _ _).trans (by decide)

def regenerate (world : VoxelWorld) : VoxelWorld :=
  { world with seed := world.seed * 1664525 + 1013904223 }

/-- It is another terrain: what is added is odd, and what is multiplied adds an even number. -/
theorem seed_regenerate_ne (world : VoxelWorld) : world.regenerate.seed ≠ world.seed := by
  intro heq
  have hnat := congrArg UInt32.toNat heq
  rw [regenerate, UInt32.toNat_add, UInt32.toNat_mul] at hnat
  have hmul : (1664525 : UInt32).toNat = 1664525 := rfl
  have hadd : (1013904223 : UInt32).toNat = 1013904223 := rfl
  rw [hmul, hadd] at hnat
  omega

/-! ## How high -/

theorem terrain_bounds (seed : UInt32) (x z : Int) :
    5 ≤ terrain seed x z ∧ terrain seed x z ≤ 12 := by
  have hbits := @Nat.and_le_right
    (UInt32.ofInt (x / 4) * 17 ^^^ UInt32.ofInt (z / 4) * 31 ^^^ seed).toNat 7
  have hand : ((UInt32.ofInt (x / 4) * 17 ^^^ UInt32.ofInt (z / 4) * 31 ^^^ seed) &&& 7).toNat ≤
      7 := by
    rw [UInt32.toNat_and]
    exact hbits
  rw [terrain]
  omega

/-- Four columns are as high as each other. -/
theorem terrain_congr {seed : UInt32} {x x' z z' : Int} (hx : x / 4 = x' / 4)
    (hz : z / 4 = z' / 4) : terrain seed x z = terrain seed x' z' := by
  rw [terrain, terrain, hx, hz]

end VoxelWorld

end Voxel
end EngineKit
