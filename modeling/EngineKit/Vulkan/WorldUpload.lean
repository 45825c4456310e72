import EngineKit.Lib.LittleEndian

/-!
# The world packet

The bytes of the instance records, a camera and the draws. A presenter takes a packet only when
`validWorldPacket` accepts it: the vertex shader indexes the records by instance, and nothing on
the graphics side checks what it reads.

An `f32` of the camera is kept as its bits. It is copied and tested for finiteness, and no more.
-/

set_option autoImplicit false

namespace EngineKit
namespace Vulkan

open Lib

structure WorldUploadStats where
  transfers : UInt64
  bytes : UInt64
deriving DecidableEq

structure UploadState where
  dirty : Bool
  stats : WorldUploadStats
deriving DecidableEq

namespace UploadState

/-- `UploadState::default`. -/
def new : UploadState := ⟨false, ⟨0, 0⟩⟩

def invalidate (state : UploadState) : UploadState := { state with dirty := true }

def pending (state : UploadState) : Bool := state.dirty

def submitted (state : UploadState) (bytes : Nat) : UploadState :=
  if state.dirty then
    ⟨false, ⟨saturatingAdd state.stats.transfers 1,
      saturatingAdd state.stats.bytes (.ofNat bytes)⟩⟩
  else state

end UploadState

structure WorldDrawCommand where
  vertexCount : UInt32
  instanceCount : UInt32
  firstVertex : UInt32
  firstInstance : UInt32
deriving DecidableEq

/-- The bits of the sixteen `f32` of a view projection. -/
abbrev Camera := Vector UInt32 16

/-- `f32::is_finite`: the exponent is not all ones. -/
def f32IsFinite (bits : UInt32) : Bool := (bits >>> 23) &&& 0xFF != 0xFF

/-- `size_of::<GpuInstanceRecord>()`: twelve and four `f32`, then four `u32`. -/
def GPU_INSTANCE_RECORD_SIZE : Nat := 80

/-- `first.checked_add(count).is_some_and(|end| end <= limit)`. -/
def endsWithin (first count : UInt32) (limit : Nat) : Bool :=
  match u32CheckedAdd first count with
  | none => false
  | some stop => stop.toNat ≤ limit

def validWorldPacket (bytes : List UInt8) (capacity : Nat) (camera : Camera)
    (draws : List WorldDrawCommand) : Bool :=
  if bytes.isEmpty ∨ capacity < bytes.length ∨ bytes.length % GPU_INSTANCE_RECORD_SIZE ≠ 0 ∨
      ¬camera.toList.all f32IsFinite ∨ draws.isEmpty then false
  else
    let instances := bytes.length / GPU_INSTANCE_RECORD_SIZE
    draws.all fun draw =>
      draw.vertexCount != 0 && draw.instanceCount != 0 &&
        endsWithin draw.firstVertex draw.vertexCount 36 &&
        endsWithin draw.firstInstance draw.instanceCount instances

theorem le_of_endsWithin {first count : UInt32} {limit : Nat} (h : endsWithin first count limit) :
    first.toNat + count.toNat ≤ limit := by
  unfold endsWithin at h
  split at h
  · cases h
  · next stop hstop =>
    rw [← toNat_of_u32TryFrom hstop]
    exact of_decide_eq_true h

/-- **The instances of an accepted draw** have their records among the bytes. -/
theorem instances_of_validWorldPacket {bytes : List UInt8} {capacity : Nat} {camera : Camera}
    {draws : List WorldDrawCommand} (h : validWorldPacket bytes capacity camera draws)
    {draw : WorldDrawCommand} (hdraw : draw ∈ draws) :
    (draw.firstInstance.toNat + draw.instanceCount.toNat) * GPU_INSTANCE_RECORD_SIZE
      ≤ bytes.length := by
  unfold validWorldPacket at h
  split at h
  · cases h
  · have hall := List.all_eq_true.mp h draw hdraw
    simp only [Bool.and_eq_true] at hall
    exact (Nat.le_div_iff_mul_le (by decide)).mp (le_of_endsWithin hall.2)

/-- And it passes the checks made again when it is recorded. -/
theorem drawable_of_validWorldPacket {bytes : List UInt8} {capacity : Nat} {camera : Camera}
    {draws : List WorldDrawCommand} (h : validWorldPacket bytes capacity camera draws) :
    bytes ≠ [] ∧ bytes.length ≤ capacity ∧ draws ≠ [] ∧ ∀ draw ∈ draws,
      draw.vertexCount ≠ 0 ∧ draw.instanceCount ≠ 0 ∧
        endsWithin draw.firstVertex draw.vertexCount 36 := by
  unfold validWorldPacket at h
  split at h
  · cases h
  · next hnot =>
    simp only [not_or, List.isEmpty_iff, Nat.not_lt] at hnot
    refine ⟨hnot.1, hnot.2.1, hnot.2.2.2.2, ?_⟩
    intro draw hdraw
    have hall := List.all_eq_true.mp h draw hdraw
    simp only [Bool.and_eq_true, bne_iff_ne] at hall
    exact ⟨hall.1.1.1, hall.1.1.2, hall.1.2⟩

end Vulkan
end EngineKit
