import EngineKit.Render.Decoded

/-!
# Staging an upload

`GpuFrameUpload::try_encode_into` writes a frame's upload over two vectors of the caller's. The plan
comes first, so what the plan refuses leaves the vectors alone. But the plan does not look at the
geometry. A command whose mesh has no geometry is found out by the second encoder, when both
vectors have been resized and the first has been written.

So a failing call keeps the vectors only if it fails before that, or if what it wrote by then was
there already (`tryEncodeInto_untouched_iff`).
-/

set_option autoImplicit false

namespace EngineKit
namespace Render

open Lib
open Ui (bind_eq_ok)
open Vulkan (GPU_INSTANCE_RECORD_SIZE)

inductive GpuUploadError where
  | preparation (error : GpuPreparationError)
  | allocationFailed
deriving DecidableEq

/-- The caller's vectors. -/
structure UploadBuffers where
  instances : List UInt8
  indirectCommands : List UInt8
deriving DecidableEq

/-- Whether the reservations for the two vectors succeed. -/
structure UploadRoom where
  instances : Bool
  indirectCommands : Bool

def tryEncodeInto (order : ByteOrder) (room : UploadRoom)
    (preparation : GpuFramePreparation UInt32) (geometry : List IndexedGeometry)
    (workgroupSize : UInt32) (buffers : UploadBuffers) :
    UploadBuffers × Except GpuUploadError GpuFrameCommandPlan :=
  match preparation.commandPlan workgroupSize with
  | .error e => (buffers, .error (.preparation e))
  | .ok plan =>
    if room.instances = false then (buffers, .error .allocationFailed)
    else if room.indirectCommands = false then (buffers, .error .allocationFailed)
    else
      let instances := resize buffers.instances plan.instanceUploadBytes 0
      let indirectCommands := resize buffers.indirectCommands plan.indirectUploadBytes 0
      match preparation.encodeInstanceRecords order instances with
      | (instances, .error e) => (⟨instances, indirectCommands⟩, .error (.preparation e))
      | (instances, .ok _) =>
        match preparation.encodeIndexedCommands order geometry indirectCommands with
        | (indirectCommands, .error e) => (⟨instances, indirectCommands⟩, .error (.preparation e))
        | (indirectCommands, .ok _) => (⟨instances, indirectCommands⟩, .ok plan)

/-! ## What a call leaves -/

section Call

variable {order : ByteOrder} {room : UploadRoom} {frame : GpuFramePreparation UInt32}
  {geometry : List IndexedGeometry} {workgroupSize : UInt32} {buffers : UploadBuffers}

/-- The vectors after a call that has come to the encoders. -/
def staged (order : ByteOrder) (frame : GpuFramePreparation UInt32)
    (geometry : List IndexedGeometry) (buffers : UploadBuffers) : UploadBuffers where
  instances := instanceBytes order frame.instances
  indirectCommands := overwrite
    (resize buffers.indirectCommands
      (frame.commands.length * VULKAN_INDEXED_INDIRECT_COMMAND_SIZE) 0) 0
    (commandBytes order (encodedPrefix geometry frame.commands))

theorem commandPlan_ok {plan : GpuFrameCommandPlan}
    (h : frame.commandPlan workgroupSize = .ok plan) :
    frame.validate = .ok () ∧
      plan.instanceUploadBytes < 2 ^ 64 ∧ plan.indirectUploadBytes < 2 ^ 64 := by
  unfold GpuFramePreparation.commandPlan at h
  split at h
  · cases h
  · simp only [bind_eq_ok, GpuPreparationError.orOverflow_eq_ok] at h
    obtain ⟨_, hvalid, _, -, _, -, _, hinstances, _, hindirect, _, -, hplan⟩ := h
    obtain rfl := Except.ok.inj hplan
    have hfits {a b c : Nat} (hmul : checkedMul a b = some c) : c < 2 ^ 64 := by
      unfold checkedMul at hmul
      split at hmul
      · next hlt => exact Option.some.inj hmul ▸ hlt
      · cases hmul
    exact ⟨hvalid, hfits hinstances, hfits hindirect⟩

/-- **A call that comes to the encoders** leaves the staged vectors, and succeeds exactly when the
    geometry covers the commands. -/
theorem tryEncodeInto_staged {plan : GpuFrameCommandPlan}
    (hplan : frame.commandPlan workgroupSize = .ok plan) (hinstances : room.instances = true)
    (hindirect : room.indirectCommands = true) :
    (tryEncodeInto order room frame geometry workgroupSize buffers).1
        = staged order frame geometry buffers ∧
      ((∃ e, (tryEncodeInto order room frame geometry workgroupSize buffers).2 = .error e) ↔
        ¬ Covers geometry frame.commands) := by
  obtain ⟨hinstanceBytes, hindirectBytes⟩ := commandPlan_bytes hplan
  obtain ⟨hvalid, hinstanceFits, hindirectFits⟩ := commandPlan_ok hplan
  have hrecords := @encodeInstanceRecords_eq order
    (resize buffers.instances plan.instanceUploadBytes 0) frame
    (by rw [length_resize, hinstanceBytes]) (by rw [length_resize]; exact hinstanceFits)
  have hcommands := @encodeIndexedCommands_eq _ order
    (resize buffers.indirectCommands plan.indirectUploadBytes 0) frame hvalid geometry
    (by rw [length_resize, hindirectBytes]) (by rw [length_resize]; exact hindirectFits)
  have hrest : (resize buffers.instances plan.instanceUploadBytes 0).drop
      (frame.instances.length * GPU_INSTANCE_RECORD_SIZE) = [] :=
    List.drop_eq_nil_of_le (by rw [length_resize, hinstanceBytes])
  rw [hrest, List.append_nil] at hrecords
  have hcovers := @encodeCommands_eq_ok order geometry frame.commands
    (resize buffers.indirectCommands plan.indirectUploadBytes 0) 0
  simp only [tryEncodeInto, hplan, hinstances, hindirect, hrecords, hcommands, staged,
    ← hindirectBytes, ← hcovers]
  cases (encodeCommands order geometry
      (resize buffers.indirectCommands plan.indirectUploadBytes 0) 0 frame.commands).2 with
  | error e => simp [Except.map]
  | ok done => simp [Except.map]

/-- The vectors already hold what a call would have staged. -/
theorem staged_eq_iff :
    staged order frame geometry buffers = buffers ↔
      buffers.instances = instanceBytes order frame.instances ∧
        buffers.indirectCommands.length
          = frame.commands.length * VULKAN_INDEXED_INDIRECT_COMMAND_SIZE ∧
        commandBytes order (encodedPrefix geometry frame.commands)
          <+: buffers.indirectCommands := by
  obtain ⟨instances, indirectCommands⟩ := buffers
  rw [staged, UploadBuffers.mk.injEq, overwrite_zero]
  dsimp only
  have hfits : (commandBytes order (encodedPrefix geometry frame.commands)).length
      ≤ frame.commands.length * VULKAN_INDEXED_INDIRECT_COMMAND_SIZE := by
    rw [length_commandBytes, Nat.mul_comm]
    exact Nat.mul_le_mul_right _ (length_encodedPrefix_le geometry frame.commands)
  constructor
  · intro h
    obtain ⟨hinstances, hindirect⟩ := h
    have hlen := congrArg List.length hindirect
    rw [List.length_append, List.length_drop, length_resize, Nat.add_sub_cancel' hfits] at hlen
    exact ⟨hinstances.symm, hlen.symm, ⟨_, hindirect⟩⟩
  · intro h
    obtain ⟨hinstances, hlen, rest, hindirect⟩ := h
    refine ⟨hinstances.symm, ?_⟩
    rw [resize_of_length _ 0 hlen, ← hindirect, List.drop_left]

/-- **When a failing call leaves the vectors alone**: the plan refuses the frame, a reservation
    fails, or the second encoder fails and what had been written by then was there before. A call
    over geometry that covers the commands does not fail in the encoders. -/
theorem tryEncodeInto_untouched_iff (order : ByteOrder) (room : UploadRoom)
    (frame : GpuFramePreparation UInt32) (geometry : List IndexedGeometry)
    (workgroupSize : UInt32) (buffers : UploadBuffers) :
    ((∃ e, (tryEncodeInto order room frame geometry workgroupSize buffers).2 = .error e) →
      (tryEncodeInto order room frame geometry workgroupSize buffers).1 = buffers) ↔
    ((∃ e, frame.commandPlan workgroupSize = .error e) ∨ room.instances = false ∨
      room.indirectCommands = false ∨ Covers geometry frame.commands ∨
      (buffers.instances = instanceBytes order frame.instances ∧
        buffers.indirectCommands.length
          = frame.commands.length * VULKAN_INDEXED_INDIRECT_COMMAND_SIZE ∧
        commandBytes order (encodedPrefix geometry frame.commands)
          <+: buffers.indirectCommands)) := by
  cases hplan : frame.commandPlan workgroupSize with
  | error e => simp [tryEncodeInto, hplan]
  | ok plan =>
    cases hinstances : room.instances with
    | false => simp [tryEncodeInto, hplan, hinstances]
    | true =>
      cases hindirect : room.indirectCommands with
      | false => simp [tryEncodeInto, hplan, hinstances, hindirect]
      | true =>
        obtain ⟨hleft, hfails⟩ := @tryEncodeInto_staged order room frame geometry workgroupSize
          buffers plan hplan hinstances hindirect
        rw [hleft, hfails, staged_eq_iff]
        simp [Classical.or_iff_not_imp_left]

/-- A frame of one instance. -/
def oneInstance : GpuFramePreparation UInt32 :=
  ⟨[⟨⟨5, 1⟩, .replicate 12 8, .replicate 4 9, 3, 4⟩], [⟨3, 4, 0, 1⟩], 1, 1⟩

/-- **A mesh without geometry.** The plan has nothing against it, and the instances are written
    before it is missed. -/
theorem tryEncodeInto_missing_geometry :
    (⟨[], [], 1, 1⟩ : GpuFramePreparation UInt32).prepare
        ⟨oneInstance.instances, [⟨3, 4, 0, 1⟩], 1, 1⟩ = (oneInstance, .ok ()) ∧
      (tryEncodeInto .little ⟨true, true⟩ oneInstance [] 64 ⟨[], []⟩).2
        = .error (.preparation .missingGeometry) ∧
      (tryEncodeInto .little ⟨true, true⟩ oneInstance [] 64 ⟨[], []⟩).1.instances.length = 80 ∧
      (tryEncodeInto .little ⟨true, true⟩ oneInstance [] 64 ⟨[], []⟩).1.indirectCommands
        = List.replicate 20 0 := by
  refine ⟨rfl, ?_, ?_, ?_⟩
  · decide +kernel
  · decide +kernel
  · decide +kernel

end Call

end Render
end EngineKit
