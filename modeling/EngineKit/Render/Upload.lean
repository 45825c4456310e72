import EngineKit.Render.World
import EngineKit.Ui.Paint
import EngineKit.Vulkan.WorldShader

/-!
# The upload of a prepared frame

A prepared frame becomes two byte streams: one record for each instance and one indirect draw
command for each command. Both are written in place, field by field, behind a cursor; what they
come to is `List.flatMap` of one record's bytes (`encodeInstances_eq`, `encodeCommands_eq`).

The two encoders fail in different ways. The instances need room in the buffer and nothing else.
A command needs its mesh in the geometry table, which is looked up as the command is written, so a
run that fails has written the commands before (`encodedPrefix`).

An `f32` is its bits: it is copied, and no more.
-/

set_option autoImplicit false

namespace EngineKit
namespace Render

open Lib
open Ui (bind_eq_ok)
open Vulkan (GPU_INSTANCE_RECORD_SIZE)

variable {F : Type}

structure IndexedGeometry where
  meshId : UInt32
  indexCount : UInt32
  firstIndex : UInt32
  vertexOffset : Int32
deriving DecidableEq

structure VulkanIndexedIndirectCommand where
  indexCount : UInt32
  instanceCount : UInt32
  firstIndex : UInt32
  vertexOffset : Int32
  firstInstance : UInt32
deriving DecidableEq

def VULKAN_INDEXED_INDIRECT_COMMAND_SIZE : Nat := 20

structure GpuInstanceRecord where
  transform : Vector UInt32 12
  bounds : Vector UInt32 4
  entityIndex : UInt32
  entityGeneration : UInt32
  meshId : UInt32
  materialId : UInt32
deriving DecidableEq

structure GpuFrameCommandPlan where
  instanceCount : UInt32
  drawCount : UInt32
  instanceUploadBytes : Nat
  indirectUploadBytes : Nat
  cullWorkgroups : UInt32
deriving DecidableEq

/-- `.ok_or(GpuPreparationError::IndexOverflow)`. -/
def GpuPreparationError.orOverflow {α : Type} : Option α → Except GpuPreparationError α
  | some x => .ok x
  | none => .error .indexOverflow

@[simp] theorem GpuPreparationError.orOverflow_eq_ok {α : Type} {o : Option α} {x : α} :
    GpuPreparationError.orOverflow o = .ok x ↔ o = some x := by
  cases o <;> simp [GpuPreparationError.orOverflow]

namespace GpuFramePreparation

open GpuPreparationError (orOverflow)

def commandPlan (preparation : GpuFramePreparation F) (workgroupSize : UInt32) :
    Except GpuPreparationError GpuFrameCommandPlan :=
  if workgroupSize = 0 then .error .invalidWorkgroupSize
  else do
    preparation.validate
    let instanceCount ← orOverflow (u32TryFrom preparation.instances.length)
    let drawCount ← orOverflow (u32TryFrom preparation.commands.length)
    let instanceUploadBytes ←
      orOverflow (checkedMul preparation.instances.length GPU_INSTANCE_RECORD_SIZE)
    let indirectUploadBytes ←
      orOverflow (checkedMul preparation.commands.length VULKAN_INDEXED_INDIRECT_COMMAND_SIZE)
    let rounded ← orOverflow (u32CheckedAdd instanceCount (workgroupSize - 1))
    .ok
      { instanceCount, drawCount, instanceUploadBytes, indirectUploadBytes
        cullWorkgroups := rounded / workgroupSize }

end GpuFramePreparation

/-! ## The instance records -/

def RenderInstance.record (inst : RenderInstance UInt32) : GpuInstanceRecord where
  transform := inst.transform
  bounds := inst.bounds
  entityIndex := inst.entity.index
  entityGeneration := inst.entity.generation
  meshId := inst.meshId
  materialId := inst.materialId

/-- The values of a record in the order they are written. -/
def GpuInstanceRecord.words (record : GpuInstanceRecord) : List UInt32 :=
  record.transform.toList ++ record.bounds.toList ++
    [record.entityIndex, record.entityGeneration, record.meshId, record.materialId]

/-- The loop of `encode_instance_records`, from the instance numbered `index` on. -/
def encodeInstances (order : ByteOrder) :
    List UInt8 → Nat → List (RenderInstance UInt32) → List UInt8
  | output, _, [] => output
  | output, index, inst :: instances =>
    let start := index * GPU_INSTANCE_RECORD_SIZE
    encodeInstances order (writeFields output start (inst.record.words.map (u32ToNe order)))
      (index + 1) instances

/-- The slice, and the bytes it took. -/
def GpuFramePreparation.encodeInstanceRecords (order : ByteOrder)
    (preparation : GpuFramePreparation UInt32) (output : List UInt8) :
    List UInt8 × Except GpuPreparationError Nat :=
  match checkedMul preparation.instances.length GPU_INSTANCE_RECORD_SIZE with
  | none => (output, .error .indexOverflow)
  | some required =>
    if output.length < required then (output, .error .outputTooSmall)
    else (encodeInstances order output 0 preparation.instances, .ok required)

/-! ## The indirect commands -/

/-- What the loop of `encode_indexed_commands` makes of a command. -/
def IndirectDrawCommand.encoded (geometry : List IndexedGeometry) (command : IndirectDrawCommand) :
    Except GpuPreparationError VulkanIndexedIndirectCommand :=
  match geometry.find? fun entry => entry.meshId = command.meshId with
  | none => .error .missingGeometry
  | some mesh =>
    if mesh.indexCount = 0 then .error .invalidGeometry
    else
      .ok
        { indexCount := mesh.indexCount
          instanceCount := command.instanceCount
          firstIndex := mesh.firstIndex
          vertexOffset := mesh.vertexOffset
          firstInstance := command.firstInstance }

/-- The values of a command in the order they are written. -/
def VulkanIndexedIndirectCommand.words (command : VulkanIndexedIndirectCommand) : List UInt32 :=
  [command.indexCount, command.instanceCount, command.firstIndex, command.vertexOffset.toUInt32,
    command.firstInstance]

/-- The loop, from the command numbered `index` on. -/
def encodeCommands (order : ByteOrder) (geometry : List IndexedGeometry) :
    List UInt8 → Nat → List IndirectDrawCommand → List UInt8 × Except GpuPreparationError Unit
  | output, _, [] => (output, .ok ())
  | output, index, command :: commands =>
    match command.encoded geometry with
    | .error e => (output, .error e)
    | .ok encoded =>
      let start := index * VULKAN_INDEXED_INDIRECT_COMMAND_SIZE
      encodeCommands order geometry
        (writeStrided output start 4 (encoded.words.map (u32ToNe order))) (index + 1) commands

def GpuFramePreparation.encodeIndexedCommands (order : ByteOrder)
    (preparation : GpuFramePreparation F) (geometry : List IndexedGeometry)
    (output : List UInt8) : List UInt8 × Except GpuPreparationError Nat :=
  match preparation.validate with
  | .error e => (output, .error e)
  | .ok () =>
    match checkedMul preparation.commands.length VULKAN_INDEXED_INDIRECT_COMMAND_SIZE with
    | none => (output, .error .indexOverflow)
    | some required =>
      if output.length < required then (output, .error .outputTooSmall)
      else
        let (output, result) := encodeCommands order geometry output 0 preparation.commands
        (output, result.map fun _ => required)

/-! ## What the loops write -/

section Streams

variable (order : ByteOrder)

def GpuInstanceRecord.bytes (record : GpuInstanceRecord) : List UInt8 :=
  record.words.flatMap (u32ToNe order)

def VulkanIndexedIndirectCommand.bytes (command : VulkanIndexedIndirectCommand) : List UInt8 :=
  command.words.flatMap (u32ToNe order)

theorem GpuInstanceRecord.length_words (record : GpuInstanceRecord) :
    record.words.length = 20 := by
  simp [words]

theorem GpuInstanceRecord.length_bytes (record : GpuInstanceRecord) :
    (record.bytes order).length = GPU_INSTANCE_RECORD_SIZE := by
  rw [bytes, length_flatMap_stride (length_u32ToNe order), record.length_words]
  rfl

theorem VulkanIndexedIndirectCommand.length_bytes (command : VulkanIndexedIndirectCommand) :
    (command.bytes order).length = VULKAN_INDEXED_INDIRECT_COMMAND_SIZE := by
  rw [bytes, length_flatMap_stride (length_u32ToNe order)]
  rfl

/-- The records of some instances, end to end. -/
def instanceBytes (instances : List (RenderInstance UInt32)) : List UInt8 :=
  instances.flatMap fun inst => inst.record.bytes order

theorem length_instanceBytes (instances : List (RenderInstance UInt32)) :
    (instanceBytes order instances).length = GPU_INSTANCE_RECORD_SIZE * instances.length :=
  length_flatMap_stride (fun inst => inst.record.length_bytes order) instances

/-- **The instance loop** overwrites one stretch of the slice. -/
theorem encodeInstances_eq {output : List UInt8} (index : Nat)
    {instances : List (RenderInstance UInt32)}
    (h : (index + instances.length) * GPU_INSTANCE_RECORD_SIZE ≤ output.length) :
    encodeInstances order output index instances
      = overwrite output (index * GPU_INSTANCE_RECORD_SIZE) (instanceBytes order instances) := by
  induction instances generalizing output index with
  | nil => exact (overwrite_nil _).symm
  | cons inst instances ih =>
    have hbytes : (inst.record.words.map (u32ToNe order)).flatten = inst.record.bytes order :=
      (List.flatMap_def ..).symm
    obtain ⟨hroom, hrest, hjoin⟩ := overwrite_record (inst.record.length_bytes order) h
    rw [encodeInstances, writeFields_eq (hbytes ▸ hroom), hbytes, ih _ hrest, hjoin]
    rfl

/-- The commands a run over a geometry table writes: those before the first it has no use for. -/
def encodedPrefix (geometry : List IndexedGeometry) :
    List IndirectDrawCommand → List VulkanIndexedIndirectCommand
  | [] => []
  | command :: commands =>
    match command.encoded geometry with
    | .error _ => []
    | .ok encoded => encoded :: encodedPrefix geometry commands

theorem length_encodedPrefix_le (geometry : List IndexedGeometry)
    (commands : List IndirectDrawCommand) :
    (encodedPrefix geometry commands).length ≤ commands.length := by
  induction commands with
  | nil => exact Nat.le_refl 0
  | cons command commands ih =>
    rw [encodedPrefix]
    cases command.encoded geometry with
    | error e => exact Nat.zero_le _
    | ok encoded => exact Nat.succ_le_succ ih

def commandBytes (commands : List VulkanIndexedIndirectCommand) : List UInt8 :=
  commands.flatMap fun command => command.bytes order

theorem length_commandBytes (commands : List VulkanIndexedIndirectCommand) :
    (commandBytes order commands).length
      = VULKAN_INDEXED_INDIRECT_COMMAND_SIZE * commands.length :=
  length_flatMap_stride (fun command => command.length_bytes order) commands

/-- **The command loop** overwrites one stretch of the slice, as far as it comes. -/
theorem encodeCommands_eq (geometry : List IndexedGeometry) {output : List UInt8} (index : Nat)
    {commands : List IndirectDrawCommand}
    (h : (index + commands.length) * VULKAN_INDEXED_INDIRECT_COMMAND_SIZE ≤ output.length) :
    (encodeCommands order geometry output index commands).1
      = overwrite output (index * VULKAN_INDEXED_INDIRECT_COMMAND_SIZE)
          (commandBytes order (encodedPrefix geometry commands)) := by
  induction commands generalizing output index with
  | nil => exact (overwrite_nil _).symm
  | cons command commands ih =>
    rw [encodeCommands, encodedPrefix]
    cases command.encoded geometry with
    | error e => exact (overwrite_nil _).symm
    | ok encoded =>
      have hbytes : (encoded.words.map (u32ToNe order)).flatten = encoded.bytes order :=
        (List.flatMap_def ..).symm
      have hwidth : ∀ field ∈ encoded.words.map (u32ToNe order), field.length = 4 := by
        intro field hfield
        obtain ⟨x, -, rfl⟩ := List.mem_map.mp hfield
        exact length_u32ToNe order x
      obtain ⟨hroom, hrest, hjoin⟩ := overwrite_record (encoded.length_bytes order) h
      dsimp only
      rw [writeStrided_eq _ _ hwidth, writeFields_eq (hbytes ▸ hroom), hbytes, ih _ hrest, hjoin]
      rfl

end Streams

end Render
end EngineKit
