import Mathlib.Data.List.TakeWhile
import EngineKit.Render.Upload

/-!
# What a reader finds in the upload

The encoders and the plan each compute the size of the streams, and `shaders/world.vert` finds a
record by arithmetic of its own. Here the records are read back: `GpuInstanceRecord.decode` takes
the fields from the words the layout gives them, and `worldVert` is the shader.

All of them agree at every index (`upload_reads_back`), except that the shader's index is a
`uint`. A frame of 214748365 instances has a word it cannot count to (`upload_throng_wraps`).

Reading back is a function on bytes alone: it is given the order of bytes and the place, and nothing
of the frame. So the laws below are round trips, and not two descriptions of one layout. Whatever
follows the records in the slice is left general (`rest`), as the callers hand over slices that are
too long.

The shader's side has a limit of its own, since it forms the index of a word in 32 bits.
`upload_throng_wraps` shows that the limit is real. To get there with a list of two hundred million
instances nothing of the list is computed: a throng is sorted, is one batch, and has zeros wherever
the shader looks, for any length.
-/

set_option autoImplicit false

namespace EngineKit
namespace Render

open Lib
open Ui (bind_eq_ok)
open Vulkan

variable {F : Type}

/-! ## A prepared frame is valid -/

theorem forM_eq_ok {ε α : Type} {f : α → Except ε Unit} {xs : List α} :
    xs.forM f = .ok () ↔ ∀ x ∈ xs, f x = .ok () := by
  induction xs with
  | nil => exact ⟨fun _ x hx => absurd hx (by simp), fun _ => rfl⟩
  | cons x xs ih =>
    have hcons : (x :: xs).forM f = f x >>= fun _ => xs.forM f := rfl
    rw [hcons, bind_eq_ok, List.forall_mem_cons, ← ih]
    exact ⟨fun ⟨(), hx, hxs⟩ => ⟨hx, hxs⟩, fun ⟨hx, hxs⟩ => ⟨(), hx, hxs⟩⟩

theorem checkRange_of_pushCommands {instances : Nat} {batches : List DrawBatch}
    {commands commands' : List IndirectDrawCommand}
    (hcommands : ∀ c ∈ commands, checkRange instances c.firstInstance c.instanceCount = .ok ())
    (h : pushCommands instances batches commands = (commands', .ok ())) :
    ∀ c ∈ commands', checkRange instances c.firstInstance c.instanceCount = .ok () := by
  induction batches generalizing commands with
  | nil =>
    obtain rfl := (Prod.mk.inj h).1
    exact hcommands
  | cons batch batches ih =>
    rw [pushCommands] at h
    split at h
    · exact absurd (Prod.mk.inj h).2 (by simp)
    · next hrange =>
      refine ih ?_ h
      intro c hc
      rcases List.mem_append.mp hc with hc | hc
      · exact hcommands c hc
      · obtain rfl := List.mem_singleton.mp hc
        exact hrange

/-- What `prepare` has checked, `validate` finds again. -/
theorem GpuFramePreparation.validate_of_prepare {preparation frame : GpuFramePreparation F}
    {manifest : CpuRenderManifest F} (h : preparation.prepare manifest = (frame, .ok ())) :
    frame.validate = .ok () := by
  simp only [prepare] at h
  split at h
  · exact absurd (Prod.mk.inj h).2 (by simp)
  · obtain ⟨rfl, hresult⟩ := Prod.mk.inj h
    exact forM_eq_ok.mpr
      (checkRange_of_pushCommands (fun c hc => absurd hc (by simp)) (Prod.ext rfl hresult))

/-! ## The plan -/

/-- The plan counts what the encoders write. -/
theorem commandPlan_bytes {frame : GpuFramePreparation F} {workgroupSize : UInt32}
    {plan : GpuFrameCommandPlan} (h : frame.commandPlan workgroupSize = .ok plan) :
    plan.instanceUploadBytes = frame.instances.length * GPU_INSTANCE_RECORD_SIZE ∧
      plan.indirectUploadBytes = frame.commands.length * VULKAN_INDEXED_INDIRECT_COMMAND_SIZE := by
  unfold GpuFramePreparation.commandPlan at h
  split at h
  · cases h
  · simp only [bind_eq_ok, GpuPreparationError.orOverflow_eq_ok] at h
    obtain ⟨-, -, _, -, _, -, instanceUploadBytes, hinstances, indirectUploadBytes, hindirect, _, -,
      hplan⟩ := h
    obtain rfl := Except.ok.inj hplan
    exact ⟨eq_of_checkedMul hinstances, eq_of_checkedMul hindirect⟩

/-! ## Reading a record back -/

/-- The fields of a record, from the words the layout gives them. -/
def GpuInstanceRecord.decode (order : ByteOrder) (record : List UInt8) : GpuInstanceRecord where
  transform := Vector.ofFn fun k => neWordAt order record k
  bounds := Vector.ofFn fun k => neWordAt order record (12 + k)
  entityIndex := neWordAt order record 16
  entityGeneration := neWordAt order record 17
  meshId := neWordAt order record 18
  materialId := neWordAt order record 19

def VulkanIndexedIndirectCommand.decode (order : ByteOrder) (command : List UInt8) :
    VulkanIndexedIndirectCommand where
  indexCount := neWordAt order command 0
  instanceCount := neWordAt order command 1
  firstIndex := neWordAt order command 2
  vertexOffset := (neWordAt order command 3).toInt32
  firstInstance := neWordAt order command 4

section Decode

variable (order : ByteOrder)

/-- Where the fields of a record are among its words. -/
theorem GpuInstanceRecord.words_transform (record : GpuInstanceRecord) {k : Nat} (hk : k < 12) :
    record.words[k]? = some record.transform[k] := by
  rw [words, List.append_assoc, List.getElem?_append_left (by simpa using hk)]
  simp [hk]

theorem GpuInstanceRecord.words_bounds (record : GpuInstanceRecord) {k : Nat} (hk : k < 4) :
    record.words[12 + k]? = some record.bounds[k] := by
  have hpast : 12 + k - record.transform.toList.length = k := by
    rw [Vector.length_toList, Nat.add_sub_cancel_left]
  rw [words, List.append_assoc, List.getElem?_append_right (by simp), hpast,
    List.getElem?_append_left (by simpa using hk)]
  simp [hk]

theorem GpuInstanceRecord.words_tail (record : GpuInstanceRecord) (k : Nat) :
    record.words[16 + k]? = [record.entityIndex, record.entityGeneration, record.meshId,
      record.materialId][k]? := by
  rw [words, List.getElem?_append_right (by simp)]
  simp

/-- A stretch whose words are those of a record is the record. -/
theorem GpuInstanceRecord.decode_eq {record : GpuInstanceRecord} {bytes : List UInt8}
    (h : ∀ k x, record.words[k]? = some x → neWordAt order bytes k = x) :
    decode order bytes = record := by
  have htransform : (Vector.ofFn fun k : Fin 12 => neWordAt order bytes k) = record.transform := by
    refine Vector.ext ?_
    intro k hk
    rw [Vector.getElem_ofFn]
    exact h k _ (record.words_transform hk)
  have hbounds : (Vector.ofFn fun k : Fin 4 => neWordAt order bytes (12 + k)) = record.bounds := by
    refine Vector.ext ?_
    intro k hk
    rw [Vector.getElem_ofFn]
    exact h (12 + k) _ (record.words_bounds hk)
  have hindex := h 16 record.entityIndex (record.words_tail 0)
  have hgeneration := h 17 record.entityGeneration (record.words_tail 1)
  have hmesh := h 18 record.meshId (record.words_tail 2)
  have hmaterial := h 19 record.materialId (record.words_tail 3)
  rw [decode, htransform, hbounds, hindex, hgeneration, hmesh, hmaterial]

theorem VulkanIndexedIndirectCommand.decode_bytes (command : VulkanIndexedIndirectCommand) :
    decode order (command.bytes order) = command := by
  have hword {k : Nat} {x : UInt32} (hk : command.words[k]? = some x) :
      neWordAt order (command.bytes order) k = x := by
    have hread := neWordAt_flatMap order [] hk
    rw [List.append_nil] at hread
    exact hread
  have h₀ := hword (k := 0) rfl
  have h₁ := hword (k := 1) rfl
  have h₂ := hword (k := 2) rfl
  have h₃ := hword (k := 3) rfl
  have h₄ := hword (k := 4) rfl
  rw [decode, h₀, h₁, h₂, h₃, h₄, Int32.toInt32_toUInt32]

/-- **A word of the records**, whatever follows them. -/
theorem neWordAt_instanceBytes {instances : List (RenderInstance UInt32)} {i k : Nat}
    {inst : RenderInstance UInt32} {x : UInt32} (rest : List UInt8)
    (hi : instances[i]? = some inst) (hk : inst.record.words[k]? = some x) :
    neWordAt order (instanceBytes order instances ++ rest) (20 * i + k) = x := by
  have hlt : k < 20 := by
    rw [← inst.record.length_words]
    exact (List.getElem?_eq_some_iff.mp hk).1
  have hwords : instanceBytes order instances
      = (instances.flatMap fun inst => inst.record.words).flatMap (u32ToNe order) :=
    List.flatMap_assoc.symm
  rw [hwords]
  refine neWordAt_flatMap order rest ?_
  rw [getElem?_flatMap_stride (fun inst => inst.record.length_words) instances hlt, hi]
  exact hk

/-- **An instance comes back from its place.** -/
theorem decode_instanceBytes {instances : List (RenderInstance UInt32)} {i : Nat}
    {inst : RenderInstance UInt32} (rest : List UInt8) (hi : instances[i]? = some inst) :
    GpuInstanceRecord.decode order
      (cut (instanceBytes order instances ++ rest) (80 * i) 80) = inst.record := by
  refine GpuInstanceRecord.decode_eq order ?_
  intro k x hk
  have hlt : k < 20 := by
    rw [← inst.record.length_words]
    exact (List.getElem?_eq_some_iff.mp hk).1
  have hread := neWordAt_cut order (instanceBytes order instances ++ rest) (20 * i) hlt
  rw [neWordAt_instanceBytes order rest hi hk, ← Nat.mul_assoc] at hread
  exact hread

/-- **And so does a command.** -/
theorem decode_commandBytes {commands : List VulkanIndexedIndirectCommand} {j : Nat}
    {command : VulkanIndexedIndirectCommand} (rest : List UInt8)
    (hj : commands[j]? = some command) :
    VulkanIndexedIndirectCommand.decode order
      (cut (commandBytes order commands ++ rest) (20 * j) 20) = command := by
  have hlen : (command.bytes order).length = 20 := command.length_bytes order
  have hcut : cut (commandBytes order commands ++ rest) (20 * j + 0) 20
      = cut (command.bytes order) 0 20 :=
    cut_flatMap_stride (fun command => command.length_bytes order) hj rest (Nat.zero_add 20).le
  rw [Nat.add_zero, cut_whole hlen] at hcut
  rw [hcut, command.decode_bytes]

end Decode

/-! ## The two encoders on a prepared frame -/

section Encoders

variable (order : ByteOrder) {output : List UInt8}

/-- With room the records are written at the front, and the rest of the slice is as it was. -/
theorem encodeInstanceRecords_eq (frame : GpuFramePreparation UInt32)
    (hroom : frame.instances.length * GPU_INSTANCE_RECORD_SIZE ≤ output.length)
    (hslice : output.length < 2 ^ 64) :
    frame.encodeInstanceRecords order output =
      (instanceBytes order frame.instances ++
        output.drop (frame.instances.length * GPU_INSTANCE_RECORD_SIZE),
        .ok (frame.instances.length * GPU_INSTANCE_RECORD_SIZE)) := by
  have hmul : checkedMul frame.instances.length GPU_INSTANCE_RECORD_SIZE
      = some (frame.instances.length * GPU_INSTANCE_RECORD_SIZE) :=
    if_pos (Nat.lt_of_le_of_lt hroom hslice)
  have hloop := encodeInstances_eq order 0 (by rw [Nat.zero_add]; exact hroom)
  rw [Nat.zero_mul, overwrite_zero, length_instanceBytes, Nat.mul_comm] at hloop
  simp only [GpuFramePreparation.encodeInstanceRecords, hmul, if_neg (Nat.not_lt.mpr hroom), hloop]

/-- Whatever the geometry is: the commands before the first it has no use for are written. -/
theorem encodeIndexedCommands_eq {frame : GpuFramePreparation F} (hvalid : frame.validate = .ok ())
    (geometry : List IndexedGeometry)
    (hroom : frame.commands.length * VULKAN_INDEXED_INDIRECT_COMMAND_SIZE ≤ output.length)
    (hslice : output.length < 2 ^ 64) :
    frame.encodeIndexedCommands order geometry output =
      (overwrite output 0 (commandBytes order (encodedPrefix geometry frame.commands)),
        (encodeCommands order geometry output 0 frame.commands).2.map fun _ =>
          frame.commands.length * VULKAN_INDEXED_INDIRECT_COMMAND_SIZE) := by
  have hmul : checkedMul frame.commands.length VULKAN_INDEXED_INDIRECT_COMMAND_SIZE
      = some (frame.commands.length * VULKAN_INDEXED_INDIRECT_COMMAND_SIZE) :=
    if_pos (Nat.lt_of_le_of_lt hroom hslice)
  have hloop := encodeCommands_eq order geometry 0
    (by rw [Nat.zero_add]; exact hroom)
  rw [Nat.zero_mul] at hloop
  simp only [GpuFramePreparation.encodeIndexedCommands, hvalid, hmul,
    if_neg (Nat.not_lt.mpr hroom), hloop]

end Encoders

/-! ## Geometry -/

/-- Every command's mesh is in the table, and the first entry of it has indices. -/
def Covers (geometry : List IndexedGeometry) (commands : List IndirectDrawCommand) : Prop :=
  ∀ command ∈ commands, ∃ mesh,
    geometry.find? (fun entry => entry.meshId = command.meshId) = some mesh ∧ mesh.indexCount ≠ 0

section Geometry

variable {order : ByteOrder} {geometry : List IndexedGeometry}
  {commands : List IndirectDrawCommand}

theorem encoded_eq_ok {command : IndirectDrawCommand} {mesh : IndexedGeometry}
    (hfind : geometry.find? (fun entry => entry.meshId = command.meshId) = some mesh)
    (hcount : mesh.indexCount ≠ 0) :
    command.encoded geometry = .ok ⟨mesh.indexCount, command.instanceCount, mesh.firstIndex,
      mesh.vertexOffset, command.firstInstance⟩ := by
  simp only [IndirectDrawCommand.encoded, hfind, if_neg hcount]

/-- Whichever way the mesh is looked up, it is the one that has indices. -/
theorem Covers.indexCount_ne (h : Covers geometry commands) {command : IndirectDrawCommand}
    (hcommand : command ∈ commands) {mesh : IndexedGeometry}
    (hfind : geometry.find? (fun entry => entry.meshId = command.meshId) = some mesh) :
    mesh.indexCount ≠ 0 := by
  obtain ⟨found, hfound, hcount⟩ := h command hcommand
  rw [hfind] at hfound
  rwa [Option.some.inj hfound]

/-- To cover the commands is that each of them is encoded. -/
theorem covers_iff :
    Covers geometry commands ↔ ∀ command ∈ commands, ∃ e, command.encoded geometry = .ok e := by
  constructor
  · intro h command hcommand
    obtain ⟨mesh, hfind, hcount⟩ := h command hcommand
    exact ⟨_, encoded_eq_ok hfind hcount⟩
  · intro h command hcommand
    obtain ⟨e, he⟩ := h command hcommand
    unfold IndirectDrawCommand.encoded at he
    split at he
    · cases he
    · next mesh hfind =>
      split at he
      · cases he
      · next hcount => exact ⟨mesh, hfind, hcount⟩

/-- **The command loop fails** exactly when the geometry does not cover the commands. -/
theorem encodeCommands_eq_ok {output : List UInt8} {index : Nat} :
    (encodeCommands order geometry output index commands).2 = .ok () ↔
      Covers geometry commands := by
  rw [covers_iff]
  -- On the commands. The loop stops at the first that is not encoded, so what was written says
  -- nothing about the rest.
  induction commands generalizing output index with
  | nil => exact ⟨fun _ c hc => absurd hc (by simp), fun _ => rfl⟩
  | cons command commands ih =>
    rw [encodeCommands, List.forall_mem_cons]
    cases he : command.encoded geometry with
    | error e =>
      constructor
      · intro h
        cases h
      · intro h
        obtain ⟨_, h⟩ := h.1
        cases h
    | ok encoded =>
      dsimp only
      rw [ih]
      exact ⟨fun h => ⟨⟨encoded, rfl⟩, h⟩, fun h => h.2⟩

/-- Then the prefix that is written is all of them, in their order. -/
theorem encodedPrefix_of_covers (h : Covers geometry commands) :
    (encodedPrefix geometry commands).length = commands.length ∧
      ∀ (j : Nat) (command : IndirectDrawCommand) (encoded : VulkanIndexedIndirectCommand),
        commands[j]? = some command → command.encoded geometry = .ok encoded →
          (encodedPrefix geometry commands)[j]? = some encoded := by
  rw [covers_iff] at h
  induction commands with
  | nil => exact ⟨rfl, fun j _ _ hj => absurd hj (by simp)⟩
  | cons first commands ih =>
    obtain ⟨⟨e, he⟩, hrest⟩ := List.forall_mem_cons.mp h
    obtain ⟨hlen, hget⟩ := ih hrest
    simp only [encodedPrefix, he]
    refine ⟨congrArg (· + 1) hlen, ?_⟩
    intro j command encoded hj hencoded
    cases j with
    | zero =>
      obtain rfl := Option.some.inj hj
      rw [he] at hencoded
      exact congrArg some (Except.ok.inj hencoded)
    | succ j =>
      rw [List.getElem?_cons_succ] at hj ⊢
      exact hget j command encoded hj hencoded

end Geometry

/-! ## What comes back -/

/-- The three rows of the transform. -/
def RenderInstance.rows (inst : RenderInstance UInt32) : Vector (Vector UInt32 4) 3 :=
  #v[#v[inst.transform[0], inst.transform[1], inst.transform[2], inst.transform[3]],
    #v[inst.transform[4], inst.transform[5], inst.transform[6], inst.transform[7]],
    #v[inst.transform[8], inst.transform[9], inst.transform[10], inst.transform[11]]]

/-- **The shader finds the instance**, as long as the index of its last word is a `uint`. -/
theorem worldVert_instanceBytes (order : ByteOrder) {instances : List (RenderInstance UInt32)}
    {i : Nat} {inst : RenderInstance UInt32} (rest : List UInt8)
    (hi : instances[i]? = some inst) (hsmall : 20 * i + 19 < 2 ^ 32) {vertex : UInt32}
    (hvertex : vertex.toNat < 36) :
    ∃ read, worldVert order (instanceBytes order instances ++ rest) (.ofNat i) vertex = some read ∧
      read.rows = inst.rows ∧ read.outMaterial = inst.materialId := by
  have hindex : (UInt32.ofNat i).toNat = i :=
    UInt32.toNat_ofNat_of_lt' (by change i < 2 ^ 32; omega)
  have hbytes : 80 * i + 80 ≤ (instanceBytes order instances ++ rest).length := by
    have hlt : i < instances.length := (List.getElem?_eq_some_iff.mp hi).1
    rw [List.length_append, length_instanceBytes, GPU_INSTANCE_RECORD_SIZE]
    omega
  let word (k : UInt32) : UInt32 := (inst.record.words[k.toNat]?).getD 0
  have hword : ∀ k ∈ READ_OFFSETS, storageWord order (instanceBytes order instances ++ rest)
      (wordIndex (.ofNat i) k) = some (word k) := by
    intro k hread
    have hlt := toNat_lt_of_mem_readOffsets hread
    obtain ⟨x, hx⟩ : ∃ x, inst.record.words[k.toNat]? = some x :=
      ⟨_, List.getElem?_eq_getElem (by rw [GpuInstanceRecord.length_words]; exact hlt)⟩
    have hk : inst.record.words[k.toNat]? = some (word k) := by
      simp only [word, hx, Option.getD_some]
    have hat : (wordIndex (.ofNat i) k).toNat = 20 * i + k.toNat := by
      rw [toNat_wordIndex_of_lt (by rw [hindex]; omega), hindex, Nat.mul_comm]
    rw [storageWord_of_le (by rw [hat]; omega), hat, neWordAt_instanceBytes order rest hi hk]
  have hrow (k : UInt32) (hk : k.toNat < 12) : word k = inst.transform[k.toNat] := by
    simp only [word, inst.record.words_transform hk, Option.getD_some]
    rfl
  have hmaterial : word 19 = inst.materialId := by
    have htail : inst.record.words[(19 : UInt32).toNat]? = some inst.materialId :=
      inst.record.words_tail 3
    simp only [word, htail, Option.getD_some]
  refine ⟨_, worldVert_eq_some hvertex hword, ?_, hmaterial⟩
  dsimp only
  rw [hrow 0 (by decide), hrow 1 (by decide), hrow 2 (by decide), hrow 3 (by decide),
    hrow 4 (by decide), hrow 5 (by decide), hrow 6 (by decide), hrow 7 (by decide),
    hrow 8 (by decide), hrow 9 (by decide), hrow 10 (by decide), hrow 11 (by decide)]
  rfl

/-- **What is uploaded can be read back.** For a prepared frame and geometry that covers its
    commands, each encoder takes exactly its records' bytes of the slice and leaves the rest as it
    was; the record of every instance and every command is read back from its place; and the sizes
    are those of the plan. The shader finds the rows and the material of every instance whose
    last word has a `uint` for its index. -/
theorem upload_reads_back {preparation frame : GpuFramePreparation UInt32}
    {manifest : CpuRenderManifest UInt32}
    (hprepared : preparation.prepare manifest = (frame, .ok ())) {geometry : List IndexedGeometry}
    (hcovers : Covers geometry frame.commands) (order : ByteOrder) :
    (∀ output : List UInt8, frame.instances.length * 80 ≤ output.length →
      output.length < 2 ^ 64 → ∃ written : List UInt8,
        frame.encodeInstanceRecords order output =
          (written ++ output.drop (frame.instances.length * 80),
            .ok (frame.instances.length * 80)) ∧
        written.length = frame.instances.length * 80 ∧
        ∀ (i : Nat) (inst : RenderInstance UInt32), frame.instances[i]? = some inst →
          GpuInstanceRecord.decode order (cut written (80 * i) 80) = inst.record ∧
          (20 * i + 19 < 2 ^ 32 → ∀ vertex : UInt32, vertex.toNat < 36 →
            ∃ read, worldVert order written (.ofNat i) vertex = some read ∧
              read.rows = inst.rows ∧ read.outMaterial = inst.materialId)) ∧
    (∀ output : List UInt8, frame.commands.length * 20 ≤ output.length →
      output.length < 2 ^ 64 → ∃ written : List UInt8,
        frame.encodeIndexedCommands order geometry output =
          (written ++ output.drop (frame.commands.length * 20),
            .ok (frame.commands.length * 20)) ∧
        written.length = frame.commands.length * 20 ∧
        ∀ (j : Nat) (command : IndirectDrawCommand), frame.commands[j]? = some command →
          ∀ mesh, geometry.find? (fun entry => entry.meshId = command.meshId) = some mesh →
            VulkanIndexedIndirectCommand.decode order (cut written (20 * j) 20) =
              ⟨mesh.indexCount, command.instanceCount, mesh.firstIndex, mesh.vertexOffset,
                command.firstInstance⟩) ∧
    ∀ (workgroupSize : UInt32) (plan : GpuFrameCommandPlan),
      frame.commandPlan workgroupSize = .ok plan →
        plan.instanceUploadBytes = frame.instances.length * 80 ∧
          plan.indirectUploadBytes = frame.commands.length * 20 := by
  have hvalid := GpuFramePreparation.validate_of_prepare hprepared
  refine ⟨?_, ?_, fun workgroupSize plan hplan => commandPlan_bytes hplan⟩
  · intro output hroom hslice
    have hencode := encodeInstanceRecords_eq order frame hroom hslice
    refine ⟨instanceBytes order frame.instances, hencode, ?_, ?_⟩
    · rw [length_instanceBytes, GPU_INSTANCE_RECORD_SIZE, Nat.mul_comm]
    · intro i inst hi
      refine ⟨?_, fun hsmall vertex hvertex => ?_⟩
      · have hdecode := decode_instanceBytes order [] hi
        rw [List.append_nil] at hdecode
        exact hdecode
      · have hread := worldVert_instanceBytes order [] hi hsmall hvertex
        rw [List.append_nil] at hread
        exact hread
  · intro output hroom hslice
    obtain ⟨hlen, hget⟩ := encodedPrefix_of_covers hcovers
    have hbytes := length_commandBytes order (encodedPrefix geometry frame.commands)
    rw [hlen, VULKAN_INDEXED_INDIRECT_COMMAND_SIZE, Nat.mul_comm] at hbytes
    have hencode := encodeIndexedCommands_eq order hvalid geometry hroom hslice
    rw [encodeCommands_eq_ok.mpr hcovers, overwrite_zero, hbytes] at hencode
    refine ⟨_, hencode, hbytes, ?_⟩
    intro j command hj mesh hfind
    have hcount := hcovers.indexCount_ne (List.mem_of_getElem? hj) hfind
    have hdecode := decode_commandBytes order []
      (hget j command _ hj (encoded_eq_ok hfind hcount))
    rw [List.append_nil] at hdecode
    exact hdecode

/-- A frame of two instances, which bind different meshes. -/
def twoInstances : GpuFramePreparation UInt32 :=
  ⟨[⟨⟨5, 1⟩, .replicate 12 8, .replicate 4 9, 3, 4⟩,
    ⟨⟨6, 2⟩, .replicate 12 10, .replicate 4 11, 7, 4⟩], [⟨3, 4, 0, 1⟩, ⟨7, 4, 1, 1⟩], 2, 2⟩

/-- The second instance and the second command, and what the shader reads of the instance. -/
theorem twoInstances_read_back :
    ∃ instances commands,
      twoInstances.encodeInstanceRecords .big (.replicate 160 0) = (instances, .ok 160) ∧
      GpuInstanceRecord.decode .big (cut instances 80 80)
        = ⟨.replicate 12 10, .replicate 4 11, 6, 2, 7, 4⟩ ∧
      (∃ read, worldVert .big instances 1 35 = some read ∧ read.outMaterial = 4) ∧
      twoInstances.encodeIndexedCommands .big [⟨3, 36, 0, 0⟩, ⟨7, 6, 36, 8⟩] (.replicate 40 0)
        = (commands, .ok 40) ∧
      VulkanIndexedIndirectCommand.decode .big (cut commands 20 20) = ⟨6, 1, 36, 8, 1⟩ := by
  have hprepared : (⟨[], [], 2, 2⟩ : GpuFramePreparation UInt32).prepare
      ⟨twoInstances.instances, [⟨3, 4, 0, 1⟩, ⟨7, 4, 1, 1⟩], 2, 2⟩ = (twoInstances, .ok ()) := rfl
  have hcovers : Covers [⟨3, 36, 0, 0⟩, ⟨7, 6, 36, 8⟩] twoInstances.commands := by
    intro command hcommand
    simp only [twoInstances, List.mem_cons, List.not_mem_nil, or_false] at hcommand
    -- Both commands find their mesh, and it has indices.
    rcases hcommand with rfl | rfl
    · exact ⟨_, rfl, by decide⟩
    · exact ⟨_, rfl, by decide⟩
  obtain ⟨hinstances, hcommands, -⟩ := upload_reads_back hprepared hcovers .big
  obtain ⟨instances, hencode, -, hread⟩ :=
    hinstances (.replicate 160 0) (by simp [twoInstances]) (by simp)
  obtain ⟨commands, hencode', -, hread'⟩ :=
    hcommands (.replicate 40 0) (by simp [twoInstances]) (by simp)
  have hdrop : (List.replicate 160 (0 : UInt8)).drop (twoInstances.instances.length * 80) = [] :=
    rfl
  have hdrop' : (List.replicate 40 (0 : UInt8)).drop (twoInstances.commands.length * 20) = [] :=
    rfl
  rw [hdrop, List.append_nil] at hencode
  rw [hdrop', List.append_nil] at hencode'
  obtain ⟨hrecord, hshader⟩ := hread 1 _ rfl
  obtain ⟨read, hvert, -, hmaterial⟩ := hshader (by decide) 35 (by decide)
  exact ⟨instances, commands, hencode, hrecord, ⟨read, hvert, hmaterial⟩, hencode',
    hread' 1 _ rfl _ rfl⟩

/-! ## A throng -/

/-- So many instances that all bind the same, each of an entity of its own. -/
def throng (n : Nat) : List (RenderInstance UInt32) :=
  (List.range n).map fun i => ⟨⟨.ofNat i, 1⟩, .replicate 12 0, .replicate 4 0, 1, 7⟩

/-- A throng of as many instances as wanted. -/
theorem length_throng (n : Nat) : (throng n).length = n := by
  rw [throng, List.length_map, List.length_range]

/-- Each instance of a throng has the entity of its position. -/
theorem throng_getElem? {n i : Nat} (hi : i < n) :
    (throng n)[i]? = some ⟨⟨.ofNat i, 1⟩, .replicate 12 0, .replicate 4 0, 1, 7⟩ := by
  rw [throng, List.getElem?_map, List.getElem?_range hi]
  rfl

/-- A throng is in order already. -/
theorem sortInstances_throng {n : Nat} (hn : n < 2 ^ 32) : sortInstances (throng n) = throng n := by
  refine List.Pairwise.insertionSort_eq ?_
  rw [throng, List.pairwise_map]
  refine List.pairwise_lt_range.imp_of_mem ?_
  intro i j hi hj hlt
  have hi' : (UInt32.ofNat i).toNat = i :=
    UInt32.toNat_ofNat_of_lt' (Nat.lt_trans (List.mem_range.mp hi) hn)
  have hj' : (UInt32.ofNat j).toNat = j :=
    UInt32.toNat_ofNat_of_lt' (Nat.lt_trans (List.mem_range.mp hj) hn)
  simp only [RenderInstance.sortKey, Prod.Lex.toLex_le_toLex, hi', hj']
  exact .inr ⟨trivial, .inr ⟨trivial, .inl hlt⟩⟩

/-- One batch takes instances that all bind the same. -/
theorem pushDrawBatches_same (fuel : Nat) {first : RenderInstance UInt32}
    {rest : List (RenderInstance UInt32)}
    (hsame : ∀ inst ∈ rest, inst.meshId = first.meshId ∧ inst.materialId = first.materialId)
    (hlen : rest.length + 1 < 2 ^ 32) :
    pushDrawBatches 1 (fuel + 1) 0 (first :: rest) [] =
      ([⟨first.meshId, first.materialId, 0, .ofNat (rest.length + 1)⟩], .ok ()) := by
  have hrun : rest.takeWhile (fun inst =>
      decide (inst.meshId = first.meshId ∧ inst.materialId = first.materialId)) = rest :=
    List.takeWhile_eq_self_iff.mpr fun inst hinst => decide_eq_true (hsame inst hinst)
  have hstop : 0 + 1 + rest.length = rest.length + 1 := by omega
  have hzero : u32TryFrom 0 = some 0 := rfl
  have hcount : u32TryFrom (rest.length + 1) = some (.ofNat (rest.length + 1)) := if_pos hlen
  have hroom : ¬ 1 ≤ 0 := by decide
  have hend (fuel stop : Nat) (batches : List DrawBatch) :
      pushDrawBatches 1 fuel stop ([] : List (RenderInstance UInt32)) batches
        = (batches, .ok ()) := by
    cases fuel with
    | zero => rfl
    | succ fuel => rfl
  simp only [pushDrawBatches, hrun, hstop, Nat.sub_zero, hzero, hcount, List.length_nil,
    if_neg hroom, List.drop_length, hend, List.nil_append]

theorem build_throng {n : Nat} (hn : n + 1 < 2 ^ 32) :
    (⟨[], [], n + 1, 1⟩ : CpuRenderManifest UInt32).build ⟨throng (n + 1), n + 1⟩ =
      (⟨throng (n + 1), [⟨1, 7, 0, .ofNat (n + 1)⟩], n + 1, 1⟩, .ok ()) := by
  obtain ⟨first, rest, hthrong⟩ : ∃ first rest, throng (n + 1) = first :: rest :=
    List.exists_cons_of_length_eq_add_one (length_throng (n + 1))
  have hkeys : ∀ inst ∈ throng (n + 1), inst.meshId = 1 ∧ inst.materialId = 7 := by
    intro inst hinst
    obtain ⟨i, -, rfl⟩ := List.mem_map.mp hinst
    exact ⟨rfl, rfl⟩
  rw [hthrong] at hkeys
  obtain ⟨⟨hmesh, hmaterial⟩, hrest⟩ := List.forall_mem_cons.mp hkeys
  have hlen : rest.length = n := by
    have hlen := length_throng (n + 1)
    rw [hthrong, List.length_cons] at hlen
    exact Nat.succ.inj hlen
  have hbatch : pushDrawBatches 1 (n + 1) 0 (throng (n + 1)) [] =
      ([⟨1, 7, 0, .ofNat (n + 1)⟩], .ok ()) := by
    have hpush := pushDrawBatches_same n
      (fun inst hinst => by rw [hmesh, hmaterial]; exact hrest inst hinst)
      (by rw [hlen]; exact hn)
    rw [hmesh, hmaterial, hlen] at hpush
    rw [hthrong]
    exact hpush
  simp only [CpuRenderManifest.build, length_throng, lt_irrefl, if_false, sortInstances_throng hn,
    hbatch]

theorem prepare_throng {n : Nat} (hn : n < 2 ^ 32) :
    (⟨[], [], n, 1⟩ : GpuFramePreparation UInt32).prepare
        ⟨throng n, [⟨1, 7, 0, .ofNat n⟩], n, 1⟩ =
      (⟨throng n, [⟨1, 7, 0, .ofNat n⟩], n, 1⟩, .ok ()) := by
  have hindex : (UInt32.ofNat n).toNat = n := UInt32.toNat_ofNat_of_lt' hn
  have hsum : u32CheckedAdd 0 (.ofNat n) = some (.ofNat n) := by
    rw [u32CheckedAdd, hindex, UInt32.toNat_zero, Nat.zero_add]
    exact if_pos hn
  have hrange : checkRange n 0 (.ofNat n) = .ok () := by
    simp only [checkRange, hsum, hindex, lt_irrefl, if_false]
  simp only [GpuFramePreparation.prepare, length_throng, List.length_singleton, lt_irrefl,
    or_false, if_false, pushCommands, hrange, List.nil_append]

/-- In a throng every word that the shader reads of a transform is zero. -/
theorem storageWord_throng {order : ByteOrder} {n i k : Nat} (hi : i < n) (hk : k < 12)
    (rest : List UInt8) {index : UInt32} (hindex : index.toNat = 20 * i + k) :
    storageWord order (instanceBytes order (throng n) ++ rest) index = some 0 := by
  have hinst := throng_getElem? hi
  have hword := RenderInstance.record ⟨⟨.ofNat i, 1⟩, .replicate 12 0, .replicate 4 0, 1, 7⟩
    |>.words_transform hk
  have hzero : (Vector.replicate 12 (0 : UInt32))[k] = 0 := Vector.getElem_replicate hk
  have hlen : 4 * index.toNat + 4 ≤ (instanceBytes order (throng n) ++ rest).length := by
    rw [List.length_append, length_instanceBytes, length_throng, hindex, GPU_INSTANCE_RECORD_SIZE]
    omega
  rw [storageWord_of_le hlen, hindex, neWordAt_instanceBytes order rest hinst hword]
  exact congrArg some hzero

/-- What the shader takes for the last instance of a throng that is too large: its transform, and
    the first instance's. -/
theorem storageWord_last {n : Nat} (hn : n = 214748364) (order : ByteOrder) (rest : List UInt8) :
    ∀ k ∈ READ_OFFSETS, storageWord order (instanceBytes order (throng (n + 1)) ++ rest)
      (wordIndex (.ofNat n) k) = some 0 := by
  have hindex : (UInt32.ofNat n).toNat = n :=
    UInt32.toNat_ofNat_of_lt' (by change n < 2 ^ 32; omega)
  intro k hk
  have hoffset : k.toNat < 12 ∨ k.toNat = 19 := by
    have hall : ∀ k ∈ READ_OFFSETS, k.toNat < 12 ∨ k.toNat = 19 := by simp [READ_OFFSETS]
    exact hall k hk
  rcases hoffset with hlt | hlast
  · refine storageWord_throng (Nat.lt_succ_self n) hlt _ ?_
    rw [toNat_wordIndex, hindex]
    omega
  · -- the material's index is past the last `uint`, and is the first record's
    refine storageWord_throng (Nat.succ_pos n) (k := 3) (by decide) _ ?_
    rw [toNat_wordIndex, hindex]
    omega

/-- **An index that wraps.** Of a throng this large the last instance has its material at word
    `2 ^ 32 + 3`, and the shader reads word 3. -/
theorem upload_throng_wraps :
    ∃ (n : Nat) (world : RenderWorld UInt32) (manifest : CpuRenderManifest UInt32)
      (frame : GpuFramePreparation UInt32) (inst : RenderInstance UInt32),
      (⟨[], [], n, 1⟩ : CpuRenderManifest UInt32).build world = (manifest, .ok ()) ∧
      (⟨[], [], n, 1⟩ : GpuFramePreparation UInt32).prepare manifest = (frame, .ok ()) ∧
      Covers [⟨1, 36, 0, 0⟩] frame.commands ∧ frame.instances[214748364]? = some inst ∧
      ∀ (order : ByteOrder) (output : List UInt8), output.length = n * 80 →
        ∃ written, frame.encodeInstanceRecords order output = (written, .ok (n * 80)) ∧
          ∃ read, worldVert order written (.ofNat 214748364) 0 = some read ∧
            read.outMaterial ≠ inst.materialId := by
  obtain ⟨n, hn⟩ : ∃ n : Nat, n = 214748364 := ⟨_, rfl⟩
  have hlast := throng_getElem? (Nat.lt_succ_self n)
  have hfirst := throng_getElem? (Nat.succ_pos n)
  rw [← hn]
  refine ⟨n + 1, _, _, _, _, build_throng (by omega), prepare_throng (by omega), ?_, hlast, ?_⟩
  · intro command hcommand
    obtain rfl := List.mem_singleton.mp hcommand
    exact ⟨_, rfl, by decide⟩
  · intro order output hlen
    have hthrong := length_throng (n + 1)
    have hencode := @encodeInstanceRecords_eq order output
      (⟨throng (n + 1), [⟨1, 7, 0, .ofNat (n + 1)⟩], n + 1, 1⟩ : GpuFramePreparation UInt32)
      (by rw [hthrong, GPU_INSTANCE_RECORD_SIZE]; omega) (by omega)
    rw [hthrong] at hencode
    have hwords := storageWord_last hn order (output.drop ((n + 1) * 80))
    have hmaterial : (0 : UInt32) ≠ 7 := by decide
    exact ⟨_, hencode, _, @worldVert_eq_some _ _ _ 0 (fun _ => 0) (by decide) hwords, hmaterial⟩

end Render
end EngineKit
