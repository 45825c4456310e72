import Mathlib.Data.List.Sort
import Mathlib.Data.Prod.Lex
import EngineKit.Lib.LittleEndian

/-!
# From the world to a prepared frame

Each frame the renderer copies the renderable entities out of the simulation world
(`RenderWorld.extractTyped`), sorts and batches them into a manifest (`CpuRenderManifest.build`),
and checks the manifest into the buffers the backend reads (`GpuFramePreparation.prepare`). All
three are bounded, and any of them can refuse the frame; a refused frame submits nothing.

A failing step leaves what it had written so far behind, so the two that mutate in place return
their state next to their result. The world is the list of its live entities in the order
`for_each_entity` visits them, each with the two components the renderer reads.
-/

set_option autoImplicit false

namespace EngineKit
namespace Render

open Lib

structure Entity where
  index : UInt32
  generation : UInt32
deriving DecidableEq

structure RenderTransform (F : Type) where
  matrix : Vector F 12
  bounds : Vector F 4

structure RenderMaterial where
  meshId : UInt32
  materialId : UInt32
deriving DecidableEq

structure RenderInstance (F : Type) where
  entity : Entity
  transform : Vector F 12
  bounds : Vector F 4
  meshId : UInt32
  materialId : UInt32

/-- A live entity and what `World::get` finds of the two components on it. -/
structure WorldEntity (F : Type) where
  entity : Entity
  transform : Option (RenderTransform F)
  material : Option RenderMaterial

variable {F : Type}

/-! ## Extraction -/

inductive RenderWorldError where
  | capacityExceeded
  | allocationFailed
deriving DecidableEq

structure ExtractionStats where
  considered : Nat
  extracted : Nat
  rejected : Nat
deriving DecidableEq

structure RenderWorld (F : Type) where
  instances : List (RenderInstance F)
  maxInstances : Nat

/-- `usize::saturating_add(1)`. -/
def saturatingSucc (n : Nat) : Nat := min (n + 1) (2 ^ 64 - 1)

def RenderWorld.tryPush (world : RenderWorld F) (inst : RenderInstance F) :
    Except RenderWorldError (RenderWorld F) :=
  if world.maxInstances ≤ world.instances.length then .error .capacityExceeded
  else .ok { world with instances := world.instances ++ [inst] }

/-- The loop of `extract_with`. The first refused push ends it: the closure returns early from
    then on. -/
def RenderWorld.extractFrom (project : WorldEntity F → Option (RenderInstance F)) :
    RenderWorld F → ExtractionStats → List (WorldEntity F) →
      RenderWorld F × Except RenderWorldError ExtractionStats
  | world, stats, [] => (world, .ok stats)
  | world, stats, entity :: entities =>
    let stats := { stats with considered := saturatingSucc stats.considered }
    match project entity with
    | none => extractFrom project world stats entities
    | some inst =>
      match world.tryPush inst with
      | .error e => (world, .error e)
      | .ok world =>
        extractFrom project world { stats with extracted := saturatingSucc stats.extracted }
          entities

def RenderWorld.extractWith (world : RenderWorld F)
    (project : WorldEntity F → Option (RenderInstance F)) (entities : List (WorldEntity F)) :
    RenderWorld F × Except RenderWorldError ExtractionStats :=
  extractFrom project { world with instances := [] } ⟨0, 0, 0⟩ entities

/-- The projection of `extract_typed`: both components, or nothing. -/
def WorldEntity.project (entity : WorldEntity F) : Option (RenderInstance F) := do
  let transform ← entity.transform
  let material ← entity.material
  some ⟨entity.entity, transform.matrix, transform.bounds, material.meshId, material.materialId⟩

def RenderWorld.extractTyped (world : RenderWorld F) (entities : List (WorldEntity F)) :
    RenderWorld F × Except RenderWorldError ExtractionStats :=
  world.extractWith WorldEntity.project entities

theorem extractFrom_error {project : WorldEntity F → Option (RenderInstance F)}
    {world : RenderWorld F} {entities : List (WorldEntity F)} (stats : ExtractionStats)
    (hfit : world.instances.length ≤ world.maxInstances)
    (h : world.maxInstances < world.instances.length + (entities.filterMap project).length) :
    (RenderWorld.extractFrom project world stats entities).2 = .error .capacityExceeded := by
  induction entities generalizing world stats with
  | nil =>
    simp only [List.filterMap_nil, List.length_nil] at h
    omega
  | cons entity entities ih =>
    cases hp : project entity with
    | none =>
      rw [List.filterMap_cons_none hp] at h
      simp only [RenderWorld.extractFrom, hp]
      exact ih _ hfit h
    | some inst =>
      rw [List.filterMap_cons_some hp, List.length_cons] at h
      by_cases hfull : world.maxInstances ≤ world.instances.length
      · simp only [RenderWorld.extractFrom, hp, RenderWorld.tryPush, if_pos hfull]
      · simp only [RenderWorld.extractFrom, hp, RenderWorld.tryPush, if_neg hfull]
        -- one more is held, and one fewer is left to push
        apply ih
        · simp only [List.length_append, List.length_singleton]
          omega
        · simp only [List.length_append, List.length_singleton]
          omega

/-- **More renderables than the render world holds refuse the frame.** -/
theorem RenderWorld.extractTyped_error {world : RenderWorld F} {entities : List (WorldEntity F)}
    (h : world.maxInstances < (entities.filterMap WorldEntity.project).length) :
    (world.extractTyped entities).2 = .error .capacityExceeded :=
  extractFrom_error _ (Nat.zero_le _) (by simpa using h)

theorem maxInstances_extractFrom (project : WorldEntity F → Option (RenderInstance F))
    (world : RenderWorld F) (stats : ExtractionStats) (entities : List (WorldEntity F)) :
    (RenderWorld.extractFrom project world stats entities).1.maxInstances
      = world.maxInstances := by
  induction entities generalizing world stats with
  | nil => rfl
  | cons entity entities ih =>
    unfold RenderWorld.extractFrom
    dsimp only
    split
    · exact ih ..
    · split
      · rfl
      · next pushed hpush =>
        have hmax : pushed.maxInstances = world.maxInstances := by
          unfold RenderWorld.tryPush at hpush
          split at hpush
          · cases hpush
          · rw [← Except.ok.inj hpush]
        rw [ih, hmax]

@[simp] theorem RenderWorld.maxInstances_extractTyped (world : RenderWorld F)
    (entities : List (WorldEntity F)) :
    (world.extractTyped entities).1.maxInstances = world.maxInstances :=
  maxInstances_extractFrom ..

/-! ## The manifest -/

structure DrawBatch where
  meshId : UInt32
  materialId : UInt32
  firstInstance : UInt32
  instanceCount : UInt32
deriving DecidableEq

inductive RenderManifestError where
  | capacityExceeded
  | allocationFailed
  | indexOverflow
deriving DecidableEq

structure CpuRenderManifest (F : Type) where
  instances : List (RenderInstance F)
  batches : List DrawBatch
  maxInstances : Nat
  maxBatches : Nat

/-- The key the manifest sorts by, compared field by field. No two live entities share it. -/
def RenderInstance.sortKey (inst : RenderInstance F) : Nat ×ₗ Nat ×ₗ Nat ×ₗ Nat :=
  toLex (inst.meshId.toNat, toLex (inst.materialId.toNat,
    toLex (inst.entity.index.toNat, inst.entity.generation.toNat)))

def sortInstances (instances : List (RenderInstance F)) : List (RenderInstance F) :=
  instances.insertionSort fun a b => a.sortKey ≤ b.sortKey

/-- The batching loop: `start` is the index of the first of the instances left. The fuel is the
    number of instances, and each round takes at least one. -/
def pushDrawBatches (maxBatches : Nat) :
    Nat → Nat → List (RenderInstance F) → List DrawBatch →
      List DrawBatch × Except RenderManifestError Unit
  | 0, _, _, batches => (batches, .ok ())
  | _, _, [], batches => (batches, .ok ())
  | fuel + 1, start, first :: rest, batches =>
    let run := rest.takeWhile fun inst =>
      inst.meshId = first.meshId ∧ inst.materialId = first.materialId
    let stop := start + 1 + run.length
    if maxBatches ≤ batches.length then (batches, .error .capacityExceeded)
    else
      match u32TryFrom start, u32TryFrom (stop - start) with
      | some firstInstance, some instanceCount =>
        pushDrawBatches maxBatches fuel stop (rest.drop run.length)
          (batches ++ [⟨first.meshId, first.materialId, firstInstance, instanceCount⟩])
      | _, _ => (batches, .error .indexOverflow)

def CpuRenderManifest.build (manifest : CpuRenderManifest F) (world : RenderWorld F) :
    CpuRenderManifest F × Except RenderManifestError Unit :=
  let manifest := { manifest with instances := [], batches := [] }
  if manifest.maxInstances < world.instances.length then (manifest, .error .capacityExceeded)
  else
    -- the checked add of `required` starts from the cleared, empty list and cannot overflow
    let instances := sortInstances world.instances
    let (batches, result) := pushDrawBatches manifest.maxBatches instances.length 0 instances []
    ({ manifest with instances, batches }, result)

/-! ## The prepared frame -/

structure IndirectDrawCommand where
  meshId : UInt32
  materialId : UInt32
  firstInstance : UInt32
  instanceCount : UInt32
deriving DecidableEq

inductive GpuPreparationError where
  | capacityExceeded
  | allocationFailed
  | indexOverflow
  | invalidRange
  | missingGeometry
  | outputTooSmall
  | invalidGeometry
  | invalidWorkgroupSize
deriving DecidableEq

structure GpuFramePreparation (F : Type) where
  instances : List (RenderInstance F)
  commands : List IndirectDrawCommand
  maxInstances : Nat
  maxCommands : Nat

/-- The range of a batch or a command lies inside the instances. -/
def checkRange (instances : Nat) (first count : UInt32) : Except GpuPreparationError Unit :=
  match u32CheckedAdd first count with
  | none => .error .indexOverflow
  | some stop => if instances < stop.toNat then .error .invalidRange else .ok ()

/-- The loop of `prepare`: a command for each batch, up to the first bad range. -/
def pushCommands (instances : Nat) : List DrawBatch → List IndirectDrawCommand →
    List IndirectDrawCommand × Except GpuPreparationError Unit
  | [], commands => (commands, .ok ())
  | batch :: batches, commands =>
    match checkRange instances batch.firstInstance batch.instanceCount with
    | .error e => (commands, .error e)
    | .ok () =>
      pushCommands instances batches
        (commands ++
          [⟨batch.meshId, batch.materialId, batch.firstInstance, batch.instanceCount⟩])

def GpuFramePreparation.prepare (preparation : GpuFramePreparation F)
    (manifest : CpuRenderManifest F) :
    GpuFramePreparation F × Except GpuPreparationError Unit :=
  let preparation := { preparation with instances := [], commands := [] }
  if preparation.maxInstances < manifest.instances.length ∨
      preparation.maxCommands < manifest.batches.length then
    (preparation, .error .capacityExceeded)
  else
    let (commands, result) := pushCommands manifest.instances.length manifest.batches []
    ({ preparation with instances := manifest.instances, commands }, result)

def GpuFramePreparation.validate (preparation : GpuFramePreparation F) :
    Except GpuPreparationError Unit :=
  preparation.commands.forM fun command =>
    checkRange preparation.instances.length command.firstInstance command.instanceCount

/-! ## Submission statistics -/

structure RenderSubmissionStats where
  submittedFrames : UInt64
  submittedInstances : UInt64
  submittedCommands : UInt64
deriving DecidableEq

inductive RenderSubmitError where
  | invalidPreparation
  | deviceLost
  | unsupported
  | outOfDate
deriving DecidableEq

structure HeadlessRenderBackend where
  stats : RenderSubmissionStats
deriving DecidableEq

def HeadlessRenderBackend.submit (backend : HeadlessRenderBackend)
    (preparation : GpuFramePreparation F) :
    HeadlessRenderBackend × Except RenderSubmitError RenderSubmissionStats :=
  match preparation.validate with
  | .error _ => (backend, .error .invalidPreparation)
  | .ok () =>
    let stats : RenderSubmissionStats :=
      ⟨saturatingAdd backend.stats.submittedFrames 1,
        saturatingAdd backend.stats.submittedInstances (.ofNat preparation.instances.length),
        saturatingAdd backend.stats.submittedCommands (.ofNat preparation.commands.length)⟩
    (⟨stats⟩, .ok stats)

end Render
end EngineKit
