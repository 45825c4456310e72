import EngineKit.Vulkan.Device

/-!
# The present engine

`present_frame` waits for every frame's fence, acquires an image, records the frame, resets the
fence, submits and presents. Most of these calls can fail, and each failure returns at once. The
functions here are its parts in that order, then the whole; what Vulkan answers to each call is
an argument.

A frame is a world frame, a UI frame or a clear. The world's bytes are copied only in frames that
find `worldTransfer` pending, and it stays pending until a submission that draws the world is
accepted. The UI's bytes are copied in every frame there are any.

The engine is built on the UI's part of it (`Render.PresentEngine`).
-/

set_option autoImplicit false

namespace EngineKit
namespace Vulkan

open Lib

/-- A `PresentError`, with the loader's error, or a panic. -/
inductive PresentFault where
  | vulkan (error : VulkanLoaderError)
  | noSuitableDevice
  | nullWindowHandle
  | formatUnavailable
  | allocationFailed
  | panicked
deriving DecidableEq

abbrev PresentResult (α : Type) := Except PresentFault α

/-- A call made through a pointer that was looked up before. -/
def checkResult (result : VkResult) : PresentResult Unit :=
  if result = VK_SUCCESS then .ok () else .error (.vulkan (.api result))

/-- `From<VulkanLoaderError> for PresentError`. -/
def ofVulkan {α : Type} : Except VulkanLoaderError α → PresentResult α
  | .ok a => .ok a
  | .error e => .error (.vulkan e)

/-- A command looked up by its name. -/
def lookUp (finds : String → Bool) (name : String) : PresentResult Unit :=
  ofVulkan (resolveDevice finds name)

/-- A command looked up and called. -/
def lookUpAndCall (finds : String → Bool) (name : String) (result : VkResult) :
    PresentResult Unit := do
  lookUp finds name
  checkResult result

def invalidQueuePlan {α : Type} : PresentResult α := .error (.vulkan .invalidQueuePlan)

structure Extent2D where
  width : UInt32
  height : UInt32
deriving DecidableEq

def VK_MEMORY_PROPERTY_HOST_VISIBLE_BIT : UInt32 := 2
def VK_MEMORY_PROPERTY_HOST_COHERENT_BIT : UInt32 := 4

structure NativeBuffer where
  size : Nat
  memoryProperties : UInt32
deriving DecidableEq

def WORLD_UPLOAD_CAPACITY : Nat := 4 * 1024 * 1024

structure PresentEngine extends Render.PresentEngine where
  uiPipeline : Bool
  worldPipeline : Bool
  /-- The number of framebuffers. -/
  uiTargets : Option Nat
  swapchain : Swapchain
  frames : Nat
  imageIndex : UInt32
  color : Color
  extent : Extent2D
  uiStaging : NativeBuffer
  worldStaging : NativeBuffer
  worldUpload : List UInt8
  worldTransfer : UploadState
  worldViewProjection : Camera
  worldDrawCommands : List WorldDrawCommand

/-- What Vulkan answers during one `present_frame`. An answer to a call that is not made is not
    read. -/
structure FrameAnswers where
  finds : String → Bool
  waits : Nat → VkResult
  frameWait : VkResult
  acquired : VkResult
  image : UInt32
  commandBufferReset : VkResult
  begun : VkResult
  mapped : VkResult
  mappedNull : Bool
  flushed : VkResult
  ended : VkResult
  fenceReset : VkResult
  submitted : VkResult
  presented : VkResult

/-! ## Recording -/

/-- `NativeBuffer::write_host_visible` at offset zero, as far as the checks and the mapping. -/
def NativeBuffer.mapHostVisible (buffer : NativeBuffer) (answers : FrameAnswers) (length : Nat)
    (nonCoherentAtomSize : Nat) : PresentResult Unit :=
  let coherent := buffer.memoryProperties &&& VK_MEMORY_PROPERTY_HOST_COHERENT_BIT ≠ 0
  let atom := if coherent then 1 else nonCoherentAtomSize
  if buffer.memoryProperties &&& VK_MEMORY_PROPERTY_HOST_VISIBLE_BIT = 0 then invalidQueuePlan
  else if buffer.size < length then invalidQueuePlan
  else if atom = 0 then invalidQueuePlan
  else if buffer.size < (length + (atom - 1)) / atom * atom then invalidQueuePlan
  else do
    lookUp answers.finds "vkMapMemory\x00"
    lookUp answers.finds "vkUnmapMemory\x00"
    if answers.mapped ≠ VK_SUCCESS ∨ answers.mappedNull then .error (.vulkan (.api answers.mapped))
    else .ok ()

/-- And the flush after the bytes are written. -/
def NativeBuffer.flush (buffer : NativeBuffer) (answers : FrameAnswers) : PresentResult Unit :=
  if buffer.memoryProperties &&& VK_MEMORY_PROPERTY_HOST_COHERENT_BIT ≠ 0 then .ok ()
  else lookUpAndCall answers.finds "vkFlushMappedMemoryRanges\x00" answers.flushed

def cmdCopyBufferDevice (finds : String → Bool) (content : Content) (size : Nat) :
    PresentResult GpuCommand :=
  if size = 0 then invalidQueuePlan
  else do
    lookUp finds "vkCmdCopyBuffer\x00"
    .ok (.copyBuffer content size)

def cmdBufferBarrierDevice (finds : String → Bool) (content : Content) (size : Nat)
    (toVertexShader : Bool) : PresentResult GpuCommand :=
  if size = 0 then invalidQueuePlan
  else do
    lookUp finds "vkCmdPipelineBarrier\x00"
    .ok (.bufferBarrier content size toVertexShader)

/-- The bytes written to a staging buffer, copied to the device buffer and made visible. A failure
    after the mapping leaves the bytes written. -/
def NativeBuffer.upload (buffer : NativeBuffer) (answers : FrameAnswers) (content : Content)
    (bytes : List UInt8) (toVertexShader : Bool) (memory : Memory) :
    Memory × PresentResult (List GpuCommand) :=
  match buffer.mapHostVisible answers bytes.length 256 with
  | .error e => (memory, .error e)
  | .ok () =>
    (memory.stage content bytes, do
      buffer.flush answers
      let copy ← cmdCopyBufferDevice answers.finds content bytes.length
      let barrier ← cmdBufferBarrierDevice answers.finds content bytes.length toVertexShader
      .ok [copy, barrier])

/-- What `cmd_ui_draw` and `cmd_world_draw` check of a draw. -/
def drawable (vertexCount instanceCount firstVertex : UInt32) : Bool :=
  vertexCount != 0 && instanceCount != 0 && endsWithin firstVertex vertexCount 36

/-- The commands `cmd_ui_draw` and `cmd_world_draw` look up, in that order. -/
def drawLookUps (finds : String → Bool) : PresentResult Unit := do
  lookUp finds "vkCmdBeginRenderPass\x00"
  lookUp finds "vkCmdEndRenderPass\x00"
  lookUp finds "vkCmdBindPipeline\x00"
  lookUp finds "vkCmdBindDescriptorSets\x00"
  lookUp finds "vkCmdPushConstants\x00"
  lookUp finds "vkCmdDraw\x00"

def cmdUiDraw (finds : String → Bool) (framebuffer : Nat) (extent : Extent2D) (color : Color)
    (commands : List Render.UiDrawCommand) : PresentResult GpuCommand :=
  if extent.width = 0 ∨ extent.height = 0 ∨ commands.isEmpty then invalidQueuePlan
  else if ¬commands.all fun c => drawable c.vertexCount c.instanceCount c.firstVertex then
    invalidQueuePlan
  else do
    drawLookUps finds
    .ok (.uiDraw framebuffer color commands)

def cmdWorldDraw (finds : String → Bool) (framebuffer : Nat) (extent : Extent2D) (color : Color)
    (camera : Camera) (commands : List WorldDrawCommand) : PresentResult GpuCommand :=
  if extent.width = 0 ∨ extent.height = 0 ∨ commands.isEmpty then invalidQueuePlan
  else if ¬commands.all fun c => drawable c.vertexCount c.instanceCount c.firstVertex then
    invalidQueuePlan
  else do
    drawLookUps finds
    .ok (.worldDraw framebuffer color camera commands)

def cmdImageLayoutTransition (finds : String → Bool) (image : Nat) : PresentResult GpuCommand := do
  lookUp finds "vkCmdPipelineBarrier\x00"
  .ok (.imageTransition image)

def cmdClearImage (finds : String → Bool) (image : Nat) (color : Color) :
    PresentResult GpuCommand := do
  lookUp finds "vkCmdClearColorImage\x00"
  .ok (.clearImage image color)

namespace PresentEngine

/-- `ui_targets` and its framebuffer for an image. -/
def framebuffer (engine : PresentEngine) (image : UInt32) : PresentResult Nat :=
  match engine.uiTargets with
  | none => invalidQueuePlan
  | some framebuffers =>
    if image.toNat < framebuffers then .ok image.toNat else invalidQueuePlan

/-- `self.swapchain.images()[image as usize]`. -/
def imageAt (engine : PresentEngine) (image : UInt32) : PresentResult Nat :=
  if image.toNat < engine.swapchain.images.length then .ok image.toNat else .error .panicked

def recordWorldDraw (engine : PresentEngine) (answers : FrameAnswers) (image : UInt32) :
    PresentResult (List GpuCommand) := do
  let framebuffer ← engine.framebuffer image
  let draw ← cmdWorldDraw answers.finds framebuffer engine.extent engine.color
    engine.worldViewProjection engine.worldDrawCommands
  .ok [draw]

def recordUiDraw (engine : PresentEngine) (answers : FrameAnswers) (image : UInt32) :
    PresentResult (List GpuCommand) := do
  let framebuffer ← engine.framebuffer image
  let draw ← cmdUiDraw answers.finds framebuffer engine.extent engine.color engine.uiDrawCommands
  .ok [draw]

def recordClear (engine : PresentEngine) (answers : FrameAnswers) (image : UInt32) :
    PresentResult (List GpuCommand) := do
  let image ← engine.imageAt image
  let general ← cmdImageLayoutTransition answers.finds image
  let clear ← cmdClearImage answers.finds image engine.color
  let presentable ← cmdImageLayoutTransition answers.finds image
  .ok [general, clear, presentable]

/-- The frame draws the world. -/
def rendersWorld (engine : PresentEngine) : Bool :=
  !engine.worldUpload.isEmpty && engine.worldPipeline && engine.uiUpload.isEmpty

/-- A frame that does not draw the world draws the UI, if there is anything to draw. -/
def drawsUi (engine : PresentEngine) : Bool :=
  !engine.uiDrawCommands.isEmpty && engine.uiPipeline && engine.uiTargets.isSome

/-- The copies of a frame. -/
def recordUploads (engine : PresentEngine) (answers : FrameAnswers) (memory : Memory) :
    Memory × PresentResult (List GpuCommand) :=
  if engine.rendersWorld then
    if engine.worldTransfer.pending then
      engine.worldStaging.upload answers .world engine.worldUpload true memory
    else (memory, .ok [])
  else if ¬engine.uiUpload.isEmpty then
    engine.uiStaging.upload answers .ui engine.uiUpload
      (engine.uiPipeline && !engine.uiDrawCommands.isEmpty) memory
  else (memory, .ok [])

/-- What is drawn after them. -/
def recordPass (engine : PresentEngine) (answers : FrameAnswers) (image : UInt32) :
    PresentResult (List GpuCommand) :=
  if engine.rendersWorld then engine.recordWorldDraw answers image
  else if engine.drawsUi then engine.recordUiDraw answers image
  else engine.recordClear answers image

/-- The recording of a frame's command buffer. -/
def record (engine : PresentEngine) (answers : FrameAnswers) (image : UInt32) (memory : Memory) :
    Memory × PresentResult (List GpuCommand) :=
  let begun := do
    lookUpAndCall answers.finds "vkResetCommandBuffer\x00" answers.commandBufferReset
    lookUpAndCall answers.finds "vkBeginCommandBuffer\x00" answers.begun
  match begun with
  | .error e => (memory, .error e)
  | .ok () =>
    let (memory, uploads) := engine.recordUploads answers memory
    (memory, do
      let copies ← uploads
      let pass ← engine.recordPass answers image
      lookUpAndCall answers.finds "vkEndCommandBuffer\x00" answers.ended
      .ok (copies ++ pass))

/-! ## A frame -/

/-- The waits of `present_frame` for the fences of the given frames. -/
def waitAll (answers : FrameAnswers) : List Nat → PresentResult Unit
  | [] => .ok ()
  | frame :: frames => do
    checkResult (answers.waits frame)
    waitAll answers frames

/-- `present_frame` up to the acquire: the frame it is for. -/
def awaitFrame (engine : PresentEngine) (answers : FrameAnswers) : PresentResult Nat :=
  if ¬engine.worldUpload.isEmpty ∧ ¬engine.uiUpload.isEmpty then .error .allocationFailed
  else if ¬engine.worldUpload.isEmpty ∧ ¬engine.worldPipeline then invalidQueuePlan
  else do
    waitAll answers (List.range engine.frames)
    -- `% self.frames.len()`
    if engine.frames = 0 then .error .panicked
    else
      checkResult answers.frameWait
      .ok (engine.imageIndex.toNat % engine.frames)

end PresentEngine

/-- The engine, the device it drives, and the world last asked for. -/
structure PresentSystem where
  engine : PresentEngine
  device : Device
  asked : Option AskedWorld

namespace PresentSystem

/-- `Swapchain::acquire`, with the frame's semaphore. `VK_SUBOPTIMAL_KHR` brings an image too. -/
def acquire (s : PresentSystem) (answers : FrameAnswers) (frame : Nat) :
    PresentSystem × Except VulkanLoaderError UInt32 :=
  let (driver, image) :=
    s.engine.swapchain.acquire answers.acquired answers.image s.device.driver
  let device := { s.device with driver }
  let device :=
    if answers.acquired = VK_SUCCESS ∨ answers.acquired = VK_SUBOPTIMAL_KHR then
      device.acquireImage frame answers.image.toNat
    else device
  ({ s with device }, image)

/-- `queue_submit`, and `world_transfer.submitted` for a frame that draws the world. -/
def submit (s : PresentSystem) (answers : FrameAnswers) (frame : Nat)
    (commands : List GpuCommand) : PresentSystem × PresentResult Unit :=
  match lookUpAndCall answers.finds "vkQueueSubmit\x00" answers.submitted with
  | .error e => (s, .error e)
  | .ok () =>
    let device := s.device.accept ⟨frame, commands, s.asked⟩
    let engine :=
      if s.engine.rendersWorld then
        { s.engine with
          worldTransfer := s.engine.worldTransfer.submitted s.engine.worldUpload.length }
      else s.engine
    ({ s with device, engine }, .ok ())

/-- `Swapchain::present`. The answers other than these three leave the image acquired. -/
def present (s : PresentSystem) (answers : FrameAnswers) (image : UInt32) :
    PresentSystem × PresentResult Render.PresentStatus :=
  let (driver, result) := s.engine.swapchain.present answers.finds answers.presented s.device.driver
  let device := { s.device with driver }
  let device :=
    if answers.finds "vkQueuePresentKHR\x00" ∧ (answers.presented = VK_SUCCESS ∨
        answers.presented = VK_SUBOPTIMAL_KHR ∨ answers.presented = VK_ERROR_OUT_OF_DATE_KHR) then
      device.presentImage image.toNat
    else device
  ({ s with device },
    match result with
    | .ok () => .ok .presented
    | .error .outOfDate => .ok .outOfDate
    | .error e => .error (.vulkan e))

/-- `present_frame` from the recorded commands on. -/
def finishFrame (s : PresentSystem) (answers : FrameAnswers) (frame : Nat) (image : UInt32)
    (commands : List GpuCommand) : PresentSystem × PresentResult Render.PresentStatus :=
  match checkResult answers.fenceReset with
  | .error e => (s, .error e)
  | .ok () =>
    let s := { s with device := s.device.resetFence frame }
    match s.submit answers frame commands with
    | (s, .error e) => (s, .error e)
    | (s, .ok ()) => s.present answers image

/-- `present_frame` from the acquired image on. -/
def drawFrame (s : PresentSystem) (answers : FrameAnswers) (frame : Nat) (image : UInt32) :
    PresentSystem × PresentResult Render.PresentStatus :=
  let s := { s with engine := { s.engine with imageIndex := s.engine.imageIndex + 1 } }
  let (memory, recorded) := s.engine.record answers image s.device.memory
  let s := { s with device := { s.device with memory } }
  match recorded with
  | .error e => (s, .error e)
  | .ok commands => s.finishFrame answers frame image commands

def presentFrame (s : PresentSystem) (answers : FrameAnswers) :
    PresentSystem × PresentResult Render.PresentStatus :=
  match s.engine.awaitFrame answers with
  | .error e => (s, .error e)
  | .ok frame =>
    match s.acquire answers frame with
    | (s, .error .outOfDate) => (s, .ok .outOfDate)
    | (s, .error e) => (s, .error (.vulkan e))
    | (s, .ok image) => s.drawFrame answers frame image

end PresentSystem

end Vulkan
end EngineKit
