import EngineKit.Lib.Reach
import EngineKit.Vulkan.Engine

/-!
# The calls of the present engine

The setters, `recreate` and `build`, and the runs: any calls in any order, with whatever Vulkan
answers, and the device running what it has accepted in between.

A wait for a fence answers `VK_SUCCESS` only when the fence is signalled (`Honest`). That is all
that is asked of the answers.

`recreate` does not touch the frames: their fences, their semaphores and their number are those of
`build`.
-/

set_option autoImplicit false

namespace EngineKit
namespace Vulkan

open Lib

/-! ## Setters -/

namespace PresentEngine

variable (engine : PresentEngine)

def setClearColor (color : Color) : PresentEngine := { engine with color }

/-- `set_ui_upload`. With no room its `try_reserve` fails; that is the only error there is. -/
def setUiUpload (bytes : List UInt8) (room : Bool) : PresentEngine × PresentResult Unit :=
  if room then
    let (ui, result) := engine.toPresentEngine.setUiUpload bytes
    ({ engine with toPresentEngine := ui }, result.mapError fun _ => .allocationFailed)
  else (engine, .error .allocationFailed)

/-- `set_ui_upload_ranges`. -/
def setUiUploadRanges (ranges : List Ui.UiUploadRange) (totalBytes : Nat) (room : Bool) :
    PresentEngine × PresentResult Unit :=
  if room then
    let (ui, result) := engine.toPresentEngine.setUiUploadRanges ranges totalBytes
    ({ engine with toPresentEngine := ui }, result.mapError fun _ => .allocationFailed)
  else (engine, .error .allocationFailed)

/-- `set_ui_draw_commands`. -/
def setUiDrawCommands (commands : List Render.UiDrawCommand) (room : Bool) :
    PresentEngine × PresentResult Unit :=
  if room then
    ({ engine with toPresentEngine := engine.toPresentEngine.setUiDrawCommands commands }, .ok ())
  else (engine, .error .allocationFailed)

/-- `set_world_upload`. Both reservations are made before anything is changed. -/
def setWorldUpload (bytes : List UInt8) (camera : Camera) (commands : List WorldDrawCommand)
    (room : Bool) : PresentEngine × PresentResult Unit :=
  if ¬validWorldPacket bytes WORLD_UPLOAD_CAPACITY camera commands then
    (engine, .error .allocationFailed)
  else if ¬room then (engine, .error .allocationFailed)
  else
    ({ engine with
        worldUpload := bytes
        worldViewProjection := camera
        worldDrawCommands := commands
        worldTransfer := engine.worldTransfer.invalidate }, .ok ())

def setWorldCamera (camera : Camera) : PresentEngine × PresentResult Unit :=
  if ¬camera.toList.all f32IsFinite then (engine, .error .allocationFailed)
  else ({ engine with worldViewProjection := camera }, .ok ())

end PresentEngine

/-! ## Building and rebuilding -/

/-- What is answered while the render pass, and what hangs on it, are made. -/
structure TargetAnswers where
  renderPass : PresentResult Unit
  framebuffers : PresentResult Unit

/-- `UiFrameTargets::build`: a framebuffer for each image. The depth image needs an extent. -/
def buildTargets (answers : TargetAnswers) (swapchain : Swapchain) (extent : Extent2D) :
    PresentResult Nat := do
  answers.renderPass
  if extent.width = 0 ∨ extent.height = 0 then invalidQueuePlan
  else
    answers.framebuffers
    .ok swapchain.images.length

structure RecreateAnswers where
  finds : String → Bool
  idle : VkResult
  configured : PresentResult Extent2D
  compositeAlpha : PresentResult Unit
  swapchain : CreateAnswer
  targets : TargetAnswers
  uiPipeline : PresentResult Bool
  worldPipeline : PresentResult Bool

/-- `recreate` once the swapchain is replaced. -/
def PresentEngine.rebuildTargets (engine : PresentEngine) (answers : RecreateAnswers) :
    PresentEngine × PresentResult Unit :=
  match buildTargets answers.targets engine.swapchain engine.extent with
  | .error e => (engine, .error e)
  | .ok framebuffers =>
    let engine := { engine with uiTargets := some framebuffers }
    match answers.uiPipeline with
    | .error e => (engine, .error e)
    | .ok uiPipeline =>
      let engine := { engine with uiPipeline }
      match answers.worldPipeline with
      | .error e => (engine, .error e)
      | .ok worldPipeline => ({ engine with worldPipeline }, .ok ())

/-- `recreate`. -/
def PresentEngine.recreate (engine : PresentEngine) (answers : RecreateAnswers)
    (driver : Driver) : Driver × PresentEngine × PresentResult Unit :=
  match lookUpAndCall answers.finds "vkDeviceWaitIdle\x00" answers.idle with
  | .error e => (driver, engine, .error e)
  | .ok () =>
    match answers.configured with
    | .error e => (driver, engine, .error e)
    | .ok extent =>
      let engine := { engine with
        extent
        uiPipeline := false
        worldPipeline := false
        uiTargets := none }
      match answers.compositeAlpha with
      | .error e => (driver, engine, .error e)
      | .ok () =>
        let (driver, swapchain, result) := engine.swapchain.recreate answers.swapchain driver
        let engine := { engine with swapchain }
        match ofVulkan result with
        | .error e => (driver, engine, .error e)
        | .ok () =>
          let (engine, result) := engine.rebuildTargets answers
          (driver, engine, result)

/-- `opened` is the answer up to the configuration of the surface. The buffers answer with the
    properties of their memory. -/
structure BuildAnswers where
  opened : PresentResult Unit
  configured : PresentResult Extent2D
  swapchain : CreateAnswer
  targets : TargetAnswers
  uiStaging : PresentResult UInt32
  uiDevice : PresentResult UInt32
  worldStaging : PresentResult UInt32
  worldDevice : PresentResult UInt32
  uiPipeline : PresentResult Bool
  worldPipeline : PresentResult Bool
  frames : PresentResult Unit

/-- `create_buffer`: `select_memory_type` takes no type without the required properties. -/
def createBuffer (size : Nat) (required : UInt32) (answer : PresentResult UInt32) :
    PresentResult NativeBuffer := do
  let memoryProperties ← answer
  if memoryProperties &&& required ≠ required then invalidQueuePlan
  else .ok ⟨size, memoryProperties⟩

/-- `PresentEngine::build`. As many frames as images. -/
def PresentSystem.build (color : Color) (answers : BuildAnswers) : PresentResult PresentSystem := do
  answers.opened
  let extent ← answers.configured
  let swapchain ← ofVulkan (Swapchain.create answers.swapchain Driver.new).2
  let framebuffers ← buildTargets answers.targets swapchain extent
  let uiStaging ← createBuffer Render.UI_UPLOAD_CAPACITY VK_MEMORY_PROPERTY_HOST_VISIBLE_BIT
    answers.uiStaging
  let _ ← createBuffer Render.UI_UPLOAD_CAPACITY 0 answers.uiDevice
  let worldStaging ← createBuffer WORLD_UPLOAD_CAPACITY VK_MEMORY_PROPERTY_HOST_VISIBLE_BIT
    answers.worldStaging
  let _ ← createBuffer WORLD_UPLOAD_CAPACITY 0 answers.worldDevice
  let uiPipeline ← answers.uiPipeline
  let worldPipeline ← answers.worldPipeline
  answers.frames
  let engine : PresentEngine :=
    { uiUpload := []
      uiDrawCommands := []
      uiPipeline
      worldPipeline
      uiTargets := some framebuffers
      swapchain
      frames := (UInt32.ofNat swapchain.images.length).toNat
      imageIndex := 0
      color
      extent
      uiStaging
      worldStaging
      worldUpload := []
      worldTransfer := .new
      worldViewProjection := .replicate 16 0
      worldDrawCommands := [] }
  .ok ⟨engine, .new (Swapchain.create answers.swapchain Driver.new).1, none⟩

/-! ## Runs -/

inductive PresentCall where
  | presentFrame (answers : FrameAnswers)
  | recreate (answers : RecreateAnswers)
  | setClearColor (color : Color)
  | setUiUpload (bytes : List UInt8) (room : Bool)
  | setUiUploadRanges (ranges : List Ui.UiUploadRange) (totalBytes : Nat) (room : Bool)
  | setUiDrawCommands (commands : List Render.UiDrawCommand) (room : Bool)
  | setWorldUpload (bytes : List UInt8) (camera : Camera) (commands : List WorldDrawCommand)
      (room : Bool)
  | setWorldCamera (camera : Camera)
  /-- The device runs its next command. -/
  | runNext

namespace PresentSystem

/-- A call. What has been asked for is what the last setters that returned `Ok` were given. -/
def run (s : PresentSystem) : PresentCall → PresentSystem
  | .presentFrame answers => (s.presentFrame answers).1
  | .recreate answers =>
    let (driver, engine, _) := s.engine.recreate answers s.device.driver
    { s with engine, device := { s.device with driver } }
  | .setClearColor color => { s with engine := s.engine.setClearColor color }
  | .setUiUpload bytes room => { s with engine := (s.engine.setUiUpload bytes room).1 }
  | .setUiUploadRanges ranges totalBytes room =>
    { s with engine := (s.engine.setUiUploadRanges ranges totalBytes room).1 }
  | .setUiDrawCommands commands room =>
    { s with engine := (s.engine.setUiDrawCommands commands room).1 }
  | .setWorldUpload bytes camera commands room =>
    match s.engine.setWorldUpload bytes camera commands room with
    | (engine, .ok ()) => { s with engine, asked := some ⟨bytes, camera, commands⟩ }
    | (engine, .error _) => { s with engine }
  | .setWorldCamera camera =>
    match s.engine.setWorldCamera camera with
    | (engine, .ok ()) =>
      { s with engine, asked := s.asked.map fun asked => { asked with camera } }
    | (engine, .error _) => { s with engine }
  | .runNext => { s with device := s.device.runNext }

/-- A wait succeeds only for a fence that is signalled. -/
def Honest (s : PresentSystem) : PresentCall → Prop
  | .presentFrame answers =>
    (∀ frame < s.engine.frames, answers.waits frame = VK_SUCCESS → s.device.fences frame) ∧
      (answers.frameWait = VK_SUCCESS →
        s.device.fences (s.engine.imageIndex.toNat % s.engine.frames))
  | _ => True

/-- The steps of a run. -/
def runs (s : PresentSystem) (call : PresentCall) (t : PresentSystem) : Prop :=
  s.Honest call ∧ t = s.run call

end PresentSystem

end Vulkan
end EngineKit
