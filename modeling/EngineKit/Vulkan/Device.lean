import EngineKit.Render.Present
import EngineKit.Vulkan.Swapchain
import EngineKit.Vulkan.WorldUpload

/-!
# What the graphics device does

A submission is a list of commands, and the device runs the ones it has accepted in order, a
command at a time, whenever it likes. When the last command of one is done its fence is signalled.

A copy is made for each of the two streams, the world's and the UI's. The host writes a staging
buffer, a copy command brings its bytes to the device buffer, a barrier makes them visible to the
shaders, and a draw reads what is visible. The copies start at the buffers' first byte, so a
buffer is the bytes written to it so far.

`asked` is the world an accepted submission was to show. The device does not know it: it is what
the caller had asked for then, kept with the submission so that what is shown can be compared
with it.
-/

set_option autoImplicit false

namespace EngineKit
namespace Vulkan

open Lib

/-- The last world packet a presenter took, with the camera set last. -/
structure AskedWorld where
  bytes : List UInt8
  camera : Camera
  commands : List WorldDrawCommand
deriving DecidableEq

inductive Content where
  | world
  | ui
deriving DecidableEq

/-- A staging buffer, and the device buffer it is copied to: the bytes written, and those a
    shader sees. -/
structure Lane where
  staging : List UInt8
  written : List UInt8
  visible : List UInt8
deriving DecidableEq

/-- The bits of four `f32`. -/
abbrev Color := Vector UInt32 4

inductive GpuCommand where
  | copyBuffer (content : Content) (size : Nat)
  | bufferBarrier (content : Content) (size : Nat) (toVertexShader : Bool)
  | worldDraw (framebuffer : Nat) (color : Color) (camera : Camera)
      (commands : List WorldDrawCommand)
  | uiDraw (framebuffer : Nat) (color : Color) (commands : List Render.UiDrawCommand)
  | imageTransition (image : Nat)
  | clearImage (image : Nat) (color : Color)
deriving DecidableEq

/-- A draw of the world, with the device buffer as its vertex shader sees it. -/
structure ShownWorld where
  buffer : List UInt8
  camera : Camera
  commands : List WorldDrawCommand
  asked : Option AskedWorld
deriving DecidableEq

structure Memory where
  world : Lane
  ui : Lane
  shown : List ShownWorld
deriving DecidableEq

namespace Memory

def new : Memory := ⟨⟨[], [], []⟩, ⟨[], [], []⟩, []⟩

def lane (memory : Memory) : Content → Lane
  | .world => memory.world
  | .ui => memory.ui

def setLane (memory : Memory) (lane : Lane) : Content → Memory
  | .world => { memory with world := lane }
  | .ui => { memory with ui := lane }

/-- The host's write to a staging buffer. -/
def stage (memory : Memory) (content : Content) (bytes : List UInt8) : Memory :=
  memory.setLane { memory.lane content with
    staging := overwrite (memory.lane content).staging 0 bytes } content

/-- One command of a submission. -/
def execute (asked : Option AskedWorld) (memory : Memory) : GpuCommand → Memory
  | .copyBuffer content size =>
    let lane := memory.lane content
    memory.setLane { lane with written := overwrite lane.written 0 (lane.staging.take size) }
      content
  | .bufferBarrier content size toVertexShader =>
    let lane := memory.lane content
    if toVertexShader then
      memory.setLane { lane with visible := overwrite lane.visible 0 (lane.written.take size) }
        content
    else memory
  | .worldDraw _ _ camera commands =>
    { memory with shown := ⟨memory.world.visible, camera, commands, asked⟩ :: memory.shown }
  | .uiDraw .. => memory
  | .imageTransition _ => memory
  | .clearImage .. => memory

end Memory

/-- A submission the queue has accepted, with the commands still to run. -/
structure Submission where
  frame : Nat
  commands : List GpuCommand
  asked : Option AskedWorld
deriving DecidableEq

/-- Everything accepted, run to its end. -/
def Memory.settle (memory : Memory) (queue : List Submission) : Memory :=
  queue.foldl (fun memory submission =>
    submission.commands.foldl (Memory.execute submission.asked) memory) memory

/-! ## The device -/

structure Device where
  driver : Driver
  memory : Memory
  /-- The frames' fences: signalled or not. -/
  fences : Nat → Bool
  /-- The frames' `image_ready` semaphores: signalled, with no submission to wait on it. -/
  imageReady : Nat → Bool
  /-- The images acquired that no present has been issued for. -/
  acquired : List Nat
  /-- The frames whose semaphore was handed to an acquire while it was signalled. -/
  resignalled : List Nat
  queue : List Submission

namespace Device

/-- The device as it is built for, with every fence signalled. -/
def new (driver : Driver) : Device :=
  ⟨driver, .new, fun _ => true, fun _ => false, [], [], []⟩

/-- An acquire that brought an image. -/
def acquireImage (device : Device) (frame image : Nat) : Device :=
  { device with
    acquired := image :: device.acquired
    imageReady := Function.update device.imageReady frame true
    resignalled := if device.imageReady frame then frame :: device.resignalled
      else device.resignalled }

def resetFence (device : Device) (frame : Nat) : Device :=
  { device with fences := Function.update device.fences frame false }

/-- A submission accepted: it waits on the frame's semaphore and will signal its fence. -/
def accept (device : Device) (submission : Submission) : Device :=
  { device with
    queue := device.queue ++ [submission]
    imageReady := Function.update device.imageReady submission.frame false }

def presentImage (device : Device) (image : Nat) : Device :=
  { device with acquired := device.acquired.erase image }

/-- One command run, or the fence of a submission that has none left signalled. -/
def runNext (device : Device) : Device :=
  match device.queue with
  | [] => device
  | ⟨frame, [], _⟩ :: queue =>
    { device with queue, fences := Function.update device.fences frame true }
  | ⟨frame, command :: commands, asked⟩ :: queue =>
    { device with
      queue := ⟨frame, commands, asked⟩ :: queue
      memory := device.memory.execute asked command }

/-- What the memory comes to does not depend on when the device runs. -/
theorem settle_runNext (device : Device) :
    device.runNext.memory.settle device.runNext.queue = device.memory.settle device.queue := by
  unfold runNext
  split
  · rfl
  · next frame asked queue hqueue => simp only [hqueue, Memory.settle, List.foldl_cons,
      List.foldl_nil]
  · next frame command commands asked queue hqueue => simp only [hqueue, Memory.settle,
      List.foldl_cons]

end Device

end Vulkan
end EngineKit
