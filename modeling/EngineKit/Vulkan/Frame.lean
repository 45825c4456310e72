import EngineKit.Vulkan.Calls

/-!
# How far a frame gets

`presentFrame_outcome` says once what a `present_frame` comes to. It is refused before the
acquire, it gets no image, it is given up while it is recorded, its fence is not reset, it is
reset and the frame is not submitted, or the frame is submitted. What follows about fences, the
world buffer and the acquired images starts from these six.

The other calls leave the device as it is, `runNext` apart.

The states are named and not the reasons. Six constructors suffice for the many ways a frame can
fail, since all that later proofs ask is how much of the device it had touched by then: the image,
the fence, the queue. The reasons stay in the hypotheses of the constructors, for the conditions of
the laws are about them. `recorded`, `unfenced` and `accepted` are such states, each made from the
one before, so a law about one of them is a law about the next with one more field looked at.

The lemmas on what its parts leave alone are there so that a proof never opens a state to find that
a field is the old one; they are what `simp` rewrites with after the case split.
-/

set_option autoImplicit false

namespace EngineKit
namespace Vulkan

open Lib

/-- `vkQueueSubmit` is found and answers `VK_SUCCESS`. -/
def FrameAnswers.Submits (answers : FrameAnswers) : Prop :=
  answers.finds "vkQueueSubmit\x00" ∧ answers.submitted = VK_SUCCESS

instance (answers : FrameAnswers) : Decidable answers.Submits :=
  inferInstanceAs (Decidable (_ ∧ _))

/-- A call that is looked up by its name fails if it is not found or not successful. -/
theorem lookUpAndCall_cases (finds : String → Bool) (name : String) (result : VkResult) :
    lookUpAndCall finds name result = .ok () ∧ finds name ∧ result = VK_SUCCESS ∨
      ∃ e, lookUpAndCall finds name result = .error e ∧ ¬(finds name ∧ result = VK_SUCCESS) := by
  by_cases hfinds : finds name
  · by_cases hresult : result = VK_SUCCESS
    · refine .inl ⟨?_, hfinds, hresult⟩
      simp [lookUpAndCall, lookUp, resolveDevice, ofVulkan, hfinds, checkResult, hresult, bind,
        Except.bind]
    · refine .inr ⟨.vulkan (.api result), ?_, fun h => hresult h.2⟩
      simp [lookUpAndCall, lookUp, resolveDevice, ofVulkan, hfinds, checkResult, hresult, bind,
        Except.bind]
  · refine .inr ⟨.vulkan (.missingCommand name), ?_, fun h => hfinds h.1⟩
    simp [lookUpAndCall, lookUp, resolveDevice, ofVulkan, hfinds, bind, Except.bind]

namespace PresentSystem

variable {s t : PresentSystem} {answers : FrameAnswers} {frame : Nat} {commands : List GpuCommand}

/-- The frame acquired and recorded, or given up while it was. -/
def recorded (s : PresentSystem) (answers : FrameAnswers) (frame : Nat) : PresentSystem :=
  let acquired := (s.acquire answers frame).1
  { acquired with
    engine := { s.engine with imageIndex := s.engine.imageIndex + 1 }
    device := { acquired.device with
      memory := (s.engine.record answers answers.image s.device.memory).1 } }

/-- And its fence reset. -/
def unfenced (s : PresentSystem) (answers : FrameAnswers) (frame : Nat) : PresentSystem :=
  let recorded := s.recorded answers frame
  { recorded with device := recorded.device.resetFence frame }

/-- And submitted. -/
def accepted (s : PresentSystem) (answers : FrameAnswers) (frame : Nat)
    (commands : List GpuCommand) : PresentSystem :=
  let unfenced := s.unfenced answers frame
  { unfenced with
    device := unfenced.device.accept ⟨frame, commands, s.asked⟩
    engine :=
      if s.engine.rendersWorld then
        { unfenced.engine with
          worldTransfer := s.engine.worldTransfer.submitted s.engine.worldUpload.length }
      else unfenced.engine }

/-- **How far a frame gets.** -/
inductive FrameOutcome (s : PresentSystem) (answers : FrameAnswers) : PresentSystem → Prop
  | refused {e : PresentFault} (hawait : s.engine.awaitFrame answers = .error e) :
    FrameOutcome s answers s
  | unacquired {frame : Nat} (hawait : s.engine.awaitFrame answers = .ok frame)
    (hacquired : answers.acquired ≠ VK_SUCCESS) :
    FrameOutcome s answers (s.acquire answers frame).1
  | unrecorded {frame : Nat} {e : PresentFault} (hawait : s.engine.awaitFrame answers = .ok frame)
    (hacquired : answers.acquired = VK_SUCCESS)
    (hrecord : (s.engine.record answers answers.image s.device.memory).2 = .error e) :
    FrameOutcome s answers (s.recorded answers frame)
  | unreset {frame : Nat} {commands : List GpuCommand}
    (hawait : s.engine.awaitFrame answers = .ok frame) (hacquired : answers.acquired = VK_SUCCESS)
    (hrecord : (s.engine.record answers answers.image s.device.memory).2 = .ok commands)
    (hreset : answers.fenceReset ≠ VK_SUCCESS) :
    FrameOutcome s answers (s.recorded answers frame)
  | unsubmitted {frame : Nat} {commands : List GpuCommand}
    (hawait : s.engine.awaitFrame answers = .ok frame) (hacquired : answers.acquired = VK_SUCCESS)
    (hrecord : (s.engine.record answers answers.image s.device.memory).2 = .ok commands)
    (hreset : answers.fenceReset = VK_SUCCESS) (hsubmit : ¬answers.Submits) :
    FrameOutcome s answers (s.unfenced answers frame)
  | submitted {frame : Nat} {commands : List GpuCommand}
    (hawait : s.engine.awaitFrame answers = .ok frame) (hacquired : answers.acquired = VK_SUCCESS)
    (hrecord : (s.engine.record answers answers.image s.device.memory).2 = .ok commands)
    (hreset : answers.fenceReset = VK_SUCCESS) (hsubmit : answers.Submits) :
    FrameOutcome s answers ((s.accepted answers frame commands).present answers answers.image).1

/-- The image is that of the answers. -/
theorem acquire_of_success (h : answers.acquired = VK_SUCCESS) :
    (s.acquire answers frame).2 = .ok answers.image := by
  simp [acquire, Swapchain.acquire, h]

/-- `VK_SUBOPTIMAL_KHR` is an error like the others here, although an image was acquired with it. -/
theorem acquire_of_ne (s : PresentSystem) (frame : Nat) (h : answers.acquired ≠ VK_SUCCESS) :
    ∃ e, (s.acquire answers frame).2 = .error e := by
  simp only [acquire, Swapchain.acquire, if_neg h]
  split
  · exact ⟨.suboptimal, rfl⟩
  · split
    · exact ⟨.outOfDate, rfl⟩
    · exact ⟨.api answers.acquired, rfl⟩

/-- The acquire writes the log of the swapchain and not to memory. -/
theorem acquire_memory : (s.acquire answers frame).1.device.memory = s.device.memory := by
  simp only [acquire]
  split <;> rfl

/-- What `record` reads does not include the frame's number. -/
theorem record_imageIndex (engine : PresentEngine) (i : UInt32) (image : UInt32)
    (memory : Memory) :
    ({ engine with imageIndex := i } : PresentEngine).record answers image memory
      = engine.record answers image memory := rfl

/-- The frame from its recording on. -/
theorem drawFrame_eq :
    ((s.acquire answers frame).1.drawFrame answers frame answers.image).1 =
      match (s.engine.record answers answers.image s.device.memory).2 with
      | .error _ => s.recorded answers frame
      | .ok commands => ((s.recorded answers frame).finishFrame answers frame answers.image
          commands).1 := by
  have hrecord : ({ (s.acquire answers frame).1.engine with
      imageIndex := (s.acquire answers frame).1.engine.imageIndex + 1 } : PresentEngine).record
        answers answers.image (s.acquire answers frame).1.device.memory
      = s.engine.record answers answers.image s.device.memory := by
    rw [record_imageIndex, acquire_memory]
    rfl
  simp only [drawFrame, hrecord]
  cases (s.engine.record answers answers.image s.device.memory).2 with
  | error e => rfl
  | ok commands => rfl

/-- From the reset of the fence on. The reset comes before the submission, so a failed submission
    leaves the fence unsignalled and nothing on its way that would signal it. -/
theorem finishFrame_cases (s : PresentSystem) (answers : FrameAnswers) (frame : Nat)
    (image : UInt32) (commands : List GpuCommand) :
    (s.finishFrame answers frame image commands).1 = s ∧ answers.fenceReset ≠ VK_SUCCESS ∨
      answers.fenceReset = VK_SUCCESS ∧
        (¬answers.Submits ∧ (s.finishFrame answers frame image commands).1
            = { s with device := s.device.resetFence frame } ∨
          answers.Submits ∧ (s.finishFrame answers frame image commands).1 =
            ((({ s with device := s.device.resetFence frame } : PresentSystem).submit answers frame
              commands).1.present answers image).1) := by
  by_cases hreset : answers.fenceReset = VK_SUCCESS
  · refine .inr ⟨hreset, ?_⟩
    rcases lookUpAndCall_cases answers.finds "vkQueueSubmit\x00" answers.submitted with
      ⟨hok, hsubmit⟩ | ⟨e, herr, hnot⟩
    · refine .inr ⟨hsubmit, ?_⟩
      simp only [finishFrame, checkResult, if_pos hreset, submit, hok]
    · refine .inl ⟨hnot, ?_⟩
      simp only [finishFrame, checkResult, if_pos hreset, submit, herr]
  · refine .inl ⟨?_, hreset⟩
    simp only [finishFrame, checkResult, if_neg hreset]

/-- The engine counts the bytes of the world as transferred only here. -/
theorem submit_unfenced (s : PresentSystem) (frame : Nat) (commands : List GpuCommand)
    (hsubmit : answers.Submits) :
    ((s.unfenced answers frame).submit answers frame commands).1
      = s.accepted answers frame commands := by
  rcases lookUpAndCall_cases answers.finds "vkQueueSubmit\x00" answers.submitted with
    ⟨hok, -⟩ | ⟨e, -, hnot⟩
  · simp only [submit, hok]
    rfl
  · exact absurd hsubmit hnot

/-- **Every frame gets as far as one of the six.** -/
theorem presentFrame_outcome (s : PresentSystem) (answers : FrameAnswers) :
    FrameOutcome s answers (s.presentFrame answers).1 := by
  cases hawait : s.engine.awaitFrame answers with
  | error e =>
    simp only [presentFrame, hawait]
    exact .refused hawait
  | ok frame =>
    -- The acquire is looked at before anything is recorded: past it the image is in the frame's
    -- hands.
    by_cases hacquired : answers.acquired = VK_SUCCESS
    · have hacquire : s.acquire answers frame = ((s.acquire answers frame).1, .ok answers.image) :=
        Prod.ext rfl (acquire_of_success hacquired)
      simp only [presentFrame, hawait]
      rw [hacquire]
      show FrameOutcome s answers
        ((s.acquire answers frame).1.drawFrame answers frame answers.image).1
      rw [drawFrame_eq]
      cases hrecord : (s.engine.record answers answers.image s.device.memory).2 with
      | error e => exact .unrecorded hawait hacquired hrecord
      | ok commands =>
        show FrameOutcome s answers ((s.recorded answers frame).finishFrame answers frame
          answers.image commands).1
        rcases finishFrame_cases (s.recorded answers frame) answers frame answers.image commands
          with ⟨heq, hreset⟩ | ⟨hreset, ⟨hsubmit, heq⟩ | ⟨hsubmit, heq⟩⟩
        · rw [heq]
          exact .unreset hawait hacquired hrecord hreset
        · rw [heq]
          exact .unsubmitted hawait hacquired hrecord hreset hsubmit
        · rw [heq]
          have haccepted := submit_unfenced s frame commands hsubmit
          rw [unfenced] at haccepted
          rw [haccepted]
          exact .submitted hawait hacquired hrecord hreset hsubmit
    · obtain ⟨e, he⟩ := acquire_of_ne s frame hacquired
      have hacquire : s.acquire answers frame = ((s.acquire answers frame).1, .error e) :=
        Prod.ext rfl he
      simp only [presentFrame, hawait]
      rw [hacquire]
      cases e <;> exact .unacquired hawait hacquired

/-! ## What its parts leave alone -/

@[simp] theorem acquire_fences :
    (s.acquire answers frame).1.device.fences = s.device.fences := by
  simp only [acquire]
  split <;> rfl

@[simp] theorem acquire_queue : (s.acquire answers frame).1.device.queue = s.device.queue := by
  simp only [acquire]
  split <;> rfl

@[simp] theorem present_engine {image : UInt32} :
    (s.present answers image).1.engine = s.engine := rfl

@[simp] theorem present_fences {image : UInt32} :
    (s.present answers image).1.device.fences = s.device.fences := by
  simp only [present]
  split <;> rfl

@[simp] theorem present_queue {image : UInt32} :
    (s.present answers image).1.device.queue = s.device.queue := by
  simp only [present]
  split <;> rfl

@[simp] theorem present_memory {image : UInt32} :
    (s.present answers image).1.device.memory = s.device.memory := by
  simp only [present]
  split <;> rfl

@[simp] theorem recorded_fences (s : PresentSystem) (answers : FrameAnswers) (frame : Nat) :
    (s.recorded answers frame).device.fences = s.device.fences := acquire_fences

@[simp] theorem recorded_queue (s : PresentSystem) (answers : FrameAnswers) (frame : Nat) :
    (s.recorded answers frame).device.queue = s.device.queue := acquire_queue

@[simp] theorem unfenced_fences : (s.unfenced answers frame).device.fences
    = Function.update s.device.fences frame false := by
  have hrecorded := recorded_fences s answers frame
  rw [← hrecorded]
  rfl

@[simp] theorem unfenced_queue (s : PresentSystem) (answers : FrameAnswers) (frame : Nat) :
    (s.unfenced answers frame).device.queue = s.device.queue := acquire_queue

@[simp] theorem accepted_fences : (s.accepted answers frame commands).device.fences
    = Function.update s.device.fences frame false := unfenced_fences

@[simp] theorem accepted_queue : (s.accepted answers frame commands).device.queue
    = s.device.queue ++ [⟨frame, commands, s.asked⟩] := by
  have hunfenced := unfenced_queue s answers frame
  rw [← hunfenced]
  rfl

end PresentSystem

/-! ## The frame that is waited for -/

/-- The waits stop at the first that fails, so all of them have succeeded. -/
theorem PresentEngine.waitAll_ok {answers : FrameAnswers} {frames : List Nat}
    (h : waitAll answers frames = .ok ()) : ∀ frame ∈ frames, answers.waits frame = VK_SUCCESS := by
  induction frames with
  | nil => exact List.forall_mem_nil _
  | cons frame frames ih =>
    by_cases hwait : answers.waits frame = VK_SUCCESS
    · refine List.forall_mem_cons.mpr ⟨hwait, ih ?_⟩
      simpa [waitAll, checkResult, hwait, bind, Except.bind] using h
    · simp [waitAll, checkResult, hwait, bind, Except.bind] at h

/-- **The frame waited for** is one of them, and every wait for a fence has succeeded. -/
theorem PresentEngine.awaitFrame_ok {engine : PresentEngine} {answers : FrameAnswers} {frame : Nat}
    (h : engine.awaitFrame answers = .ok frame) :
    frame = engine.imageIndex.toNat % engine.frames ∧ frame < engine.frames ∧
      ∀ other < engine.frames, answers.waits other = VK_SUCCESS := by
  unfold awaitFrame at h
  split at h
  · cases h
  split at h
  · cases h
  cases hall : waitAll answers (List.range engine.frames) with
  | error e => simp [hall, bind, Except.bind] at h
  | ok u =>
    simp only [hall, bind, Except.bind] at h
    split at h
    · cases h
    next hframes =>
    cases hwait : checkResult answers.frameWait with
    | error e => simp [hwait] at h
    | ok u =>
      simp only [hwait] at h
      obtain rfl := Except.ok.inj h
      refine ⟨rfl, Nat.mod_lt _ (Nat.pos_of_ne_zero hframes), ?_⟩
      intro other hother
      exact waitAll_ok hall other (List.mem_range.mpr hother)

/-- Of the engine a frame moves the counter of images and the state of the upload. -/
theorem PresentSystem.presentFrame_engine (s : PresentSystem) (answers : FrameAnswers) :
    ∃ imageIndex worldTransfer,
      (s.presentFrame answers).1.engine = { s.engine with imageIndex, worldTransfer } := by
  have houtcome := presentFrame_outcome s answers
  generalize (s.presentFrame answers).1 = t at houtcome ⊢
  cases houtcome with
  | refused hawait => exact ⟨s.engine.imageIndex, s.engine.worldTransfer, rfl⟩
  | unacquired hawait hacquired => exact ⟨s.engine.imageIndex, s.engine.worldTransfer, rfl⟩
  | unrecorded hawait hacquired hrecord =>
    exact ⟨s.engine.imageIndex + 1, s.engine.worldTransfer, rfl⟩
  | unreset hawait hacquired hrecord hreset =>
    exact ⟨s.engine.imageIndex + 1, s.engine.worldTransfer, rfl⟩
  | unsubmitted hawait hacquired hrecord hreset hsubmit =>
    exact ⟨s.engine.imageIndex + 1, s.engine.worldTransfer, rfl⟩
  | submitted hawait hacquired hrecord hreset hsubmit =>
    rw [present_engine, accepted]
    simp only
    split
    · exact ⟨s.engine.imageIndex + 1, _, rfl⟩
    · exact ⟨s.engine.imageIndex + 1, s.engine.worldTransfer, rfl⟩

/-! ## The other calls -/

/-- Two engines with the same frames and the same world. The UI and the swapchain may differ: no law
    about fences or the world reads them. -/
structure PresentEngine.SameWorld (engine engine' : PresentEngine) : Prop where
  frames : engine'.frames = engine.frames
  worldUpload : engine'.worldUpload = engine.worldUpload
  worldTransfer : engine'.worldTransfer = engine.worldTransfer
  worldViewProjection : engine'.worldViewProjection = engine.worldViewProjection
  worldDrawCommands : engine'.worldDrawCommands = engine.worldDrawCommands

theorem PresentEngine.SameWorld.refl {engine : PresentEngine} : engine.SameWorld engine :=
  ⟨rfl, rfl, rfl, rfl, rfl⟩

theorem PresentEngine.sameWorld_setUiUpload (engine : PresentEngine) (bytes : List UInt8)
    (room : Bool) : engine.SameWorld (engine.setUiUpload bytes room).1 := by
  unfold setUiUpload
  split <;> exact ⟨rfl, rfl, rfl, rfl, rfl⟩

theorem PresentEngine.sameWorld_setUiUploadRanges (engine : PresentEngine)
    (ranges : List Ui.UiUploadRange) (totalBytes : Nat) (room : Bool) :
    engine.SameWorld (engine.setUiUploadRanges ranges totalBytes room).1 := by
  unfold setUiUploadRanges
  split <;> exact ⟨rfl, rfl, rfl, rfl, rfl⟩

theorem PresentEngine.sameWorld_setUiDrawCommands (engine : PresentEngine)
    (commands : List Render.UiDrawCommand) (room : Bool) :
    engine.SameWorld (engine.setUiDrawCommands commands room).1 := by
  unfold setUiDrawCommands
  split <;> exact ⟨rfl, rfl, rfl, rfl, rfl⟩

/-- However far it comes. A recreation is about the swapchain and what is of its size. -/
theorem PresentEngine.sameWorld_recreate (engine : PresentEngine) (answers : RecreateAnswers)
    (driver : Driver) : engine.SameWorld (engine.recreate answers driver).2.1 := by
  unfold recreate
  split
  · exact .refl
  split
  · exact .refl
  simp only
  split
  · exact ⟨rfl, rfl, rfl, rfl, rfl⟩
  split
  · exact ⟨rfl, rfl, rfl, rfl, rfl⟩
  simp only [rebuildTargets]
  split
  · exact ⟨rfl, rfl, rfl, rfl, rfl⟩
  split
  · exact ⟨rfl, rfl, rfl, rfl, rfl⟩
  split <;> exact ⟨rfl, rfl, rfl, rfl, rfl⟩

/-- `set_world_upload` changes nothing, or takes the packet. -/
theorem PresentSystem.run_setWorldUpload (s : PresentSystem) (bytes : List UInt8) (camera : Camera)
    (commands : List WorldDrawCommand) (room : Bool) :
    s.run (.setWorldUpload bytes camera commands room) = s ∨
      validWorldPacket bytes WORLD_UPLOAD_CAPACITY camera commands ∧
        s.run (.setWorldUpload bytes camera commands room) =
          { s with
            engine := { s.engine with
              worldUpload := bytes
              worldViewProjection := camera
              worldDrawCommands := commands
              worldTransfer := s.engine.worldTransfer.invalidate }
            asked := some ⟨bytes, camera, commands⟩ } := by
  by_cases hvalid : validWorldPacket bytes WORLD_UPLOAD_CAPACITY camera commands
  · cases room with
    | false => exact .inl (by simp [run, PresentEngine.setWorldUpload, hvalid])
    | true => exact .inr ⟨hvalid, by simp [run, PresentEngine.setWorldUpload, hvalid]⟩
  · exact .inl (by simp [run, PresentEngine.setWorldUpload, hvalid])

/-- And `set_world_camera` nothing, or the camera. -/
theorem PresentSystem.run_setWorldCamera (s : PresentSystem) (camera : Camera) :
    s.run (.setWorldCamera camera) = s ∨
      s.run (.setWorldCamera camera) =
        { s with
          engine := { s.engine with worldViewProjection := camera }
          asked := s.asked.map fun asked => { asked with camera } } := by
  by_cases hfinite : camera.toList.all f32IsFinite
  · exact .inr (by simp only [run, PresentEngine.setWorldCamera, hfinite, not_true_eq_false,
      if_false])
  · exact .inl (by simp only [run, PresentEngine.setWorldCamera, if_pos hfinite])

/-- A call that is no frame and no step of the device leaves the device alone, but for the
    swapchains. -/
theorem PresentSystem.run_device {s : PresentSystem} {call : PresentCall}
    (hframe : ∀ answers, call ≠ .presentFrame answers) (hnext : call ≠ .runNext) :
    ∃ driver, (s.run call).device = { s.device with driver } := by
  cases call with
  | presentFrame answers => exact absurd rfl (hframe answers)
  | runNext => exact absurd rfl hnext
  | setWorldUpload bytes camera commands room =>
    rcases s.run_setWorldUpload bytes camera commands room with heq | ⟨-, heq⟩
    · exact ⟨s.device.driver, by rw [heq]⟩
    · exact ⟨s.device.driver, by rw [heq]⟩
  | setWorldCamera camera =>
    rcases s.run_setWorldCamera camera with heq | heq
    · exact ⟨s.device.driver, by rw [heq]⟩
    · exact ⟨s.device.driver, by rw [heq]⟩
  | recreate answers => exact ⟨_, rfl⟩
  | _ => exact ⟨s.device.driver, rfl⟩

/-! ## Building -/

/-- **A system just built** has its fences signalled, nothing on its way, no world, and a
    framebuffer for every image. -/
structure PresentSystem.Built (s : PresentSystem) : Prop where
  device : s.device = .new s.device.driver
  asked : s.asked = none
  worldUpload : s.engine.worldUpload = []
  worldTransfer : s.engine.worldTransfer = .new
  uiTargets : s.engine.uiTargets = some s.engine.swapchain.images.length
  extent : s.engine.extent.width ≠ 0 ∧ s.engine.extent.height ≠ 0
  uiStaging : s.engine.uiStaging.size = Render.UI_UPLOAD_CAPACITY ∧
    s.engine.uiStaging.memoryProperties &&& VK_MEMORY_PROPERTY_HOST_VISIBLE_BIT ≠ 0
  worldStaging : s.engine.worldStaging.size = WORLD_UPLOAD_CAPACITY ∧
    s.engine.worldStaging.memoryProperties &&& VK_MEMORY_PROPERTY_HOST_VISIBLE_BIT ≠ 0
  uiUpload : s.engine.uiUpload = []

/-- A buffer has the size that was asked for and all required properties. -/
theorem createBuffer_ok {size : Nat} {required : UInt32} {answer : PresentResult UInt32}
    {buffer : NativeBuffer} (h : createBuffer size required answer = .ok buffer) :
    buffer.size = size ∧ buffer.memoryProperties &&& required = required := by
  obtain ⟨properties, -, hbuffer⟩ := Ui.bind_eq_ok.mp h
  split at hbuffer
  · cases hbuffer
  · next hproperties =>
    obtain rfl := Except.ok.inj hbuffer
    exact ⟨rfl, not_not.mp hproperties⟩

/-- Targets are built for every image, and for an extent with an area only. -/
theorem buildTargets_ok {answers : TargetAnswers} {swapchain : Swapchain} {extent : Extent2D}
    {framebuffers : Nat} (h : buildTargets answers swapchain extent = .ok framebuffers) :
    framebuffers = swapchain.images.length ∧ extent.width ≠ 0 ∧ extent.height ≠ 0 := by
  obtain ⟨-, -, hrest⟩ := Ui.bind_eq_ok.mp h
  split at hrest
  · cases hrest
  · next hextent =>
    obtain ⟨-, -, hrest⟩ := Ui.bind_eq_ok.mp hrest
    exact ⟨(Except.ok.inj hrest).symm, not_or.mp hextent⟩

/-- Where every run starts. -/
theorem PresentSystem.built_of_build {color : Color} {answers : BuildAnswers} {s : PresentSystem}
    (h : PresentSystem.build color answers = .ok s) : s.Built := by
  simp only [build, Ui.bind_eq_ok] at h
  obtain ⟨-, -, extent, -, swapchain, -, framebuffers, htargets, uiStaging, hui, -, -,
    worldStaging, hworld, -, -, uiPipeline, -, worldPipeline, -, -, -, hs⟩ := h
  obtain rfl := Except.ok.inj hs
  obtain ⟨rfl, hextent⟩ := buildTargets_ok htargets
  obtain ⟨huiSize, huiVisible⟩ := createBuffer_ok hui
  obtain ⟨hworldSize, hworldVisible⟩ := createBuffer_ok hworld
  have hbit : VK_MEMORY_PROPERTY_HOST_VISIBLE_BIT ≠ 0 := by decide
  exact ⟨rfl, rfl, rfl, rfl, rfl, hextent, ⟨huiSize, by rw [huiVisible]; exact hbit⟩,
    ⟨hworldSize, by rw [hworldVisible]; exact hbit⟩, rfl⟩

end Vulkan
end EngineKit
