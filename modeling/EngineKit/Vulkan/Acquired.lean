import EngineKit.Vulkan.Fences

/-!
# Acquired images

An acquire that answers `VK_SUBOPTIMAL_KHR` brings an image and signals the frame's semaphore like
one that answers `VK_SUCCESS`. `Swapchain::acquire` makes an error of it, and `present_frame`
returns the error: the image is not presented, nothing waits on the semaphore, and the next frame
hands the same semaphore to the next acquire. The other way to lose an image is a UI draw the
engine was given and does not check until it records it.

`acquired_lawful_iff` is about runs in which nothing else goes wrong (`PresentCall.Smooth`): every
image acquired has been presented after each call just when neither happens.

The law is about three pieces of state at once, for one would not do. That nothing is acquired
between calls is what is asked for; but a frame that is given up also leaves its semaphore
signalled, and the next acquire with the same semaphore is against the rules even if it brings an
image that is then presented. `Smooth` rules out the other ways to fail, so that what remains is
exactly the two of the module's first paragraph; of `recreate`, which replaces the swapchain under
the images, nothing is said.

Most of the module shows that recording succeeds. An engine is `Sound` from its building on: what
the setters take has been checked against the sizes of the staging buffers, and the only thing that
is taken unchecked are the draws of the UI (`UiRejected`).
-/

set_option autoImplicit false

namespace EngineKit
namespace Vulkan

open Lib

/-! ## Answers -/

/-- The answers of a present or an acquire in the runs looked at. -/
def SwapchainResult (result : VkResult) : Prop :=
  result = VK_SUCCESS ∨ result = VK_SUBOPTIMAL_KHR ∨ result = VK_ERROR_OUT_OF_DATE_KHR

/-- Every other call succeeds. -/
structure FrameAnswers.Succeeds (answers : FrameAnswers) : Prop where
  finds : ∀ name, answers.finds name
  waits : ∀ frame, answers.waits frame = VK_SUCCESS
  frameWait : answers.frameWait = VK_SUCCESS
  acquired : SwapchainResult answers.acquired
  commandBufferReset : answers.commandBufferReset = VK_SUCCESS
  begun : answers.begun = VK_SUCCESS
  mapped : answers.mapped = VK_SUCCESS ∧ answers.mappedNull = false
  flushed : answers.flushed = VK_SUCCESS
  ended : answers.ended = VK_SUCCESS
  fenceReset : answers.fenceReset = VK_SUCCESS
  submitted : answers.submitted = VK_SUCCESS
  presented : SwapchainResult answers.presented

/-- Where every name is found nothing is missing. -/
theorem lookUp_ok {finds : String → Bool} (h : ∀ name, finds name) (name : String) :
    lookUp finds name = .ok () := by
  simp only [lookUp, resolveDevice, h name, if_true, ofVulkan]

theorem lookUpAndCall_ok {finds : String → Bool} (h : ∀ name, finds name) (name : String)
    {result : VkResult} (hresult : result = VK_SUCCESS) :
    lookUpAndCall finds name result = .ok () := by
  rcases lookUpAndCall_cases finds name result with ⟨hok, -⟩ | ⟨e, -, hnot⟩
  · exact hok
  · exact absurd ⟨h name, hresult⟩ hnot

theorem drawLookUps_ok {finds : String → Bool} (h : ∀ name, finds name) :
    drawLookUps finds = .ok () := by
  simp only [drawLookUps, lookUp_ok h, bind, Except.bind]

/-! ## Recording succeeds -/

/-- An upload of what fits. Rounded up to the atom, it still does. -/
theorem NativeBuffer.upload_succeeds {buffer : NativeBuffer} {answers : FrameAnswers}
    (h : answers.Succeeds) {content : Content} {bytes : List UInt8} {toVertexShader : Bool}
    {memory : Memory} (hsize : 256 ∣ buffer.size)
    (hvisible : buffer.memoryProperties &&& VK_MEMORY_PROPERTY_HOST_VISIBLE_BIT ≠ 0)
    (hbytes : bytes ≠ []) (hfits : bytes.length ≤ buffer.size) :
    ∃ commands, (buffer.upload answers content bytes toVertexShader memory).2 = .ok commands := by
  have hlength : bytes.length ≠ 0 := fun h0 => hbytes (List.eq_nil_of_length_eq_zero h0)
  have hround (atom : Nat) (hatom : atom = 1 ∨ atom = 256) :
      atom ≠ 0 ∧ ¬buffer.size < (bytes.length + (atom - 1)) / atom * atom := by
    obtain ⟨k, hk⟩ := hsize
    -- The atom is a power of two, and the sizes of the buffers are multiples of 256.
    rcases hatom with rfl | rfl
    · exact ⟨by decide, by omega⟩
    · exact ⟨by decide, by omega⟩
  have hmap : buffer.mapHostVisible answers bytes.length 256 = .ok () := by
    have hatom := hround (if buffer.memoryProperties &&& VK_MEMORY_PROPERTY_HOST_COHERENT_BIT ≠ 0
      then 1 else 256) (by split <;> simp)
    simp only [mapHostVisible, if_neg hvisible, if_neg (Nat.not_lt.mpr hfits), if_neg hatom.1,
      if_neg hatom.2, lookUp_ok h.finds, h.mapped.1, h.mapped.2, bind, Except.bind]
    rfl
  have hflush : buffer.flush answers = .ok () := by
    unfold flush
    split
    · rfl
    · exact lookUpAndCall_ok h.finds _ h.flushed
  refine ⟨[.copyBuffer content bytes.length, .bufferBarrier content bytes.length toVertexShader],
    ?_⟩
  simp only [upload, hmap, hflush, cmdCopyBufferDevice, cmdBufferBarrierDevice, if_neg hlength,
    lookUp_ok h.finds, bind, Except.bind]

/-- What every engine keeps from its building on, as long as it is not rebuilt. -/
structure PresentEngine.Sound (engine : PresentEngine) : Prop where
  uiTargets : engine.uiTargets = some engine.swapchain.images.length
  extent : ¬(engine.extent.width = 0 ∨ engine.extent.height = 0)
  uiStaging : engine.uiStaging.size = Render.UI_UPLOAD_CAPACITY ∧
    engine.uiStaging.memoryProperties &&& VK_MEMORY_PROPERTY_HOST_VISIBLE_BIT ≠ 0
  worldStaging : engine.worldStaging.size = WORLD_UPLOAD_CAPACITY ∧
    engine.worldStaging.memoryProperties &&& VK_MEMORY_PROPERTY_HOST_VISIBLE_BIT ≠ 0
  uiUpload : engine.uiUpload.length ≤ Render.UI_UPLOAD_CAPACITY
  world : engine.worldUpload ≠ [] → engine.worldUpload.length ≤ WORLD_UPLOAD_CAPACITY ∧
    engine.worldDrawCommands ≠ [] ∧
    engine.worldDrawCommands.all fun c => drawable c.vertexCount c.instanceCount c.firstVertex

/-- The frame would draw the UI, with a draw that is turned down. -/
def PresentEngine.UiRejected (engine : PresentEngine) : Prop :=
  ¬engine.rendersWorld ∧ engine.drawsUi ∧
    ¬engine.uiDrawCommands.all fun c => drawable c.vertexCount c.instanceCount c.firstVertex

namespace PresentEngine

variable {engine : PresentEngine} {answers : FrameAnswers} {image : UInt32} {memory : Memory}

/-- What is uploaded has been taken by a setter, so it fits. -/
theorem recordUploads_succeeds (h : engine.Sound) (ha : answers.Succeeds) (memory : Memory) :
    ∃ commands, (engine.recordUploads answers memory).2 = .ok commands := by
  unfold recordUploads
  split
  · next hworld =>
    split
    · have hbytes : engine.worldUpload ≠ [] := by
        intro hempty
        simp [rendersWorld, hempty] at hworld
      refine NativeBuffer.upload_succeeds ha ?_ h.worldStaging.2 hbytes ?_
      · rw [h.worldStaging.1]
        decide
      · rw [h.worldStaging.1]
        exact (h.world hbytes).1
    · exact ⟨[], rfl⟩
  · split
    · next hui =>
      refine NativeBuffer.upload_succeeds ha ?_ h.uiStaging.2 (fun hempty => ?_) ?_
      · rw [h.uiStaging.1]
        decide
      · exact hui (List.isEmpty_iff.mpr hempty)
      · rw [h.uiStaging.1]
        exact h.uiUpload
    · exact ⟨[], rfl⟩

/-- Every image of the swapchain has a framebuffer. -/
theorem framebuffer_succeeds (h : engine.Sound)
    (himage : image.toNat < engine.swapchain.images.length) :
    engine.framebuffer image = .ok image.toNat := by
  simp only [framebuffer, h.uiTargets, if_pos himage]

/-- **The pass of a frame** fails only on a draw of the UI. -/
theorem recordPass_succeeds_iff (h : engine.Sound) (ha : answers.Succeeds)
    (himage : image.toNat < engine.swapchain.images.length) :
    (∃ commands, engine.recordPass answers image = .ok commands) ↔ ¬engine.UiRejected := by
  -- The draws of the world were checked when they were set.
  by_cases hworld : engine.rendersWorld
  · have hbytes : engine.worldUpload ≠ [] := by
      intro hempty
      simp [rendersWorld, hempty] at hworld
    obtain ⟨-, hsome, hall⟩ := h.world hbytes
    have hempty : ¬(engine.extent.width = 0 ∨ engine.extent.height = 0 ∨
        engine.worldDrawCommands.isEmpty) := by
      simpa only [List.isEmpty_iff, hsome, or_false] using h.extent
    refine iff_of_true ⟨[.worldDraw image.toNat engine.color engine.worldViewProjection
      engine.worldDrawCommands], ?_⟩ fun hrejected => hrejected.1 hworld
    simp only [recordPass, if_pos hworld, recordWorldDraw, framebuffer_succeeds h himage,
      cmdWorldDraw, if_neg hempty, hall, not_true_eq_false, if_false, drawLookUps_ok ha.finds, bind,
      Except.bind]
  · by_cases hui : engine.drawsUi
    · have hsome : engine.uiDrawCommands ≠ [] := by
        intro hempty
        simp [drawsUi, hempty] at hui
      have hempty : ¬(engine.extent.width = 0 ∨ engine.extent.height = 0 ∨
          engine.uiDrawCommands.isEmpty) := by
        simpa only [List.isEmpty_iff, hsome, or_false] using h.extent
      by_cases hall : engine.uiDrawCommands.all fun c =>
          drawable c.vertexCount c.instanceCount c.firstVertex
      · refine iff_of_true ⟨[.uiDraw image.toNat engine.color engine.uiDrawCommands], ?_⟩
          fun hrejected => hrejected.2.2 hall
        simp only [recordPass, if_neg hworld, if_pos hui, recordUiDraw,
          framebuffer_succeeds h himage, cmdUiDraw, if_neg hempty, hall, not_true_eq_false,
          if_false, drawLookUps_ok ha.finds, bind, Except.bind]
      · refine iff_of_false ?_ (not_not_intro ⟨hworld, hui, hall⟩)
        intro hex
        obtain ⟨commands, hcommands⟩ := hex
        simp only [recordPass, if_neg hworld, if_pos hui, recordUiDraw,
          framebuffer_succeeds h himage, cmdUiDraw, if_neg hempty, if_pos hall, invalidQueuePlan,
          bind, Except.bind] at hcommands
        cases hcommands
    · refine iff_of_true ⟨[.imageTransition image.toNat, .clearImage image.toNat engine.color,
        .imageTransition image.toNat], ?_⟩ fun hrejected => hui hrejected.2.1
      simp only [recordPass, if_neg hworld, if_neg hui, recordClear, imageAt, if_pos himage,
        cmdImageLayoutTransition, cmdClearImage, lookUp_ok ha.finds, bind, Except.bind]

/-- **Recording** fails on the same draws as its pass. -/
theorem record_succeeds_iff (h : engine.Sound) (ha : answers.Succeeds)
    (himage : image.toNat < engine.swapchain.images.length) (memory : Memory) :
    (∃ commands, (engine.record answers image memory).2 = .ok commands) ↔ ¬engine.UiRejected := by
  obtain ⟨copies, hcopies⟩ := recordUploads_succeeds h ha memory
  have hrecord : (engine.record answers image memory).2 = (do
      let pass ← engine.recordPass answers image
      .ok (copies ++ pass)) := by
    simp only [record, lookUpAndCall_ok ha.finds _ ha.commandBufferReset,
      lookUpAndCall_ok ha.finds _ ha.begun, lookUpAndCall_ok ha.finds _ ha.ended, hcopies, bind,
      Except.bind]
  rw [hrecord, ← recordPass_succeeds_iff h ha himage]
  constructor
  · intro hex
    obtain ⟨commands, hcommands⟩ := hex
    obtain ⟨pass, hpass, -⟩ := Ui.bind_eq_ok.mp hcommands
    exact ⟨pass, hpass⟩
  · intro hex
    obtain ⟨pass, hpass⟩ := hex
    exact ⟨copies ++ pass, Ui.bind_eq_ok.mpr ⟨pass, hpass, rfl⟩⟩

/-- The frame is not turned down before its acquire. -/
def Acquires (engine : PresentEngine) : Prop :=
  ¬(engine.worldUpload ≠ [] ∧ engine.uiUpload ≠ []) ∧
    ¬(engine.worldUpload ≠ [] ∧ ¬engine.worldPipeline) ∧ engine.frames ≠ 0

/-- Every wait is answered with success. -/
theorem waitAll_succeeds (ha : answers.Succeeds) (frames : List Nat) :
    waitAll answers frames = .ok () := by
  induction frames with
  | nil => rfl
  | cons frame frames ih => simp only [waitAll, checkResult, ha.waits frame, if_true, ih, bind,
      Except.bind]

/-- Before the acquire a frame is turned down for its uploads or its pipeline only. -/
theorem awaitFrame_succeeds_iff (engine : PresentEngine) (ha : answers.Succeeds) :
    (∃ frame, engine.awaitFrame answers = .ok frame) ↔ engine.Acquires := by
  have hboth : (¬engine.worldUpload.isEmpty ∧ ¬engine.uiUpload.isEmpty) ↔
      (engine.worldUpload ≠ [] ∧ engine.uiUpload ≠ []) := by
    simp only [List.isEmpty_iff, ne_eq]
  have hpipeline : (¬engine.worldUpload.isEmpty ∧ ¬engine.worldPipeline) ↔
      (engine.worldUpload ≠ [] ∧ ¬engine.worldPipeline) := by
    simp only [List.isEmpty_iff, ne_eq]
  unfold awaitFrame
  split
  · next h =>
    refine iff_of_false ?_ fun hacquires => hacquires.1 (hboth.mp h)
    intro hex
    obtain ⟨frame, hframe⟩ := hex
    cases hframe
  split
  · next h =>
    refine iff_of_false ?_ fun hacquires => hacquires.2.1 (hpipeline.mp h)
    intro hex
    obtain ⟨frame, hframe⟩ := hex
    cases hframe
  next hnot hnot' =>
  simp only [waitAll_succeeds ha, bind, Except.bind]
  split
  · next hframes =>
    refine iff_of_false ?_ fun hacquires => hacquires.2.2 hframes
    intro hex
    obtain ⟨frame, hframe⟩ := hex
    cases hframe
  · next hframes =>
    simp only [checkResult, ha.frameWait, if_true]
    exact iff_of_true ⟨_, rfl⟩ ⟨hboth.not.mp hnot, hpipeline.not.mp hnot', hframes⟩

/-! ## What the calls keep -/

/-- Writing ranges into a copy does not change its length. -/
theorem length_writeRanges {total : Nat} {bytes : List UInt8} (ranges : List Ui.UiUploadRange)
    (h : bytes.length = total) : (Render.writeRanges total bytes ranges).1.length = total := by
  induction ranges generalizing bytes with
  | nil => exact h
  | cons range ranges ih =>
    unfold Render.writeRanges
    split
    · exact h
    · next stop hstop =>
      split
      · exact h
      · next hle =>
        have hadd := eq_of_checkedAdd hstop
        exact ih ((length_overwrite (by omega)).trans h)

/-- The setter refuses what would not fit. -/
theorem Sound.setUiUpload (h : engine.Sound) (bytes : List UInt8) (room : Bool) :
    (engine.setUiUpload bytes room).1.Sound := by
  cases room with
  | false => exact h
  | true =>
    refine ⟨h.uiTargets, h.extent, h.uiStaging, h.worldStaging, ?_, h.world⟩
    simp only [PresentEngine.setUiUpload, if_true, Render.PresentEngine.setUiUpload]
    split
    · exact h.uiUpload
    · next hle => exact Nat.le_of_not_lt hle

theorem Sound.setUiUploadRanges (h : engine.Sound) (ranges : List Ui.UiUploadRange)
    (totalBytes : Nat) (room : Bool) :
    (engine.setUiUploadRanges ranges totalBytes room).1.Sound := by
  cases room with
  | false => exact h
  | true =>
    refine ⟨h.uiTargets, h.extent, h.uiStaging, h.worldStaging, ?_, h.world⟩
    simp only [PresentEngine.setUiUploadRanges, if_true, Render.PresentEngine.setUiUploadRanges]
    split
    · exact h.uiUpload
    · next hle =>
      show (Render.writeRanges _ _ _).1.length ≤ _
      rw [length_writeRanges ranges (length_resize _ _ _)]
      exact Nat.le_of_not_lt hle

theorem Sound.setUiDrawCommands (h : engine.Sound) (commands : List Render.UiDrawCommand)
    (room : Bool) : (engine.setUiDrawCommands commands room).1.Sound := by
  cases room with
  | false => exact h
  | true => exact ⟨h.uiTargets, h.extent, h.uiStaging, h.worldStaging, h.uiUpload, h.world⟩

end PresentEngine

namespace PresentSystem

variable {s t : PresentSystem} {answers : FrameAnswers} {frame : Nat}

theorem sound_setWorldUpload (h : s.engine.Sound) (bytes : List UInt8) (camera : Camera)
    (commands : List WorldDrawCommand) (room : Bool) :
    (s.run (.setWorldUpload bytes camera commands room)).engine.Sound := by
  rcases s.run_setWorldUpload bytes camera commands room with heq | ⟨hvalid, heq⟩
  · rw [heq]
    exact h
  · rw [heq]
    obtain ⟨-, hlen, hsome, hall⟩ := drawable_of_validWorldPacket hvalid
    refine ⟨h.uiTargets, h.extent, h.uiStaging, h.worldStaging, h.uiUpload,
      fun _ => ⟨hlen, hsome, List.all_eq_true.mpr fun draw hdraw => ?_⟩⟩
    obtain ⟨hvertices, hinstances, hends⟩ := hall draw hdraw
    simp [drawable, hvertices, hinstances, hends]

theorem sound_setWorldCamera (h : s.engine.Sound) (camera : Camera) :
    (s.run (.setWorldCamera camera)).engine.Sound := by
  rcases s.run_setWorldCamera camera with heq | heq
  · rw [heq]
    exact h
  · rw [heq]
    exact ⟨h.uiTargets, h.extent, h.uiStaging, h.worldStaging, h.uiUpload, h.world⟩

theorem sound_presentFrame (h : s.engine.Sound) : (s.presentFrame answers).1.engine.Sound := by
  obtain ⟨imageIndex, worldTransfer, hengine⟩ := s.presentFrame_engine answers
  rw [hengine]
  exact ⟨h.uiTargets, h.extent, h.uiStaging, h.worldStaging, h.uiUpload, h.world⟩

/-- Where it starts. -/
theorem Built.sound (h : s.Built) : s.engine.Sound := by
  refine ⟨h.uiTargets, not_or.mpr h.extent, h.uiStaging, h.worldStaging, ?_, ?_⟩
  · rw [h.uiUpload]
    exact Nat.zero_le _
  · exact fun hworld => absurd h.worldUpload hworld

/-! ## The law -/

/-- **Every image acquired has been presented**, and no semaphore is signalled, or has been handed
    to an acquire when it was, without a submission to wait on it. -/
structure AcquiredLawful (s : PresentSystem) : Prop where
  acquired : s.device.acquired = []
  imageReady : ∀ frame, s.device.imageReady frame = false
  resignalled : s.device.resignalled = []

/-- A call of the runs looked at: `recreate` is not one, and the image an acquire brings is one of
    the swapchain's. -/
def Smooth (s : PresentSystem) : PresentCall → Prop
  | .presentFrame answers =>
    answers.Succeeds ∧ answers.image.toNat < s.engine.swapchain.images.length
  | .recreate _ => False
  | _ => True

/-- A frame that acquires an image and is then given up. -/
def Leaks (s : PresentSystem) : PresentCall → Prop
  | .presentFrame answers =>
    s.engine.Acquires ∧ (answers.acquired = VK_SUBOPTIMAL_KHR ∨
      answers.acquired = VK_SUCCESS ∧ s.engine.UiRejected)
  | _ => False

/-- An acquire that brings an image. -/
theorem acquire_device (s : PresentSystem) (frame : Nat)
    (h : answers.acquired = VK_SUCCESS ∨ answers.acquired = VK_SUBOPTIMAL_KHR) :
    ∃ driver, (s.acquire answers frame).1.device
      = { s.device with driver }.acquireImage frame answers.image.toNat :=
  ⟨(s.engine.swapchain.acquire answers.acquired answers.image s.device.driver).1, by
    simp only [acquire, if_pos h]⟩

/-- An image that is still held breaks the law. -/
theorem not_lawful_of_acquired {image : Nat} {images : List Nat}
    (h : t.device.acquired = image :: images) : ¬t.AcquiredLawful := by
  intro hlawful
  rw [hlawful.acquired] at h
  cases h

/-- A frame submitted is presented, and its semaphore waited on. -/
theorem AcquiredLawful.submitted (h : s.AcquiredLawful) (ha : answers.Succeeds)
    (hacquired : answers.acquired = VK_SUCCESS) {commands : List GpuCommand} :
    ((s.accepted answers frame commands).present answers answers.image).1.AcquiredLawful := by
  obtain ⟨driver, hdevice⟩ := acquire_device s frame (.inl hacquired)
  have hpresented : answers.finds "vkQueuePresentKHR\x00" ∧ (answers.presented = VK_SUCCESS ∨
      answers.presented = VK_SUBOPTIMAL_KHR ∨ answers.presented = VK_ERROR_OUT_OF_DATE_KHR) :=
    ⟨ha.finds _, ha.presented⟩
  have hfields :
      let t := ((s.accepted answers frame commands).present answers answers.image).1
      t.device.acquired = (answers.image.toNat :: s.device.acquired).erase answers.image.toNat ∧
        t.device.imageReady
          = Function.update (Function.update s.device.imageReady frame true) frame false ∧
        t.device.resignalled = if s.device.imageReady frame then frame :: s.device.resignalled
          else s.device.resignalled := by
    simp only [present, if_pos hpresented, accepted, unfenced, recorded, hdevice]
    exact ⟨rfl, rfl, rfl⟩
  refine ⟨?_, fun other => ?_, ?_⟩
  · rw [hfields.1, List.erase_cons_head]
    exact h.acquired
  · rw [hfields.2.1, Function.update_idem]
    by_cases heq : other = frame
    · rw [heq, Function.update_self]
    · rw [Function.update_of_ne heq]
      exact h.imageReady other
  · rw [hfields.2.2, h.imageReady frame]
    exact h.resignalled

/-- **A frame** leaves nothing acquired just when it is not given up. -/
theorem acquiredLawful_presentFrame_iff (h : s.AcquiredLawful) (hsound : s.engine.Sound)
    (hsmooth : s.Smooth (.presentFrame answers)) :
    (s.presentFrame answers).1.AcquiredLawful ↔ ¬s.Leaks (.presentFrame answers) := by
  obtain ⟨ha, himage⟩ := hsmooth
  have hacquires := s.engine.awaitFrame_succeeds_iff ha
  have hrecords := PresentEngine.record_succeeds_iff hsound ha himage s.device.memory
  have houtcome := presentFrame_outcome s answers
  -- Of the six ends of a frame, those past the acquire and short of the presentation keep the
  -- image.
  generalize (s.presentFrame answers).1 = t at houtcome ⊢
  cases houtcome with
  | refused hawait =>
    refine iff_of_true h ?_
    intro hall
    obtain ⟨hacquire, -⟩ := hall
    obtain ⟨frame, hframe⟩ := hacquires.mpr hacquire
    rw [hawait] at hframe
    cases hframe
  | @unacquired frame hawait hne =>
    rcases ha.acquired with hsuccess | hsuboptimal | houtOfDate
    · exact absurd hsuccess hne
    · obtain ⟨driver, hdevice⟩ := acquire_device s frame (.inr hsuboptimal)
      refine iff_of_false ?_ (not_not_intro ⟨hacquires.mp ⟨frame, hawait⟩, .inl hsuboptimal⟩)
      exact not_lawful_of_acquired (congrArg Device.acquired hdevice)
    · have hno : ¬(answers.acquired = VK_SUCCESS ∨ answers.acquired = VK_SUBOPTIMAL_KHR) := by
        rw [houtOfDate]
        decide
      refine iff_of_true ?_ ?_
      · simp only [acquire, if_neg hno]
        exact ⟨h.acquired, h.imageReady, h.resignalled⟩
      · rintro ⟨-, hsuboptimal | ⟨hsuccess, -⟩⟩
        · exact hno (.inr hsuboptimal)
        · exact hno (.inl hsuccess)
  | @unrecorded frame e hawait hacquired hrecord =>
    have hrejected : s.engine.UiRejected := by
      by_contra hnot
      obtain ⟨commands, hok⟩ := hrecords.mpr hnot
      rw [hrecord] at hok
      cases hok
    obtain ⟨driver, hdevice⟩ := acquire_device s frame (.inl hacquired)
    refine iff_of_false ?_ (not_not_intro
      ⟨hacquires.mp ⟨frame, hawait⟩, .inr ⟨hacquired, hrejected⟩⟩)
    exact not_lawful_of_acquired (congrArg Device.acquired hdevice)
  | unreset hawait hacquired hrecord hreset => exact absurd ha.fenceReset hreset
  | unsubmitted hawait hacquired hrecord hreset hsubmit =>
    exact absurd ⟨ha.finds _, ha.submitted⟩ hsubmit
  | @submitted frame commands hawait hacquired hrecord hreset hsubmit =>
    refine iff_of_true (h.submitted ha hacquired) ?_
    rintro ⟨-, hsuboptimal | ⟨-, hrejected⟩⟩
    · rw [hacquired] at hsuboptimal
      exact absurd hsuboptimal (by decide)
    · exact hrecords.mp ⟨commands, hrecord⟩ hrejected

/-! ## Runs -/

/-- Every smooth call keeps the engine sound. -/
theorem sound_run {call : PresentCall} (h : s.engine.Sound) (hsmooth : s.Smooth call) :
    (s.run call).engine.Sound := by
  cases call with
  | presentFrame answers => exact sound_presentFrame h
  | recreate answers => exact hsmooth.elim
  | setClearColor color =>
    exact ⟨h.uiTargets, h.extent, h.uiStaging, h.worldStaging, h.uiUpload, h.world⟩
  | setUiUpload bytes room => exact h.setUiUpload bytes room
  | setUiUploadRanges ranges totalBytes room => exact h.setUiUploadRanges ranges totalBytes room
  | setUiDrawCommands commands room => exact h.setUiDrawCommands commands room
  | setWorldUpload bytes camera commands room =>
    exact sound_setWorldUpload h bytes camera commands room
  | setWorldCamera camera => exact sound_setWorldCamera h camera
  | runNext => exact h

/-- The calls other than `present_frame` acquire nothing. -/
theorem AcquiredLawful.run (h : s.AcquiredLawful) {call : PresentCall}
    (hframe : ∀ answers, call ≠ .presentFrame answers) : (s.run call).AcquiredLawful := by
  by_cases hnext : call = .runNext
  · rw [hnext]
    show AcquiredLawful { s with device := s.device.runNext }
    unfold Device.runNext
    split
    · exact h
    · exact ⟨h.acquired, h.imageReady, h.resignalled⟩
    · exact ⟨h.acquired, h.imageReady, h.resignalled⟩
  · obtain ⟨driver, hdevice⟩ := run_device (s := s) hframe hnext
    refine ⟨?_, fun frame => ?_, ?_⟩
    · rw [hdevice]
      exact h.acquired
    · rw [hdevice]
      exact h.imageReady frame
    · rw [hdevice]
      exact h.resignalled

/-- **One call.** -/
theorem acquiredLawful_run_iff {call : PresentCall} (h : s.AcquiredLawful)
    (hsound : s.engine.Sound) (hsmooth : s.Smooth call) :
    (s.run call).AcquiredLawful ↔ ¬s.Leaks call := by
  by_cases hframe : ∃ answers, call = .presentFrame answers
  · obtain ⟨answers, rfl⟩ := hframe
    exact acquiredLawful_presentFrame_iff h hsound hsmooth
  · refine iff_of_true (h.run fun answers heq => hframe ⟨answers, heq⟩) ?_
    cases call with
    | presentFrame answers => exact absurd ⟨answers, rfl⟩ hframe
    | _ => exact id

theorem Built.acquiredLawful (h : s.Built) : s.AcquiredLawful := by
  refine ⟨?_, fun frame => ?_, ?_⟩
  · rw [h.device]
    rfl
  · rw [h.device]
    rfl
  · rw [h.device]
    rfl

/-- **Acquired images are presented.** In any smooth run from a system just built in which no frame
    is given up after its acquire, the law holds in every state; and the next call keeps it just
    when it is not such a frame. -/
theorem acquired_lawful_iff {color : Color} {answers : BuildAnswers} {s t : PresentSystem}
    (hbuild : build color answers = .ok s)
    (hrun : Reaches (Guarded (fun s call => s.Smooth call ∧ ¬s.Leaks call) runs) s t) :
    t.AcquiredLawful ∧
      ∀ call, t.Smooth call → ((t.run call).AcquiredLawful ↔ ¬t.Leaks call) := by
  have hbuilt := built_of_build hbuild
  have hboth : t.AcquiredLawful ∧ t.engine.Sound := by
    refine hrun.invariant (fun s => s.AcquiredLawful ∧ s.engine.Sound)
      ⟨hbuilt.acquiredLawful, hbuilt.sound⟩ ?_
    rintro s call t ⟨hlawful, hsound⟩ ⟨⟨hsmooth, hkept⟩, hhonest, rfl⟩
    exact ⟨(acquiredLawful_run_iff hlawful hsound hsmooth).mpr hkept, sound_run hsound hsmooth⟩
  exact ⟨hboth.1, fun call hsmooth => acquiredLawful_run_iff hboth.1 hboth.2 hsmooth⟩

end PresentSystem

/-- There are such answers. -/
theorem FrameAnswers.good_succeeds : FrameAnswers.good.Succeeds :=
  ⟨fun _ => rfl, fun _ => rfl, rfl, .inl rfl, rfl, rfl, ⟨rfl, rfl⟩, rfl, rfl, rfl, rfl, .inl rfl⟩

/-- A frame whose calls all succeed, and the queue served once. -/
theorem PresentSystem.acquired_lawful_fresh :
    (fresh.run (.presentFrame .good)).AcquiredLawful ∧
      ((fresh.run (.presentFrame .good)).run .runNext).AcquiredLawful := by
  have hsmooth : fresh.Smooth (.presentFrame .good) :=
    ⟨FrameAnswers.good_succeeds, Nat.zero_lt_two⟩
  have hkept : ¬fresh.Leaks (.presentFrame .good) := by
    rintro ⟨-, hsuboptimal | ⟨-, -, hdraws, -⟩⟩
    · exact absurd hsuboptimal (by decide)
    · exact absurd hdraws (by decide)
  have hrun := acquired_lawful_iff build_fresh (.single ⟨.presentFrame .good, ⟨hsmooth, hkept⟩,
    ⟨fun _ _ _ => rfl, fun _ => rfl⟩, rfl⟩)
  exact ⟨hrun.1, (hrun.2 .runNext trivial).mpr id⟩

/-- The answers of a compositor that finds the swapchain suboptimal. -/
def FrameAnswers.suboptimal (image : UInt32) : FrameAnswers :=
  { good with acquired := VK_SUBOPTIMAL_KHR, image }

/-- Two such frames: both images of the swapchain are gone, and the semaphore of frame 0 has been
    handed out signalled. -/
theorem PresentSystem.suboptimal_leaks_image :
    let t := (fresh.run (.presentFrame (.suboptimal 0))).run (.presentFrame (.suboptimal 1))
    build (.replicate 4 0) .good = .ok fresh ∧ Reaches (Guarded Smooth runs) fresh t ∧
      t.device.acquired = [1, 0] ∧ t.device.resignalled = [0] ∧ ¬t.AcquiredLawful := by
  have hsucceeds (image : UInt32) : (FrameAnswers.suboptimal image).Succeeds := by
    have h := FrameAnswers.good_succeeds
    exact ⟨h.finds, h.waits, h.frameWait, .inr (.inl rfl), h.commandBufferReset, h.begun, h.mapped,
      h.flushed, h.ended, h.fenceReset, h.submitted, h.presented⟩
  refine ⟨build_fresh, ?_, rfl, rfl, not_lawful_of_acquired rfl⟩
  refine .head ⟨.presentFrame (.suboptimal 0), ⟨hsucceeds 0, Nat.zero_lt_two⟩,
    ⟨fun _ _ _ => rfl, fun _ => rfl⟩, rfl⟩ (.single ⟨.presentFrame (.suboptimal 1),
    ⟨hsucceeds 1, Nat.one_lt_two⟩, ⟨fun _ _ _ => rfl, fun _ => rfl⟩, rfl⟩)

end Vulkan
end EngineKit
