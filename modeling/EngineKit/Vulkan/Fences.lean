import EngineKit.Vulkan.Frame

/-!
# No fence is left stuck

Between the calls, a frame's fence is signalled or belongs to a submission the queue has accepted:
the wait for it ends. One failure breaks this. A frame that ends after its fence is reset and
before it is submitted leaves the fence unsignalled with nothing to signal it
(`PresentCall.Strands`), and the next `present_frame` waits for it without a timeout.
`fences_lawful_iff` says that it is the only one.

A `present_frame` that gets as far as the acquire has found every fence signalled, so the queue is
empty then: at most one submission is on its way (`OneBusy`).
-/

set_option autoImplicit false

namespace EngineKit
namespace Vulkan

open Lib

namespace PresentSystem

variable {s t : PresentSystem} {answers : FrameAnswers} {frame : Nat}

/-- Each fence is signalled, or a submission will signal it. -/
def FencesLawful (s : PresentSystem) : Prop :=
  ∀ frame < s.engine.frames,
    s.device.fences frame ∨ ∃ submission ∈ s.device.queue, submission.frame = frame

/-- The frame ends with its fence reset and nothing submitted. -/
def Strands (s : PresentSystem) : PresentCall → Prop
  | .presentFrame answers =>
    ∃ frame commands, s.engine.awaitFrame answers = .ok frame ∧ answers.acquired = VK_SUCCESS ∧
      (s.engine.record answers answers.image s.device.memory).2 = .ok commands ∧
      answers.fenceReset = VK_SUCCESS ∧ ¬answers.Submits
  | _ => False

/-- At most one submission is on its way, with its fence unsignalled. -/
structure OneBusy (s : PresentSystem) : Prop where
  single : s.device.queue.length ≤ 1
  busy : ∀ submission ∈ s.device.queue,
    submission.frame < s.engine.frames ∧ s.device.fences submission.frame = false

/-- Nothing is on its way once every fence has been waited for. -/
theorem OneBusy.idle (h : s.OneBusy) (hhonest : s.Honest (.presentFrame answers))
    (hawait : s.engine.awaitFrame answers = .ok frame) : s.device.queue = [] := by
  obtain ⟨-, -, hwaits⟩ := PresentEngine.awaitFrame_ok hawait
  refine List.eq_nil_iff_forall_not_mem.mpr ?_
  intro submission hsubmission
  obtain ⟨hlt, hbusy⟩ := h.busy submission hsubmission
  have hsignalled := hhonest.1 submission.frame hlt (hwaits submission.frame hlt)
  rw [hbusy] at hsignalled
  cases hsignalled

/-! ## What does not touch the fences -/

theorem OneBusy.of_eq (h : s.OneBusy) (hqueue : t.device.queue = s.device.queue)
    (hfences : t.device.fences = s.device.fences) (hframes : t.engine.frames = s.engine.frames) :
    t.OneBusy := by
  refine ⟨by rw [hqueue]; exact h.single, ?_⟩
  rw [hqueue, hfences, hframes]
  exact h.busy

theorem FencesLawful.of_eq (h : s.FencesLawful) (hqueue : t.device.queue = s.device.queue)
    (hfences : t.device.fences = s.device.fences) (hframes : t.engine.frames = s.engine.frames) :
    t.FencesLawful := by
  unfold FencesLawful
  rw [hqueue, hfences, hframes]
  exact h

/-- The calls that are made to the engine alone. -/
theorem run_fences {call : PresentCall} (hframe : ∀ answers, call ≠ .presentFrame answers)
    (hnext : call ≠ .runNext) :
    (s.run call).device.queue = s.device.queue ∧ (s.run call).device.fences = s.device.fences ∧
      (s.run call).engine.frames = s.engine.frames := by
  obtain ⟨driver, hdevice⟩ := run_device (s := s) hframe hnext
  refine ⟨by rw [hdevice], by rw [hdevice], ?_⟩
  cases call with
  | presentFrame answers => exact absurd rfl (hframe answers)
  | runNext => exact absurd rfl hnext
  | recreate answers =>
    exact (PresentEngine.sameWorld_recreate s.engine answers s.device.driver).frames
  | setClearColor color => rfl
  | setUiUpload bytes room => exact (s.engine.sameWorld_setUiUpload bytes room).frames
  | setUiUploadRanges ranges totalBytes room =>
    exact (s.engine.sameWorld_setUiUploadRanges ranges totalBytes room).frames
  | setUiDrawCommands commands room =>
    exact (s.engine.sameWorld_setUiDrawCommands commands room).frames
  | setWorldUpload bytes camera commands room =>
    rcases s.run_setWorldUpload bytes camera commands room with heq | ⟨-, heq⟩
    · rw [heq]
    · rw [heq]
  | setWorldCamera camera =>
    rcases s.run_setWorldCamera camera with heq | heq
    · rw [heq]
    · rw [heq]

/-! ## The device -/

theorem OneBusy.runNext (h : s.OneBusy) : (s.run .runNext).OneBusy := by
  obtain ⟨engine, ⟨driver, memory, fences, imageReady, acquired, resignalled, queue⟩, asked⟩ := s
  obtain ⟨hsingle, hbusy⟩ := h
  match queue with
  | [] => exact ⟨hsingle, hbusy⟩
  | ⟨frame, [], a⟩ :: rest =>
    obtain rfl : rest = [] := List.eq_nil_of_length_eq_zero (Nat.le_zero.mp
      (Nat.le_of_succ_le_succ hsingle))
    exact ⟨Nat.zero_le 1, List.forall_mem_nil _⟩
  | ⟨frame, command :: commands, a⟩ :: rest =>
    obtain ⟨hhead, hrest⟩ := List.forall_mem_cons.mp hbusy
    exact ⟨hsingle, List.forall_mem_cons.mpr ⟨hhead, hrest⟩⟩

theorem FencesLawful.runNext (h : s.FencesLawful) : (s.run .runNext).FencesLawful := by
  obtain ⟨engine, ⟨driver, memory, fences, imageReady, acquired, resignalled, queue⟩, asked⟩ := s
  match queue with
  | [] => exact h
  | ⟨done, [], a⟩ :: rest =>
    intro frame hframe
    show Function.update fences done true frame = true ∨ _
    by_cases heq : frame = done
    · exact .inl (by rw [heq, Function.update_self])
    · rw [Function.update_of_ne heq]
      rcases h frame hframe with hsignalled | ⟨submission, hmem, hsubmission⟩
      · exact .inl hsignalled
      · rcases List.mem_cons.mp hmem with rfl | hrest
        · exact absurd hsubmission.symm heq
        · exact .inr ⟨submission, hrest, hsubmission⟩
  | ⟨busy, command :: commands, a⟩ :: rest =>
    intro frame hframe
    rcases h frame hframe with hsignalled | ⟨submission, hmem, hsubmission⟩
    · exact .inl hsignalled
    · rcases List.mem_cons.mp hmem with rfl | hrest
      · exact .inr ⟨_, List.mem_cons_self, hsubmission⟩
      · exact .inr ⟨submission, List.mem_cons_of_mem _ hrest, hsubmission⟩

/-! ## A frame -/

/-- Once the fence is reset, the frame is the only one whose fence is not signalled. -/
theorem OneBusy.submitted {commands : List GpuCommand} (hqueue : s.device.queue = [])
    (hlt : frame < s.engine.frames) (hframes : t.engine.frames = s.engine.frames)
    (hfences : t.device.fences = Function.update s.device.fences frame false)
    (ht : t.device.queue = s.device.queue ++ [⟨frame, commands, s.asked⟩]) : t.OneBusy := by
  rw [hqueue, List.nil_append] at ht
  refine ⟨by rw [ht]; exact Nat.le_refl 1, ?_⟩
  rw [ht, hfences, hframes, List.forall_mem_singleton]
  exact ⟨hlt, Function.update_self ..⟩

theorem FencesLawful.submitted {commands : List GpuCommand} (h : s.FencesLawful)
    (hframes : t.engine.frames = s.engine.frames)
    (hfences : t.device.fences = Function.update s.device.fences frame false)
    (ht : t.device.queue = s.device.queue ++ [⟨frame, commands, s.asked⟩]) : t.FencesLawful := by
  intro other hother
  rw [hframes] at hother
  rw [hfences, ht]
  by_cases heq : other = frame
  · exact .inr ⟨⟨frame, commands, s.asked⟩, List.mem_append_right _ List.mem_cons_self, heq.symm⟩
  · rw [Function.update_of_ne heq]
    rcases h other hother with hsignalled | ⟨submission, hmem, hsubmission⟩
    · exact .inl hsignalled
    · exact .inr ⟨submission, List.mem_append_left _ hmem, hsubmission⟩

/-- A frame submitted, as far as fences go. -/
theorem submitted_fences (s : PresentSystem) (answers : FrameAnswers) (frame : Nat)
    (image : UInt32) (commands : List GpuCommand) :
    let t := ((s.accepted answers frame commands).present answers image).1
    t.engine.frames = s.engine.frames ∧
      t.device.fences = Function.update s.device.fences frame false ∧
      t.device.queue = s.device.queue ++ [⟨frame, commands, s.asked⟩] := by
  refine ⟨?_, ?_, ?_⟩
  · simp only [present_engine, accepted]
    split <;> rfl
  · rw [present_fences, accepted_fences]
  · rw [present_queue, accepted_queue]

/-- **A frame that is not stranded**, and only such a frame, leaves no fence stuck. -/
theorem fencesLawful_presentFrame_iff (h : s.FencesLawful) (hbusy : s.OneBusy)
    (hhonest : s.Honest (.presentFrame answers)) :
    (s.presentFrame answers).1.FencesLawful ↔ ¬s.Strands (.presentFrame answers) := by
  have houtcome := presentFrame_outcome s answers
  generalize (s.presentFrame answers).1 = t at houtcome ⊢
  cases houtcome with
  | refused hawait =>
    refine iff_of_true ?_ ?_
    · exact h
    · intro hex
      obtain ⟨frame, commands, hframe, -⟩ := hex
      rw [hawait] at hframe
      cases hframe
  | unacquired hawait hacquired =>
    refine iff_of_true ?_ ?_
    · exact h.of_eq acquire_queue acquire_fences rfl
    · intro hex
      obtain ⟨frame, commands, -, hsuccess, -⟩ := hex
      exact hacquired hsuccess
  | unrecorded hawait hacquired hrecord =>
    refine iff_of_true ?_ ?_
    · exact h.of_eq (recorded_queue _ _ _) (recorded_fences _ _ _) rfl
    · intro hex
      obtain ⟨frame, commands, -, -, hok, -⟩ := hex
      rw [hrecord] at hok
      cases hok
  | unreset hawait hacquired hrecord hreset =>
    refine iff_of_true ?_ ?_
    · exact h.of_eq (recorded_queue _ _ _) (recorded_fences _ _ _) rfl
    · intro hex
      obtain ⟨frame, commands, -, -, -, hsuccess, -⟩ := hex
      exact hreset hsuccess
  | @unsubmitted frame commands hawait hacquired hrecord hreset hsubmit =>
    refine iff_of_false (fun hlawful => ?_) (not_not_intro
      ⟨frame, commands, hawait, hacquired, hrecord, hreset, hsubmit⟩)
    -- nothing is on its way, and the frame's fence is not signalled
    have hlt := (PresentEngine.awaitFrame_ok hawait).2.1
    rcases hlawful frame hlt with hsignalled | ⟨submission, hmem, -⟩
    · rw [unfenced_fences, Function.update_self] at hsignalled
      cases hsignalled
    · rw [unfenced_queue, hbusy.idle hhonest hawait] at hmem
      cases hmem
  | @submitted frame commands hawait hacquired hrecord hreset hsubmit =>
    refine iff_of_true ?_ ?_
    · obtain ⟨hframes, hfences, hqueue⟩ := submitted_fences s answers frame answers.image commands
      exact h.submitted hframes hfences hqueue
    · intro hex
      obtain ⟨_, _, -, -, -, -, hnot⟩ := hex
      exact hnot hsubmit

theorem OneBusy.presentFrame (h : s.OneBusy) (hhonest : s.Honest (.presentFrame answers)) :
    (s.presentFrame answers).1.OneBusy := by
  have houtcome := presentFrame_outcome s answers
  generalize (s.presentFrame answers).1 = t at houtcome ⊢
  cases houtcome with
  | refused hawait => exact h
  | unacquired hawait hacquired => exact h.of_eq acquire_queue acquire_fences rfl
  | unrecorded hawait hacquired hrecord =>
    exact h.of_eq (recorded_queue _ _ _) (recorded_fences _ _ _) rfl
  | unreset hawait hacquired hrecord hreset =>
    exact h.of_eq (recorded_queue _ _ _) (recorded_fences _ _ _) rfl
  | unsubmitted hawait hacquired hrecord hreset hsubmit =>
    refine ⟨?_, ?_⟩
    · rw [unfenced_queue, h.idle hhonest hawait]
      exact Nat.zero_le 1
    · rw [unfenced_queue, h.idle hhonest hawait]
      exact List.forall_mem_nil _
  | @submitted frame commands hawait hacquired hrecord hreset hsubmit =>
    obtain ⟨hframes, hfences, hqueue⟩ := submitted_fences s answers frame answers.image commands
    have hlt := (PresentEngine.awaitFrame_ok hawait).2.1
    exact .submitted (h.idle hhonest hawait) hlt hframes hfences hqueue

/-! ## Runs -/

theorem OneBusy.run {call : PresentCall} (h : s.OneBusy) (hhonest : s.Honest call) :
    (s.run call).OneBusy := by
  by_cases hnext : call = .runNext
  · rw [hnext]
    exact h.runNext
  · by_cases hframe : ∃ answers, call = .presentFrame answers
    · obtain ⟨answers, rfl⟩ := hframe
      exact h.presentFrame hhonest
    · obtain ⟨hqueue, hfences, hframes⟩ :=
        run_fences (s := s) (fun answers heq => hframe ⟨answers, heq⟩) hnext
      exact h.of_eq hqueue hfences hframes

theorem fencesLawful_run_iff {call : PresentCall} (h : s.FencesLawful) (hbusy : s.OneBusy)
    (hhonest : s.Honest call) : (s.run call).FencesLawful ↔ ¬s.Strands call := by
  by_cases hnext : call = .runNext
  · rw [hnext]
    exact iff_of_true h.runNext id
  · by_cases hframe : ∃ answers, call = .presentFrame answers
    · obtain ⟨answers, rfl⟩ := hframe
      exact fencesLawful_presentFrame_iff h hbusy hhonest
    · obtain ⟨hqueue, hfences, hframes⟩ :=
        run_fences (s := s) (fun answers heq => hframe ⟨answers, heq⟩) hnext
      refine iff_of_true (h.of_eq hqueue hfences hframes) ?_
      cases call with
      | presentFrame answers => exact absurd ⟨answers, rfl⟩ hframe
      | _ => exact id

theorem Built.oneBusy (h : s.Built) : s.OneBusy := by
  refine ⟨?_, ?_⟩
  · rw [h.device]
    exact Nat.zero_le 1
  · rw [h.device]
    exact List.forall_mem_nil _

theorem Built.fencesLawful (h : s.Built) : s.FencesLawful := by
  intro frame _
  rw [h.device]
  exact .inl rfl

/-- **No fence is left stuck.** In any run from a system just built in which no frame is stranded,
    every state has each fence signalled or in the hands of a submission; and the next call keeps
    it so just when it does not strand a frame. -/
theorem fences_lawful_iff {color : Color} {answers : BuildAnswers} {s t : PresentSystem}
    (hbuild : build color answers = .ok s)
    (hrun : Reaches (Guarded (fun s call => ¬s.Strands call) runs) s t) :
    t.FencesLawful ∧ ∀ call, t.Honest call → ((t.run call).FencesLawful ↔ ¬t.Strands call) := by
  have hbuilt := built_of_build hbuild
  have hboth : t.FencesLawful ∧ t.OneBusy := by
    refine hrun.invariant (fun s => s.FencesLawful ∧ s.OneBusy)
      ⟨hbuilt.fencesLawful, hbuilt.oneBusy⟩ ?_
    rintro s call t ⟨hlawful, hbusy⟩ ⟨hkept, hhonest, rfl⟩
    exact ⟨(fencesLawful_run_iff hlawful hbusy hhonest).mpr hkept, hbusy.run hhonest⟩
  exact ⟨hboth.1, fun call hhonest => fencesLawful_run_iff hboth.1 hboth.2 hhonest⟩

end PresentSystem

/-- A device where every command is found and every call answers `VK_SUCCESS`. -/
def FrameAnswers.good : FrameAnswers where
  finds _ := true
  waits _ := VK_SUCCESS
  frameWait := VK_SUCCESS
  acquired := VK_SUCCESS
  image := 0
  commandBufferReset := VK_SUCCESS
  begun := VK_SUCCESS
  mapped := VK_SUCCESS
  mappedNull := false
  flushed := VK_SUCCESS
  ended := VK_SUCCESS
  fenceReset := VK_SUCCESS
  submitted := VK_SUCCESS
  presented := VK_SUCCESS

/-- And one it builds an engine of two frames on. -/
def BuildAnswers.good : BuildAnswers where
  opened := .ok ()
  configured := .ok ⟨640, 480⟩
  swapchain := .good
  targets := ⟨.ok (), .ok ()⟩
  uiStaging := .ok 6
  uiDevice := .ok 1
  worldStaging := .ok 6
  worldDevice := .ok 1
  uiPipeline := .ok true
  worldPipeline := .ok true
  frames := .ok ()

def PresentSystem.fresh : PresentSystem where
  engine :=
    { uiUpload := []
      uiDrawCommands := []
      uiPipeline := true
      worldPipeline := true
      uiTargets := some 2
      swapchain := ⟨0, [1, 2]⟩
      frames := 2
      imageIndex := 0
      color := .replicate 4 0
      extent := ⟨640, 480⟩
      uiStaging := ⟨Render.UI_UPLOAD_CAPACITY, 6⟩
      worldStaging := ⟨WORLD_UPLOAD_CAPACITY, 6⟩
      worldUpload := []
      worldTransfer := .new
      worldViewProjection := .replicate 16 0
      worldDrawCommands := [] }
  device := .new ⟨1, [], []⟩
  asked := none

theorem PresentSystem.build_fresh : build (.replicate 4 0) .good = .ok fresh := rfl

/-- A frame whose submission succeeds leaves its fence pending, and the queue signals it. -/
theorem PresentSystem.fences_lawful_fresh :
    (fresh.run (.presentFrame .good)).FencesLawful ∧
      ((fresh.run (.presentFrame .good)).run .runNext).FencesLawful := by
  have hhonest : fresh.Honest (.presentFrame .good) := ⟨fun _ _ _ => rfl, fun _ => rfl⟩
  have hkept : ¬fresh.Strands (.presentFrame .good) := by
    intro hex
    obtain ⟨_, _, -, -, -, -, hnot⟩ := hex
    exact hnot ⟨rfl, rfl⟩
  have hrun := fences_lawful_iff build_fresh
    (.single ⟨.presentFrame .good, hkept, hhonest, rfl⟩)
  exact ⟨hrun.1, (hrun.2 .runNext trivial).mpr id⟩

/-- The first submission fails: the fence of frame 0 is reset, and nothing will signal it. -/
theorem PresentSystem.failed_submit_strands_fence :
    build (.replicate 4 0) .good = .ok fresh ∧
      Reaches runs fresh (fresh.run (.presentFrame { FrameAnswers.good with submitted := -3 })) ∧
      ¬(fresh.run (.presentFrame { FrameAnswers.good with submitted := -3 })).FencesLawful := by
  refine ⟨build_fresh, .single ⟨.presentFrame { FrameAnswers.good with submitted := -3 },
    ⟨fun _ _ _ => rfl, fun _ => rfl⟩, rfl⟩, fun hlawful => ?_⟩
  rcases hlawful 0 (by decide) with hsignalled | ⟨submission, hmem, -⟩
  · cases hsignalled
  · cases hmem

end Vulkan
end EngineKit
