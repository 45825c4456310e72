import EngineKit.Vulkan.Fences

/-!
# The world buffer at a draw

The device runs a submission some time after it is accepted, and by then the caller may have asked
for another world. What a draw shows is compared with what was asked for when its submission was
accepted: the buffer the shader sees begins with those bytes, and the draws and the camera are
those (`ShownWorld.Current`).

The invariant looks ahead. `settle` runs what is accepted to its end; nothing it shows is stale
(`Fresh.shown`), and while no transfer is pending the buffer it leaves begins with the engine's
bytes (`Fresh.clean`). The device's own steps do not change what it settles to, and when a frame
is recorded there is nothing on its way, so the staging buffer may be written.

What is shown could be compared with what is asked for at the time of the draw, and that would be
false: the device runs late. So each submission carries what was asked for when it was accepted, and
the comparison is with that. And because it runs late, the memory in between is of no interest. The
invariant is about the memory the queue leads to (`settled`), which a step of the device does not
change.

A frame is recorded only when its fence has been waited for and the queue is empty, so there is a
single place where `settled` gets anything new (`Fresh.world_submitted`).
-/

set_option autoImplicit false

namespace EngineKit
namespace Vulkan

open Lib

/-- **What is shown is what was asked for**, and its instances lie inside the bytes. -/
def ShownWorld.Current (shown : ShownWorld) : Prop :=
  ∃ asked, shown.asked = some asked ∧ asked.bytes <+: shown.buffer ∧
    shown.commands = asked.commands ∧ shown.camera = asked.camera ∧
    ∀ draw ∈ shown.commands, (draw.firstInstance.toNat + draw.instanceCount.toNat)
      * GPU_INSTANCE_RECORD_SIZE ≤ asked.bytes.length

/-! ## Submissions and memory -/

/-- What is written at the front is the front. -/
theorem take_overwrite_zero {α : Type} (xs bs : List α) :
    (overwrite xs 0 bs).take bs.length = bs := by
  rw [overwrite_zero, List.take_left']
  rfl

namespace Memory

variable {memory : Memory}

/-- Two memories that differ in what the UI wrote, or in what the host has staged. -/
def SameShown (memory memory' : Memory) : Prop :=
  memory'.world.visible = memory.world.visible ∧ memory'.shown = memory.shown

theorem SameShown.trans {m₁ m₂ m₃ : Memory} (h : m₁.SameShown m₂) (h' : m₂.SameShown m₃) :
    m₁.SameShown m₃ :=
  ⟨h'.1.trans h.1, h'.2.trans h.2⟩

/-- Staging shows nothing. -/
theorem sameShown_stage (memory : Memory) (content : Content) (bytes : List UInt8) :
    memory.SameShown (memory.stage content bytes) := by
  cases content with
  | world => exact ⟨rfl, rfl⟩
  | ui => exact ⟨rfl, rfl⟩

end Memory

/-- What has been shown stays so. -/
theorem Memory.shown_execute (asked : Option AskedWorld) (memory : Memory) (command : GpuCommand) :
    memory.shown ⊆ (memory.execute asked command).shown := by
  have hlane (lane : Lane) (content : Content) :
      memory.shown ⊆ (memory.setLane lane content).shown := by
    -- A copy or a barrier writes a lane and shows nothing.
    cases content with
    | world => exact List.Subset.refl _
    | ui => exact List.Subset.refl _
  cases command with
  | copyBuffer content size => exact hlane _ content
  | bufferBarrier content size toVertexShader =>
    simp only [execute]
    split
    · exact hlane _ content
    · exact List.Subset.refl _
  | worldDraw framebuffer color camera commands => exact List.subset_cons_self _ _
  | uiDraw framebuffer color commands => exact List.Subset.refl _
  | imageTransition image => exact List.Subset.refl _
  | clearImage image color => exact List.Subset.refl _

/-- Nor is it lost as the queue is run. -/
theorem Memory.shown_settle (memory : Memory) (queue : List Submission) :
    memory.shown ⊆ (memory.settle queue).shown := by
  have hrun (asked : Option AskedWorld) (commands : List GpuCommand) (memory : Memory) :
      memory.shown ⊆ (commands.foldl (Memory.execute asked) memory).shown := by
    induction commands generalizing memory with
    | nil => exact List.Subset.refl _
    | cons command commands ih =>
      exact List.Subset.trans (shown_execute asked memory command) (ih _)
  induction queue generalizing memory with
  | nil => exact List.Subset.refl _
  | cons submission queue ih => exact List.Subset.trans (hrun _ _ memory) (ih _)

/-- A command that is not about the world. -/
def GpuCommand.Aside : GpuCommand → Prop
  | .copyBuffer content _ => content = .ui
  | .bufferBarrier content _ _ => content = .ui
  | .worldDraw .. => False
  | _ => True

theorem Memory.sameShown_execute (asked : Option AskedWorld) (memory : Memory)
    {command : GpuCommand} (h : command.Aside) :
    memory.SameShown (memory.execute asked command) := by
  cases command with
  | copyBuffer content size =>
    obtain rfl : content = .ui := h
    exact ⟨rfl, rfl⟩
  | bufferBarrier content size toVertexShader =>
    obtain rfl : content = .ui := h
    simp only [execute]
    split <;> exact ⟨rfl, rfl⟩
  | worldDraw framebuffer color camera commands => exact h.elim
  | uiDraw framebuffer color commands => exact ⟨rfl, rfl⟩
  | imageTransition image => exact ⟨rfl, rfl⟩
  | clearImage image color => exact ⟨rfl, rfl⟩

theorem Memory.sameShown_executeAll (asked : Option AskedWorld) (memory : Memory)
    {commands : List GpuCommand} (h : ∀ command ∈ commands, command.Aside) :
    memory.SameShown (commands.foldl (Memory.execute asked) memory) := by
  induction commands generalizing memory with
  | nil => exact ⟨rfl, rfl⟩
  | cons command commands ih =>
    obtain ⟨hcommand, hrest⟩ := List.forall_mem_cons.mp h
    exact (sameShown_execute asked memory hcommand).trans (ih _ hrest)

/-- **The copy, the barrier and the draw** show the bytes just staged. -/
theorem Memory.execute_world (asked : Option AskedWorld) (memory : Memory) (bytes : List UInt8)
    (framebuffer : Nat) (color : Color) (camera : Camera) (commands : List WorldDrawCommand) :
    let memory' := [GpuCommand.copyBuffer .world bytes.length,
      .bufferBarrier .world bytes.length true, .worldDraw framebuffer color camera
      commands].foldl (Memory.execute asked) (memory.stage .world bytes)
    bytes <+: memory'.world.visible ∧
      memory'.shown = ⟨memory'.world.visible, camera, commands, asked⟩ :: memory.shown := by
  refine ⟨?_, rfl⟩
  show bytes <+: overwrite memory.world.visible 0 ((overwrite memory.world.written 0
    ((overwrite memory.world.staging 0 bytes).take bytes.length)).take bytes.length)
  rw [take_overwrite_zero, take_overwrite_zero, overwrite_zero]
  exact List.prefix_append _ _

/-! ## What a frame records -/

namespace PresentEngine

variable {engine : PresentEngine} {answers : FrameAnswers} {image : UInt32} {memory : Memory}
  {commands : List GpuCommand}

/-- An upload writes its staging buffer or nothing. -/
theorem upload_memory (answers : FrameAnswers) (memory : Memory) (buffer : NativeBuffer)
    (content : Content) (bytes : List UInt8) (toVertexShader : Bool) :
    (buffer.upload answers content bytes toVertexShader memory).1 = memory ∨
      (buffer.upload answers content bytes toVertexShader memory).1
        = memory.stage content bytes := by
  unfold NativeBuffer.upload
  split
  · exact .inl rfl
  · exact .inr rfl

/-- And when it succeeds, it is to be copied and made visible. -/
theorem upload_ok {buffer : NativeBuffer} {content : Content} {bytes : List UInt8}
    {toVertexShader : Bool}
    (h : (buffer.upload answers content bytes toVertexShader memory).2 = .ok commands) :
    (buffer.upload answers content bytes toVertexShader memory).1 = memory.stage content bytes ∧
      commands = [.copyBuffer content bytes.length,
        .bufferBarrier content bytes.length toVertexShader] := by
  unfold NativeBuffer.upload at h ⊢
  split at h
  · cases h
  · simp only [Ui.bind_eq_ok] at h
    obtain ⟨-, -, copy, hcopy, barrier, hbarrier, hcommands⟩ := h
    simp only [cmdCopyBufferDevice] at hcopy
    simp only [cmdBufferBarrierDevice] at hbarrier
    split at hcopy
    · cases hcopy
    split at hbarrier
    · cases hbarrier
    obtain ⟨-, -, hcopy⟩ := Ui.bind_eq_ok.mp hcopy
    obtain ⟨-, -, hbarrier⟩ := Ui.bind_eq_ok.mp hbarrier
    obtain rfl := Except.ok.inj hcopy
    obtain rfl := Except.ok.inj hbarrier
    exact ⟨rfl, (Except.ok.inj hcommands).symm⟩

/-- Whatever is recorded, nothing is shown yet. -/
theorem sameShown_record (engine : PresentEngine) (answers : FrameAnswers) (image : UInt32)
    (memory : Memory) : memory.SameShown (engine.record answers image memory).1 := by
  have hupload (buffer : NativeBuffer) (content : Content) (bytes : List UInt8)
      (toVertexShader : Bool) :
      memory.SameShown (buffer.upload answers content bytes toVertexShader memory).1 := by
    rcases upload_memory answers memory buffer content bytes toVertexShader with heq | heq
    · rw [heq]
      exact ⟨rfl, rfl⟩
    · rw [heq]
      exact Memory.sameShown_stage memory content bytes
  have huploads : memory.SameShown (engine.recordUploads answers memory).1 := by
    unfold recordUploads
    split
    · split
      · exact hupload _ _ _ _
      · exact ⟨rfl, rfl⟩
    · split
      · exact hupload _ _ _ _
      · exact ⟨rfl, rfl⟩
  unfold record
  simp only
  split
  · exact ⟨rfl, rfl⟩
  · exact huploads

/-- A frame recorded is its copies and its pass. -/
theorem record_ok (h : (engine.record answers image memory).2 = .ok commands) :
    ∃ copies pass, (engine.recordUploads answers memory).2 = .ok copies ∧
      engine.recordPass answers image = .ok pass ∧ commands = copies ++ pass ∧
      (engine.record answers image memory).1 = (engine.recordUploads answers memory).1 := by
  unfold record at h ⊢
  simp only at h ⊢
  split at h
  · cases h
  · simp only [Ui.bind_eq_ok] at h
    obtain ⟨copies, hcopies, pass, hpass, -, -, hcommands⟩ := h
    exact ⟨copies, pass, hcopies, hpass, (Except.ok.inj hcommands).symm, rfl⟩

/-- The pass of a world frame. -/
theorem recordPass_world (hworld : engine.rendersWorld)
    (h : engine.recordPass answers image = .ok commands) :
    ∃ framebuffer, commands = [.worldDraw framebuffer engine.color engine.worldViewProjection
      engine.worldDrawCommands] := by
  rw [recordPass, if_pos hworld] at h
  obtain ⟨framebuffer, -, hdraw⟩ := Ui.bind_eq_ok.mp h
  obtain ⟨draw, hdraw, hcommands⟩ := Ui.bind_eq_ok.mp hdraw
  unfold cmdWorldDraw at hdraw
  split at hdraw
  · cases hdraw
  split at hdraw
  · cases hdraw
  obtain ⟨-, -, hdraw⟩ := Ui.bind_eq_ok.mp hdraw
  obtain rfl := Except.ok.inj hdraw
  exact ⟨framebuffer, (Except.ok.inj hcommands).symm⟩

/-- The commands of any other frame. -/
theorem record_aside (hworld : ¬engine.rendersWorld)
    (h : (engine.record answers image memory).2 = .ok commands) :
    ∀ command ∈ commands, command.Aside := by
  obtain ⟨copies, pass, hcopies, hpass, rfl, -⟩ := record_ok h
  refine List.forall_mem_append.mpr ⟨?_, ?_⟩
  · rw [recordUploads, if_neg hworld] at hcopies
    -- The copies of the world are recorded for a world frame alone.
    split at hcopies
    · obtain ⟨-, rfl⟩ := upload_ok hcopies
      simp [GpuCommand.Aside]
    · obtain rfl := Except.ok.inj hcopies
      exact List.forall_mem_nil _
  · rw [recordPass, if_neg hworld] at hpass
    split at hpass
    · obtain ⟨framebuffer, -, hdraw⟩ := Ui.bind_eq_ok.mp hpass
      obtain ⟨draw, hdraw, hcommands⟩ := Ui.bind_eq_ok.mp hdraw
      unfold cmdUiDraw at hdraw
      split at hdraw
      · cases hdraw
      split at hdraw
      · cases hdraw
      obtain ⟨-, -, hdraw⟩ := Ui.bind_eq_ok.mp hdraw
      obtain rfl := Except.ok.inj hdraw
      obtain rfl := Except.ok.inj hcommands
      exact List.forall_mem_singleton.mpr trivial
    · simp only [recordClear, cmdImageLayoutTransition, cmdClearImage, Ui.bind_eq_ok] at hpass
      obtain ⟨i, -, general, ⟨-, -, hgeneral⟩, clear, ⟨-, -, hclear⟩, presentable,
        ⟨-, -, hpresentable⟩, hcommands⟩ := hpass
      obtain rfl := Except.ok.inj hgeneral
      obtain rfl := Except.ok.inj hclear
      obtain rfl := Except.ok.inj hpresentable
      obtain rfl := Except.ok.inj hcommands
      simp [GpuCommand.Aside]

end PresentEngine

/-! ## The invariant -/

namespace PresentSystem

variable {s t : PresentSystem} {answers : FrameAnswers} {frame : Nat}

/-- The memory once the device has run everything it has accepted. -/
def settled (s : PresentSystem) : Memory := s.device.memory.settle s.device.queue

/-- The engine holds what was asked for. -/
def Asked (engine : PresentEngine) (asked : Option AskedWorld) : Prop :=
  asked = none ∧ engine.worldUpload = [] ∨
    asked = some ⟨engine.worldUpload, engine.worldViewProjection, engine.worldDrawCommands⟩ ∧
      ∀ draw ∈ engine.worldDrawCommands, (draw.firstInstance.toNat + draw.instanceCount.toNat)
        * GPU_INSTANCE_RECORD_SIZE ≤ engine.worldUpload.length

/-- **The invariant.** -/
structure Fresh (s : PresentSystem) : Prop where
  busy : s.OneBusy
  asked : Asked s.engine s.asked
  clean : s.engine.worldTransfer.pending = false → s.engine.worldUpload <+: s.settled.world.visible
  shown : ∀ shown ∈ s.settled.shown, shown.Current

/-- A step that keeps the world and shows nothing. -/
theorem Fresh.of_same (h : s.Fresh) (hbusy : t.OneBusy) (hworld : s.engine.SameWorld t.engine)
    (hasked : t.asked = s.asked) (hsettled : s.settled.SameShown t.settled) : t.Fresh := by
  refine ⟨hbusy, ?_, ?_, ?_⟩
  · rw [hasked, Asked, hworld.worldUpload, hworld.worldViewProjection, hworld.worldDrawCommands]
    exact h.asked
  · rw [hworld.worldTransfer, hworld.worldUpload, hsettled.1]
    exact h.clean
  · rw [hsettled.2]
    exact h.shown

/-- With nothing in the queue the memory is as it is. -/
theorem settled_of_idle (hqueue : s.device.queue = []) : s.settled = s.device.memory := by
  rw [settled, hqueue]
  rfl

/-- **A world frame submitted** shows the world asked for, and its bytes are in the buffer. -/
theorem Fresh.world_submitted {commands : List GpuCommand} {memory : Memory} (h : s.Fresh)
    (hqueue : s.device.queue = []) (hworld : s.engine.rendersWorld)
    (hrecord : (s.engine.record answers answers.image s.device.memory).2 = .ok commands)
    (hmemory : memory = commands.foldl (Memory.execute s.asked)
      (s.engine.record answers answers.image s.device.memory).1) :
    s.engine.worldUpload <+: memory.world.visible ∧ ∀ shown ∈ memory.shown, shown.Current := by
  obtain ⟨copies, pass, hcopies, hpass, rfl, hstaged⟩ := PresentEngine.record_ok hrecord
  obtain ⟨framebuffer, rfl⟩ := PresentEngine.recordPass_world hworld hpass
  have hsettled := settled_of_idle hqueue
  rw [hstaged] at hmemory
  -- whatever is shown beside what has been shown before is what was asked for
  have hcurrent (buffer : List UInt8)
      (hbuffer : s.engine.worldUpload <+: buffer) (hshown : memory.shown =
        ⟨buffer, s.engine.worldViewProjection, s.engine.worldDrawCommands, s.asked⟩ ::
          s.device.memory.shown) : ∀ shown ∈ memory.shown, shown.Current := by
    rw [hshown, ← hsettled]
    refine List.forall_mem_cons.mpr ⟨?_, h.shown⟩
    -- Nothing was asked for and nothing is drawn; or what is drawn was asked for.
    rcases h.asked with ⟨-, hempty⟩ | ⟨hasked, hinside⟩
    · simp [PresentEngine.rendersWorld, hempty] at hworld
    · exact ⟨_, hasked, hbuffer, rfl, rfl, hinside⟩
  rw [PresentEngine.recordUploads, if_pos hworld] at hcopies hmemory
  -- With a transfer pending the frame copies the bytes; without, they are in the buffer already.
  by_cases hpending : s.engine.worldTransfer.pending
  · rw [if_pos hpending] at hcopies hmemory
    obtain ⟨hmem, rfl⟩ := PresentEngine.upload_ok hcopies
    rw [hmem] at hmemory
    have hrun := Memory.execute_world s.asked s.device.memory s.engine.worldUpload framebuffer
      s.engine.color s.engine.worldViewProjection s.engine.worldDrawCommands
    rw [List.cons_append, List.cons_append, List.nil_append] at hmemory
    simp only [← hmemory] at hrun
    exact ⟨hrun.1, hcurrent _ hrun.1 hrun.2⟩
  · rw [if_neg hpending] at hcopies hmemory
    obtain rfl := Except.ok.inj hcopies
    have hclean := h.clean (Bool.not_eq_true _ |>.mp hpending)
    rw [hsettled] at hclean
    subst hmemory
    exact ⟨hclean, hcurrent _ hclean rfl⟩

/-- Recording changes nothing that is shown. -/
theorem settled_recorded (hqueue : s.device.queue = []) :
    s.settled.SameShown (s.recorded answers frame).settled := by
  have hsettled : (s.recorded answers frame).settled
      = (s.engine.record answers answers.image s.device.memory).1 := by
    rw [settled, recorded_queue, hqueue]
    rfl
  rw [hsettled, settled_of_idle hqueue]
  exact PresentEngine.sameShown_record s.engine answers answers.image s.device.memory

/-- A submission to an empty queue is what is run next. -/
theorem settled_submitted (s : PresentSystem) (answers : FrameAnswers) (frame : Nat)
    (commands : List GpuCommand) (hqueue : s.device.queue = []) :
    ((s.accepted answers frame commands).present answers answers.image).1.settled
      = commands.foldl (Memory.execute s.asked)
          (s.engine.record answers answers.image s.device.memory).1 := by
  rw [settled, present_queue, accepted_queue, hqueue, present_memory]
  rfl

/-- **A frame submitted**, of the world or not. -/
theorem Fresh.submitted {commands : List GpuCommand} (h : s.Fresh) (hqueue : s.device.queue = [])
    (hrecord : (s.engine.record answers answers.image s.device.memory).2 = .ok commands)
    (hbusy : ((s.accepted answers frame commands).present answers answers.image).1.OneBusy) :
    ((s.accepted answers frame commands).present answers answers.image).1.Fresh := by
  have hsettled := settled_submitted s answers frame commands hqueue
  by_cases hworld : s.engine.rendersWorld
  · obtain ⟨hbytes, hshown⟩ := h.world_submitted hqueue hworld hrecord hsettled
    have hengine : ((s.accepted answers frame commands).present answers answers.image).1.engine
        = { s.engine with
            imageIndex := s.engine.imageIndex + 1
            worldTransfer := s.engine.worldTransfer.submitted s.engine.worldUpload.length } := by
      rw [present_engine, accepted]
      simp only [if_pos hworld]
      rfl
    refine ⟨hbusy, ?_, ?_, hshown⟩
    · rw [hengine]
      exact h.asked
    · rw [hengine]
      exact fun _ => hbytes
  · refine h.of_same hbusy ?_ rfl ?_
    · rw [present_engine, accepted]
      simp only [if_neg hworld]
      exact ⟨rfl, rfl, rfl, rfl, rfl⟩
    · rw [hsettled, settled_of_idle hqueue]
      have hrecorded := PresentEngine.sameShown_record s.engine answers answers.image
        s.device.memory
      exact hrecorded.trans (Memory.sameShown_executeAll s.asked _
        (PresentEngine.record_aside hworld hrecord))

/-- **A frame**, wherever it ends. -/
theorem Fresh.presentFrame (h : s.Fresh) (hhonest : s.Honest (.presentFrame answers)) :
    (s.presentFrame answers).1.Fresh := by
  have hbusy := h.busy.presentFrame hhonest
  have houtcome := presentFrame_outcome s answers
  generalize (s.presentFrame answers).1 = t at hbusy houtcome ⊢
  -- By where the frame ends. Only the last ending accepts anything.
  cases houtcome with
  | refused hawait => exact h
  | @unacquired frame hawait hacquired =>
    have hsettled : (s.acquire answers frame).1.settled = s.settled := by
      rw [settled, acquire_memory, acquire_queue]
      rfl
    exact h.of_same hbusy .refl rfl (by rw [hsettled]; exact ⟨rfl, rfl⟩)
  | unrecorded hawait hacquired hrecord =>
    exact h.of_same hbusy ⟨rfl, rfl, rfl, rfl, rfl⟩ rfl
      (settled_recorded (h.busy.idle hhonest hawait))
  | unreset hawait hacquired hrecord hreset =>
    exact h.of_same hbusy ⟨rfl, rfl, rfl, rfl, rfl⟩ rfl
      (settled_recorded (h.busy.idle hhonest hawait))
  | unsubmitted hawait hacquired hrecord hreset hsubmit =>
    exact h.of_same hbusy ⟨rfl, rfl, rfl, rfl, rfl⟩ rfl
      (settled_recorded (h.busy.idle hhonest hawait))
  | @submitted frame commands hawait hacquired hrecord hreset hsubmit =>
    exact h.submitted (h.busy.idle hhonest hawait) hrecord hbusy

/-! ## Runs -/

/-- **Any call**, and any step of the device. -/
theorem Fresh.run {call : PresentCall} (h : s.Fresh) (hhonest : s.Honest call) :
    (s.run call).Fresh := by
  have hbusy := h.busy.run hhonest
  -- The calls that set the world make its transfer pending; a camera leaves the bytes.
  cases call with
  | presentFrame answers => exact h.presentFrame hhonest
  | recreate answers =>
    exact h.of_same hbusy (PresentEngine.sameWorld_recreate _ _ _) rfl ⟨rfl, rfl⟩
  | setClearColor color => exact h.of_same hbusy ⟨rfl, rfl, rfl, rfl, rfl⟩ rfl ⟨rfl, rfl⟩
  | setUiUpload bytes room =>
    exact h.of_same hbusy (PresentEngine.sameWorld_setUiUpload _ _ _) rfl ⟨rfl, rfl⟩
  | setUiUploadRanges ranges totalBytes room =>
    exact h.of_same hbusy (PresentEngine.sameWorld_setUiUploadRanges _ _ _ _) rfl ⟨rfl, rfl⟩
  | setUiDrawCommands commands room =>
    exact h.of_same hbusy (PresentEngine.sameWorld_setUiDrawCommands _ _ _) rfl ⟨rfl, rfl⟩
  | setWorldUpload bytes camera commands room =>
    rcases s.run_setWorldUpload bytes camera commands room with heq | ⟨hvalid, heq⟩
    · rw [heq]
      exact h
    · rw [heq] at hbusy ⊢
      refine ⟨hbusy, .inr ⟨rfl, ?_⟩, ?_, h.shown⟩
      · exact fun draw hdraw => instances_of_validWorldPacket hvalid hdraw
      · intro hclean
        cases hclean
  | setWorldCamera camera =>
    rcases s.run_setWorldCamera camera with heq | heq
    · rw [heq]
      exact h
    · rw [heq] at hbusy ⊢
      refine ⟨hbusy, ?_, h.clean, h.shown⟩
      rcases h.asked with ⟨hnone, hempty⟩ | ⟨hasked, hinside⟩
      · exact .inl ⟨by simp only [hnone, Option.map_none], hempty⟩
      · exact .inr ⟨by simp only [hasked, Option.map_some], hinside⟩
  | runNext =>
    have hsettled : (s.run .runNext).settled = s.settled := s.device.settle_runNext
    refine ⟨hbusy, h.asked, ?_, ?_⟩
    · rw [hsettled]
      exact h.clean
    · rw [hsettled]
      exact h.shown

/-- A system just built has nothing to show. -/
theorem Built.fresh (h : s.Built) : s.Fresh := by
  have hsettled : s.settled = Memory.new := by
    rw [settled, h.device]
    rfl
  refine ⟨h.oneBusy, .inl ⟨h.asked, h.worldUpload⟩, fun _ => ?_, ?_⟩
  · rw [h.worldUpload]
    exact List.nil_prefix
  · rw [hsettled]
    exact List.forall_mem_nil _

/-- **The world buffer is current at every draw.** In every run from a system just built, with
    whatever Vulkan answers, each draw of the world that has been shown is of the world last asked
    for when its submission was accepted; so is each one that has been accepted and not run. -/
theorem world_current_at_draw {color : Color} {answers : BuildAnswers} {s t : PresentSystem}
    (hbuild : build color answers = .ok s) (hrun : Reaches runs s t) :
    (∀ shown ∈ t.device.memory.shown, shown.Current) ∧
      ∀ shown ∈ (t.device.memory.settle t.device.queue).shown, shown.Current := by
  have hfresh : t.Fresh := by
    refine hrun.invariant Fresh (built_of_build hbuild).fresh ?_
    rintro s call t hfresh ⟨hhonest, rfl⟩
    exact hfresh.run hhonest
  refine ⟨fun shown hshown => hfresh.shown shown ?_, hfresh.shown⟩
  exact Memory.shown_settle t.device.memory t.device.queue hshown

/-- One instance of the cube, at the origin. -/
def oneCube : PresentCall :=
  .setWorldUpload (.replicate 80 0) (.replicate 16 0) [⟨36, 1, 0, 0⟩] true

/-- The upload, the draw and the presentation are each served in their turn, and what is shown is
    the cube. -/
theorem world_current_one_cube :
    let t := [oneCube, .presentFrame .good, .runNext, .runNext, .runNext].foldl run fresh
    (∀ shown ∈ t.device.memory.shown, shown.Current) ∧ t.device.memory.shown =
      [⟨.replicate 80 0, .replicate 16 0, [⟨36, 1, 0, 0⟩],
        some ⟨.replicate 80 0, .replicate 16 0, [⟨36, 1, 0, 0⟩]⟩⟩] := by
  refine ⟨(world_current_at_draw build_fresh ?_).1, by decide +kernel⟩
  refine .head ⟨oneCube, trivial, rfl⟩ (.head ⟨.presentFrame .good, ⟨?_, ?_⟩, rfl⟩ ?_)
  · exact fun _ _ _ => rfl
  · exact fun _ => rfl
  · exact .head ⟨.runNext, trivial, rfl⟩ (.head ⟨.runNext, trivial, rfl⟩
      (.single ⟨.runNext, trivial, rfl⟩))

end PresentSystem

end Vulkan
end EngineKit
