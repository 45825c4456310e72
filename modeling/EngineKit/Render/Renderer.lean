import EngineKit.Render.Present

/-!
# The renderer subsystem's frame

`RendererSubsystem.tick` drains the inbox, keeping the last UI packet it finds and the draw
commands of its batches; extracts, batches and prepares the world; and if all of that fits,
submits to the native lane with the ranges of *the packet it holds*, whether that packet came this
frame or long ago. A frame the world refuses receives the packet and submits nothing.

The three phases are `receive`, `prepareFrame` and `submitFrame`, and each states what it leaves
alone: only `receive` changes the packet and its plan, only `submitFrame` the lane's mirror.
-/

set_option autoImplicit false

namespace EngineKit
namespace Render

open Lib Ui

/-! ## The inbox -/

structure WindowResized where
  width : UInt32
  height : UInt32
deriving DecidableEq

/-- What a payload downcasts to, as far as the renderer asks. -/
inductive Payload (F : Type) where
  | windowResized (resize : WindowResized)
  | uiFramePacket (packet : UiFramePacket F)
  | other

structure Envelope (F : Type) where
  topic : UInt16
  payload : Payload F

def DEFAULT_INBOX_CAPACITY : Nat := 64

variable {F : Type}

/-- A publish to an inbox: a full one loses the message, and the publisher ignores it. -/
def pushInbox (inbox : List (Envelope F)) (envelope : Envelope F) : List (Envelope F) :=
  if inbox.length < DEFAULT_INBOX_CAPACITY then inbox ++ [envelope] else inbox

theorem mem_pushInbox {inbox : List (Envelope F)} {published envelope : Envelope F}
    (h : envelope ∈ pushInbox inbox published) : envelope ∈ inbox ∨ envelope = published := by
  unfold pushInbox at h
  split at h
  · cases List.mem_append.mp h with
    | inl hold => exact .inl hold
    | inr hnew => exact .inr (List.mem_singleton.mp hnew)
  · exact .inl h

/-! ## State -/

inductive RendererState where
  | new
  | ready
  | shutdown
deriving DecidableEq

structure RenderStats where
  frames : UInt64
  totalDtNs : Nat
deriving DecidableEq

structure RendererSubsystem (F : Type) where
  state : RendererState
  stats : RenderStats
  native : Option NativeLane
  lastResize : Option (UInt32 × UInt32)
  renderWorld : RenderWorld F
  manifest : CpuRenderManifest F
  gpuPreparation : GpuFramePreparation F
  headlessBackend : HeadlessRenderBackend
  lastSubmission : Option RenderSubmissionStats
  lastExtraction : Option ExtractionStats
  extractionOverflowed : Bool
  manifestOverflowed : Bool
  lastUiFrame : Option UiFrameReady
  lastUiPacket : Option (UiFramePacket F)
  lastUiCommandPlan : Option UiCommandPlan
  lastUiDrawCommands : Option (List UiDrawCommand)

/-- `RendererSubsystem::with_native`, around an engine just built, whose mirror is empty. -/
def RendererSubsystem.withNative (size : PresentSize) : RendererSubsystem F where
  state := .new
  stats := ⟨0, 0⟩
  native := some ⟨⟨[], []⟩, size⟩
  lastResize := none
  renderWorld := ⟨[], 4096⟩
  manifest := ⟨[], [], 4096, 4096⟩
  gpuPreparation := ⟨[], [], 4096, 4096⟩
  headlessBackend := ⟨⟨0, 0, 0⟩⟩
  lastSubmission := none
  lastExtraction := none
  extractionOverflowed := false
  manifestOverflowed := false
  lastUiFrame := none
  lastUiPacket := none
  lastUiCommandPlan := none
  lastUiDrawCommands := none

def RendererSubsystem.init (r : RendererSubsystem F) : RendererSubsystem F :=
  { r with state := .ready }

/-! ## The three phases of a tick -/

/-- `recreate_native`. The engine rebuilds its swapchain and keeps its mirror. -/
def RendererSubsystem.recreateNative (r : RendererSubsystem F) (size : PresentSize) :
    RendererSubsystem F :=
  { r with native := r.native.map fun lane => { lane with size } }

def okOrNone {ε α : Type} : Except ε α → Option α
  | .ok x => some x
  | .error _ => none

/-- One envelope of the drain. A payload of another type on the topic is dropped. -/
def RendererSubsystem.receiveOne (r : RendererSubsystem F) (envelope : Envelope F) :
    RendererSubsystem F :=
  if envelope.topic = 1 then
    match envelope.payload with
    | .windowResized resize =>
      { r with lastResize := some (resize.width, resize.height) }.recreateNative
        ⟨resize.width, resize.height⟩
    | _ => r
  else if envelope.topic = 2 then
    match envelope.payload with
    | .uiFramePacket packet =>
      { r with
        lastUiFrame := some packet.ready
        lastUiCommandPlan := okOrNone (UiCommandPlan.tryBuild packet.snapshot)
        lastUiDrawCommands := okOrNone (UiCommandPlan.buildDrawCommands packet.snapshot)
        lastUiPacket := some packet }
    | _ => r
  else r

def RendererSubsystem.receive (r : RendererSubsystem F) (inbox : List (Envelope F)) :
    RendererSubsystem F :=
  inbox.foldl RendererSubsystem.receiveOne r

/-- Extraction, manifest and preparation. The second component says whether all three succeeded. -/
def RendererSubsystem.prepareFrame (r : RendererSubsystem F) (world : List (WorldEntity F)) :
    RendererSubsystem F × Bool :=
  let (renderWorld, extracted) := r.renderWorld.extractTyped world
  let r := { r with renderWorld }
  match extracted with
  | .error _ => ({ r with extractionOverflowed := true, manifestOverflowed := true }, false)
  | .ok stats =>
    let (manifest, built) := r.manifest.build renderWorld
    let r := { r with lastExtraction := some stats, extractionOverflowed := false, manifest }
    match built with
    | .error _ => ({ r with manifestOverflowed := true }, false)
    | .ok () =>
      let (gpuPreparation, prepared) := r.gpuPreparation.prepare manifest
      let r := { r with gpuPreparation }
      match prepared with
      | .error _ => ({ r with manifestOverflowed := true }, false)
      | .ok () => ({ r with manifestOverflowed := false }, true)

/-- The renderer's call of `NativeLane::submit`, up to `present_frame`. -/
def RendererSubsystem.stage (r : RendererSubsystem F) (lane : NativeLane) :
    NativeLane × Except RenderSubmitError Unit :=
  lane.stage r.gpuPreparation r.lastUiCommandPlan r.lastUiDrawCommands
    (r.lastUiPacket.map fun packet => packet.uploadRanges)
    (r.lastUiPacket.map fun packet => packet.snapshot.upload.uploadBytes)

/-- The submission of a prepared frame. After `OutOfDate` the engine is recreated, which keeps its
    mirror, and the last submission stays. -/
def RendererSubsystem.submitFrame (r : RendererSubsystem F)
    (present : Except PresentError PresentStatus) : RendererSubsystem F :=
  match r.native with
  | some lane =>
    let (lane, result) :=
      lane.submit r.gpuPreparation r.lastUiCommandPlan r.lastUiDrawCommands
        (r.lastUiPacket.map fun packet => packet.uploadRanges)
        (r.lastUiPacket.map fun packet => packet.snapshot.upload.uploadBytes) present
    let r := { r with native := some lane }
    match result with
    | .ok stats => { r with lastSubmission := some stats }
    | .error .outOfDate => r
    | .error _ => { r with lastSubmission := none }
  | none =>
    let (headlessBackend, result) := r.headlessBackend.submit r.gpuPreparation
    let r := { r with headlessBackend }
    match result with
    | .ok stats => { r with lastSubmission := some stats }
    | .error _ => r

/-- The renderer as it is when it submits, in a frame that gets that far. -/
def RendererSubsystem.beforeSubmit (r : RendererSubsystem F) (inbox : List (Envelope F))
    (world : List (WorldEntity F)) : Option (RendererSubsystem F) :=
  if r.state ≠ .ready then none
  else
    match (r.receive inbox).prepareFrame world with
    | (r, true) => some r
    | (_, false) => none

/-- `RendererSubsystem::tick`, with the inbox it drains. -/
def RendererSubsystem.tick (r : RendererSubsystem F) (inbox : List (Envelope F))
    (world : List (WorldEntity F)) (present : Except PresentError PresentStatus) (dtNs : UInt64) :
    RendererSubsystem F × List (Envelope F) :=
  if r.state ≠ .ready then (r, inbox)
  else
    let (r, fits) := (r.receive inbox).prepareFrame world
    let r := if fits then r.submitFrame present else r
    let stats : RenderStats :=
      ⟨saturatingAdd r.stats.frames 1, min (r.stats.totalDtNs + dtNs.toNat) (2 ^ 128 - 1)⟩
    ({ r with stats }, [])

/-! ## What each phase leaves alone -/

section Frames

variable {r : RendererSubsystem F}

/-- What the renderer knows of the UI: the packet, and the plan and draw commands of its batches. -/
structure SameUi (r r' : RendererSubsystem F) : Prop where
  packet : r'.lastUiPacket = r.lastUiPacket
  plan : r'.lastUiCommandPlan = r.lastUiCommandPlan
  commands : r'.lastUiDrawCommands = r.lastUiDrawCommands

theorem prepareFrame_frame (world : List (WorldEntity F)) :
    (r.prepareFrame world).1.state = r.state ∧ (r.prepareFrame world).1.native = r.native ∧
      SameUi r (r.prepareFrame world).1 := by
  unfold RendererSubsystem.prepareFrame
  refine ⟨?_, ?_, ?_, ?_, ?_⟩
  -- whichever step refuses the frame, it writes none of these
  all_goals
    dsimp only
    split
    · rfl
    · split
      · rfl
      · split
        · rfl
        · rfl

theorem submit_lane (lane : NativeLane) (preparation : GpuFramePreparation F)
    (ui : Option UiCommandPlan) (uiCommands : Option (List UiDrawCommand))
    (uiRanges : Option (List UiUploadRange)) (uiUploadBytes : Option Nat)
    (present : Except PresentError PresentStatus) :
    (lane.submit preparation ui uiCommands uiRanges uiUploadBytes present).1
      = (lane.stage preparation ui uiCommands uiRanges uiUploadBytes).1 := by
  unfold NativeLane.submit
  dsimp only
  split
  · rfl
  · split <;> rfl

theorem submitFrame_frame {lane : NativeLane} (present : Except PresentError PresentStatus)
    (hlane : r.native = some lane) :
    (r.submitFrame present).state = r.state ∧
      (r.submitFrame present).native = some (r.stage lane).1 ∧
      SameUi r (r.submitFrame present) := by
  unfold RendererSubsystem.submitFrame
  rw [hlane]
  dsimp only
  have hsubmit := submit_lane lane r.gpuPreparation r.lastUiCommandPlan r.lastUiDrawCommands
    (r.lastUiPacket.map fun packet => packet.uploadRanges)
    (r.lastUiPacket.map fun packet => packet.snapshot.upload.uploadBytes) present
  rw [hsubmit]
  refine ⟨?_, ?_, ?_, ?_, ?_⟩
  all_goals
    split
    · rfl
    · rfl
    · rfl

/-- **A tick**: the lane is what the staged submission left, or untouched; the packet is the one
    received. -/
theorem tick_frame {lane : NativeLane} (inbox : List (Envelope F)) (world : List (WorldEntity F))
    (present : Except PresentError PresentStatus) (dtNs : UInt64) (hready : r.state = .ready)
    (hlane : (r.receive inbox).native = some lane) :
    (r.tick inbox world present dtNs).2 = [] ∧
      (r.tick inbox world present dtNs).1.state = (r.receive inbox).state ∧
      SameUi (r.receive inbox) (r.tick inbox world present dtNs).1 ∧
      (r.tick inbox world present dtNs).1.native
        = some (match r.beforeSubmit inbox world with
          | some r' => (r'.stage lane).1
          | none => lane) := by
  obtain ⟨hstate, hnative, hui⟩ := prepareFrame_frame (r := r.receive inbox) world
  unfold RendererSubsystem.tick RendererSubsystem.beforeSubmit
  rw [if_neg (by simp [hready]), if_neg (by simp [hready])]
  rcases hprep : (r.receive inbox).prepareFrame world with ⟨r', fits⟩
  rw [hprep] at hstate hnative hui
  cases fits with
  | false => exact ⟨rfl, hstate, ⟨hui.packet, hui.plan, hui.commands⟩, hnative.trans hlane⟩
  | true =>
    obtain ⟨hs, hn, hu⟩ := submitFrame_frame (r := r') present (hnative.trans hlane)
    exact ⟨rfl, hs.trans hstate, ⟨hu.packet.trans hui.packet, hu.plan.trans hui.plan,
      hu.commands.trans hui.commands⟩, hn⟩

theorem beforeSubmit_frame {r' : RendererSubsystem F} {inbox : List (Envelope F)}
    {world : List (WorldEntity F)} (h : r.beforeSubmit inbox world = some r') :
    r'.native = (r.receive inbox).native ∧ SameUi (r.receive inbox) r' := by
  obtain ⟨-, hnative, hui⟩ := prepareFrame_frame (r := r.receive inbox) world
  unfold RendererSubsystem.beforeSubmit at h
  split at h
  · exact absurd h (by simp)
  · split at h
    · next hprep =>
      rw [hprep] at hnative hui
      obtain rfl := Option.some.inj h
      exact ⟨hnative, hui⟩
    · exact absurd h (by simp)

/-- The plan and the draw commands are those of the packet held. -/
structure Planned (r : RendererSubsystem F) : Prop where
  plan : r.lastUiCommandPlan
    = r.lastUiPacket.bind fun packet => okOrNone (UiCommandPlan.tryBuild packet.snapshot)
  commands : r.lastUiDrawCommands
    = r.lastUiPacket.bind fun packet => okOrNone (UiCommandPlan.buildDrawCommands packet.snapshot)

theorem Planned.of_sameUi {r' : RendererSubsystem F} (h : Planned r) (hui : SameUi r r') :
    Planned r' :=
  ⟨by rw [hui.plan, hui.packet, h.plan], by rw [hui.commands, hui.packet, h.commands]⟩

/-- **The drain.** The packet held is the one held before, or one of those in the inbox, and its
    plan comes with it. The lane keeps its engine. -/
structure Drained (inbox : List (Envelope F)) (r r' : RendererSubsystem F) : Prop where
  state : r'.state = r.state
  engine : r'.native.map (fun lane => lane.engine) = r.native.map fun lane => lane.engine
  planned : Planned r'
  packet : r'.lastUiPacket = r.lastUiPacket ∨
    ∃ envelope ∈ inbox, ∃ packet, envelope.payload = .uiFramePacket packet ∧
      r'.lastUiPacket = some packet

theorem receiveOne_drained (envelope : Envelope F) (h : Planned r) :
    Drained [envelope] r (r.receiveOne envelope) := by
  have hsame : Drained [envelope] r r := ⟨rfl, rfl, h, .inl rfl⟩
  unfold RendererSubsystem.receiveOne
  split
  · split
    · -- a resize recreates the engine, and the mirror with it stays
      refine ⟨rfl, ?_, ⟨h.plan, h.commands⟩, .inl rfl⟩
      simp only [RendererSubsystem.recreateNative, Option.map_map]
      rfl
    · exact hsame
  · split
    · split
      · next packet hpacket =>
        refine ⟨rfl, rfl, ⟨rfl, rfl⟩, .inr ?_⟩
        exact ⟨envelope, List.mem_singleton_self _, packet, hpacket, rfl⟩
      · exact hsame
    · exact hsame

theorem receive_drained (inbox : List (Envelope F)) (h : Planned r) :
    Drained inbox r (r.receive inbox) := by
  induction inbox generalizing r with
  | nil => exact ⟨rfl, rfl, h, .inl rfl⟩
  | cons envelope inbox ih =>
    have hone := receiveOne_drained envelope h
    have hrest := ih hone.planned
    -- a packet further back in the inbox wins over the one at its front
    refine ⟨hrest.state.trans hone.state, hrest.engine.trans hone.engine, hrest.planned, ?_⟩
    cases hrest.packet with
    | inr hin =>
      obtain ⟨e, he, hp⟩ := hin
      exact .inr ⟨e, List.mem_cons_of_mem _ he, hp⟩
    | inl heq =>
      cases hone.packet with
      | inl hsame => exact .inl (heq.trans hsame)
      | inr hin =>
        obtain ⟨e, he, p, hp, hlast⟩ := hin
        obtain rfl := List.mem_singleton.mp he
        exact .inr ⟨_, List.mem_cons_self, p, hp, heq.trans hlast⟩

end Frames

end Render
end EngineKit
