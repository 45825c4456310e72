import EngineKit.Lib.Reach
import EngineKit.Render.Mirror

/-!
# Kernel frames: is the mirror the stream that is drawn?

A frame of the kernel ticks the UI and then the renderer, which depends on it. The UI publishes its
packet into the renderer's inbox; other subsystems publish there before and after it. The frame's
input is everything else the two read: what the UI painted, the other messages, the world, and
what `present_frame` answers.

Two histories ride along with the state. `applied` is the snapshot whose ranges the engine
accepted last, none once the mirror has been cleared; `shown` lists, for every call of
`present_frame` with a UI packet, the packet's snapshot and the mirror at the call.

The engine draws the mirror as if it were the snapshot's stream, and nothing sends the renderer's
fate back to the UI. The UI diffs against the last packet it *made*; the renderer uploads only in
the frames the world fits. One frame that does not fit leaves the next packet's ranges without the
bytes the skipped one would have brought, and the mirror stays wrong until those bytes change
again (`skipped_frame_leaves_stale_mirror`). What the two would have to agree on is
`BaseUploaded`: the packet the UI diffs against has been received and uploaded. In runs that keep
it, every mirror shown is its stream (`mirror_shown_is_stream`).
-/

set_option autoImplicit false

namespace EngineKit
namespace Render

open Lib Ui

/-- A message another subsystem sends the renderer: a resize, or something it does not read. -/
structure OtherMessage where
  topic : UInt16
  resize : Option WindowResized
deriving DecidableEq

/-- One frame, as far as the UI and the renderer read it. -/
structure FrameInput (F : Type) where
  ui : UiFrame F
  before : List OtherMessage
  between : List OtherMessage
  world : List (WorldEntity F)
  present : Except PresentError PresentStatus

/-- One call of `present_frame` with a UI packet. -/
structure Shown (F : Type) where
  snapshot : UiRenderSnapshot F
  uiUpload : List UInt8

/-- The two subsystems, the renderer's inbox, and the two histories. -/
structure Frames (F : Type) where
  ui : UiSubsystem F
  renderer : RendererSubsystem F
  inbox : List (Envelope F)
  applied : Option (UiRenderSnapshot F)
  shown : List (Shown F)

variable {F : Type}

def OtherMessage.envelope (message : OtherMessage) : Envelope F :=
  ⟨message.topic, match message.resize with
    | some resize => .windowResized resize
    | none => .other⟩

def FIXED_DT_NS : UInt64 := 16666667

/-- A kernel whose `init` has run, before its first frame. -/
def Frames.start (config : UiConfig) (size : PresentSize) : Frames F :=
  ⟨.new config, (RendererSubsystem.withNative size).init, [], none, []⟩

def RendererSubsystem.appliedBy (r : RendererSubsystem F) (lane : NativeLane)
    (applied : Option (UiRenderSnapshot F)) : Option (UiRenderSnapshot F) :=
  match r.gpuPreparation.validate with
  | .error _ => applied
  | .ok () =>
    match r.lastUiCommandPlan, r.lastUiDrawCommands, r.lastUiPacket with
    | some _, some _, some packet =>
      match (lane.engine.setUiUploadRanges packet.uploadRanges
          packet.snapshot.upload.uploadBytes).2 with
      | .ok () => some packet.snapshot
      | .error _ => applied
    | _, _, _ => none

/-- What the renderer's submission adds to `shown`. -/
def RendererSubsystem.shownBy (r : RendererSubsystem F) (lane : NativeLane) : List (Shown F) :=
  match (r.stage lane).2, r.lastUiCommandPlan, r.lastUiDrawCommands, r.lastUiPacket with
  | .ok (), some _, some _, some packet => [⟨packet.snapshot, (r.stage lane).1.engine.uiUpload⟩]
  | _, _, _, _ => []

/-- The two histories after the renderer's tick. -/
def Frames.record (s : Frames F) (inbox : List (Envelope F)) (world : List (WorldEntity F)) :
    Option (UiRenderSnapshot F) × List (Shown F) :=
  match s.renderer.beforeSubmit inbox world with
  | none => (s.applied, s.shown)
  | some r =>
    match r.native with
    | none => (s.applied, s.shown)
    | some lane => (r.appliedBy lane s.applied, s.shown ++ r.shownBy lane)

variable [Scalar F]

/-- The UI's tick and the renderer's inbox when its own tick comes. -/
def Frames.deliver (s : Frames F) (i : FrameInput F) : UiSubsystem F × List (Envelope F) :=
  let inbox := (i.before.map OtherMessage.envelope).foldl pushInbox s.inbox
  let (ui, packet) := s.ui.tick i.ui
  let inbox :=
    match packet with
    | some packet => pushInbox inbox ⟨2, .uiFramePacket packet⟩
    | none => inbox
  (ui, (i.between.map OtherMessage.envelope).foldl pushInbox inbox)

/-- One frame of the kernel. -/
def Frames.step (s : Frames F) (i : FrameInput F) : Frames F :=
  let (ui, inbox) := s.deliver i
  let (applied, shown) := s.record inbox i.world
  let (renderer, inbox) := s.renderer.tick inbox i.world i.present FIXED_DT_NS
  ⟨ui, renderer, inbox, applied, shown⟩

/-- **The condition.** When the UI makes a packet against an earlier one, the renderer holds that
    packet's stream, and it is the one uploaded last. -/
def BaseUploaded (s : Frames F) (i : FrameInput F) : Prop :=
  ∀ q snapshot, s.ui.lastPacket = some q → i.ui.snapshot? s.ui.config = some snapshot →
    ∃ r a, s.renderer.lastUiPacket = some r ∧ s.applied = some a ∧
      r.snapshot.encodeBytes = q.snapshot.encodeBytes ∧
      a.encodeBytes = q.snapshot.encodeBytes

/-! ## What reaches the renderer -/

section Deliver

omit [Scalar F] in
theorem mem_foldl_pushInbox {envelope : Envelope F} {new inbox : List (Envelope F)}
    (h : envelope ∈ new.foldl pushInbox inbox) : envelope ∈ inbox ∨ envelope ∈ new := by
  induction new generalizing inbox with
  | nil => exact .inl h
  | cons e new ih =>
    cases ih h with
    | inr hnew => exact .inr (List.mem_cons_of_mem _ hnew)
    | inl hpush =>
      cases mem_pushInbox hpush with
      | inl hold => exact .inl hold
      | inr he => exact .inr (he ▸ List.mem_cons_self)

omit [Scalar F] in
theorem other_not_packet {envelope : Envelope F} {messages : List OtherMessage}
    {packet : UiFramePacket F} (h : envelope ∈ messages.map OtherMessage.envelope)
    (hpacket : envelope.payload = .uiFramePacket packet) : False := by
  obtain ⟨message, -, rfl⟩ := List.mem_map.mp h
  unfold OtherMessage.envelope at hpacket
  dsimp only at hpacket
  split at hpacket
  · cases hpacket
  · cases hpacket

/-- A packet the renderer finds in its inbox is the one the UI published this frame. -/
theorem deliver_packet {s : Frames F} {i : FrameInput F} (hempty : s.inbox = [])
    {envelope : Envelope F} (hmem : envelope ∈ (s.deliver i).2) {packet : UiFramePacket F}
    (hpacket : envelope.payload = .uiFramePacket packet) :
    (s.deliver i).1.lastPacket = some packet := by
  have hpublish : (s.ui.tick i.ui).2 = (s.deliver i).1.lastPacket := (s.ui.tick_cases i.ui).1
  unfold Frames.deliver at hmem
  dsimp only at hmem
  cases mem_foldl_pushInbox hmem with
  | inr hother => exact (other_not_packet hother hpacket).elim
  | inl hmem =>
    -- the messages before the UI's publish carry no packet either
    have hbefore : envelope ∉ (i.before.map OtherMessage.envelope).foldl pushInbox s.inbox := by
      intro hin
      cases mem_foldl_pushInbox hin with
      | inl hold => rw [hempty] at hold; cases hold
      | inr hother => exact other_not_packet hother hpacket
    split at hmem
    · next published hpub =>
      cases mem_pushInbox hmem with
      | inl hin => exact absurd hin hbefore
      | inr he =>
        obtain rfl := he
        obtain rfl := Payload.uiFramePacket.inj hpacket
        exact hpublish.symm.trans hpub
    · exact absurd hmem hbefore

end Deliver

/-! ## The submission -/

section Submit

variable {r : RendererSubsystem F} {lane : NativeLane} {next : Option (UiFramePacket F)}
  {applied : Option (UiRenderSnapshot F)}

/-- **One submission.** The pipeline stays in step, and what is shown is its stream. -/
theorem submit_synced (hplan : Planned r)
    (h : Synced next r.lastUiPacket applied lane.engine.uiUpload) :
    Synced next r.lastUiPacket (r.appliedBy lane applied) (r.stage lane).1.engine.uiUpload ∧
      ∀ x ∈ r.shownBy lane, x.snapshot.encodeBytes = .ok x.uiUpload := by
  unfold RendererSubsystem.appliedBy RendererSubsystem.shownBy RendererSubsystem.stage
    NativeLane.stage
  cases hvalid : r.gpuPreparation.validate with
  | error e => exact ⟨h, fun x hx => absurd hx (by simp)⟩
  | ok _ =>
    cases hheld : r.lastUiPacket with
    | none =>
      -- without a packet the mirror is cleared, and nothing was uploaded since
      have hp : r.lastUiCommandPlan = none := by rw [hplan.plan, hheld]; rfl
      have hc : r.lastUiDrawCommands = none := by rw [hplan.commands, hheld]; rfl
      rw [hheld] at h
      rw [hp, hc]
      exact ⟨h.clear, fun x hx => absurd hx (by simp)⟩
    | some p =>
      have hdraw := h.heldDrawable p hheld
      obtain ⟨plan, hbuild⟩ := tryBuild_of_drawable hdraw
      obtain ⟨commands, hcommands⟩ := buildDrawCommands_of_drawable hdraw
      have hp : r.lastUiCommandPlan = some plan := by
        rw [hplan.plan, hheld, Option.bind_some, hbuild]; rfl
      have hc : r.lastUiDrawCommands = some commands := by
        rw [hplan.commands, hheld, Option.bind_some, hcommands]; rfl
      rw [hp, hc]
      simp only [Option.map_some]
      have hcases := setUiUploadRanges_cases (h.heldFits p hheld) hdraw
      rcases hcases with hrefused | ⟨bytes, hbytes, hset⟩
      · rw [hrefused]
        exact ⟨hheld ▸ h, fun x hx => absurd hx (by simp)⟩
      · have hsync := hheld ▸ h.upload hheld hbytes
        rw [hset]
        dsimp only
        split
        · exact ⟨hsync, fun x hx => absurd hx (by simp)⟩
        · refine ⟨hsync, ?_⟩
          intro x hx
          obtain rfl := List.mem_singleton.mp hx
          exact hbytes

end Submit

/-! ## Runs -/

/-- What holds between frames. -/
structure Inv (s : Frames F) : Prop where
  ready : s.renderer.state = .ready
  inbox : s.inbox = []
  planned : Planned s.renderer
  synced : ∃ lane, s.renderer.native = some lane ∧
    Synced s.ui.lastPacket s.renderer.lastUiPacket s.applied lane.engine.uiUpload
  shown : ∀ x ∈ s.shown, x.snapshot.encodeBytes = .ok x.uiUpload

theorem start_inv (config : UiConfig) (size : PresentSize) :
    Inv (Frames.start (F := F) config size) :=
  ⟨rfl, rfl, ⟨rfl, rfl⟩, ⟨_, rfl, .start⟩, fun _ hx => absurd hx (by simp [Frames.start])⟩

section Step

variable {s : Frames F} {i : FrameInput F} {lane : NativeLane}

/-- The UI's tick keeps the pipeline in step when it diffs against what was uploaded. -/
theorem deliver_synced (hguard : BaseUploaded s i)
    (h : Synced s.ui.lastPacket s.renderer.lastUiPacket s.applied lane.engine.uiUpload) :
    Synced (s.deliver i).1.lastPacket s.renderer.lastUiPacket s.applied lane.engine.uiUpload := by
  obtain ⟨-, -, hcases⟩ := s.ui.tick_cases i.ui
  change Synced (s.ui.tick i.ui).1.lastPacket _ _ _
  rcases hcases with hnone | hkept | ⟨ready, snapshot, hsnap, hmade⟩
  · rw [hnone]; exact h.forget
  · rw [hkept]; exact h
  · rw [hmade]
    exact h.make ready (drawable_of_snapshot? hsnap) fun q hq => hguard q snapshot hq hsnap

/-- **One frame.** -/
theorem step_inv (h : Inv s) (hguard : BaseUploaded s i) : Inv (s.step i) := by
  obtain ⟨lane, hlane, hsync⟩ := h.synced
  have hui := deliver_synced hguard hsync
  have hdrain := receive_drained (s.deliver i).2 h.planned
  -- the drain keeps the engine, and receives at most what the UI published
  obtain ⟨lane', hlane', hengine⟩ :
      ∃ lane', (s.renderer.receive (s.deliver i).2).native = some lane' ∧
        lane'.engine = lane.engine := by
    have hmap := hdrain.engine
    rw [hlane, Option.map_some] at hmap
    exact Option.map_eq_some_iff.mp hmap
  have hheld : Synced (s.deliver i).1.lastPacket
      (s.renderer.receive (s.deliver i).2).lastUiPacket s.applied lane'.engine.uiUpload := by
    rw [hengine]
    cases hdrain.packet with
    | inl hsame => rw [hsame]; exact hui
    | inr hnew =>
      obtain ⟨envelope, hmem, packet, hpayload, hlast⟩ := hnew
      rw [hlast]
      exact hui.receive (deliver_packet h.inbox hmem hpayload)
  obtain ⟨hempty, hstate, hsame, hnative⟩ :=
    tick_frame (s.deliver i).2 i.world i.present FIXED_DT_NS h.ready hlane'
  have hui' : (s.step i).ui = (s.deliver i).1 := rfl
  have hrenderer : (s.step i).renderer
      = (s.renderer.tick (s.deliver i).2 i.world i.present FIXED_DT_NS).1 := rfl
  have hinbox : (s.step i).inbox
      = (s.renderer.tick (s.deliver i).2 i.world i.present FIXED_DT_NS).2 := rfl
  have hrecord : s.record (s.deliver i).2 i.world = ((s.step i).applied, (s.step i).shown) := rfl
  rw [← hrenderer] at hstate hsame hnative
  rw [← hinbox] at hempty
  rw [← hui'] at hheld
  cases hsubmit : s.renderer.beforeSubmit (s.deliver i).2 i.world with
  | none =>
    -- the world refused the frame: the packet was received and the mirror is as it was
    rw [hsubmit] at hnative
    rw [Frames.record, hsubmit] at hrecord
    obtain ⟨happlied, hshown⟩ := Prod.mk.inj hrecord
    refine ⟨hstate.trans (hdrain.state.trans h.ready), hempty, hdrain.planned.of_sameUi hsame,
      ⟨_, hnative, ?_⟩, ?_⟩
    · rw [← happlied]
      exact hsame.packet ▸ hheld
    · rw [← hshown]
      exact h.shown
  | some r =>
    obtain ⟨hnativeR, hsameR⟩ := beforeSubmit_frame hsubmit
    have hlaneR : r.native = some lane' := hnativeR.trans hlane'
    obtain ⟨hafter, hnewShown⟩ := submit_synced (hdrain.planned.of_sameUi hsameR)
      (hsameR.packet ▸ hheld)
    rw [hsubmit] at hnative
    rw [Frames.record, hsubmit] at hrecord
    simp only [hlaneR] at hrecord
    obtain ⟨happlied, hshown⟩ := Prod.mk.inj hrecord
    refine ⟨hstate.trans (hdrain.state.trans h.ready), hempty, hdrain.planned.of_sameUi hsame,
      ⟨_, hnative, ?_⟩, ?_⟩
    · rw [← happlied]
      have hpacket : (s.step i).renderer.lastUiPacket = r.lastUiPacket :=
        hsame.packet.trans hsameR.packet.symm
      exact hpacket ▸ hafter
    · rw [← hshown]
      intro x hx
      cases List.mem_append.mp hx with
      | inl hold => exact h.shown x hold
      | inr hnew => exact hnewShown x hnew

end Step

/-- **In every run that uploads what it diffs against**, whatever is painted, whatever the world
    holds and whatever presenting answers, the mirror at each call of `present_frame` with a UI
    packet is that packet's stream. -/
theorem mirror_shown_is_stream {config : UiConfig} {size : PresentSize} {s : Frames F}
    (hrun : Reaches (Guarded BaseUploaded fun s i t => t = Frames.step s i)
      (Frames.start config size) s) :
    ∀ x ∈ s.shown, x.snapshot.encodeBytes = .ok x.uiUpload := by
  have hinv : Inv s := by
    refine hrun.invariant Inv (start_inv config size) ?_
    intro s i t hs hstep
    obtain ⟨hguard, rfl⟩ := hstep
    exact step_inv hs hguard
  exact hinv.shown

/-! ## Two frames of a bare tree -/

def viewport : UiRect F32 := ⟨⟨0⟩, ⟨0⟩, ⟨0x44A00000⟩, ⟨0x44340000⟩⟩

def white : UInt32 := 0x3F800000

/-- A frame of a tree that is only its root panel, on the given background. -/
def rootFrame (background : UInt32) (world : List (WorldEntity F32)) : FrameInput F32 where
  ui :=
    { nodes := 1
      walk := .ok ([⟨⟨0⟩, viewport⟩, ⟨⟨1⟩, viewport⟩],
        [⟨⟨0, 1⟩, viewport, ⟨1⟩, 0, Scalar.one, .rect (Vector.replicate 4 ⟨background⟩)⟩]) }
  before := []
  between := []
  world
  present := .ok .presented

def afterFirst : Frames F32 :=
  (Frames.start .defaults ⟨1280, 720⟩).step (rootFrame 0 [])

/-- The second frame goes out as a delta on the first, and both frames show what was uploaded. -/
theorem mirror_shown_is_stream_recoloured :
    (afterFirst.step (rootFrame white [])).shown.length = 2 ∧
      ∀ x ∈ (afterFirst.step (rootFrame white [])).shown,
        x.snapshot.encodeBytes = .ok x.uiUpload := by
  have hfirst : BaseUploaded (Frames.start .defaults ⟨1280, 720⟩) (rootFrame 0 []) := by
    intro q _ hq
    cases hq
  have hsecond : BaseUploaded afterFirst (rootFrame white []) := by
    intro q _ hq _
    have hheld : afterFirst.renderer.lastUiPacket = afterFirst.ui.lastPacket := rfl
    have happlied : afterFirst.applied = afterFirst.ui.lastPacket.map fun p => p.snapshot := rfl
    exact ⟨q, q.snapshot, hheld.trans hq, by rw [happlied, hq]; rfl, rfl, rfl⟩
  exact ⟨by decide +kernel,
    mirror_shown_is_stream (.head ⟨_, hfirst, rfl⟩ (.single ⟨_, hsecond, rfl⟩))⟩

/-! ## A frame the world does not fit -/

section Refused

omit [Scalar F] in
theorem receive_renderWorld (r : RendererSubsystem F) (w : RenderWorld F)
    (inbox : List (Envelope F)) :
    ({ r with renderWorld := w } : RendererSubsystem F).receive inbox
      = { r.receive inbox with renderWorld := w } := by
  induction inbox generalizing r with
  | nil => rfl
  | cons envelope inbox ih =>
    have hone : ({ r with renderWorld := w } : RendererSubsystem F).receiveOne envelope
        = { r.receiveOne envelope with renderWorld := w } := by
      unfold RendererSubsystem.receiveOne
      split
      · split
        · rfl
        · rfl
      · split
        · split
          · rfl
          · rfl
        · rfl
    change (({ r with renderWorld := w } : RendererSubsystem F).receiveOne envelope).receive inbox
      = _
    rw [hone]
    exact ih _

def Frames.holding (s : Frames F) (instances : List (RenderInstance F)) : Frames F :=
  { s with
    renderer :=
      { s.renderer with renderWorld := ⟨instances, s.renderer.renderWorld.maxInstances⟩ } }

variable {s : Frames F}

/-- Extraction starts from nothing, so what the last one left does not matter. -/
theorem step_holding (instances : List (RenderInstance F)) (i : FrameInput F)
    (hready : s.renderer.state = .ready) : (s.holding instances).step i = s.step i := by
  have hdeliver : (s.holding instances).deliver i = s.deliver i := rfl
  have hreceive : (s.holding instances).renderer.receive (s.deliver i).2
      = { s.renderer.receive (s.deliver i).2 with
          renderWorld := ⟨instances, s.renderer.renderWorld.maxInstances⟩ } :=
    receive_renderWorld ..
  have hself : s.renderer.receive (s.deliver i).2
      = { s.renderer.receive (s.deliver i).2 with renderWorld := s.renderer.renderWorld } :=
    receive_renderWorld ..
  have hprep : ((s.holding instances).renderer.receive (s.deliver i).2).prepareFrame i.world
      = (s.renderer.receive (s.deliver i).2).prepareFrame i.world := by
    rw [hreceive, hself]
    rfl
  have hrun : ¬s.renderer.state ≠ .ready := by simp [hready]
  have hrun' : ¬(s.holding instances).renderer.state ≠ .ready := hrun
  simp only [Frames.step, Frames.record, RendererSubsystem.tick, RendererSubsystem.beforeSubmit,
    if_neg hrun, if_neg hrun', hdeliver, hprep]
  rfl

/-- A frame in which the renderer receives and submits nothing. -/
def Frames.refused (s : Frames F) (i : FrameInput F) : Frames F :=
  let (ui, inbox) := s.deliver i
  let r := s.renderer.receive inbox
  let stats : RenderStats :=
    ⟨saturatingAdd r.stats.frames 1,
      min (r.stats.totalDtNs + FIXED_DT_NS.toNat) (2 ^ 128 - 1)⟩
  ⟨ui, { r with extractionOverflowed := true, manifestOverflowed := true, stats }, [], s.applied,
    s.shown⟩

/-- **An extraction that overflows skips the submission, not the packet.** -/
theorem step_of_extraction_error {i : FrameInput F} {e : RenderWorldError}
    (hready : s.renderer.state = .ready)
    (h : ((s.renderer.receive (s.deliver i).2).renderWorld.extractTyped i.world).2 = .error e) :
    ∃ instances, s.step i = (s.refused i).holding instances := by
  have hprep : (s.renderer.receive (s.deliver i).2).prepareFrame i.world =
      ({ s.renderer.receive (s.deliver i).2 with
          renderWorld := ((s.renderer.receive (s.deliver i).2).renderWorld.extractTyped i.world).1
          extractionOverflowed := true
          manifestOverflowed := true }, false) := by
    unfold RendererSubsystem.prepareFrame
    dsimp only
    rw [h]
  have hmax := RenderWorld.maxInstances_extractTyped
    (s.renderer.receive (s.deliver i).2).renderWorld i.world
  have hrun : ¬s.renderer.state ≠ .ready := by simp [hready]
  generalize ((s.renderer.receive (s.deliver i).2).renderWorld.extractTyped i.world).1 = w
    at hprep hmax
  refine ⟨w.instances, ?_⟩
  simp only [Frames.step, Frames.record, RendererSubsystem.tick, RendererSubsystem.beforeSubmit,
    if_neg hrun, hprep]
  have hw : w = ⟨w.instances, (s.refused i).renderer.renderWorld.maxInstances⟩ := by
    rw [show (s.refused i).renderer.renderWorld.maxInstances = w.maxInstances from hmax.symm]
  rw [Frames.holding, ← hw]
  rfl

end Refused

/-- One renderable more than the render world holds. -/
def crowd : List (WorldEntity F32) :=
  (List.range 4097).map fun n =>
    ⟨⟨.ofNat n, 0⟩, some ⟨Vector.replicate 12 ⟨0⟩, Vector.replicate 4 ⟨0⟩⟩, some ⟨0, 0⟩⟩

theorem crowd_refused {world : RenderWorld F32} (h : world.maxInstances = 4096) :
    (world.extractTyped crowd).2 = .error .capacityExceeded := by
  apply RenderWorld.extractTyped_error
  have hall : ∀ n : Nat, WorldEntity.project (F := F32)
      ⟨⟨.ofNat n, 0⟩, some ⟨Vector.replicate 12 ⟨0⟩, Vector.replicate 4 ⟨0⟩⟩, some ⟨0, 0⟩⟩
        = some ⟨⟨.ofNat n, 0⟩, Vector.replicate 12 ⟨0⟩, Vector.replicate 4 ⟨0⟩, 0, 0⟩ :=
    fun _ => rfl
  rw [h, crowd, List.filterMap_map]
  simp only [Function.comp_def, hall]
  simp

theorem refused_step {world : List (WorldEntity F32)} {e : RenderWorldError}
    (h : ∀ w : RenderWorld F32, w.maxInstances = 4096 → (w.extractTyped world).2 = .error e) :
    ∃ instances, afterFirst.step (rootFrame white world)
      = (afterFirst.refused (rootFrame white [])).holding instances :=
  step_of_extraction_error (i := rootFrame white world) rfl (h _ rfl)

/-- **The stale mirror.** The background changes in a frame the world does not fit. The next frame
    fits and has nothing new to send: it is drawn from the mirror of the first. -/
theorem skipped_frame_leaves_stale_mirror :
    ¬∀ x ∈ ([rootFrame 0 [], rootFrame white crowd, rootFrame white []].foldl Frames.step
        (Frames.start .defaults ⟨1280, 720⟩)).shown,
      x.snapshot.encodeBytes = .ok x.uiUpload := by
  obtain ⟨instances, hskip⟩ := refused_step fun _ hw => crowd_refused hw
  have hfirst : (Frames.start .defaults ⟨1280, 720⟩).step (rootFrame 0 []) = afterFirst := rfl
  rw [List.foldl_cons, List.foldl_cons, List.foldl_cons, List.foldl_nil, hfirst, hskip,
    step_holding instances _ rfl]
  intro hall
  -- the second thing shown is the white panel, over the bytes of the first
  have hstale : ∃ x ∈ ((afterFirst.refused (rootFrame white [])).step (rootFrame white [])).shown,
      x.snapshot.encodeBytes.toOption ≠ some x.uiUpload := by
    decide +kernel
  obtain ⟨x, hx, hne⟩ := hstale
  rw [hall x hx] at hne
  exact hne rfl

end Render
end EngineKit
