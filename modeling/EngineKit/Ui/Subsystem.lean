import EngineKit.Ui.Dirty
import EngineKit.Ui.Batches

/-!
# The UI subsystem's frame

Once a frame the UI paints, takes a snapshot, and turns it into a packet: the snapshot, and the
ranges in which it differs from the snapshot of the *last packet it made* (`UiSubsystem.tick`).
A failed paint forgets that packet, so the next one carries a full range; a failed snapshot keeps
it, and it is published again.

The input of a frame (`UiFrame`) is what the walk over the tree left: an error, or the clips and
items it painted. Command streams, layout, text and resources act on a packet only through it.
-/

set_option autoImplicit false

namespace EngineKit
namespace Ui

open Lib

structure UiFrameReady where
  nodes : Nat
  paintItems : Nat
  batches : Nat
  glyphs : Nat
  uploadedBytes : Nat
deriving DecidableEq

structure UiFramePacket (F : Type) where
  ready : UiFrameReady
  snapshot : UiRenderSnapshot F
  uploadRanges : List UiUploadRange

structure UiSubsystem (F : Type) where
  config : UiConfig
  lastFrame : UiFrameReady
  lastPacket : Option (UiFramePacket F)

/-- One frame of the UI, as the paint pass sees it: `tree.len()`, and the outcome of its walk over
    the tree. -/
structure UiFrame (F : Type) where
  nodes : Nat
  walk : Except UiError (List (UiClip F) × List (PaintItem F))

variable {F : Type}

def UiSubsystem.new (config : UiConfig) : UiSubsystem F := ⟨config, ⟨0, 0, 0, 0, 0⟩, none⟩

def UiFrame.build (frame : UiFrame F) (config : UiConfig) :
    Except UiError (UiPaintList F × UiUploadPlan) := do
  let (clips, items) ← frame.walk
  UiPaintList.finishBuild ⟨clips, items, [], config⟩

variable [Scalar F]

/-- The packet of a snapshot: its ranges are against the packet before it, and an encoder that
    fails leaves none (`unwrap_or_default`). -/
def UiFramePacket.make (ready : UiFrameReady) (snapshot : UiRenderSnapshot F)
    (lastPacket : Option (UiFramePacket F)) : UiFramePacket F where
  ready
  snapshot
  uploadRanges :=
    match snapshot.encodeDirtyRanges (lastPacket.map fun packet => packet.snapshot) with
    | .ok ranges => ranges
    | .error _ => []

/-- `UiSubsystem::tick`, from the paint pass on. The second component is the packet it publishes to
    the renderer. -/
def UiSubsystem.tick (ui : UiSubsystem F) (frame : UiFrame F) :
    UiSubsystem F × Option (UiFramePacket F) :=
  let ui : UiSubsystem F :=
    match frame.build ui.config with
    | .error _ => { ui with lastFrame := ⟨frame.nodes, 0, 0, 0, 0⟩, lastPacket := none }
    | .ok (list, plan) =>
      let ready : UiFrameReady :=
        ⟨frame.nodes, plan.itemCount.toNat, plan.batchCount.toNat, plan.glyphCount.toNat,
          plan.uploadBytes⟩
      match list.snapshot with
      | .error _ => { ui with lastFrame := ready }
      | .ok snapshot =>
        { ui with lastFrame := ready, lastPacket := some (.make ready snapshot ui.lastPacket) }
  (ui, ui.lastPacket)

/-- The snapshot the frame takes, when painting and snapshotting both succeed. -/
def UiFrame.snapshot? (frame : UiFrame F) (config : UiConfig) : Option (UiRenderSnapshot F) :=
  match frame.build config with
  | .error _ => none
  | .ok (list, _) =>
    match list.snapshot with
    | .error _ => none
    | .ok snapshot => some snapshot

/-! ## What a packet promises -/

/-- **A snapshot the UI takes**: its batches tile its items, their number fits a `u32`, and its
    plan's size is that of its records and glyphs. -/
structure Drawable (snapshot : UiRenderSnapshot F) : Prop where
  tiled : Tiles 0 snapshot.batches snapshot.items.length
  itemCount : snapshot.items.length < 2 ^ 32
  batchCount : snapshot.batches.length < 2 ^ 32
  sized : uploadSize snapshot.items.length snapshot.glyphs.length
    = some snapshot.upload.uploadBytes

omit [Scalar F] in
theorem finishBuild_counts {list list' : UiPaintList F} {plan : UiUploadPlan}
    (h : list.finishBuild = .ok (list', plan)) :
    list'.items.length < 2 ^ 32 ∧ list'.batches.length < 2 ^ 32 := by
  obtain ⟨batches, glyphs, rfl, -, -, hitems, hbatches, -⟩ := finishBuild_ok h
  exact ⟨lt_of_u32TryFrom hitems, lt_of_u32TryFrom hbatches⟩

theorem drawable_of_snapshot? {frame : UiFrame F} {config : UiConfig}
    {snapshot : UiRenderSnapshot F} (h : frame.snapshot? config = some snapshot) :
    Drawable snapshot := by
  unfold UiFrame.snapshot? at h
  cases hbuild : frame.build config with
  | error e => simp [hbuild] at h
  | ok built =>
    obtain ⟨list, plan⟩ := built
    cases hsnap : list.snapshot with
    | error e => simp [hbuild, hsnap] at h
    | ok taken =>
      simp only [hbuild, hsnap, Option.some.injEq] at h
      subst h
      obtain ⟨hbatches, hitems, hsize⟩ := UiPaintList.snapshot_spec hsnap
      simp only [UiFrame.build, bind_eq_ok] at hbuild
      obtain ⟨⟨clips, items⟩, -, hfinish⟩ := hbuild
      obtain ⟨hitemCount, hbatchCount⟩ := finishBuild_counts hfinish
      refine ⟨?_, ?_, ?_, hsize⟩
      · rw [hbatches, hitems]
        exact finishBuild_tiles hfinish
      · rw [hitems]
        exact hitemCount
      · rw [hbatches]
        exact hbatchCount

/-- A stream within what a vector can hold is encoded, and is as long as its plan says. -/
theorem Drawable.encodeBytes {snapshot : UiRenderSnapshot F} (h : Drawable snapshot)
    (hle : snapshot.upload.uploadBytes ≤ ISIZE_MAX) :
    ∃ bytes, snapshot.encodeBytes = .ok bytes ∧ bytes.length = snapshot.upload.uploadBytes := by
  have hok : ∃ bytes, snapshot.encodeBytes = .ok bytes := by
    refine ⟨_, bind_eq_ok.mpr ⟨_, orOverflow_eq_ok.mpr h.sized, if_neg (by omega)⟩⟩
  obtain ⟨bytes, hbytes⟩ := hok
  have hsize := (UiRenderSnapshot.length_encodeBytes hbytes).1
  exact ⟨bytes, hbytes, Option.some.inj (hsize.symm.trans h.sized)⟩

/-- **The frame's three outcomes**: the packet is dropped, kept, or made anew against the one
    before. -/
theorem UiSubsystem.tick_cases (ui : UiSubsystem F) (frame : UiFrame F) :
    (ui.tick frame).2 = (ui.tick frame).1.lastPacket ∧
      (ui.tick frame).1.config = ui.config ∧
      ((ui.tick frame).1.lastPacket = none ∨
        (ui.tick frame).1.lastPacket = ui.lastPacket ∨
        ∃ ready snapshot, frame.snapshot? ui.config = some snapshot ∧
          (ui.tick frame).1.lastPacket = some (.make ready snapshot ui.lastPacket)) := by
  unfold UiSubsystem.tick UiFrame.snapshot?
  cases hbuild : frame.build ui.config with
  | error e => exact ⟨rfl, rfl, .inl rfl⟩
  | ok built =>
    obtain ⟨list, plan⟩ := built
    cases hsnap : list.snapshot with
    | error e =>
      simp only [hsnap]
      exact ⟨trivial, trivial, .inr (.inl trivial)⟩
    | ok snapshot =>
      simp only [hsnap]
      exact ⟨trivial, trivial, .inr (.inr ⟨_, snapshot, rfl, rfl⟩)⟩

end Ui
end EngineKit
