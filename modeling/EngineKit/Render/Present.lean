import EngineKit.Ui.Subsystem
import EngineKit.Render.World

/-!
# The upload mirror and the native lane

The present engine keeps a copy of the UI stream, `uiUpload`, and copies it to the graphics memory
when it presents. A frame does not replace the copy: it is resized to the new length and the
packet's ranges are written into it (`setUiUploadRanges`). Nothing here compares the outcome with
the stream it should be.

`NativeLane.submit` uploads, checks the draw commands against their plan, and presents. What it
does before it calls `present_frame` is `NativeLane.stage`; what the call answers is an input. The
swapchain and everything else behind `present_frame` and `recreate` is not modelled: neither
touches `uiUpload`.
-/

set_option autoImplicit false

namespace EngineKit
namespace Render

open Lib Ui

/-! ## Draw commands -/

structure UiCommandPlan where
  itemCount : UInt32
  drawCount : UInt32
  uploadBytes : Nat
deriving DecidableEq

structure UiDrawCommand where
  vertexCount : UInt32
  instanceCount : UInt32
  firstVertex : UInt32
  firstInstance : UInt32
deriving DecidableEq

inductive UiCommandPlanError where
  | invalidBatch
  | indexOverflow
deriving DecidableEq

def orIndexOverflow {α : Type} : Option α → Except UiCommandPlanError α
  | some x => .ok x
  | none => .error .indexOverflow

/-- The loop of `try_build`: the index the batches end at. -/
def checkBatches (itemCount : UInt32) :
    UInt32 → List UiBatch → Except UiCommandPlanError UInt32
  | expectedFirst, [] => .ok expectedFirst
  | expectedFirst, batch :: batches =>
    if batch.count = 0 ∨ batch.first ≠ expectedFirst then .error .invalidBatch
    else
      match u32CheckedAdd batch.first batch.count with
      | none => .error .indexOverflow
      | some stop =>
        if itemCount < stop then .error .invalidBatch else checkBatches itemCount stop batches

variable {F : Type}

def UiCommandPlan.tryBuild (snapshot : UiRenderSnapshot F) :
    Except UiCommandPlanError UiCommandPlan := do
  let itemCount ← orIndexOverflow (u32TryFrom snapshot.items.length)
  let drawCount ← orIndexOverflow (u32TryFrom snapshot.batches.length)
  let expectedFirst ← checkBatches itemCount 0 snapshot.batches
  if expectedFirst ≠ itemCount then .error .invalidBatch
  else .ok ⟨itemCount, drawCount, snapshot.upload.uploadBytes⟩

def UiCommandPlan.buildDrawCommands (snapshot : UiRenderSnapshot F) :
    Except UiCommandPlanError (List UiDrawCommand) := do
  let _ ← UiCommandPlan.tryBuild snapshot
  .ok (snapshot.batches.map fun batch => ⟨6, batch.count, 0, batch.first⟩)

theorem checkBatches_of_tiles {itemCount a : UInt32} {batches : List UiBatch}
    (h : Tiles a.toNat batches itemCount.toNat) :
    checkBatches itemCount a batches = .ok itemCount := by
  induction batches generalizing a with
  | nil =>
    generalize hb : itemCount.toNat = b at h
    cases h with
    | nil => rw [checkBatches, UInt32.toNat_inj.mp hb]
  | cons batch batches ih =>
    cases h with
    | cons first nonempty rest =>
      obtain rfl : batch.first = a := UInt32.toNat_inj.mp first
      have hle := rest.le
      have hlt : batch.first.toNat + batch.count.toNat < 2 ^ 32 :=
        Nat.lt_of_le_of_lt hle itemCount.toNat_lt
      have hstop : u32CheckedAdd batch.first batch.count
          = some (.ofNat (batch.first.toNat + batch.count.toNat)) := if_pos hlt
      have hnat : (UInt32.ofNat (batch.first.toNat + batch.count.toNat)).toNat
          = batch.first.toNat + batch.count.toNat := UInt32.toNat_ofNat_of_lt' hlt
      have hzero : batch.count ≠ 0 := by
        intro h0
        simp [h0] at nonempty
      have hnlt : ¬itemCount < .ofNat (batch.first.toNat + batch.count.toNat) := by
        rw [UInt32.lt_iff_toNat_lt, hnat]
        omega
      rw [checkBatches, if_neg (by simp [hzero]), hstop]
      simp only [if_neg hnlt]
      exact ih (by rw [hnat]; exact rest)

/-- **Every snapshot the UI takes can be drawn.** -/
theorem tryBuild_of_drawable {snapshot : UiRenderSnapshot F} (h : Drawable snapshot) :
    ∃ plan, UiCommandPlan.tryBuild snapshot = .ok plan := by
  have hitems : u32TryFrom snapshot.items.length = some (.ofNat snapshot.items.length) :=
    if_pos h.itemCount
  have hbatches : u32TryFrom snapshot.batches.length = some (.ofNat snapshot.batches.length) :=
    if_pos h.batchCount
  have hnat : (UInt32.ofNat snapshot.items.length).toNat = snapshot.items.length :=
    UInt32.toNat_ofNat_of_lt' h.itemCount
  have hcheck : checkBatches (.ofNat snapshot.items.length) 0 snapshot.batches
      = .ok (.ofNat snapshot.items.length) :=
    checkBatches_of_tiles (by rw [hnat]; exact h.tiled)
  refine ⟨⟨.ofNat snapshot.items.length, .ofNat snapshot.batches.length,
    snapshot.upload.uploadBytes⟩, ?_⟩
  simp only [UiCommandPlan.tryBuild, hitems, hbatches, orIndexOverflow, bind, Except.bind, hcheck,
    ne_eq, not_true_eq_false, if_false]

theorem buildDrawCommands_of_drawable {snapshot : UiRenderSnapshot F} (h : Drawable snapshot) :
    ∃ commands, UiCommandPlan.buildDrawCommands snapshot = .ok commands := by
  obtain ⟨plan, hplan⟩ := tryBuild_of_drawable h
  exact ⟨_, bind_eq_ok.mpr ⟨plan, hplan, rfl⟩⟩

/-! ## The present engine -/

inductive PresentError where
  | vulkan
  | noSuitableDevice
  | nullWindowHandle
  | formatUnavailable
  | allocationFailed
deriving DecidableEq

inductive PresentStatus where
  | presented
  | outOfDate
deriving DecidableEq

structure PresentSize where
  width : UInt32
  height : UInt32
deriving DecidableEq

def UI_UPLOAD_CAPACITY : Nat := 16 * 1024 * 1024

/-- The part of `PresentEngine` the UI writes. -/
structure PresentEngine where
  uiUpload : List UInt8
  uiDrawCommands : List UiDrawCommand
deriving DecidableEq

def PresentEngine.setUiUpload (engine : PresentEngine) (bytes : List UInt8) :
    PresentEngine × Except PresentError Unit :=
  if UI_UPLOAD_CAPACITY < bytes.length then (engine, .error .allocationFailed)
  else ({ engine with uiUpload := bytes }, .ok ())

/-- The loop of `set_ui_upload_ranges`. A range past the end stops it, with the ranges before it
    written. -/
def writeRanges (totalBytes : Nat) :
    List UInt8 → List UiUploadRange → List UInt8 × Except PresentError Unit
  | bytes, [] => (bytes, .ok ())
  | bytes, range :: ranges =>
    match checkedAdd range.offset range.bytes.length with
    | none => (bytes, .error .allocationFailed)
    | some stop =>
      if totalBytes < stop then (bytes, .error .allocationFailed)
      else writeRanges totalBytes (overwrite bytes range.offset range.bytes) ranges

/-- `PresentEngine::set_ui_upload_ranges`. -/
def PresentEngine.setUiUploadRanges (engine : PresentEngine) (ranges : List UiUploadRange)
    (totalBytes : Nat) : PresentEngine × Except PresentError Unit :=
  if UI_UPLOAD_CAPACITY < totalBytes then (engine, .error .allocationFailed)
  else
    let (uiUpload, result) := writeRanges totalBytes (resize engine.uiUpload totalBytes 0) ranges
    ({ engine with uiUpload }, result)

def PresentEngine.setUiDrawCommands (engine : PresentEngine) (commands : List UiDrawCommand) :
    PresentEngine :=
  { engine with uiDrawCommands := commands }

theorem writeRanges_of_slices {target bytes : List UInt8} {ranges : List UiUploadRange}
    (hlt : target.length < 2 ^ 64) (hs : ∀ r ∈ ranges, r.Slices target) :
    writeRanges target.length bytes ranges = (patchAll bytes ranges, .ok ()) := by
  induction ranges generalizing bytes with
  | nil => rfl
  | cons range ranges ih =>
    have hfits := (hs range List.mem_cons_self).fits
    rw [writeRanges, checkedAdd_of_lt (by omega)]
    simp only [if_neg (Nat.not_lt.mpr hfits)]
    rw [ih fun r hr => hs r (List.mem_cons_of_mem _ hr), patchAll_cons]

section UploadRanges

variable {F : Type} [Scalar F] {snapshot previous : UiRenderSnapshot F} {current old : List UInt8}

/-- **The patch law at the engine.** A mirror that holds an earlier snapshot's stream holds the new
    one's once it has been resized and the dirty ranges were written into it. The ranges ascend
    with a gap between any two, each carries something and starts at a chunk, and between equal
    streams there are none. -/
theorem writeRanges_encodeDirtyRanges (hcur : snapshot.encodeBytes = .ok current)
    (hold : previous.encodeBytes = .ok old) :
    ∃ ranges, snapshot.encodeDirtyRanges (some previous) = .ok ranges ∧
      writeRanges current.length (resize old current.length 0) ranges = (current, .ok ()) ∧
      (∀ engine : PresentEngine, engine.uiUpload = old → current.length ≤ UI_UPLOAD_CAPACITY →
        engine.setUiUploadRanges ranges current.length
          = ({ engine with uiUpload := current }, .ok ())) ∧
      (∀ r ∈ ranges, r.bytes ≠ [] ∧ 32 ∣ r.offset ∧
        r.offset + r.bytes.length ≤ current.length) ∧
      ranges.Pairwise (fun r s => r.offset + r.bytes.length < s.offset) ∧
      (current = old → ranges = []) := by
  obtain ⟨ranges, hranges, hslices, hpatch⟩ := encodeDirtyRanges_some hcur hold
  obtain ⟨hapart, hequal⟩ := encodeDirtyRanges_apart hcur hold hranges
  have hlt : current.length < 2 ^ 64 := by
    have hle := (UiRenderSnapshot.length_encodeBytes hcur).2
    unfold ISIZE_MAX at hle
    omega
  have hwrite : writeRanges current.length (resize old current.length 0) ranges
      = (current, .ok ()) := by
    rw [writeRanges_of_slices hlt hslices, hpatch]
  refine ⟨ranges, hranges, hwrite, ?_, ?_, hapart.gaps, hequal⟩
  · intro engine hengine hcap
    rw [PresentEngine.setUiUploadRanges, if_neg (Nat.not_lt.mpr hcap), hengine, hwrite]
  · intro r hr
    exact ⟨hapart.nonempty r hr, hapart.aligned r hr, (hslices r hr).fits⟩

/-- A snapshot with nothing but glyphs. -/
def letters (codepoints : List UInt32) : UiRenderSnapshot F32 :=
  { items := []
    batches := []
    glyphs := codepoints.map fun codepoint => ⟨codepoint, Scalar.zero, 0, 0, 0, 0⟩
    upload := ⟨0, 0, UInt32.ofNat codepoints.length, 32 * codepoints.length⟩ }

/-- A stream that shrinks from two glyphs to one. -/
theorem writeRanges_encodeDirtyRanges_shrinks :
    (letters [66]).encodeDirtyRanges (some (letters [65, 67]))
        = .ok [⟨0, [66] ++ List.replicate 31 0⟩] ∧
      ∃ ranges, (letters [66]).encodeDirtyRanges (some (letters [65, 67])) = .ok ranges ∧
        writeRanges 32
            (resize ([65] ++ List.replicate 31 0 ++ [67] ++ List.replicate 31 0) 32 0) ranges
          = ([66] ++ List.replicate 31 0, .ok ()) := by
  have hcur : (letters [66]).encodeBytes = .ok ([66] ++ List.replicate 31 0) := by decide
  have hold : (letters [65, 67]).encodeBytes
      = .ok ([65] ++ List.replicate 31 0 ++ [67] ++ List.replicate 31 0) := by decide
  refine ⟨by decide, ?_⟩
  obtain ⟨ranges, hranges, hwrite, -⟩ := writeRanges_encodeDirtyRanges hcur hold
  exact ⟨ranges, hranges, hwrite⟩

end UploadRanges

/-! ## The native lane -/

structure NativeLane where
  engine : PresentEngine
  size : PresentSize
deriving DecidableEq

/-- `NativeLane::submit` up to the call of `present_frame`, which it makes when this is `ok`. -/
def NativeLane.stage (lane : NativeLane) (preparation : GpuFramePreparation F)
    (ui : Option UiCommandPlan) (uiCommands : Option (List UiDrawCommand))
    (uiRanges : Option (List UiUploadRange)) (uiUploadBytes : Option Nat) :
    NativeLane × Except RenderSubmitError Unit :=
  match preparation.validate with
  | .error _ => (lane, .error .invalidPreparation)
  | .ok () =>
    match ui, uiCommands, uiRanges, uiUploadBytes with
    | some plan, some commands, some ranges, some totalBytes =>
      let (engine, result) := lane.engine.setUiUploadRanges ranges totalBytes
      let lane := { lane with engine }
      match result with
      | .error _ => (lane, .error .unsupported)
      | .ok () =>
        if commands.length ≠ plan.drawCount.toNat then (lane, .error .invalidPreparation)
        else ({ lane with engine := engine.setUiDrawCommands commands }, .ok ())
    | _, _, _, _ =>
      let (engine, result) := lane.engine.setUiUpload []
      let lane := { lane with engine }
      match result with
      | .error _ => (lane, .error .unsupported)
      | .ok () => ({ lane with engine := engine.setUiDrawCommands [] }, .ok ())

/-- `NativeLane::submit`, with what `present_frame` answers if it is called. -/
def NativeLane.submit (lane : NativeLane) (preparation : GpuFramePreparation F)
    (ui : Option UiCommandPlan) (uiCommands : Option (List UiDrawCommand))
    (uiRanges : Option (List UiUploadRange)) (uiUploadBytes : Option Nat)
    (present : Except PresentError PresentStatus) :
    NativeLane × Except RenderSubmitError RenderSubmissionStats :=
  let (lane, staged) := lane.stage preparation ui uiCommands uiRanges uiUploadBytes
  match staged with
  | .error e => (lane, .error e)
  | .ok () =>
    match present with
    | .ok .presented =>
      (lane, .ok ⟨1, .ofNat preparation.instances.length, .ofNat preparation.commands.length⟩)
    | .ok .outOfDate => (lane, .error .outOfDate)
    | .error _ => (lane, .error .deviceLost)

end Render
end EngineKit
