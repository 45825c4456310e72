import EngineKit.Render.Renderer

/-!
# When a packet fits the mirror

A packet carries a stream only together with a mirror its ranges were meant for. `Fits packet
mirror` says the ranges bring that mirror to the packet's stream. A packet made with nothing before
it fits every mirror (`fits_make_none`); one made against a snapshot fits the mirror that holds
that snapshot's stream (`fits_make_some`); and once it has been uploaded it fits the mirror it
left, so submitting it again is harmless (`Fits.again`).

`Synced` is the state of the whole pipeline in these terms: the packet the UI diffs against next,
the packet the renderer holds, the snapshot uploaded last, and the mirror. Its four steps are a
frame of the UI (`Synced.make`), a packet received (`Synced.receive`), an upload
(`Synced.upload`) and a cleared mirror (`Synced.clear`).
-/

set_option autoImplicit false

namespace EngineKit
namespace Render

open Lib Ui

variable {F : Type} [Scalar F]

/-- The packet's ranges are slices of its stream, and bring the mirror to it. -/
structure Fits (packet : UiFramePacket F) (mirror : List UInt8) : Prop where
  slices : ∀ bytes, packet.snapshot.encodeBytes = .ok bytes →
    ∀ r ∈ packet.uploadRanges, r.Slices bytes
  patch : ∀ bytes, packet.snapshot.encodeBytes = .ok bytes →
    patchAll (resize mirror bytes.length 0) packet.uploadRanges = bytes

section Fits

variable {packet last : UiFramePacket F} {snapshot : UiRenderSnapshot F} {mirror bytes : List UInt8}

theorem fits_make_none (ready : UiFrameReady) (snapshot : UiRenderSnapshot F)
    (mirror : List UInt8) : Fits (.make ready snapshot none) mirror := by
  have hranges : ∀ bytes, snapshot.encodeBytes = .ok bytes →
      (UiFramePacket.make ready snapshot none).uploadRanges = [⟨0, bytes⟩] := by
    intro bytes hbytes
    simp only [UiFramePacket.make, Option.map_none, encodeDirtyRanges_none hbytes]
  refine ⟨?_, ?_⟩
  · intro bytes hbytes r hr
    rw [hranges bytes hbytes] at hr
    obtain rfl := List.mem_singleton.mp hr
    exact Patch.slices_self bytes
  · intro bytes hbytes
    rw [hranges bytes hbytes]
    refine patchAll_eq (length_resize ..) ?_ ?_
    · intro r hr
      obtain rfl := List.mem_singleton.mp hr
      exact Patch.slices_self bytes
    · intro i hi
      exact .inl ⟨_, List.mem_cons_self, Nat.zero_le i, by simpa using hi⟩

theorem fits_make_some (ready : UiFrameReady) (snapshot : UiRenderSnapshot F)
    (hlast : last.snapshot.encodeBytes = .ok mirror) :
    Fits (.make ready snapshot (some last)) mirror := by
  have hranges : ∀ bytes, snapshot.encodeBytes = .ok bytes →
      (∀ r ∈ (UiFramePacket.make ready snapshot (some last)).uploadRanges, r.Slices bytes) ∧
        patchAll (resize mirror bytes.length 0)
          (UiFramePacket.make ready snapshot (some last)).uploadRanges = bytes := by
    intro bytes hbytes
    obtain ⟨ranges, hranges, hslices, hpatch⟩ := encodeDirtyRanges_some hbytes hlast
    simp only [UiFramePacket.make, Option.map_some, hranges]
    exact ⟨hslices, hpatch⟩
  exact ⟨fun bytes hbytes => (hranges bytes hbytes).1, fun bytes hbytes => (hranges bytes hbytes).2⟩

theorem Fits.again (h : Fits packet mirror) (hbytes : packet.snapshot.encodeBytes = .ok bytes) :
    Fits packet bytes := by
  refine ⟨h.slices, ?_⟩
  intro bytes' hbytes'
  obtain rfl := Except.ok.inj (hbytes.symm.trans hbytes')
  rw [resize_of_length _ _ rfl]
  exact patchAll_self (h.slices bytes hbytes)

/-- **The upload.** The engine either refuses the stream for its size and keeps its mirror, or the
    mirror is the stream. -/
theorem setUiUploadRanges_cases {engine : PresentEngine} (hfits : Fits packet engine.uiUpload)
    (hdraw : Drawable packet.snapshot) :
    engine.setUiUploadRanges packet.uploadRanges packet.snapshot.upload.uploadBytes
        = (engine, .error .allocationFailed) ∨
      ∃ bytes, packet.snapshot.encodeBytes = .ok bytes ∧
        engine.setUiUploadRanges packet.uploadRanges packet.snapshot.upload.uploadBytes
          = ({ engine with uiUpload := bytes }, .ok ()) := by
  by_cases hcap : UI_UPLOAD_CAPACITY < packet.snapshot.upload.uploadBytes
  · exact .inl (if_pos hcap)
  · have hle : packet.snapshot.upload.uploadBytes ≤ ISIZE_MAX := by
      unfold UI_UPLOAD_CAPACITY at hcap
      unfold ISIZE_MAX
      omega
    obtain ⟨bytes, hbytes, hlen⟩ := hdraw.encodeBytes hle
    unfold ISIZE_MAX at hle
    have hwrite : writeRanges bytes.length (resize engine.uiUpload bytes.length 0)
        packet.uploadRanges = (bytes, .ok ()) := by
      rw [writeRanges_of_slices (by omega) (hfits.slices bytes hbytes), hfits.patch bytes hbytes]
    refine .inr ⟨bytes, hbytes, ?_⟩
    rw [PresentEngine.setUiUploadRanges, if_neg hcap, ← hlen, hwrite]

end Fits

/-! ## The pipeline -/

/-- **In step.** `next` is the packet the UI made last and will diff against, `held` the packet
    the renderer holds, `applied` the snapshot uploaded last. What the UI will publish again must
    fit whatever the mirror is by then: it fits every mirror, or the renderer holds it already, or
    the renderer holds something the mirror already shows. -/
structure Synced (next held : Option (UiFramePacket F)) (applied : Option (UiRenderSnapshot F))
    (mirror : List UInt8) : Prop where
  nextDrawable : ∀ q, next = some q → Drawable q.snapshot
  heldDrawable : ∀ p, held = some p → Drawable p.snapshot
  shows : ∀ a, applied = some a → a.encodeBytes = .ok mirror
  heldFits : ∀ p, held = some p → Fits p mirror
  nextFits : ∀ q, next = some q →
    (∀ m, Fits q m) ∨ held = some q ∨
      Fits q mirror ∧ ∃ p, held = some p ∧ p.snapshot.encodeBytes = .ok mirror

section Synced

variable {next held : Option (UiFramePacket F)} {applied : Option (UiRenderSnapshot F)}
  {mirror bytes : List UInt8} {p : UiFramePacket F}

theorem Synced.start : Synced (F := F) none none none [] :=
  ⟨fun _ h => absurd h (by simp), fun _ h => absurd h (by simp), fun _ h => absurd h (by simp),
    fun _ h => absurd h (by simp), fun _ h => absurd h (by simp)⟩

theorem Synced.forget (h : Synced next held applied mirror) :
    Synced none held applied mirror :=
  ⟨fun _ hq => absurd hq (by simp), h.heldDrawable, h.shows, h.heldFits,
    fun _ hq => absurd hq (by simp)⟩

/-- A new packet, when the one it is diffed against shows in the mirror, and so does the one the
    renderer holds. -/
theorem Synced.make (h : Synced next held applied mirror) (ready : UiFrameReady)
    {snapshot : UiRenderSnapshot F} (hdraw : Drawable snapshot)
    (hbase : ∀ q, next = some q → ∃ r a, held = some r ∧ applied = some a ∧
      r.snapshot.encodeBytes = q.snapshot.encodeBytes ∧
      a.encodeBytes = q.snapshot.encodeBytes) :
    Synced (some (.make ready snapshot next)) held applied mirror := by
  refine ⟨?_, h.heldDrawable, h.shows, h.heldFits, ?_⟩
  · intro q hq
    obtain rfl := Option.some.inj hq
    exact hdraw
  · intro q hq
    obtain rfl := Option.some.inj hq
    cases hnext : next with
    | none => exact .inl (fits_make_none ready snapshot)
    | some q =>
      obtain ⟨r, a, hr, ha, hrq, haq⟩ := hbase q hnext
      have hq : q.snapshot.encodeBytes = .ok mirror := haq ▸ h.shows a ha
      exact .inr (.inr ⟨fits_make_some ready snapshot hq, r, hr, hrq.trans hq⟩)

theorem Synced.receive (h : Synced next held applied mirror) (hnext : next = some p) :
    Synced next (some p) applied mirror := by
  -- either way the UI may publish `p` again, it fits the mirror there is now
  have hfits : Fits p mirror := by
    rcases h.nextFits p hnext with hall | hheld | ⟨hfits, -⟩
    · exact hall mirror
    · exact h.heldFits p hheld
    · exact hfits
  refine ⟨h.nextDrawable, ?_, h.shows, ?_, fun q hq => .inr (.inl (hnext.symm.trans hq))⟩
  · intro q hq
    obtain rfl := Option.some.inj hq
    exact h.nextDrawable p hnext
  · intro q hq
    obtain rfl := Option.some.inj hq
    exact hfits

theorem Synced.upload (h : Synced next held applied mirror) (hheld : held = some p)
    (hbytes : p.snapshot.encodeBytes = .ok bytes) :
    Synced next held (some p.snapshot) bytes := by
  refine ⟨h.nextDrawable, h.heldDrawable, ?_, ?_, ?_⟩
  · intro a ha
    obtain rfl := Option.some.inj ha
    exact hbytes
  · intro q hq
    obtain rfl := Option.some.inj (hheld.symm.trans hq)
    exact (h.heldFits p hheld).again hbytes
  · intro q hq
    rcases h.nextFits q hq with hall | hsame | ⟨hfits, r, hr, hshown⟩
    · exact .inl hall
    · exact .inr (.inl hsame)
    · -- what the renderer holds was already shown, so the mirror did not move
      obtain rfl := Option.some.inj (hheld.symm.trans hr)
      obtain rfl := Except.ok.inj (hshown.symm.trans hbytes)
      exact .inr (.inr ⟨hfits, p, hheld, hshown⟩)

theorem Synced.clear (h : Synced next none applied mirror) : Synced next none none [] := by
  refine ⟨h.nextDrawable, h.heldDrawable, fun _ ha => absurd ha (by simp),
    fun _ hp => absurd hp (by simp), ?_⟩
  intro q hq
  rcases h.nextFits q hq with hall | hheld | ⟨-, p, hp, -⟩
  · exact .inl hall
  · exact absurd hheld (by simp)
  · exact absurd hp (by simp)

end Synced

end Render
end EngineKit
