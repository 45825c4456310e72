import EngineKit.Vulkan.Engine

/-!
# The surface's configuration

What a presenter asks a swapchain for is picked from what the driver says of the surface, by five
helpers: the number of images, their extent, their format, the present mode, and the composite
alpha. The driver's record has sentinels: a largest count of 0 is no limit, and an extent of
`u32::MAX` is for the presenter to choose.

Four of the picks are always among what the driver allows. The count is clamped to the driver's
limits and then raised to 2, so it is within them unless the largest count is 1
(`configureSurface_allowed_iff`).

`Allowed` is written from what a driver promises of such a record and not from the helpers: that is
why the largest count is a hypothesis of its field and the extent has two cases. `Valid` is the
driver's half of the contract. It is needed for more than the result: with limits the wrong way
round `clamp` panics, and there is no configuration at all.
-/

set_option autoImplicit false

namespace EngineKit
namespace Vulkan

open Lib
open Render (PresentSize)

def U32_MAX : UInt32 := 0xFFFFFFFF

def OPAQUE_COMPOSITE_ALPHA : UInt32 := 1

def VK_FORMAT_B8G8R8A8_UNORM : UInt32 := 44
def VK_FORMAT_R8G8B8A8_UNORM : UInt32 := 37
def VK_COLOR_SPACE_SRGB_NONLINEAR_KHR : UInt32 := 0

def VK_PRESENT_MODE_IMMEDIATE_KHR : UInt32 := 0
def VK_PRESENT_MODE_MAILBOX_KHR : UInt32 := 1
def VK_PRESENT_MODE_FIFO_KHR : UInt32 := 2
def VK_PRESENT_MODE_FIFO_RELAXED_KHR : UInt32 := 3

structure SurfaceCapabilities where
  minImageCount : UInt32
  maxImageCount : UInt32
  currentExtent : Extent2D
  minImageExtent : Extent2D
  maxImageExtent : Extent2D
  supportedCompositeAlpha : UInt32
deriving DecidableEq

structure SurfaceFormat where
  format : UInt32
  colorSpace : UInt32
deriving DecidableEq

/-- `u32::clamp`, which panics when the limits are the wrong way round. -/
def clamp (x lo hi : UInt32) : PresentResult UInt32 :=
  if hi < lo then .error .panicked else .ok (if x < lo then lo else if hi < x then hi else x)

def selectFormat (formats : List SurfaceFormat) (preferred : List (UInt32 × UInt32)) :
    SurfaceFormat :=
  match preferred.find? fun p => formats.any fun c => c.format == p.1 && c.colorSpace == p.2 with
  | some (format, colorSpace) => ⟨format, colorSpace⟩
  | none =>
    formats.head?.getD ⟨VK_FORMAT_B8G8R8A8_UNORM, VK_COLOR_SPACE_SRGB_NONLINEAR_KHR⟩

def pickPresentMode (modes : List UInt32) : Option UInt32 :=
  ([VK_PRESENT_MODE_MAILBOX_KHR, VK_PRESENT_MODE_IMMEDIATE_KHR, VK_PRESENT_MODE_FIFO_KHR,
    VK_PRESENT_MODE_FIFO_RELAXED_KHR].find? fun preferred => modes.contains preferred).or
    modes.head?

def pickExtent (caps : SurfaceCapabilities) (size : PresentSize) : PresentResult Extent2D :=
  if caps.currentExtent.width ≠ U32_MAX ∧ caps.currentExtent.height ≠ U32_MAX then
    .ok caps.currentExtent
  else do
    let width ← clamp size.width caps.minImageExtent.width caps.maxImageExtent.width
    let height ← clamp size.height caps.minImageExtent.height caps.maxImageExtent.height
    .ok ⟨width, height⟩

def defaultImageCount (caps : SurfaceCapabilities) : PresentResult UInt32 :=
  if caps.minImageCount = 0 then .ok 3
  else
    let desired := caps.minImageCount + 1
    if caps.maxImageCount ≠ 0 then clamp desired caps.minImageCount caps.maxImageCount
    else .ok (max desired caps.minImageCount)

/-- `1 << mask.trailing_zeros()`, unless the mask has the opaque bit or none. -/
def pickCompositeAlpha (caps : SurfaceCapabilities) : UInt32 :=
  if caps.supportedCompositeAlpha &&& OPAQUE_COMPOSITE_ALPHA ≠ 0 then OPAQUE_COMPOSITE_ALPHA
  else
    let mask := caps.supportedCompositeAlpha
    if mask = 0 then OPAQUE_COMPOSITE_ALPHA
    else (1 : UInt32) <<< UInt32.ofNat mask.toBitVec.ctz.toNat

structure SurfaceConfig where
  format : SurfaceFormat
  presentMode : UInt32
  extent : Extent2D
  imageCount : UInt32
deriving DecidableEq

/-- `configure_surface`, from what the driver answers. -/
def configureSurface (caps : SurfaceCapabilities) (formats : List SurfaceFormat)
    (modes : List UInt32) (size : PresentSize) : PresentResult SurfaceConfig :=
  let format := selectFormat formats
    [(VK_FORMAT_B8G8R8A8_UNORM, VK_COLOR_SPACE_SRGB_NONLINEAR_KHR),
      (VK_FORMAT_R8G8B8A8_UNORM, VK_COLOR_SPACE_SRGB_NONLINEAR_KHR)]
  match pickPresentMode modes with
  | none => .error .formatUnavailable
  | some presentMode => do
    let extent ← pickExtent caps size
    let count ← defaultImageCount caps
    .ok ⟨format, presentMode, extent, max count 2⟩

/-! ## What a driver may answer -/

/-- The record of a driver that keeps to the rules. -/
structure SurfaceCapabilities.Valid (caps : SurfaceCapabilities) : Prop where
  minPositive : 1 ≤ caps.minImageCount
  minSmall : caps.minImageCount < U32_MAX
  maxCount : caps.maxImageCount = 0 ∨ caps.minImageCount ≤ caps.maxImageCount
  width : caps.minImageExtent.width ≤ caps.maxImageExtent.width
  height : caps.minImageExtent.height ≤ caps.maxImageExtent.height
  current : caps.currentExtent = ⟨U32_MAX, U32_MAX⟩ ∨
    (caps.currentExtent.width ≠ U32_MAX ∧ caps.currentExtent.height ≠ U32_MAX)

/-- One dimension of an extent that the presenter chooses: within the limits, and what was asked for
    if that is. -/
structure Fits (asked lo hi picked : UInt32) : Prop where
  lower : lo ≤ picked
  upper : picked ≤ hi
  asked : lo ≤ asked → asked ≤ hi → picked = asked

/-- **What the driver allows** of a configuration. -/
structure SurfaceConfig.Allowed (config : SurfaceConfig) (caps : SurfaceCapabilities)
    (formats : List SurfaceFormat) (modes : List UInt32) (size : PresentSize) : Prop where
  minCount : caps.minImageCount ≤ config.imageCount
  maxCount : caps.maxImageCount ≠ 0 → config.imageCount ≤ caps.maxImageCount
  defined : caps.currentExtent ≠ ⟨U32_MAX, U32_MAX⟩ → config.extent = caps.currentExtent
  width : caps.currentExtent = ⟨U32_MAX, U32_MAX⟩ →
    Fits size.width caps.minImageExtent.width caps.maxImageExtent.width config.extent.width
  height : caps.currentExtent = ⟨U32_MAX, U32_MAX⟩ →
    Fits size.height caps.minImageExtent.height caps.maxImageExtent.height config.extent.height
  format : config.format ∈ formats
  presentMode : config.presentMode ∈ modes
  compositeAlpha : caps.supportedCompositeAlpha ≠ 0 →
    ∃ bit < 32, caps.supportedCompositeAlpha.toBitVec.getLsbD bit = true ∧
      (pickCompositeAlpha caps).toBitVec = BitVec.twoPow 32 bit

/-! ## The five picks -/

/-- Clamping, where the limits are the right way round. -/
theorem clamp_of_le {x lo hi : UInt32} (h : lo ≤ hi) :
    ∃ y, clamp x lo hi = .ok y ∧ Fits x lo hi y := by
  have hpanic : ¬ hi < lo := UInt32.not_lt.mpr h
  refine ⟨_, if_neg hpanic, ?_⟩
  by_cases hlo : x < lo
  · rw [if_pos hlo]
    exact ⟨UInt32.le_refl lo, h, fun hle => absurd hlo (UInt32.not_lt.mpr hle)⟩
  · rw [if_neg hlo]
    by_cases hhi : hi < x
    · rw [if_pos hhi]
      exact ⟨h, UInt32.le_refl hi, fun _ hle => absurd hhi (UInt32.not_lt.mpr hle)⟩
    · rw [if_neg hhi]
      exact ⟨UInt32.not_lt.mp hlo, UInt32.not_lt.mp hhi, fun _ _ => rfl⟩

/-- A preferred format that is there, or the first of all. -/
theorem selectFormat_mem {formats : List SurfaceFormat} (h : formats ≠ [])
    (preferred : List (UInt32 × UInt32)) : selectFormat formats preferred ∈ formats := by
  unfold selectFormat
  split
  · next format colorSpace hfound =>
    have hany := List.find?_some hfound
    obtain ⟨candidate, hmem, heq⟩ := List.any_eq_true.mp hany
    simp only [Bool.and_eq_true, beq_iff_eq] at heq
    obtain ⟨hformat, hspace⟩ := heq
    rw [← hformat, ← hspace]
    exact hmem
  · obtain ⟨first, rest, rfl⟩ := List.exists_cons_of_ne_nil h
    exact List.mem_cons_self

/-- A preferred mode that is there, or the first of all. -/
theorem pickPresentMode_mem {modes : List UInt32} (h : modes ≠ []) :
    ∃ mode, pickPresentMode modes = some mode ∧ mode ∈ modes := by
  obtain ⟨first, rest, rfl⟩ := List.exists_cons_of_ne_nil h
  unfold pickPresentMode
  cases hfound : [VK_PRESENT_MODE_MAILBOX_KHR, VK_PRESENT_MODE_IMMEDIATE_KHR,
      VK_PRESENT_MODE_FIFO_KHR, VK_PRESENT_MODE_FIFO_RELAXED_KHR].find?
        fun preferred => (first :: rest).contains preferred with
  | none => exact ⟨first, rfl, List.mem_cons_self⟩
  | some mode =>
    have hcontains := List.find?_some hfound
    exact ⟨mode, rfl, List.contains_iff_mem.mp hcontains⟩

/-- **The extent** is the driver's, or what was asked for as far as it is allowed. -/
theorem pickExtent_spec {caps : SurfaceCapabilities} (h : caps.Valid) (size : PresentSize) :
    ∃ extent, pickExtent caps size = .ok extent ∧
      (caps.currentExtent ≠ ⟨U32_MAX, U32_MAX⟩ → extent = caps.currentExtent) ∧
      (caps.currentExtent = ⟨U32_MAX, U32_MAX⟩ →
        Fits size.width caps.minImageExtent.width caps.maxImageExtent.width extent.width ∧
        Fits size.height caps.minImageExtent.height caps.maxImageExtent.height extent.height) := by
  rcases h.current with hundefined | hdefined
  · obtain ⟨width, hwidth, hfitsWidth⟩ := @clamp_of_le size.width _ _ h.width
    obtain ⟨height, hheight, hfitsHeight⟩ := @clamp_of_le size.height _ _ h.height
    refine ⟨⟨width, height⟩, ?_, fun hne => absurd hundefined hne, fun _ =>
      ⟨hfitsWidth, hfitsHeight⟩⟩
    rw [pickExtent, hundefined, if_neg (by simp), hwidth, hheight]
    rfl
  · refine ⟨caps.currentExtent, if_pos hdefined, fun _ => rfl, ?_⟩
    intro hundefined
    rw [hundefined] at hdefined
    exact absurd rfl hdefined.1

/-- The larger of two words. -/
theorem toNat_max (a b : UInt32) : (max a b).toNat = max a.toNat b.toNat := by
  have hmax : max a b = if a ≤ b then b else a := rfl
  rw [hmax]
  split
  · next h => have := UInt32.le_iff_toNat_le.mp h; omega
  · next h => have := UInt32.lt_iff_toNat_lt.mp (UInt32.not_le.mp h); omega

/-- **The count**: one more than the least, as far as the largest goes. -/
theorem defaultImageCount_spec {caps : SurfaceCapabilities} (h : caps.Valid) :
    ∃ count, defaultImageCount caps = .ok count ∧ caps.minImageCount ≤ count ∧
      (caps.maxImageCount ≠ 0 → count ≤ caps.maxImageCount) := by
  have hpositive : caps.minImageCount ≠ 0 := by
    intro hzero
    have hle := h.minPositive
    rw [hzero] at hle
    exact absurd hle (by decide)
  rw [defaultImageCount, if_neg hpositive]
  dsimp only
  -- Without a largest count nothing is cut off.
  by_cases hmax : caps.maxImageCount = 0
  · rw [if_neg (not_not.mpr hmax)]
    refine ⟨_, rfl, ?_, fun hne => absurd hmax hne⟩
    rw [UInt32.le_iff_toNat_le, toNat_max]
    exact Nat.le_max_right _ _
  · rw [if_pos hmax]
    obtain ⟨count, hcount, hfits⟩ := @clamp_of_le (caps.minImageCount + 1) _ _
      (h.maxCount.resolve_left hmax)
    exact ⟨count, hcount, hfits.lower, fun _ => hfits.upper⟩

/-- **The composite alpha** is one of the bits the driver has set. -/
theorem pickCompositeAlpha_spec {caps : SurfaceCapabilities}
    (h : caps.supportedCompositeAlpha ≠ 0) :
    ∃ bit < 32, caps.supportedCompositeAlpha.toBitVec.getLsbD bit = true ∧
      (pickCompositeAlpha caps).toBitVec = BitVec.twoPow 32 bit := by
  unfold pickCompositeAlpha
  -- The opaque bit, or the lowest that is set.
  by_cases hopaque : caps.supportedCompositeAlpha &&& OPAQUE_COMPOSITE_ALPHA ≠ 0
  · refine ⟨0, by decide, ?_, ?_⟩
    · cases hlow : caps.supportedCompositeAlpha.toBitVec.getLsbD 0 with
      | true => rfl
      | false =>
        have hand := @BitVec.and_one_eq_setWidth_ofBool_getLsbD 32
          caps.supportedCompositeAlpha.toBitVec
        rw [hlow] at hand
        exact absurd (UInt32.eq_of_toBitVec_eq hand) hopaque
    · rw [if_pos hopaque]
      rfl
  · have hmask : caps.supportedCompositeAlpha.toBitVec ≠ 0#32 := fun hzero =>
      h (UInt32.eq_of_toBitVec_eq hzero)
    have hset := BitVec.getLsbD_true_ctz_of_ne_zero hmask
    have hlt := BitVec.lt_of_getLsbD hset
    have hshift : ∀ bit < 32,
        ((1 : UInt32) <<< UInt32.ofNat bit).toBitVec = BitVec.twoPow 32 bit := by decide
    refine ⟨_, hlt, hset, ?_⟩
    rw [if_neg hopaque, if_neg h]
    exact hshift _ hlt

/-! ## The configuration -/

/-- **When the configuration is one the driver allows.** It is made, and all of it is within what
    the driver said, exactly when the driver's largest count is not 1. -/
theorem configureSurface_allowed_iff {caps : SurfaceCapabilities} (h : caps.Valid)
    {formats : List SurfaceFormat} (hformats : formats ≠ []) {modes : List UInt32}
    (hmodes : modes ≠ []) (size : PresentSize) :
    ∃ config, configureSurface caps formats modes size = .ok config ∧
      (config.Allowed caps formats modes size ↔ caps.maxImageCount ≠ 1) := by
  obtain ⟨mode, hmode, hmodeMem⟩ := pickPresentMode_mem hmodes
  obtain ⟨extent, hextent, hdefined, hundefined⟩ := pickExtent_spec h size
  obtain ⟨count, hcount, hlower, hupper⟩ := defaultImageCount_spec h
  have htwo : (max count 2).toNat = max count.toNat 2 := toNat_max count 2
  refine ⟨_, by rw [configureSurface, hmode, hextent, hcount]; rfl, ?_⟩
  constructor
  · intro hallowed hone
    have hle := UInt32.le_iff_toNat_le.mp (hallowed.maxCount (by rw [hone]; decide))
    rw [htwo, hone] at hle
    exact absurd (Nat.le_trans (Nat.le_max_right _ _) hle) (by decide)
  · intro hone
    constructor
    · refine UInt32.le_iff_toNat_le.mpr ?_
      rw [htwo]
      exact Nat.le_trans (UInt32.le_iff_toNat_le.mp hlower) (Nat.le_max_left _ _)
    · intro hlimited
      have hle := UInt32.le_iff_toNat_le.mp (hupper hlimited)
      have hzero : caps.maxImageCount.toNat ≠ 0 := fun heq => hlimited (UInt32.toNat_inj.mp heq)
      have hone' : caps.maxImageCount.toNat ≠ 1 := fun heq => hone (UInt32.toNat_inj.mp heq)
      rw [UInt32.le_iff_toNat_le, htwo]
      exact Nat.max_le.mpr ⟨hle, by omega⟩
    · exact hdefined
    · exact fun hsentinel => (hundefined hsentinel).1
    · exact fun hsentinel => (hundefined hsentinel).2
    · exact selectFormat_mem hformats _
    · exact hmodeMem
    · exact pickCompositeAlpha_spec

/-- Two to three images of an extent that the presenter chooses. -/
def roomyCaps : SurfaceCapabilities :=
  ⟨2, 3, ⟨U32_MAX, U32_MAX⟩, ⟨1, 1⟩, ⟨4096, 4096⟩, 8⟩

/-- One more than the two images asked for at least is the most that is allowed. -/
theorem configureSurface_roomy : ∃ config,
    configureSurface roomyCaps [⟨37, 0⟩] [2] ⟨640, 480⟩ = .ok config ∧
      config.Allowed roomyCaps [⟨37, 0⟩] [2] ⟨640, 480⟩ := by
  have hvalid : roomyCaps.Valid :=
    ⟨by decide, by decide, .inr (by decide), by decide, by decide, .inl rfl⟩
  obtain ⟨config, hconfig, hallowed⟩ :=
    configureSurface_allowed_iff hvalid (List.cons_ne_nil ⟨37, 0⟩ []) (List.cons_ne_nil 2 [])
      ⟨640, 480⟩
  exact ⟨config, hconfig, hallowed.mpr (by decide)⟩

/-- The driver has one image to give. -/
def singleCaps : SurfaceCapabilities := { roomyCaps with minImageCount := 1, maxImageCount := 1 }

/-- **Two images of one.** -/
theorem configureSurface_single :
    singleCaps.Valid ∧ defaultImageCount singleCaps = .ok 1 ∧
      ∃ config, configureSurface singleCaps [⟨37, 0⟩] [2] ⟨640, 480⟩ = .ok config ∧
        config.imageCount = 2 ∧ ¬ config.Allowed singleCaps [⟨37, 0⟩] [2] ⟨640, 480⟩ := by
  refine ⟨⟨by decide, by decide, .inr (by decide), by decide, by decide, .inl rfl⟩, by decide,
    ⟨⟨37, 0⟩, 2, ⟨640, 480⟩, 2⟩, by decide, rfl, ?_⟩
  intro hallowed
  have hle := hallowed.maxCount (by decide)
  exact absurd hle (by decide)

end Vulkan
end EngineKit
