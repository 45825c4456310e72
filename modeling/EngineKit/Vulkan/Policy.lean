import Mathlib.Data.List.Nodup
import EngineKit.Lib.LittleEndian

/-!
# Queue families

`src/platform/vulkan_policy.rs`. A device has families of queues; three roles need a queue each, and
prefer a family of their own. The roles that end up in one family are merged into one request, for
as many queues as there are roles.

How many queues the family has is not looked at again after the selection, which only wants one. So
the requests fit the device exactly when no family has more roles than queues
(`requests_fit_iff`).
-/

set_option autoImplicit false

namespace EngineKit
namespace Vulkan

open Lib

def QUEUE_GRAPHICS : UInt32 := 1
def QUEUE_COMPUTE : UInt32 := 2
def QUEUE_TRANSFER : UInt32 := 4

structure QueueFamilyInfo where
  index : UInt32
  flags : UInt32
  queueCount : UInt32
deriving DecidableEq

def QueueFamilyInfo.supports (family : QueueFamilyInfo) (required : UInt32) : Bool :=
  decide (0 < family.queueCount) && family.flags &&& required == required

structure QueueSelection where
  graphics : UInt32
  compute : UInt32
  transfer : UInt32
deriving DecidableEq

structure QueueCreateRequest where
  familyIndex : UInt32
  queueCount : UInt32
deriving DecidableEq

/-- The body of the loop of `build_queue_create_requests`. -/
def mergeRequest (requests : List QueueCreateRequest) (index : Nat) : List QueueCreateRequest :=
  match requests[index]? with
  | none => requests
  | some merged =>
    match (requests.take index).findIdx?
      fun request => request.familyIndex = merged.familyIndex with
    | none => requests
    | some previous =>
      (requests.modify previous fun request =>
        { request with queueCount := u32SaturatingAdd request.queueCount 1 }).modify index
          fun request => { request with queueCount := 0 }

def buildQueueCreateRequests (selection : QueueSelection) : List QueueCreateRequest :=
  [1, 2].foldl mergeRequest
    [⟨selection.graphics, 1⟩, ⟨selection.compute, 1⟩, ⟨selection.transfer, 1⟩]

inductive QueueSelectionError where
  | unsatisfied
deriving DecidableEq

def firstPreferred (families : List QueueFamilyInfo) (required avoid : UInt32) :
    Option QueueFamilyInfo :=
  (families.find? fun family => family.supports required && family.flags &&& avoid == 0).or
    (families.find? fun family => family.supports required)

def selectQueueFamilies (families : List QueueFamilyInfo) :
    Except QueueSelectionError QueueSelection :=
  match families.find? fun family => family.supports QUEUE_GRAPHICS,
    firstPreferred families QUEUE_COMPUTE QUEUE_GRAPHICS,
    firstPreferred families QUEUE_TRANSFER (QUEUE_GRAPHICS ||| QUEUE_COMPUTE) with
  | some graphics, some compute, some transfer =>
    .ok ⟨graphics.index, compute.index, transfer.index⟩
  | _, _, _ => .error .unsatisfied

/-! ## The requests -/

/-- The requests that `create_logical_device` passes on. -/
def activeRequests (selection : QueueSelection) : List QueueCreateRequest :=
  (buildQueueCreateRequests selection).filter fun request => request.queueCount ≠ 0

/-- The families of the three roles. -/
def QueueSelection.picks (selection : QueueSelection) : List UInt32 :=
  [selection.graphics, selection.compute, selection.transfer]

/-- The two passes of the loop, role by role. -/
theorem activeRequests_eq (graphics compute transfer : UInt32) :
    activeRequests ⟨graphics, compute, transfer⟩ =
      if graphics = compute then
        if graphics = transfer then [⟨graphics, 3⟩] else [⟨graphics, 2⟩, ⟨transfer, 1⟩]
      else if graphics = transfer then [⟨graphics, 2⟩, ⟨compute, 1⟩]
      else if compute = transfer then [⟨graphics, 1⟩, ⟨compute, 2⟩]
      else [⟨graphics, 1⟩, ⟨compute, 1⟩, ⟨transfer, 1⟩] := by
  have htwo : u32SaturatingAdd 1 1 = 2 := rfl
  have hthree : u32SaturatingAdd 2 1 = 3 := rfl
  unfold activeRequests buildQueueCreateRequests
  by_cases hgc : graphics = compute
  · by_cases hgt : graphics = transfer
    · simp [mergeRequest, List.findIdx?_cons, ← hgc, ← hgt, htwo, hthree]
    · simp [mergeRequest, List.findIdx?_cons, ← hgc, hgt, htwo]
  · by_cases hgt : graphics = transfer
    · simp [mergeRequest, List.findIdx?_cons, hgc, ← hgt, htwo]
    · by_cases hct : compute = transfer
      · simp [mergeRequest, List.findIdx?_cons, hgc, ← hct, htwo]
      · simp [mergeRequest, List.findIdx?_cons, hgc, hgt, hct]

/-- **What is requested**: each family that was picked, once, with a queue for each of its roles. -/
theorem activeRequests_spec (selection : QueueSelection) :
    ((activeRequests selection).map QueueCreateRequest.familyIndex).Nodup ∧
      (∀ index ∈ selection.picks, ∃ request ∈ activeRequests selection,
        request.familyIndex = index) ∧
      ∀ request ∈ activeRequests selection, request.familyIndex ∈ selection.picks ∧
        request.queueCount.toNat = selection.picks.count request.familyIndex := by
  obtain ⟨graphics, compute, transfer⟩ := selection
  rw [activeRequests_eq, QueueSelection.picks]
  by_cases hgc : graphics = compute
  · by_cases hgt : graphics = transfer
    · simp [← hgc, ← hgt]
    · simp [List.count_cons, ← hgc, hgt, Ne.symm hgt]
  · by_cases hgt : graphics = transfer
    · simp [List.count_cons, hgc, Ne.symm hgc, ← hgt]
    · by_cases hct : compute = transfer
      · simp [List.count_cons, hgc, Ne.symm hgc, ← hct]
      · simp [List.count_cons, hgc, Ne.symm hgc, hgt, Ne.symm hgt, hct, Ne.symm hct]

/-! ## Whether they fit -/

/-- How many of the three roles the selection gives to a family. -/
def roles (families : List QueueFamilyInfo) (family : QueueFamilyInfo) : Nat :=
  [families.find? fun family => family.supports QUEUE_GRAPHICS,
    firstPreferred families QUEUE_COMPUTE QUEUE_GRAPHICS,
    firstPreferred families QUEUE_TRANSFER (QUEUE_GRAPHICS ||| QUEUE_COMPUTE)].count (some family)

section Selected

variable {families : List QueueFamilyInfo} {selection : QueueSelection}

theorem mem_of_firstPreferred {required avoid : UInt32} {family : QueueFamilyInfo}
    (h : firstPreferred families required avoid = some family) : family ∈ families := by
  unfold firstPreferred at h
  rcases Option.or_eq_some_iff.mp h with hfound | ⟨-, hfound⟩
  · exact List.mem_of_find?_eq_some hfound
  · exact List.mem_of_find?_eq_some hfound

/-- The picks are families of the device, and a family is picked once for each of its roles. -/
theorem picks_spec (hdistinct : (families.map QueueFamilyInfo.index).Nodup)
    (h : selectQueueFamilies families = .ok selection) :
    (∀ index ∈ selection.picks, ∃ family ∈ families, family.index = index) ∧
      ∀ family ∈ families, selection.picks.count family.index = roles families family := by
  unfold selectQueueFamilies at h
  split at h
  · next graphics compute transfer hgraphics hcompute htransfer =>
    obtain rfl := Except.ok.inj h
    have hg := List.mem_of_find?_eq_some hgraphics
    have hc := mem_of_firstPreferred hcompute
    have ht := mem_of_firstPreferred htransfer
    constructor
    · simp only [QueueSelection.picks, List.forall_mem_cons]
      exact ⟨⟨graphics, hg, rfl⟩, ⟨compute, hc, rfl⟩, ⟨transfer, ht, rfl⟩, List.forall_mem_nil _⟩
    · intro family hfamily
      -- on the device's families an index is as good as the family
      have hsame {picked : QueueFamilyInfo} (hpicked : picked ∈ families) :
          picked.index = family.index ↔ picked = family :=
        ⟨fun heq => List.inj_on_of_nodup_map hdistinct hpicked hfamily heq, congrArg _⟩
      simp only [QueueSelection.picks, roles, hgraphics, hcompute, htransfer, List.count_cons,
        List.count_nil, beq_iff_eq, hsame hg, hsame hc, hsame ht, Option.some.injEq]
  · cases h

/-- **When the requests fit the device.** They always name distinct families of the device, each
    with at least one queue. No request is for more queues than its family has, exactly when no
    family has more roles than queues. -/
theorem requests_fit_iff (hdistinct : (families.map QueueFamilyInfo.index).Nodup)
    (h : selectQueueFamilies families = .ok selection) :
    (((activeRequests selection).map QueueCreateRequest.familyIndex).Nodup ∧
      ∀ request ∈ activeRequests selection, ∃ family ∈ families,
        family.index = request.familyIndex ∧ 0 < request.queueCount ∧
          request.queueCount ≤ family.queueCount) ↔
    ∀ family ∈ families, roles families family ≤ family.queueCount.toNat := by
  obtain ⟨hnodup, hnamed, hcounts⟩ := activeRequests_spec selection
  obtain ⟨hpicks, hroles⟩ := picks_spec hdistinct h
  constructor
  · intro hfits family hfamily
    obtain ⟨-, hfits⟩ := hfits
    rw [← hroles family hfamily]
    by_cases hpicked : family.index ∈ selection.picks
    · obtain ⟨request, hrequest, hindex⟩ := hnamed _ hpicked
      obtain ⟨owner, howner, hown, -, hle⟩ := hfits request hrequest
      obtain rfl : owner = family :=
        List.inj_on_of_nodup_map hdistinct howner hfamily (hown.trans hindex)
      rw [hown, ← (hcounts request hrequest).2]
      exact UInt32.le_iff_toNat_le.mp hle
    · rw [List.count_eq_zero_of_not_mem hpicked]
      exact Nat.zero_le _
  · intro hfits
    refine ⟨hnodup, ?_⟩
    intro request hrequest
    obtain ⟨hpicked, hcount⟩ := hcounts request hrequest
    obtain ⟨family, hfamily, hindex⟩ := hpicks _ hpicked
    refine ⟨family, hfamily, hindex, ?_, ?_⟩
    · rw [UInt32.lt_iff_toNat_lt, hcount]
      exact List.count_pos_iff.mpr hpicked
    · rw [UInt32.le_iff_toNat_le, hcount, ← hindex, hroles family hfamily]
      exact hfits family hfamily

end Selected

/-- Two families, and none has two roles. -/
theorem requests_fit_dedicated :
    selectQueueFamilies [⟨0, 1, 1⟩, ⟨1, 2, 1⟩, ⟨2, 4, 1⟩] = .ok ⟨0, 1, 2⟩ ∧
      ∀ request ∈ activeRequests ⟨0, 1, 2⟩, ∃ family ∈
        [(⟨0, 1, 1⟩ : QueueFamilyInfo), ⟨1, 2, 1⟩, ⟨2, 4, 1⟩],
        family.index = request.familyIndex ∧ 0 < request.queueCount ∧
          request.queueCount ≤ family.queueCount := by
  have hselect : selectQueueFamilies [⟨0, 1, 1⟩, ⟨1, 2, 1⟩, ⟨2, 4, 1⟩] = .ok ⟨0, 1, 2⟩ := by decide
  exact ⟨hselect, ((requests_fit_iff (by decide) hselect).mpr (by decide)).2⟩

/-- **One queue for everything.** It is picked for all three roles, and three are requested. -/
theorem requests_one_queue :
    selectQueueFamilies [⟨0, 7, 1⟩] = .ok ⟨0, 0, 0⟩ ∧
      buildQueueCreateRequests ⟨0, 0, 0⟩ = [⟨0, 3⟩, ⟨0, 0⟩, ⟨0, 0⟩] ∧
      ∃ request ∈ activeRequests ⟨0, 0, 0⟩, ¬ ∃ family ∈ [(⟨0, 7, 1⟩ : QueueFamilyInfo)],
        family.index = request.familyIndex ∧ request.queueCount ≤ family.queueCount := by
  decide

end Vulkan
end EngineKit
