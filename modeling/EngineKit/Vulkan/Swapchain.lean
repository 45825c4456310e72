import Mathlib.Data.List.Perm.Basic
import Mathlib.Data.List.Nodup

/-!
# The swapchain and its handle

A `Swapchain` owns one raw handle, and destroys it when it is dropped. `recreate` makes a second
one, copies its handle into the first, and lets it go out of scope. It is dropped there like any
other value, so the handle just copied is destroyed and the one it replaced never is
(`recreate_destroys_replacement`). The source's comment has the driver destroy the old swapchain;
passing it as `oldSwapchain` only retires it.

The driver is what the calls tell it: how many swapchains it has made, which it was told to
destroy, and which were passed to it when they were not live. What it answers is an input of each
call.
-/

set_option autoImplicit false

namespace EngineKit
namespace Vulkan

abbrev VkResult := Int32

def VK_SUCCESS : VkResult := 0
def VK_SUBOPTIMAL_KHR : VkResult := 1000001003
def VK_ERROR_OUT_OF_DATE_KHR : VkResult := -1000001004

/-- The driver numbers the swapchains in the order it makes them. -/
abbrev VkSwapchainKHR := Nat

abbrev VkImage := UInt64

inductive VulkanLoaderError where
  | missingCommand (name : String)
  | api (result : VkResult)
  | invalidQueuePlan
  | outOfDate
  | suboptimal
deriving DecidableEq

/-- `resolve_device`, with what `vkGetDeviceProcAddr` finds. -/
def resolveDevice (finds : String → Bool) (name : String) : Except VulkanLoaderError Unit :=
  if finds name then .ok () else .error (.missingCommand name)

/-- Several of them, up to the first that is not found. -/
def resolveDevices (finds : String → Bool) : List String → Except VulkanLoaderError Unit
  | [] => .ok ()
  | name :: names => do
    resolveDevice finds name
    resolveDevices finds names

theorem resolveDevices_cases (finds : String → Bool) (names : List String) :
    (resolveDevices finds names = .ok () ∧ ∀ name ∈ names, finds name) ∨
      ∃ e, resolveDevices finds names = .error e ∧ ¬∀ name ∈ names, finds name := by
  induction names with
  | nil => exact .inl ⟨rfl, List.forall_mem_nil _⟩
  | cons name names ih =>
    by_cases hfound : finds name
    · have hrest : resolveDevices finds (name :: names) = resolveDevices finds names := by
        simp only [resolveDevices, resolveDevice, hfound, if_true, bind, Except.bind]
      rw [hrest]
      simpa only [List.forall_mem_cons, hfound, true_and] using ih
    · refine .inr ⟨.missingCommand name, ?_, fun hall => hfound (hall name List.mem_cons_self)⟩
      simp only [resolveDevices, resolveDevice, hfound, bind, Except.bind]
      rfl

/-! ## The driver -/

structure Driver where
  created : Nat
  destroyed : List VkSwapchainKHR
  /-- The handles passed to acquire, present or destroy when they were not live. -/
  misused : List VkSwapchainKHR
deriving DecidableEq

namespace Driver

def new : Driver := ⟨0, [], []⟩

/-- A handle is live from its creation until it is destroyed. -/
def Live (driver : Driver) (handle : VkSwapchainKHR) : Prop :=
  handle < driver.created ∧ handle ∉ driver.destroyed

instance (driver : Driver) (handle : VkSwapchainKHR) : Decidable (driver.Live handle) :=
  inferInstanceAs (Decidable (_ ∧ _))

/-- A swapchain made, with the next handle. The old one, if it was given one, is retired: it is
    live as before. -/
def create (driver : Driver) : Driver := { driver with created := driver.created + 1 }

/-- A handle passed to acquire or present. -/
def use (driver : Driver) (handle : VkSwapchainKHR) : Driver :=
  if driver.Live handle then driver else { driver with misused := handle :: driver.misused }

/-- `vkDestroySwapchainKHR`. -/
def destroy (driver : Driver) (handle : VkSwapchainKHR) : Driver :=
  { driver.use handle with destroyed := handle :: driver.destroyed }

end Driver

/-! ## The swapchain -/

structure Swapchain where
  handle : VkSwapchainKHR
  images : List VkImage
deriving DecidableEq

/-- What the driver answers to a creation. The second `vkGetSwapchainImagesKHR` writes the
    images. -/
structure CreateAnswer where
  finds : String → Bool
  created : VkResult
  counted : VkResult
  filled : VkResult
  images : List VkImage

/-- The commands `Swapchain::create` looks up, in that order. -/
def swapchainCommands : List String :=
  ["vkCreateSwapchainKHR\x00", "vkDestroySwapchainKHR\x00", "vkGetSwapchainImagesKHR\x00",
    "vkAcquireNextImageKHR\x00"]

namespace Swapchain

def create (answer : CreateAnswer) (driver : Driver) :
    Driver × Except VulkanLoaderError Swapchain :=
  match resolveDevices answer.finds swapchainCommands with
  | .error e => (driver, .error e)
  | .ok () =>
    if answer.created ≠ VK_SUCCESS then (driver, .error (.api answer.created))
    else
      let handle := driver.created
      let driver := driver.create
      if answer.counted ≠ VK_SUCCESS then
        (driver.destroy handle, .error (.api answer.counted))
      else if answer.filled ≠ VK_SUCCESS then
        (driver.destroy handle, .error (.api answer.filled))
      else (driver, .ok ⟨handle, answer.images⟩)

/-- `Drop for Swapchain`. -/
def drop (swapchain : Swapchain) (driver : Driver) : Driver := driver.destroy swapchain.handle

def acquire (swapchain : Swapchain) (result : VkResult) (index : UInt32) (driver : Driver) :
    Driver × Except VulkanLoaderError UInt32 :=
  (driver.use swapchain.handle,
    if result = VK_SUCCESS then .ok index
    else if result = VK_SUBOPTIMAL_KHR then .error .suboptimal
    else if result = VK_ERROR_OUT_OF_DATE_KHR then .error .outOfDate
    else .error (.api result))

def present (swapchain : Swapchain) (finds : String → Bool) (result : VkResult)
    (driver : Driver) : Driver × Except VulkanLoaderError Unit :=
  match resolveDevice finds "vkQueuePresentKHR\x00" with
  | .error e => (driver, .error e)
  | .ok () =>
    (driver.use swapchain.handle,
      if result = VK_SUCCESS then .ok ()
      else if result = VK_SUBOPTIMAL_KHR then .error .suboptimal
      else if result = VK_ERROR_OUT_OF_DATE_KHR then .error .outOfDate
      else .error (.api result))

/-- `Swapchain::recreate`. The replacement is dropped where it goes out of scope; its images have
    been taken, its handle has been copied. -/
def recreate (swapchain : Swapchain) (answer : CreateAnswer) (driver : Driver) :
    Driver × Swapchain × Except VulkanLoaderError Unit :=
  match create answer driver with
  | (driver, .error e) => (driver, swapchain, .error e)
  | (driver, .ok replacement) =>
    let swapchain : Swapchain := ⟨replacement.handle, replacement.images⟩
    (drop { replacement with images := [] } driver, swapchain, .ok ())

end Swapchain

/-! ## What a creation does -/

/-- All commands are found and all three results are `VK_SUCCESS`. -/
def CreateAnswer.Succeeds (answer : CreateAnswer) : Prop :=
  (∀ name ∈ swapchainCommands, answer.finds name) ∧ answer.created = VK_SUCCESS ∧
    answer.counted = VK_SUCCESS ∧ answer.filled = VK_SUCCESS

/-- **A creation** makes nothing, makes a swapchain and destroys it again, or succeeds. -/
theorem Swapchain.create_cases (answer : CreateAnswer) (driver : Driver) :
    (∃ e, create answer driver = (driver, .error e) ∧ ¬answer.Succeeds) ∨
      (∃ e, create answer driver = (driver.create.destroy driver.created, .error e) ∧
        ¬answer.Succeeds) ∨
      create answer driver = (driver.create, .ok ⟨driver.created, answer.images⟩) ∧
        answer.Succeeds := by
  rcases resolveDevices_cases answer.finds swapchainCommands with ⟨hok, hall⟩ | ⟨e, herr, hnot⟩
  · by_cases hcreated : answer.created = VK_SUCCESS
    · by_cases hcounted : answer.counted = VK_SUCCESS
      · by_cases hfilled : answer.filled = VK_SUCCESS
        · refine .inr (.inr ⟨?_, hall, hcreated, hcounted, hfilled⟩)
          simp [create, hok, hcreated, hcounted, hfilled]
        · refine .inr (.inl ⟨.api answer.filled, ?_, fun h => hfilled h.2.2.2⟩)
          simp [create, hok, hcreated, hcounted, hfilled]
      · refine .inr (.inl ⟨.api answer.counted, ?_, fun h => hcounted h.2.2.1⟩)
        simp [create, hok, hcreated, hcounted]
    · refine .inl ⟨.api answer.created, ?_, fun h => hcreated h.2.1⟩
      simp [create, hok, hcreated]
  · refine .inl ⟨e, ?_, fun h => hnot h.1⟩
    simp only [create, herr]

/-! ## A swapchain's life -/

/-- A call between the creation and the drop, with what the driver answers. -/
inductive SwapchainCall where
  | acquire (result : VkResult) (index : UInt32)
  | present (finds : String → Bool) (result : VkResult)
  | recreate (answer : CreateAnswer)

def SwapchainCall.run (state : Driver × Swapchain) : SwapchainCall → Driver × Swapchain
  | .acquire result index => ((state.2.acquire result index state.1).1, state.2)
  | .present finds result => ((state.2.present finds result state.1).1, state.2)
  | .recreate answer =>
    ((state.2.recreate answer state.1).1, (state.2.recreate answer state.1).2.1)

/-- The calls one after the other, and the drop. -/
def SwapchainCall.runAll (calls : List SwapchainCall) (state : Driver × Swapchain) : Driver :=
  let state := calls.foldl SwapchainCall.run state
  state.2.drop state.1

/-- Every handle passed was live, and each one made has been destroyed once. -/
def Driver.Lawful (driver : Driver) : Prop :=
  driver.misused = [] ∧ driver.destroyed.Perm (List.range driver.created)

/-- The call is a `recreate` whose creation succeeds. -/
def SwapchainCall.Replaces : SwapchainCall → Prop
  | .recreate answer => answer.Succeeds
  | _ => False

/-- **The invariant up to the first replacement.** Every other swapchain is destroyed. -/
structure Driver.Owned (driver : Driver) (handle : VkSwapchainKHR) : Prop where
  unmisused : driver.misused = []
  books : (handle :: driver.destroyed).Perm (List.range driver.created)

namespace Driver

variable {driver : Driver} {handle : VkSwapchainKHR}

theorem Owned.live (h : driver.Owned handle) : driver.Live handle :=
  ⟨List.mem_range.mp (h.books.subset List.mem_cons_self),
    (List.nodup_cons.mp (h.books.nodup_iff.mpr List.nodup_range)).1⟩

theorem use_of_live (h : driver.Live handle) : driver.use handle = driver := if_pos h

theorem destroy_of_live (h : driver.Live handle) :
    driver.destroy handle = { driver with destroyed := handle :: driver.destroyed } := by
  rw [destroy, use_of_live h]

@[simp] theorem use_destroyed : (driver.use handle).destroyed = driver.destroyed := by
  rw [use]
  split <;> rfl

/-- A swapchain just made is live, and destroying it leaves the others as they were. -/
theorem Owned.undo (h : driver.Owned handle) :
    (driver.create.destroy driver.created).Owned handle := by
  have hlive : driver.create.Live driver.created := by
    refine ⟨Nat.lt_succ_self driver.created, ?_⟩
    intro hmem
    have hin := h.books.subset (List.mem_cons_of_mem handle hmem)
    exact Nat.lt_irrefl _ (List.mem_range.mp hin)
  rw [destroy_of_live hlive]
  refine ⟨h.unmisused, ?_⟩
  show (handle :: driver.created :: driver.destroyed).Perm (List.range (driver.created + 1))
  have hswap := List.Perm.swap driver.created handle driver.destroyed
  have hlast := List.perm_append_singleton driver.created (List.range driver.created)
  rw [List.range_succ]
  exact (hswap.trans (h.books.cons driver.created)).trans hlast.symm

/-- Dropping what is owned closes the books. -/
theorem Owned.drop (h : driver.Owned handle) : (driver.destroy handle).Lawful := by
  rw [destroy_of_live h.live]
  exact ⟨h.unmisused, h.books⟩

/-- Destroying a handle a second time is misuse. -/
theorem not_lawful_destroy (h : handle ∈ driver.destroyed) : ¬(driver.destroy handle).Lawful := by
  intro hall
  obtain ⟨hunmisused, -⟩ := hall
  have hnot : ¬driver.Live handle := fun hlive => hlive.2 h
  have hmisused : (driver.destroy handle).misused = handle :: driver.misused := by
    rw [destroy, use, if_neg hnot]
  rw [hmisused] at hunmisused
  cases hunmisused

end Driver

/-! ## The law -/

open Driver

/-- Whether the handle held has been destroyed already. -/
def Stale (state : Driver × Swapchain) : Prop := state.2.handle ∈ state.1.destroyed

/-- **A call that replaces nothing** leaves the swapchain its owner. -/
theorem Driver.Owned.run {state : Driver × Swapchain} {call : SwapchainCall}
    (h : state.1.Owned state.2.handle) (hcall : ¬call.Replaces) :
    (call.run state).1.Owned (call.run state).2.handle := by
  obtain ⟨driver, swapchain⟩ := state
  cases call with
  | acquire result index =>
    show (driver.use swapchain.handle).Owned swapchain.handle
    rw [use_of_live h.live]
    exact h
  | present finds result =>
    simp only [SwapchainCall.run, Swapchain.present]
    split
    · exact h
    · show (driver.use swapchain.handle).Owned swapchain.handle
      rw [use_of_live h.live]
      exact h
  | recreate answer =>
    rcases Swapchain.create_cases answer driver with ⟨e, he, -⟩ | ⟨e, he, -⟩ | ⟨-, hsucceeds⟩
    · simp only [SwapchainCall.run, Swapchain.recreate, he]
      exact h
    · simp only [SwapchainCall.run, Swapchain.recreate, he]
      exact h.undo
    · exact absurd hsucceeds hcall

/-- **A replacement** destroys the swapchain it has just made. -/
theorem recreate_destroys_replacement (state : Driver × Swapchain) {call : SwapchainCall}
    (hcall : call.Replaces) : Stale (call.run state) := by
  obtain ⟨driver, swapchain⟩ := state
  cases call with
  | acquire result index => exact hcall.elim
  | present finds result => exact hcall.elim
  | recreate answer =>
    rcases Swapchain.create_cases answer driver with ⟨e, -, hnot⟩ | ⟨e, -, hnot⟩ | ⟨hok, -⟩
    · exact absurd hcall hnot
    · exact absurd hcall hnot
    · simp only [Stale, SwapchainCall.run, Swapchain.recreate, hok]
      exact List.mem_cons_self

/-- And the swapchain does not recover from it. -/
theorem Stale.run {state : Driver × Swapchain} (h : Stale state) (call : SwapchainCall) :
    Stale (call.run state) := by
  by_cases hcall : call.Replaces
  · exact recreate_destroys_replacement state hcall
  · obtain ⟨driver, swapchain⟩ := state
    have hstale : swapchain.handle ∈ driver.destroyed := h
    cases call with
    | acquire result index => simpa [Stale, SwapchainCall.run, Swapchain.acquire] using hstale
    | present finds result =>
      simp only [Stale, SwapchainCall.run, Swapchain.present]
      split
      · exact hstale
      · simpa using hstale
    | recreate answer =>
      rcases Swapchain.create_cases answer driver with ⟨e, he, -⟩ | ⟨e, he, -⟩ | ⟨-, hok⟩
      · simp only [Stale, SwapchainCall.run, Swapchain.recreate, he]
        exact h
      · simp only [Stale, SwapchainCall.run, Swapchain.recreate, he]
        exact List.mem_cons_of_mem _ (by simpa [Driver.create] using hstale)
      · exact absurd hok hcall

theorem Stale.runAll {state : Driver × Swapchain} (h : Stale state)
    (calls : List SwapchainCall) : ¬(SwapchainCall.runAll calls state).Lawful := by
  induction calls generalizing state with
  | nil => exact not_lawful_destroy h
  | cons call calls ih => exact ih (h.run call)

/-- The calls from a swapchain that owns its handle. -/
theorem lawful_runAll_iff {state : Driver × Swapchain} (h : state.1.Owned state.2.handle)
    (calls : List SwapchainCall) :
    (SwapchainCall.runAll calls state).Lawful ↔ ∀ call ∈ calls, ¬call.Replaces := by
  induction calls generalizing state with
  | nil => exact ⟨fun _ => List.forall_mem_nil _, fun _ => h.drop⟩
  | cons call calls ih =>
    rw [List.forall_mem_cons]
    by_cases hcall : call.Replaces
    · refine ⟨fun hlawful => ?_, fun hall => absurd hcall hall.1⟩
      exact absurd hlawful ((recreate_destroys_replacement state hcall).runAll calls)
    · show (SwapchainCall.runAll calls (call.run state)).Lawful ↔ _
      rw [ih (h.run hcall)]
      exact ⟨fun hall => ⟨hcall, hall⟩, And.right⟩

/-- **The handles of a run.** After a creation that succeeds, any calls and the drop, every handle
    passed was live and every swapchain made has been destroyed once, just when no `recreate` was
    answered with a swapchain. -/
theorem handles_lawful_iff {answer : CreateAnswer} {driver : Driver} {swapchain : Swapchain}
    (h : Swapchain.create answer Driver.new = (driver, .ok swapchain))
    (calls : List SwapchainCall) :
    (SwapchainCall.runAll calls (driver, swapchain)).Lawful ↔ ∀ call ∈ calls, ¬call.Replaces := by
  refine lawful_runAll_iff ?_ calls
  rcases Swapchain.create_cases answer Driver.new with ⟨e, he, -⟩ | ⟨e, he, -⟩ | ⟨hok, -⟩
  · rw [he] at h
    cases h
  · rw [he] at h
    cases h
  · rw [hok] at h
    cases h
    exact ⟨rfl, List.Perm.refl [0]⟩

/-- A driver that answers every creation with a swapchain of two images. -/
def CreateAnswer.good : CreateAnswer := ⟨fun _ => true, VK_SUCCESS, VK_SUCCESS, VK_SUCCESS, [1, 2]⟩

/-- The recreation fails before there is a new swapchain, so the old one is still the one to
    destroy. -/
theorem handles_lawful_kept :
    Swapchain.create .good Driver.new = (⟨1, [], []⟩, .ok ⟨0, [1, 2]⟩) ∧
      (SwapchainCall.runAll [.acquire VK_SUCCESS 0, .present (fun _ => true) VK_SUCCESS,
        .recreate { CreateAnswer.good with created := -1 }] (⟨1, [], []⟩, ⟨0, [1, 2]⟩)).Lawful := by
  refine ⟨by decide, (@handles_lawful_iff .good _ _ (by decide) _).mpr ?_⟩
  intro call hcall
  simp only [List.mem_cons, List.not_mem_nil, or_false] at hcall
  rcases hcall with rfl | rfl | rfl
  · exact id
  · exact id
  · exact fun hgood => absurd hgood.2.1 (by decide)

/-- One resize: swapchain 1 is destroyed while it is held and again at the end, swapchain 0
    never. -/
theorem replaced_handle_leaks :
    Swapchain.create .good Driver.new = (⟨1, [], []⟩, .ok ⟨0, [1, 2]⟩) ∧
      SwapchainCall.runAll [.recreate .good] (⟨1, [], []⟩, ⟨0, [1, 2]⟩) = ⟨2, [1, 1], [1]⟩ ∧
      ¬(SwapchainCall.runAll [.recreate .good] (⟨1, [], []⟩, ⟨0, [1, 2]⟩)).Lawful := by
  have hrun : SwapchainCall.runAll [.recreate .good] (⟨1, [], []⟩, ⟨0, [1, 2]⟩)
      = ⟨2, [1, 1], [1]⟩ := by decide
  refine ⟨by decide, hrun, ?_⟩
  rw [hrun]
  exact fun hlawful => absurd hlawful.1 (List.cons_ne_nil _ _)

end Vulkan
end EngineKit
