import EngineKit.Ui.Mutations

/-!
# UI commands

Mutations that wait for the frame boundary. A buffer holds at most its capacity of them; `apply`
runs them in the order they came, counts those that succeed and goes on after those that fail.

`Change` is all a call can do to a tree, one constructor for each way. A call that runs out of
memory can set a slot aside, so `Change` is told whether a call may (`lossy`).

Whatever law is asked of every reachable tree, it is enough to ask it of `Change`, which has five
cases and not one for each command and for each call beside them. The cases are by what
happens to the links: nothing, one child moved, a slot reserved, a leaf created, a subtree
destroyed.
-/

set_option autoImplicit false

namespace EngineKit
namespace Ui

open Lib

variable {F : Type}

inductive UiCommand (F : Type) where
  | create (parent : UiNodeId) (content : UiNodeContent F)
  | destroy (node : UiNodeId)
  | reparent (node parent : UiNodeId)
  | setStyle (node : UiNodeId) (style : UiStyle F)
  | setText (node : UiNodeId) (text : UiText)
  | setVisible (node : UiNodeId) (visible : Bool)
  | setZIndex (node : UiNodeId) (zIndex : Int32)
  | setAccessibility (node : UiNodeId) (accessibility : UiAccessibility)

/-- The commands waiting in a buffer. `usize` bounds the capacity. -/
structure UiCommandBuffer (F : Type) where
  commands : List (UiCommand F)
  capacity : Nat
  fits : commands.length ≤ capacity
  small : capacity < 2 ^ 64

def UiCommandBuffer.tryWithCapacity (room : Bool) (capacity : Nat) (small : capacity < 2 ^ 64) :
    Except UiError (UiCommandBuffer F) :=
  if room then .ok ⟨[], capacity, Nat.zero_le _, small⟩ else .error .allocationFailed

def UiCommandBuffer.tryPush (buffer : UiCommandBuffer F) (command : UiCommand F) :
    Except UiError Unit × UiCommandBuffer F :=
  if h : buffer.capacity ≤ buffer.commands.length then (.error .capacityExceeded, buffer)
  else
    (.ok (),
      { buffer with
        commands := buffer.commands ++ [command]
        fits := by simp; omega })

section Run

variable [Coord F]

/-- One arm of `apply`. -/
def UiCommand.run (room : Room) (t : UiTree F) : UiCommand F → Except Failure Unit × UiTree F
  | .create parent content => andThen (t.create room parent content) fun _ t => (.ok (), t)
  | .destroy node => t.destroy room node
  | .reparent node parent => t.reparent room node parent
  | .setStyle node style =>
    if style.sane then t.contentMut node fun content => { content with style }
    else (.error (.err .invalidValue), t)
  | .setText node text =>
    if text.byteLen ≤ t.config.maxTextBytes then
      t.contentMut node fun content => { content with text := some text }
    else (.error (.err .capacityExceeded), t)
  | .setVisible node visible => t.contentMut node fun content => { content with visible }
  | .setZIndex node zIndex => t.contentMut node fun content => { content with zIndex }
  | .setAccessibility node accessibility =>
    t.contentMut node fun content => { content with accessibility }

/-- The loop of `apply`, with the number of commands applied so far. `room` is what each of them
    finds of memory. -/
def applyCommands : List (UiCommand F) → (Nat → Room) → Nat → UiTree F →
    Except Failure Nat × UiTree F
  | [], _, applied, t => (.ok applied, t)
  | command :: commands, room, applied, t =>
    match command.run (room 0) t with
    | (.ok (), t) =>
      applyCommands commands (fun i => room (i + 1)) (usizeSaturatingAdd applied 1) t
    | (.error (.err _), t) => applyCommands commands (fun i => room (i + 1)) applied t
    | (.error .noReturn, t) => (.error .noReturn, t)

/-- `UiCommandBuffer::apply`: the number of commands that succeeded, the tree, and the drained
    buffer. -/
def UiCommandBuffer.apply (room : Nat → Room) (buffer : UiCommandBuffer F) (t : UiTree F) :
    Except Failure Nat × UiTree F × UiCommandBuffer F :=
  let (applied, t) := applyCommands buffer.commands room 0 t
  (applied, t, { buffer with commands := [], fits := Nat.zero_le _ })

end Run

/-! ## What a call can do -/

namespace UiTree

inductive Change (lossy : Bool) (t : UiTree F) : UiTree F → Prop where
  | kept {t' : UiTree F} (kept : t.Kept t') : Change lossy t t'
  | moved {t' : UiTree F} {id newParent oldParent : UiNodeId}
      (checks : t.reparentChecks id newParent = .ok oldParent) (frame : t.Frame t')
      (links : t'.links = moveBelow id newParent t.links) : Change lossy t t'
  | reserved {t' : UiTree F} {id : UiNodeId} (may : lossy = true) (reserved : t.Reserved t' id) :
      Change lossy t t'
  | created {u t' : UiTree F} {id parent : UiNodeId} {d : Nat}
      (depth : Climb (parentOf t.links) parent t.root d) (room : d + 1 < t.config.maxDepth)
      (count : t.count < t.config.maxNodes) (created : t.Created u t' id parent) :
      Change lossy t t'
  | destroyed {t' : UiTree F} {id : UiNodeId} {order : List UiNodeId} (notRoot : id ≠ t.root)
      (destroyed : t.Destroyed t' id order) : Change lossy t t'

/-- **Every change keeps the shape.** -/
theorem Change.shape {lossy : Bool} {t t' : UiTree F} (h : t.Change lossy t') (hs : t.Shape) :
    t'.Shape := by
  -- What moves and what is removed are lemmas about the links; the rest leaves or extends them.
  cases h with
  | kept kept => exact kept.shape hs
  | moved checks frame links =>
    obtain ⟨hne, hparent, hout, d, hd, -⟩ := hs.reparentChecks_iff.mp checks
    obtain ⟨l, hl⟩ := IsTree.live_of_parent hparent
    obtain ⟨m, hm⟩ := hs.tree.live_of_rooted hd
    refine ⟨frame.wf hs.toWf, ?_, ?_⟩
    · rw [frame.root, links]
      exact hs.tree.moveBelow hne hl hm hout
    · rw [frame.count, frame.config]
      exact hs.bounded
  | reserved may reserved =>
    have hlinks : t'.links = t.links := by
      funext x
      rw [links, reserved.lookup, links]
    refine ⟨reserved.wf, ?_, ?_⟩
    · rw [reserved.root, hlinks]
      exact hs.tree
    · rw [reserved.count, reserved.config]
      exact hs.bounded
  | created depth room count created =>
    obtain ⟨l, hl⟩ := hs.tree.live_of_rooted depth
    refine ⟨created.wf, ?_, ?_⟩
    · rw [created.root, created.links]
      refine hs.tree.insertLeaf hl ?_
      rw [links, created.fresh]
      rfl
    · rw [created.count, created.config]
      exact count
  | @destroyed _ id order notRoot destroyed =>
    obtain ⟨u, hframe, hremoved⟩ := destroyed.removed
    refine ⟨destroyed.wf, ?_, ?_⟩
    · rw [hremoved.root, hframe.root, destroyed.links]
      exact hs.tree.cutAway notRoot destroyed.preorder.mem
    · have hcount := hremoved.count
      rw [hframe.count] at hcount
      rw [hremoved.config, hframe.config]
      exact hcount.trans hs.bounded

/-- No slot's generation goes back. -/
theorem Change.grows {lossy : Bool} {t t' : UiTree F} (h : t.Change lossy t') {i : Nat}
    {g : UInt32} (hi : t.generations[i]? = some g) :
    ∃ g', t'.generations[i]? = some g' ∧ g ≤ g' := by
  cases h with
  | kept kept => exact ⟨g, by rw [kept.generations, hi], UInt32.le_refl g⟩
  | moved _ frame _ => exact ⟨g, by rw [frame.generations, hi], UInt32.le_refl g⟩
  | reserved _ reserved => exact ⟨g, reserved.grows hi, UInt32.le_refl g⟩
  | created _ _ _ created =>
    exact ⟨g, by rw [created.generations, created.reserved.grows hi], UInt32.le_refl g⟩
  | destroyed _ destroyed =>
    obtain ⟨u, hframe, hremoved⟩ := destroyed.removed
    exact hremoved.grows (by rw [hframe.generations, hi])

/-- The limits are those of the construction. -/
theorem Change.config {lossy : Bool} {t t' : UiTree F} (h : t.Change lossy t') :
    t'.config = t.config := by
  cases h with
  | kept kept => exact kept.config
  | moved _ frame _ => exact frame.config
  | reserved _ reserved => exact reserved.config
  | created _ _ _ created => exact created.config
  | destroyed _ destroyed =>
    obtain ⟨u, hframe, hremoved⟩ := destroyed.removed
    exact hremoved.config.trans hframe.config

/-- No dead slot is lost: it is on the free list. -/
def Tight (t : UiTree F) : Prop := ∀ i : UInt32, t.slots[i.toNat]? = some none → i ∈ t.free

/-- Where memory is never missing, no slot is set aside. -/
theorem Change.tight {t t' : UiTree F} (h : t.Change false t') (ht : t.Tight) : t'.Tight := by
  intro i hi
  -- Only a reservation leaves a dead slot off the list, and it needs memory to be missing.
  cases h with
  | kept kept =>
    rw [kept.free]
    exact ht i ((kept.dead _).mp hi)
  | moved _ frame _ =>
    rw [frame.free]
    exact ht i ((frame.dead _).mp hi)
  | reserved may _ => cases may
  | created _ _ _ created =>
    obtain ⟨hne, hdead⟩ := (created.dead _).mp hi
    have hindex := fun heq => hne (congrArg UInt32.toNat heq)
    rw [created.free, created.reserved.free]
    exact ⟨ht i (created.reserved.dead i hindex hdead), hindex⟩
  | destroyed _ destroyed =>
    obtain ⟨u, hframe, hremoved⟩ := destroyed.removed
    rw [hremoved.free, hframe.free]
    rcases hremoved.dead i hi with hu | hmem
    · exact List.mem_append_left _ (ht i ((hframe.dead _).mp hu))
    · exact List.mem_append_right _ hmem

end UiTree

end Ui
end EngineKit
