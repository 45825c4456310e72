import EngineKit.Lib.LinkTree
import EngineKit.Ui.Components

/-!
# The UI tree

Nodes sit in slots with generations and name each other by `UiNodeId`. Most calls can refuse at
several places, some of them after a first write, so a call takes a tree to its result and the
tree it leaves (`Except Failure α × UiTree F`).

The walks up and down the links have no bound of their own in the source. They run on fuel here,
one step for each slot, and `Failure.noReturn` is a walk that needs more: no tree the calls can
build has one. `Room` says which of a call's reservations find memory.
-/

set_option autoImplicit false

namespace EngineKit
namespace Ui

open Lib

/-- How a call fails: with an error, or by not returning (an endless walk, an index out of
    bounds). -/
inductive Failure where
  | err (e : UiError)
  | noReturn
deriving DecidableEq

instance : MonadLift (Except UiError) (Except Failure) := ⟨fun x => x.mapError .err⟩

@[simp] theorem monadLift_eq_ok {α : Type} {x : Except UiError α} {a : α} :
    (liftM x : Except Failure α) = .ok a ↔ x = .ok a := by
  cases x <;> simp [liftM, monadLift, MonadLift.monadLift, Except.mapError]

structure TreeConfig where
  maxNodes : Nat
  maxDepth : Nat
  maxTextBytes : Nat

/-- The reservations of a call that find memory: for a slot and its generation, for a new node's
    children, for one more child, for the list of a subtree, for the slots it frees. -/
structure Room where
  slots : Bool
  generations : Bool
  children : Bool
  link : Bool
  order : Bool
  free : Bool

def Room.ample : Room := ⟨true, true, true, true, true, true⟩

structure UiNode (F : Type) where
  id : UiNodeId
  parent : Option UiNodeId
  children : List UiNodeId
  content : UiNodeContent F
  rect : UiRect F
  dirty : Bool

structure UiTree (F : Type) where
  slots : List (Option (UiNode F))
  generations : List UInt32
  free : List UInt32
  root : UiNodeId
  count : Nat
  config : TreeConfig

/-- One call after another; a failed one is the last. -/
def andThen {F α β : Type} (first : Except Failure α × UiTree F)
    (next : α → UiTree F → Except Failure β × UiTree F) : Except Failure β × UiTree F :=
  match first with
  | (.error e, t) => (.error e, t)
  | (.ok a, t) => next a t

namespace UiTree

variable {F : Type} [Coord F]

def tryNew (room : Room) (config : TreeConfig) : Except UiError (UiTree F) := do
  failIf (config.maxNodes = 0 ∨ config.maxDepth = 0) .invalidValue
  failIf (room.slots = false) .allocationFailed
  failIf (room.generations = false) .allocationFailed
  .ok
    { slots := [some ⟨⟨0, 1⟩, none, [], .new .root, .zero, true⟩]
      generations := [1]
      free := []
      root := ⟨0, 1⟩
      count := 1
      config }

section Access

omit [Coord F]

def len (t : UiTree F) : Nat := t.count

def validSlot (t : UiTree F) (id : UiNodeId) : Bool :=
  t.generations[id.index.toNat]? == some id.generation && t.slots[id.index.toNat]?.join.isSome

def contains (t : UiTree F) (id : UiNodeId) : Bool := t.validSlot id

/-- The node an id names, as every accessor finds it. -/
def lookup (t : UiTree F) (id : UiNodeId) : Option (UiNode F) :=
  t.slots[id.index.toNat]?.join.filter fun node => node.id = id

def node (t : UiTree F) (id : UiNodeId) : Except UiError (UiNode F) :=
  match t.lookup id with
  | some node => .ok node
  | none => .error .invalidNode

def content (t : UiTree F) (id : UiNodeId) : Except UiError (UiNodeContent F) :=
  (t.node id).map UiNode.content

def parent (t : UiTree F) (id : UiNodeId) : Except UiError (Option UiNodeId) :=
  (t.node id).map UiNode.parent

/-- `tree.parent(id).ok().flatten()`. -/
def up (t : UiTree F) (id : UiNodeId) : Option UiNodeId :=
  match t.parent id with
  | .ok parent => parent
  | .error _ => none

def children (t : UiTree F) (id : UiNodeId) : Except UiError (List UiNodeId) :=
  (t.node id).map UiNode.children

def rect (t : UiTree F) (id : UiNodeId) : Except UiError (UiRect F) :=
  (t.node id).map UiNode.rect

def setNode (t : UiTree F) (node : UiNode F) : UiTree F :=
  { t with slots := t.slots.set node.id.index.toNat (some node) }

/-- A write through `node_mut`. -/
def nodeMut (t : UiTree F) (id : UiNodeId) (f : UiNode F → UiNode F) :
    Except Failure Unit × UiTree F :=
  match t.node id with
  | .error e => (.error (.err e), t)
  | .ok node => (.ok (), t.setNode (f node))

/-- A write through `content_mut`. -/
def contentMut (t : UiTree F) (id : UiNodeId) (f : UiNodeContent F → UiNodeContent F) :
    Except Failure Unit × UiTree F :=
  t.nodeMut id fun node => { node with content := f node.content }

/-- `mark_ancestors_dirty`, which marks the node first. -/
def markAncestorsDirty : Nat → UiNodeId → UiTree F → Except Failure Unit × UiTree F
  | 0, _, t => (.error .noReturn, t)
  | fuel + 1, id, t =>
    match t.node id with
    | .error e => (.error (.err e), t)
    | .ok node =>
      match node.parent with
      | some parent => markAncestorsDirty fuel parent (t.setNode { node with dirty := true })
      | none => (.ok (), t.setNode { node with dirty := true })

/-- The loop of `UiTree::depth`: `depth` steps up from the node asked about, at `id`. It stops at
    `max_depth` by itself. -/
def depthFrom (t : UiTree F) : Nat → Nat → UiNodeId → Except Failure Nat
  | 0, _, _ => .error .noReturn
  | fuel + 1, depth, id => do
    let node ← t.node id
    match node.parent with
    | none => .ok depth
    | some parent =>
      let depth ← orOverflow (checkedAdd depth 1)
      if t.config.maxDepth ≤ depth then .error (.err .depthExceeded)
      else t.depthFrom fuel depth parent

def depth (t : UiTree F) (id : UiNodeId) : Except Failure Nat :=
  t.depthFrom (t.config.maxDepth + 1) 0 id

/-- The check that a child fits below `parent`, in `create` and in `reparent`. -/
def checkDepth (t : UiTree F) (parent : UiNodeId) : Except Failure Unit := do
  let parentDepth ← t.depth parent
  let depth ← orOverflow (checkedAdd parentDepth 1)
  failIf (t.config.maxDepth ≤ depth) .depthExceeded

def collectSubtree (t : UiTree F) : Nat → UiNodeId → Except Failure (List UiNodeId)
  | 0, _ => .error .noReturn
  | fuel + 1, id => do
    let children ← t.children id
    let below ← children.mapM (t.collectSubtree fuel)
    .ok (id :: below.flatten)

def preorder (room : Room) (t : UiTree F) : Except Failure (List UiNodeId) := do
  failIf (room.order = false) .allocationFailed
  t.collectSubtree t.slots.length t.root

end Access

/-! ## Rectangles and contents -/

def setRect (t : UiTree F) (id : UiNodeId) (rect : UiRect F) : Except Failure Unit × UiTree F :=
  if ¬ rect.sane then (.error (.err .invalidValue), t)
  else t.nodeMut id fun node => { node with rect, dirty := false }

/-- What `create` and `set_content` ask of a content. -/
def checkContent (t : UiTree F) (content : UiNodeContent F) : Except UiError Unit := do
  failIf (content.sane = false) .invalidValue
  failIf (content.text.any fun text => t.config.maxTextBytes < text.byteLen) .capacityExceeded

def setContent (t : UiTree F) (id : UiNodeId) (content : UiNodeContent F) :
    Except Failure Unit × UiTree F :=
  match t.checkContent content with
  | .error e => (.error (.err e), t)
  | .ok () =>
    andThen (t.nodeMut id fun node => { node with content }) fun _ t =>
      t.markAncestorsDirty t.slots.length id

/-! ## Create -/

def createChecks (t : UiTree F) (parent : UiNodeId) (content : UiNodeContent F) :
    Except Failure Unit := do
  failIf (t.validSlot parent = false) .invalidParent
  t.checkContent content
  t.checkDepth parent
  failIf (t.config.maxNodes ≤ t.count) .capacityExceeded

/-- The slot of a new node: one that was freed, or one more. -/
def takeSlot (room : Room) (t : UiTree F) : Except Failure UiNodeId × UiTree F :=
  match t.free.getLast? with
  | some index =>
    match t.generations[index.toNat]? with
    | none => (.error .noReturn, { t with free := t.free.dropLast })
    | some generation => (.ok ⟨index, generation⟩, { t with free := t.free.dropLast })
  | none =>
    match u32TryFrom t.slots.length with
    | none => (.error (.err .indexOverflow), t)
    | some index =>
      if room.slots && room.generations then
        (.ok ⟨index, 1⟩,
          { t with slots := t.slots ++ [none], generations := t.generations ++ [1] })
      else (.error (.err .allocationFailed), t)

/-- The end of `create`: the node goes to its slot and to its parent's children. -/
def addNode (room : Room) (parent : UiNodeId) (content : UiNodeContent F) (id : UiNodeId)
    (t : UiTree F) : Except Failure UiNodeId × UiTree F :=
  if ¬ room.children then (.error (.err .allocationFailed), t)
  else
    match t.node parent with
    | .error e => (.error (.err e), t)
    | .ok node =>
      if ¬ room.link then (.error (.err .allocationFailed), t)
      else
        let t := t.setNode { node with children := node.children ++ [id] }
        let t := t.setNode ⟨id, some parent, [], content, .zero, true⟩
        (.ok id, { t with count := t.count + 1 })

def create (room : Room) (t : UiTree F) (parent : UiNodeId) (content : UiNodeContent F) :
    Except Failure UiNodeId × UiTree F :=
  match t.createChecks parent content with
  | .error e => (.error e, t)
  | .ok () => andThen (t.takeSlot room) (addNode room parent content)

/-! ## Reparent -/

omit [Coord F]

/-- The loop of `reparent` that looks for the node above its new parent. -/
def checkCycle (t : UiTree F) (id : UiNodeId) : Nat → UiNodeId → Except Failure Unit
  | 0, _ => .error .noReturn
  | fuel + 1, cursor =>
    if cursor = id then .error (.err .cycle)
    else do
      let parent ← t.parent cursor
      match parent with
      | some parent => t.checkCycle id fuel parent
      | none => .ok ()

/-- The checks of `reparent`, and the parent the node has. -/
def reparentChecks (t : UiTree F) (id newParent : UiNodeId) : Except Failure UiNodeId := do
  failIf (id = t.root ∨ t.validSlot newParent = false) .invalidParent
  t.checkCycle id t.slots.length newParent
  t.checkDepth newParent
  let oldParent ← t.parent id
  match oldParent with
  | some oldParent => .ok oldParent
  | none => .error (.err .invalidParent)

def reparent (room : Room) (t : UiTree F) (id newParent : UiNodeId) :
    Except Failure Unit × UiTree F :=
  match t.reparentChecks id newParent with
  | .error e => (.error e, t)
  | .ok oldParent =>
    match t.node newParent with
    | .error e => (.error (.err e), t)
    | .ok _ =>
      if ¬ room.link then (.error (.err .allocationFailed), t)
      else
        andThen (t.nodeMut oldParent fun node =>
            { node with children := node.children.filter (· ≠ id) }) fun _ t =>
        andThen (t.nodeMut newParent fun node =>
            { node with children := node.children ++ [id] }) fun _ t =>
        andThen (t.nodeMut id fun node => { node with parent := some newParent }) fun _ t =>
          t.markAncestorsDirty t.slots.length id

/-! ## Destroy -/

/-- A generation that can still be counted up. -/
def checkGeneration (t : UiTree F) (id : UiNodeId) : Except Failure Unit :=
  match t.generations[id.index.toNat]? with
  | none => .error .noReturn
  | some generation => do
    let _ ← orOverflow (u32CheckedAdd generation 1)
    .ok ()

def checkGenerations (t : UiTree F) : List UiNodeId → Except Failure Unit
  | [] => .ok ()
  | id :: ids => do
    t.checkGeneration id
    t.checkGenerations ids

/-- The checks of `destroy`: the subtree, and the node's parent. -/
def destroyChecks (room : Room) (t : UiTree F) (id : UiNodeId) :
    Except Failure (List UiNodeId × UiNodeId) := do
  failIf (id = t.root) .invalidNode
  failIf (room.order = false) .allocationFailed
  let order ← t.collectSubtree t.slots.length id
  failIf (room.free = false) .allocationFailed
  t.checkGenerations order
  let parent ← t.parent id
  match parent with
  | some parent => .ok (order, parent)
  | none => .error (.err .invalidNode)

/-- The loop of `destroy`, for one node. -/
def removeNode (t : UiTree F) (id : UiNodeId) : UiTree F :=
  { t with
    slots := t.slots.set id.index.toNat none
    generations := t.generations.modify id.index.toNat (· + 1)
    free := t.free ++ [id.index]
    count := t.count - 1 }

def destroy (room : Room) (t : UiTree F) (id : UiNodeId) : Except Failure Unit × UiTree F :=
  match t.destroyChecks room id with
  | .error e => (.error e, t)
  | .ok (order, parent) =>
    andThen (t.nodeMut parent fun node =>
        { node with children := node.children.filter (· ≠ id) }) fun _ t =>
      (.ok (), order.reverse.foldl removeNode t)

end UiTree

end Ui
end EngineKit
