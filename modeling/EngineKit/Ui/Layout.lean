import EngineKit.Ui.DirtyFlags

/-!
# Layout

`UiLayoutEngine`, in two passes over the preorder. `measure` goes from the leaves to the root and
estimates what a node's content needs; the second pass goes down, gives the root the viewport, and
gives every other node a place inside its parent (`placeNode`), which it writes at once. So an
error leaves the nodes before it with their new rectangles.

A place is read from the parent's rectangle, which the pass has just written, and from those of the
earlier siblings: `offset` adds up their sizes as they are now. The two axes are treated alike, with
the parent's `direction` to say which is the main one; `UiDirection.pick` reads a value along it.

`f32::clamp` panics if its bounds are the wrong way round, which is `Failure.noReturn` here.
-/

set_option autoImplicit false

namespace EngineKit
namespace Ui

open Lib

variable {F : Type} [Coord F]

/-! ## Lengths -/

def UiLength.resolve (length : UiLength F) (available : F) : Option F :=
  if Coord.isFinite available = false ∨ available < Scalar.zero then none
  else
    match length with
    | .auto => none
    | .points value =>
      if Coord.isFinite value ∧ Scalar.zero ≤ value then some value else none
    | .percent value =>
      if Coord.isFinite value ∧ Scalar.zero ≤ value ∧ value ≤ Coord.ofNat 100 then
        some (available * value / Coord.ofNat 100)
      else none

def UiEdges.horizontal (edges : UiEdges F) : F := edges.left + edges.right

def UiEdges.vertical (edges : UiEdges F) : F := edges.top + edges.bottom

/-- The value along a direction: the first for a row, the second for a column. -/
def UiDirection.pick {α : Type} (direction : UiDirection) (row column : α) : α :=
  match direction with
  | .row => row
  | .column => column

/-- `f32::clamp`. -/
def clamp (x lo hi : F) : Except Failure F :=
  if lo ≤ hi then .ok (if x < lo then lo else if hi < x then hi else x)
  else .error .noReturn

/-! ## Configuration -/

/-- What layout uses of `UiConfig`. -/
structure LayoutConfig (F : Type) where
  maxGlyphs : Nat
  maxUploadBytes : Nat
  maxLayoutIterations : UInt8
  dpiScale : F

structure LayoutStats where
  visited : Nat
  dirty : Nat
  iterations : Nat
deriving DecidableEq

/-- What layout uses of `UiDiagnostics`. -/
structure UiDiagnostics where
  dirtyNodes : Nat
  layoutPasses : Nat
deriving DecidableEq

/-! ## Measuring -/

/-- The intrinsic rectangles found so far. -/
abbrev Intrinsic (F : Type) := List (UiNodeId × UiRect F)

def intrinsicOf (intrinsic : Intrinsic F) (id : UiNodeId) : UiRect F :=
  ((intrinsic.find? fun entry => entry.1 = id).map Prod.snd).getD .zero

/-- What a text needs: its glyphs at 8 by 16. -/
def textSize (config : LayoutConfig F) (content : UiNodeContent F) : F × F :=
  match content.text with
  | none => (Scalar.zero, Scalar.zero)
  | some text =>
    let glyphs := min text.value.length config.maxGlyphs
    (Coord.min (Coord.ofNat glyphs * Coord.ofNat 8) (Coord.ofNat config.maxUploadBytes),
      if glyphs = 0 then Scalar.zero else Coord.ofNat 16)

/-- One child more: the main sizes add up, and the larger cross size counts. -/
def addChild (direction : UiDirection) (intrinsic : Intrinsic F) (size : F × F)
    (child : UiNodeId) : F × F :=
  let rect := intrinsicOf intrinsic child
  direction.pick (size.1 + rect.width, Coord.max size.2 rect.height)
    (Coord.max size.1 rect.width, size.2 + rect.height)

/-- What the children need, with the gaps between them. -/
def childrenSize (style : UiStyle F) (intrinsic : Intrinsic F) (children : List UiNodeId) : F × F :=
  let size := children.foldl (addChild style.direction intrinsic) (Scalar.zero, Scalar.zero)
  let gaps := style.gap * Coord.ofNat (children.length - 1)
  style.direction.pick (size.1 + gaps, size.2) (size.1, size.2 + gaps)

/-- One round of `measure`. -/
def measureNode (config : LayoutConfig F) (t : UiTree F) (intrinsic : Intrinsic F)
    (id : UiNodeId) : Except UiError (UiRect F) := do
  let content ← t.content id
  let text := textSize config content
  let children ← t.children id
  let size :=
    if children.isEmpty then text
    else
      let below := childrenSize content.style intrinsic children
      (Coord.max text.1 below.1, Coord.max text.2 below.2)
  let width := size.1 + content.style.padding.horizontal
  let height := size.2 + content.style.padding.vertical
  failIf (Coord.isFinite width = false ∨ Coord.isFinite height = false) .indexOverflow
  .ok ⟨Scalar.zero, Scalar.zero, Coord.min width content.style.maxWidth,
    Coord.min height content.style.maxHeight⟩

def measure (config : LayoutConfig F) (t : UiTree F) :
    List UiNodeId → Intrinsic F → Except UiError (Intrinsic F)
  | [], intrinsic => .ok intrinsic
  | id :: ids, intrinsic => do
    let rect ← measureNode config t intrinsic id
    measure config t ids (intrinsic ++ [(id, rect)])

/-! ## Placing a node -/

/-- The parent's rectangle without its padding. -/
def innerRect (style : UiStyle F) (rect : UiRect F) : UiRect F where
  x := rect.x + style.padding.left
  y := rect.y + style.padding.top
  width := Coord.max (rect.width - style.padding.horizontal) Scalar.zero
  height := Coord.max (rect.height - style.padding.vertical) Scalar.zero

/-- A size between the node's own bounds, then inside the parent. -/
def clampSize (size least most available : F) : Except Failure F := do
  let lo := Coord.max (Coord.min least available) Scalar.zero
  let hi := Coord.min most available
  let size ← clamp size lo (Coord.max hi lo)
  clamp size Scalar.zero available

/-- The share of each of `count` children, the gaps left out. -/
def autoMain (style : UiStyle F) (available : F) (siblings : Nat) : F :=
  let count := Coord.ofNat (max siblings 1)
  let gapTotal := style.gap * Coord.max (count - Scalar.one) Scalar.zero
  Coord.max (available - gapTotal) Scalar.zero / count

/-- The size of a length that does not resolve: what the content needs, if it needs anything. -/
def orIntrinsic (size : Option F) (intrinsic fallback : F) : F :=
  size.getD (if Scalar.zero < intrinsic then intrinsic else fallback)

/-- The main and the cross size of a child, its margins included. -/
def childSizes (parent style : UiStyle F) (inner intrinsic : UiRect F) (siblings : Nat) :
    Except Failure (F × F) := do
  let along := parent.direction
  let availableMain := along.pick inner.width inner.height
  let availableCross := along.pick inner.height inner.width
  let main ← clampSize
    (orIntrinsic ((along.pick style.width style.height).resolve availableMain)
      (along.pick intrinsic.width intrinsic.height) (autoMain parent availableMain siblings))
    (along.pick style.minWidth style.minHeight) (along.pick style.maxWidth style.maxHeight)
    availableMain
  let cross ← clampSize
    (orIntrinsic ((along.pick style.height style.width).resolve availableCross)
      (along.pick intrinsic.height intrinsic.width) availableCross)
    (along.pick style.minHeight style.minWidth) (along.pick style.maxHeight style.maxWidth)
    availableCross
  .ok (main, cross)

/-- A child of these sizes behind its earlier siblings. -/
def startRect (direction : UiDirection) (inner : UiRect F) (offset main cross : F) : UiRect F :=
  direction.pick ⟨inner.x + offset, inner.y, main, cross⟩ ⟨inner.x, inner.y + offset, cross, main⟩

def alignOffset (align : UiAlign) (available size : F) : F :=
  match align with
  | .start | .stretch => Scalar.zero
  | .center =>
    Coord.max (available - size) Scalar.zero * (Scalar.one / Coord.ofNat 2)
  | .end => Coord.max (available - size) Scalar.zero

/-- A child in flow: inside its margins, aligned across, and scrolled. -/
def flowRect (parent : UiStyle F) (margin : UiEdges F) (inner rect : UiRect F) : UiRect F :=
  let rect : UiRect F := ⟨rect.x + margin.left, rect.y + margin.top,
    Coord.max (rect.width - margin.horizontal) Scalar.zero,
    Coord.max (rect.height - margin.vertical) Scalar.zero⟩
  let available := parent.direction.pick inner.height inner.width
  let crossOffset := alignOffset parent.align available
    (parent.direction.pick rect.height rect.width)
  let rect := parent.direction.pick { rect with y := rect.y + crossOffset }
    { rect with x := rect.x + crossOffset }
  let rect :=
    if parent.align = .stretch then
      parent.direction.pick
        { rect with height := Coord.max (available - margin.vertical) Scalar.zero }
        { rect with width := Coord.max (available - margin.horizontal) Scalar.zero }
    else rect
  if parent.overflow = .scroll then
    { rect with x := rect.x - parent.scrollX, y := rect.y - parent.scrollY }
  else rect

def childRect (parent style : UiStyle F) (inner : UiRect F) (offset main cross : F) : UiRect F :=
  let rect := startRect parent.direction inner offset main cross
  match style.position with
  | .absolute left top =>
    { rect with x := inner.x + left + style.margin.left, y := inner.y + top + style.margin.top }
  | .flow => flowRect parent style.margin inner rect

namespace UiTree

/-- The running offset: the main sizes of the siblings, and a gap behind each. -/
def offset (t : UiTree F) (style : UiStyle F) : List UiNodeId → F → Except UiError F
  | [], sum => .ok sum
  | sibling :: siblings, sum =>
    match t.rect sibling with
    | .error _ => .error .indexOverflow
    | .ok rect =>
      t.offset style siblings (sum + style.direction.pick rect.width rect.height + style.gap)

/-- One round of `layout`, up to the write. -/
def placeNode (t : UiTree F) (intrinsic : Intrinsic F) (id : UiNodeId) :
    Except Failure (UiRect F) := do
  let parent ← t.parent id
  match parent with
  | none => .error (.err .invalidParent)
  | some parent =>
    let parentRect ← t.rect parent
    let siblings ← t.children parent
    failIf (id ∉ siblings) .invalidNode
    let content ← t.content id
    failIf (content.sane = false) .invalidValue
    let parentContent ← t.content parent
    let inner := innerRect parentContent.style parentRect
    let (main, cross) ← childSizes parentContent.style content.style inner
      (intrinsicOf intrinsic id) siblings.length
    let offset ← t.offset parentContent.style (siblings.take (siblings.idxOf id)) Scalar.zero
    .ok (childRect parentContent.style content.style inner offset main cross)

/-! ## The passes -/

def layoutNode (intrinsic : Intrinsic F) (stats : LayoutStats) (id : UiNodeId) (t : UiTree F) :
    Except Failure LayoutStats × UiTree F :=
  match t.placeNode intrinsic id with
  | .error e => (.error e, t)
  | .ok rect =>
    match t.isDirty id with
    | .error e => (.error (.err e), t)
    | .ok wasDirty =>
      andThen (t.setRect id rect) fun _ t =>
        (.ok { stats with
          visited := usizeSaturatingAdd stats.visited 1
          dirty := if wasDirty then usizeSaturatingAdd stats.dirty 1 else stats.dirty }, t)

def layoutNodes (intrinsic : Intrinsic F) :
    LayoutStats → List UiNodeId → UiTree F → Except Failure LayoutStats × UiTree F
  | stats, [], t => (.ok stats, t)
  | stats, id :: ids, t =>
    andThen (layoutNode intrinsic stats id t) fun stats t => layoutNodes intrinsic stats ids t

/-- What `layout` does before it writes: the checks, the preorder, and `measure`. -/
def layoutChecks (config : LayoutConfig F) (room : Room) (t : UiTree F) (viewport : UiRect F) :
    Except Failure (List UiNodeId × Intrinsic F) := do
  failIf (viewport.sane = false) .invalidValue
  failIf (Coord.isFinite config.dpiScale = false ∨ config.dpiScale ≤ Scalar.zero) .invalidValue
  let order ← t.preorder room
  let intrinsic ← measure config t order.reverse []
  .ok (order, intrinsic)

/-- `UiLayoutEngine::layout`, but for the diagnostics. -/
def layoutTree (config : LayoutConfig F) (room : Room) (t : UiTree F) (viewport : UiRect F) :
    Except Failure LayoutStats × UiTree F :=
  match t.layoutChecks config room viewport with
  | .error e => (.error e, t)
  | .ok (order, intrinsic) =>
    andThen (t.setRect t.root viewport) fun _ t =>
      andThen (layoutNodes intrinsic ⟨0, 0, 1⟩ (order.drop 1) t) fun stats t =>
        if config.maxLayoutIterations.toNat < stats.iterations then
          (.error (.err .layoutDidNotConverge), t)
        else (.ok stats, t)

/-- `UiLayoutEngine::layout`. -/
def layout (config : LayoutConfig F) (room : Room) (t : UiTree F) (viewport : UiRect F)
    (diagnostics : UiDiagnostics) : (Except Failure LayoutStats × UiTree F) × UiDiagnostics :=
  match t.layoutTree config room viewport with
  | (.ok stats, t) => ((.ok stats, t),
      { dirtyNodes := stats.dirty, layoutPasses := usizeSaturatingAdd diagnostics.layoutPasses 1 })
  | (.error e, t) => ((.error e, t), diagnostics)

end UiTree

end Ui
end EngineKit
