import EngineKit.Ui.Text
import EngineKit.Ui.Mutations

/-!
# The paint walk

`build_with_resources` clears the list, walks the tree in preorder, and finishes the list. The walk
gives every node a clip, the intersection of its rectangle with its parent's clip, and paints what
is visible and has a clip with an area: one item, or two with a border.

The counters of the diagnostics are left out: nothing reads them back. After an error the list is
not looked at until the next build clears it, so a failed walk has no list here.
-/

set_option autoImplicit false

namespace EngineKit
namespace Ui

open Lib

/-! ## Resources -/

inductive UiAssetState where
  | missing
  | loading
  | ready
  | failed
deriving DecidableEq

structure UiTextureResource where
  id : TextureId
  state : UiAssetState
  generation : UInt32

structure UiFontResource where
  id : FontId
  state : UiAssetState
  generation : UInt32

structure UiResourceTable where
  textures : List UiTextureResource
  fonts : List UiFontResource

namespace UiResourceTable

def texture (table : UiResourceTable) (id : TextureId) : Option UiTextureResource :=
  table.textures.find? fun entry => entry.id = id

def textureReady (table : UiResourceTable) (id : TextureId) : Bool :=
  (table.texture id).any fun resource => resource.state = .ready

def font (table : UiResourceTable) (id : FontId) : Option UiFontResource :=
  table.fonts.find? fun entry => entry.id = id

def fontReady (table : UiResourceTable) (id : FontId) : Bool :=
  (table.font id).any fun resource => resource.state = .ready

end UiResourceTable

/-! ## One node -/

/-- All of the quotas a paint list is held to. They are `usize`. -/
structure PaintConfig extends UiConfig where
  maxGlyphs : Nat
  maxClips : Nat
  maxPaintItems : Nat
  glyphs_lt : maxGlyphs < 2 ^ 64

/-- The memory a build finds: for the preorder, and for the glyphs of each text. -/
structure PaintRoom where
  tree : Room
  glyphs : UiNodeId → Bool

def PaintRoom.ample : PaintRoom := ⟨.ample, fun _ => true⟩

/-- What a build reads besides the tree. -/
structure Scene (F : Type) where
  config : PaintConfig
  room : PaintRoom
  viewport : UiRect F
  resources : Option UiResourceTable

/-- The list while the walk fills it. -/
structure Painter (F : Type) where
  clips : List (UiClip F)
  items : List (PaintItem F)
  nodeClips : List (UiNodeId × ClipId)

variable {F : Type}

def Painter.pushClip (config : PaintConfig) (p : Painter F) (rect : UiRect F) :
    Except UiError (ClipId × Painter F) := do
  failIf (config.maxClips ≤ p.clips.length) .capacityExceeded
  let raw ← orOverflow (u32TryFrom p.clips.length)
  .ok (⟨raw⟩, { p with clips := p.clips ++ [⟨⟨raw⟩, rect⟩] })

def Painter.pushItem (config : PaintConfig) (p : Painter F) (item : PaintItem F) :
    Except UiError (Painter F) := do
  failIf (config.maxPaintItems ≤ p.items.length) .capacityExceeded
  .ok { p with items := p.items ++ [item] }

/-- The clip a node starts from: its parent's, or the viewport's. -/
def Painter.parentClip (t : UiTree F) (p : Painter F) (node : UiNodeId) : ClipId :=
  ((t.up node).bind fun parent =>
    (p.nodeClips.find? fun entry => entry.1 = parent).map fun entry => entry.2).getD ⟨0⟩

def Painter.parentRect (viewport : UiRect F) (p : Painter F) (clip : ClipId) : UiRect F :=
  (p.clips[clip.raw.toNat]?.map UiClip.rect).getD viewport

variable [Coord F]

/-- The text of a node is shaped with its font, or a default one, unless it asked for a font that
    is not ready. -/
def fontMissing (resources : Option UiResourceTable) (content : UiNodeContent F) : Bool :=
  match resources, content.font with
  | some table, some font => ! table.fontReady font
  | _, _ => false

def imageReady (resources : Option UiResourceTable) (image : UiImage) : Bool :=
  (resources.map fun table => table.textureReady image.texture).getD true

/-- What a node is painted as. -/
def paintKind (scene : Scene F) (node : UiNodeId) (content : UiNodeContent F) (rect : UiRect F) :
    Except UiError (PaintKind F) :=
  match content.kind with
  | .root | .panel =>
    match content.style.gradient with
    | some (fromColor, toColor) => .ok (.gradient fromColor toColor)
    | none =>
      if Scalar.zero < content.style.cornerRadius then
        .ok (.roundedRect content.style.background content.style.cornerRadius)
      else .ok (.rect content.style.background)
  | .text =>
    if fontMissing scene.resources content then .ok (.rect content.style.background)
    else
      match content.text with
      | none => .ok (.glyphRun (content.font.getD ⟨0, 1⟩) .empty)
      | some text => do
        let run ← FallbackGlyphProvider.defaults.shapeWrapped (scene.room.glyphs node) text.value
          scene.config.maxGlyphs (Coord.max rect.width Scalar.one)
        .ok (.glyphRun (content.font.getD ⟨0, 1⟩) run)
  | .image =>
    match content.image.filter (imageReady scene.resources) with
    | some image => .ok (.image image.texture)
    | none => .ok (.rect content.style.background)
  | .custom => .ok (.custom node.index)

/-- A border is drawn when it has a width and some colour. -/
def UiStyle.bordered (style : UiStyle F) : Bool :=
  decide (Scalar.zero < style.borderWidth) &&
    style.border.toList.any fun value => decide (Scalar.zero < value)

/-- The item of a node, of the given kind. -/
def nodeItem (node : UiNodeId) (content : UiNodeContent F) (rect : UiRect F) (clip : ClipId)
    (kind : PaintKind F) : PaintItem F :=
  ⟨node, rect, clip, content.zIndex, content.opacity, kind⟩

def Painter.paintContent (scene : Scene F) (p : Painter F) (node : UiNodeId)
    (content : UiNodeContent F) (rect : UiRect F) (clip : ClipId) : Except UiError (Painter F) := do
  let kind ← paintKind scene node content rect
  let p ← p.pushItem scene.config (nodeItem node content rect clip kind)
  if content.style.bordered then
    p.pushItem scene.config
      (nodeItem node content rect clip (.border content.style.border content.style.borderWidth))
  else .ok p

/-- One round of the walk. -/
def Painter.paintNode (scene : Scene F) (t : UiTree F) (p : Painter F) (node : UiNodeId) :
    Except UiError (Painter F) := do
  let content ← t.content node
  let rect ← t.rect node
  let clipRect := (p.parentRect scene.viewport (p.parentClip t node)).intersect rect
  let (clip, p) ← p.pushClip scene.config clipRect
  let p : Painter F := { p with nodeClips := p.nodeClips ++ [(node, clip)] }
  if content.visible = false ∨ clipRect.area ≤ Scalar.zero then .ok p
  else p.paintContent scene node content rect clip

/-! ## The walk -/

def Painter.paintNodes (scene : Scene F) (t : UiTree F) :
    List UiNodeId → Painter F → Except UiError (Painter F)
  | [], p => .ok p
  | node :: order, p => do
    let p ← p.paintNode scene t node
    paintNodes scene t order p

def Painter.start (scene : Scene F) : Except UiError (Painter F) := do
  let (_, p) ← (⟨[], [], []⟩ : Painter F).pushClip scene.config scene.viewport
  .ok p

/-- `UiPaintList::build_with_resources`. -/
def buildWithResources (scene : Scene F) (t : UiTree F) :
    Except Failure (UiPaintList F × UiUploadPlan) := do
  failIf (scene.viewport.sane = false) .invalidValue
  let order ← t.preorder scene.room.tree
  let p ← Painter.start scene
  let p ← Painter.paintNodes scene t order p
  UiPaintList.finishBuild ⟨p.clips, p.items, [], scene.config.toUiConfig⟩

end Ui
end EngineKit
