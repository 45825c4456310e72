import EngineKit.Lib.LittleEndian
import EngineKit.Lib.Patch
import EngineKit.Lib.Records

/-!
# The paint list and what is sent of it

The UI tree is painted into a `UiPaintList`: clips, items in paint order, and batches of adjacent
items that share a key. What leaves the UI is a *snapshot* of that list (`UiPaintList.snapshot`),
and what reaches the graphics memory is the snapshot's bytes (`UiRenderSnapshot.encodeBytes`):
one 80-byte record for each item, then one 32-byte record for each glyph.

The walk over the tree that fills `clips` and `items` is not here. The tail of
`build_with_resources` is (`UiPaintList.finishBuild`): it batches the items and checks the sizes,
and it is the only writer of `batches`.

Coordinates and colours are 32-bit floats the code below only stores and encodes. They are a type
`F` with the two constants and the bit pattern it needs of them (`Scalar`); `F32` is the type of
the bit patterns themselves. Lengths are `usize`, numbers below `2 ^ 64` on the targets the
engine builds for; allocation succeeds, except that no vector is longer than `isize::MAX`.
-/

set_option autoImplicit false

namespace EngineKit
namespace Ui

open Lib

/-- What painting and encoding need of the 32-bit floats: `0.0`, `1.0` and `f32::to_bits`. -/
class Scalar (F : Type) where
  zero : F
  one : F
  toBits : F → UInt32

structure F32 where
  bits : UInt32
deriving DecidableEq

instance : Scalar F32 := ⟨⟨0⟩, ⟨0x3F800000⟩, F32.bits⟩

/-! ## Data -/

inductive UiError where
  | capacityExceeded
  | allocationFailed
  | invalidNode
  | invalidParent
  | cycle
  | depthExceeded
  | invalidValue
  | layoutDidNotConverge
  | outputTooSmall
  | indexOverflow
  | resourceUnavailable
deriving DecidableEq

def orOverflow {α : Type} : Option α → Except UiError α
  | some x => .ok x
  | none => .error .indexOverflow

@[simp] theorem orOverflow_eq_ok {α : Type} {o : Option α} {x : α} :
    orOverflow o = .ok x ↔ o = some x := by
  cases o <;> simp [orOverflow]

/-- A chain of fallible steps succeeds when each of them does. -/
theorem bind_eq_ok {ε α β : Type} {x : Except ε α} {f : α → Except ε β} {b : β} :
    x >>= f = .ok b ↔ ∃ a, x = .ok a ∧ f a = .ok b := by
  cases x with
  | error e => simp [bind, Except.bind]
  | ok a => simp [bind, Except.bind]

/-- The quotas painting is held to. -/
structure UiConfig where
  maxBatches : Nat
  maxUploadBytes : Nat

def UiConfig.defaults : UiConfig := ⟨4096, 16 <<< 20⟩

structure UiNodeId where
  index : UInt32
  generation : UInt32
deriving DecidableEq

structure TextureId where
  index : UInt32
  generation : UInt32
deriving DecidableEq

structure FontId where
  index : UInt32
  generation : UInt32
deriving DecidableEq

structure ClipId where
  raw : UInt32
deriving DecidableEq

structure UiRect (F : Type) where
  x : F
  y : F
  width : F
  height : F

structure UiClip (F : Type) where
  id : ClipId
  rect : UiRect F

structure Glyph (F : Type) where
  codepoint : UInt32
  advance : F
  atlasX : UInt16
  atlasY : UInt16
  width : UInt16
  height : UInt16

structure GlyphRun (F : Type) where
  glyphs : List (Glyph F)
  width : F
  height : F

inductive PaintKind (F : Type) where
  | rect (color : Vector F 4)
  | gradient (fromColor toColor : Vector F 4)
  | roundedRect (color : Vector F 4) (radius : F)
  | border (color : Vector F 4) (width : F)
  | image (texture : TextureId)
  | glyphRun (font : FontId) (run : GlyphRun F)
  | custom (token : UInt32)

structure PaintItem (F : Type) where
  node : UiNodeId
  rect : UiRect F
  clip : ClipId
  zIndex : Int32
  opacity : F
  kind : PaintKind F

structure UiBatchKey where
  pass : UInt8
  clip : ClipId
  texture : Option TextureId
  font : Option FontId
  zIndex : Int32
  kind : UInt8
deriving DecidableEq

structure UiBatch where
  key : UiBatchKey
  first : UInt32
  count : UInt32
deriving DecidableEq

structure UiUploadPlan where
  itemCount : UInt32
  batchCount : UInt32
  glyphCount : UInt32
  uploadBytes : Nat
deriving DecidableEq

structure UiRenderItem (F : Type) where
  node : UiNodeId
  rect : UiRect F
  clipRect : UiRect F
  color : Vector F 4
  clip : ClipId
  zIndex : Int32
  opacity : F
  kind : UInt8
  texture : Option TextureId
  font : Option FontId
  glyphCount : UInt32
  glyphOffset : UInt32

structure UiRenderSnapshot (F : Type) where
  items : List (UiRenderItem F)
  batches : List UiBatch
  glyphs : List (Glyph F)
  upload : UiUploadPlan

structure UiPaintList (F : Type) where
  clips : List (UiClip F)
  items : List (PaintItem F)
  batches : List UiBatch
  config : UiConfig

variable {F : Type}

/-! ## Batches -/

def PaintItem.key (item : PaintItem F) : UiBatchKey :=
  match item.kind with
  | .rect _ => ⟨0, item.clip, none, none, item.zIndex, 0⟩
  | .gradient _ _ => ⟨0, item.clip, none, none, item.zIndex, 5⟩
  | .roundedRect _ _ => ⟨0, item.clip, none, none, item.zIndex, 6⟩
  | .border _ _ => ⟨0, item.clip, none, none, item.zIndex, 1⟩
  | .image texture => ⟨0, item.clip, some texture, none, item.zIndex, 2⟩
  | .glyphRun font _ => ⟨1, item.clip, none, some font, item.zIndex, 3⟩
  | .custom _ => ⟨2, item.clip, none, none, item.zIndex, 4⟩

/-- The end of one round of `build_batches`: no batch takes the item, so it opens one. -/
def openBatch (config : UiConfig) (batches : List UiBatch) (key : UiBatchKey) (index : UInt32) :
    Except UiError (List UiBatch) :=
  if config.maxBatches ≤ batches.length then .error .capacityExceeded
  else .ok (batches ++ [⟨key, index, 1⟩])

/-- One round of `build_batches`: the last batch takes the item when the keys agree and it ends
    at the item's index. -/
def pushBatch (config : UiConfig) (batches : List UiBatch) (index : Nat) (item : PaintItem F) :
    Except UiError (List UiBatch) := do
  let index ← orOverflow (u32TryFrom index)
  match batches.getLast? with
  | none => openBatch config batches item.key index
  | some last =>
    if last.key = item.key ∧ u32CheckedAdd last.first last.count = some index then
      .ok (batches.dropLast ++ [{ last with count := u32SaturatingAdd last.count 1 }])
    else openBatch config batches item.key index

/-- `UiPaintList::build_batches`, from the item at `index` on. -/
def buildBatches (config : UiConfig) : Nat → List (PaintItem F) → List UiBatch →
    Except UiError (List UiBatch)
  | _, [], batches => .ok batches
  | index, item :: items, batches => do
    let batches ← pushBatch config batches index item
    buildBatches config (index + 1) items batches

/-! ## Sizes -/

def UI_ITEM_STRIDE_BYTES : Nat := 80

def UI_GLYPH_STRIDE_BYTES : Nat := 32

/-- The bytes `items` records and `glyphs` glyphs take, as the builder, the snapshot and the
    encoder each compute it. -/
def uploadSize (items glyphs : Nat) : Option Nat := do
  let bytes ← checkedMul items UI_ITEM_STRIDE_BYTES
  let more ← checkedMul glyphs UI_GLYPH_STRIDE_BYTES
  checkedAdd bytes more

theorem eq_of_uploadSize {items glyphs n : Nat} (h : uploadSize items glyphs = some n) :
    n = items * UI_ITEM_STRIDE_BYTES + glyphs * UI_GLYPH_STRIDE_BYTES := by
  simp only [uploadSize, Option.bind_eq_bind, Option.bind_eq_some_iff] at h
  obtain ⟨a, ha, b, hb, hn⟩ := h
  rw [eq_of_checkedAdd hn, eq_of_checkedMul ha, eq_of_checkedMul hb]

/-- A chain of `usize::checked_add`. -/
def checkedSum : Nat → List Nat → Option Nat
  | sum, [] => some sum
  | sum, n :: ns => do
    let sum ← checkedAdd sum n
    checkedSum sum ns

theorem eq_of_checkedSum {ns : List Nat} {a b : Nat} (h : checkedSum a ns = some b) :
    b = a + ns.sum := by
  induction ns generalizing a with
  | nil => simpa [checkedSum] using h.symm
  | cons n ns ih =>
    simp only [checkedSum, Option.bind_eq_bind, Option.bind_eq_some_iff] at h
    obtain ⟨c, hc, hb⟩ := h
    rw [ih hb, eq_of_checkedAdd hc, List.sum_cons, Nat.add_assoc]

def PaintKind.glyphs : PaintKind F → List (Glyph F)
  | .glyphRun _ run => run.glyphs
  | _ => []

/-- The tail of `UiPaintList::build_with_resources`, once the walk over the tree has left its
    clips and items: batch, count, and refuse what is over the upload quota. -/
def UiPaintList.finishBuild (list : UiPaintList F) :
    Except UiError (UiPaintList F × UiUploadPlan) := do
  let batches ← buildBatches list.config 0 list.items []
  let glyphs ← orOverflow (checkedSum 0 (list.items.map fun item => item.kind.glyphs.length))
  let itemCount ← orOverflow (u32TryFrom list.items.length)
  let batchCount ← orOverflow (u32TryFrom batches.length)
  let glyphCount ← orOverflow (u32TryFrom glyphs)
  let uploadBytes ← orOverflow (uploadSize list.items.length glyphs)
  if list.config.maxUploadBytes < uploadBytes then .error .capacityExceeded
  else .ok ({ list with batches }, ⟨itemCount, batchCount, glyphCount, uploadBytes⟩)

/-! ## The snapshot -/

/-- The `kind`, `texture`, `font` and `color` of a snapshot's record. -/
def PaintKind.lower [Scalar F] :
    PaintKind F → UInt8 × Option TextureId × Option FontId × Vector F 4
  | .rect color => (0, none, none, color)
  | .gradient fromColor _ => (5, none, none, fromColor)
  | .roundedRect color _ => (6, none, none, color)
  | .border color _ => (1, none, none, color)
  | .image texture => (2, some texture, none, Vector.replicate 4 Scalar.one)
  | .glyphRun font _ => (3, none, some font, Vector.replicate 4 Scalar.one)
  | .custom _ => (4, none, none, Vector.replicate 4 Scalar.one)

def UiRect.zero [Scalar F] : UiRect F := ⟨Scalar.zero, Scalar.zero, Scalar.zero, Scalar.zero⟩

/-- The record pushed for one paint item. -/
def renderItem [Scalar F] (clips : List (UiClip F)) (item : PaintItem F)
    (glyphCount glyphOffset : UInt32) : UiRenderItem F :=
  let (kind, texture, font, color) := item.kind.lower
  { node := item.node
    rect := item.rect
    clipRect := (clips[item.clip.raw.toNat]?.map fun clip => clip.rect).getD .zero
    color
    clip := item.clip
    zIndex := item.zIndex
    opacity := item.opacity
    kind
    texture
    font
    glyphCount
    glyphOffset }

/-- The loop of `UiPaintList::snapshot`, with the records and glyphs pushed so far. -/
def snapshotItems [Scalar F] (clips : List (UiClip F)) :
    List (PaintItem F) → List (UiRenderItem F) → List (Glyph F) →
      Except UiError (List (UiRenderItem F) × List (Glyph F))
  | [], out, glyphs => .ok (out, glyphs)
  | item :: items, out, glyphs => do
    let glyphOffset ← orOverflow (u32TryFrom glyphs.length)
    let glyphCount ← orOverflow (u32TryFrom item.kind.glyphs.length)
    snapshotItems clips items (out ++ [renderItem clips item glyphCount glyphOffset])
      (glyphs ++ item.kind.glyphs)

def UiPaintList.snapshot [Scalar F] (list : UiPaintList F) :
    Except UiError (UiRenderSnapshot F) := do
  let (items, glyphs) ← snapshotItems list.clips list.items [] []
  let glyphCount ← orOverflow (checkedSum 0 (items.map fun item => item.glyphCount.toNat))
  let uploadBytes ← orOverflow (uploadSize items.length glyphCount)
  let itemCount ← orOverflow (u32TryFrom list.items.length)
  let batchCount ← orOverflow (u32TryFrom list.batches.length)
  let glyphTotal ← orOverflow (u32TryFrom glyphCount)
  .ok ⟨items, list.batches, glyphs, ⟨itemCount, batchCount, glyphTotal, uploadBytes⟩⟩

/-- The loop gives each item a record, and each record counts its own glyphs. -/
theorem snapshotItems_spec [Scalar F] {clips : List (UiClip F)} {items : List (PaintItem F)}
    {out out' : List (UiRenderItem F)} {glyphs glyphs' : List (Glyph F)}
    (h : snapshotItems clips items out glyphs = .ok (out', glyphs'))
    (hcount : glyphs.length = (out.map fun item => item.glyphCount.toNat).sum) :
    out'.length = out.length + items.length ∧
      glyphs'.length = (out'.map fun item => item.glyphCount.toNat).sum := by
  induction items generalizing out glyphs with
  | nil =>
    obtain ⟨rfl, rfl⟩ := Prod.mk.inj (Except.ok.inj h)
    exact ⟨rfl, hcount⟩
  | cons item items ih =>
    simp only [snapshotItems, bind_eq_ok, orOverflow_eq_ok] at h
    obtain ⟨glyphOffset, -, glyphCount, hglyphs, hrest⟩ := h
    have hrun : (renderItem clips item glyphCount glyphOffset).glyphCount.toNat
        = item.kind.glyphs.length := toNat_of_u32TryFrom hglyphs
    obtain ⟨hlen, hsum⟩ := ih hrest (by
      rw [List.length_append, hcount, List.map_append, List.sum_append, List.map_singleton,
        List.sum_singleton, hrun])
    refine ⟨?_, hsum⟩
    rw [hlen, List.length_append, List.length_singleton, List.length_cons]
    omega

/-- **What a snapshot promises its readers**: the batches as they were, a record for each item,
    and the upload size of exactly its records and glyphs. -/
theorem UiPaintList.snapshot_spec [Scalar F] {list : UiPaintList F} {snapshot : UiRenderSnapshot F}
    (h : list.snapshot = .ok snapshot) :
    snapshot.batches = list.batches ∧ snapshot.items.length = list.items.length ∧
      uploadSize snapshot.items.length snapshot.glyphs.length
        = some snapshot.upload.uploadBytes := by
  simp only [UiPaintList.snapshot, bind_eq_ok, orOverflow_eq_ok] at h
  obtain ⟨⟨items, glyphs⟩, hitems, glyphCount, hglyphs, uploadBytes, hupload, _, _, _, _, _, _,
    hsnapshot⟩ := h
  obtain rfl := Except.ok.inj hsnapshot
  obtain ⟨hlen, hsum⟩ := snapshotItems_spec hitems rfl
  have htotal : glyphCount = glyphs.length := by
    rw [eq_of_checkedSum hglyphs, Nat.zero_add, hsum]
  exact ⟨rfl, by simpa using hlen, htotal ▸ hupload⟩

/-! ## The bytes -/

section Encode

variable [Scalar F]

def f32ToLe (x : F) : List UInt8 := u32ToLe (Scalar.toBits x)

def UiRect.encode (rect : UiRect F) : List UInt8 :=
  f32ToLe rect.x ++ f32ToLe rect.y ++ f32ToLe rect.width ++ f32ToLe rect.height

/-- One 80-byte record: 78 bytes of fields, then zeros up to the stride. -/
def UiRenderItem.encode (item : UiRenderItem F) : List UInt8 :=
  item.rect.encode ++ item.clipRect.encode ++ item.color.toList.flatMap f32ToLe ++
    u32ToLe item.clip.raw ++ u32ToLe item.zIndex.toUInt32 ++ f32ToLe item.opacity ++
    [item.kind, 0] ++ u32ToLe item.glyphCount ++ u32ToLe item.glyphOffset ++
    u32ToLe ((item.texture.map fun id => id.index).getD 0xFFFFFFFF) ++
    u32ToLe ((item.font.map fun id => id.index).getD 0xFFFFFFFF) ++
    List.replicate (UI_ITEM_STRIDE_BYTES - 78) 0

/-- One 32-byte record: 16 bytes of fields, then zeros up to the stride. -/
def Glyph.encode (glyph : Glyph F) : List UInt8 :=
  u32ToLe glyph.codepoint ++ f32ToLe glyph.advance ++ u16ToLe glyph.atlasX ++
    u16ToLe glyph.atlasY ++ u16ToLe glyph.width ++ u16ToLe glyph.height ++
    List.replicate (UI_GLYPH_STRIDE_BYTES - 16) 0

/-- `isize::MAX`, the longest a vector of bytes gets. -/
def ISIZE_MAX : Nat := 2 ^ 63 - 1

def UiRenderSnapshot.encodeBytes (snapshot : UiRenderSnapshot F) : Except UiError (List UInt8) := do
  let bytes ← orOverflow (uploadSize snapshot.items.length snapshot.glyphs.length)
  -- `try_reserve_exact` refuses what no vector can hold
  if ISIZE_MAX < bytes then .error .allocationFailed
  else .ok (snapshot.items.flatMap UiRenderItem.encode ++ snapshot.glyphs.flatMap Glyph.encode)

@[simp] theorem length_f32ToLe (x : F) : (f32ToLe x).length = 4 := length_u32ToLe _

@[simp] theorem UiRect.length_encode (rect : UiRect F) : rect.encode.length = 16 := by
  simp [UiRect.encode]

theorem UiRenderItem.length_encode (item : UiRenderItem F) :
    item.encode.length = UI_ITEM_STRIDE_BYTES := by
  have hcolor : (item.color.toList.flatMap f32ToLe).length = 4 * 4 := by
    rw [length_flatMap_stride length_f32ToLe, Vector.length_toList]
  simp [UiRenderItem.encode, hcolor, UI_ITEM_STRIDE_BYTES]

theorem Glyph.length_encode (glyph : Glyph F) : glyph.encode.length = UI_GLYPH_STRIDE_BYTES := by
  simp [Glyph.encode, UI_GLYPH_STRIDE_BYTES]

/-- **The length of the stream**, which the encoder only asserts in debug builds. -/
theorem UiRenderSnapshot.length_encodeBytes {snapshot : UiRenderSnapshot F} {bytes : List UInt8}
    (h : snapshot.encodeBytes = .ok bytes) :
    uploadSize snapshot.items.length snapshot.glyphs.length = some bytes.length ∧
      bytes.length ≤ ISIZE_MAX := by
  simp only [UiRenderSnapshot.encodeBytes, bind_eq_ok, orOverflow_eq_ok] at h
  obtain ⟨n, hsize, hbytes⟩ := h
  split at hbytes
  · exact absurd hbytes (by simp)
  · next hle =>
    have hlen : bytes.length = n := by
      rw [← Except.ok.inj hbytes, List.length_append,
        length_flatMap_stride UiRenderItem.length_encode,
        length_flatMap_stride Glyph.length_encode, eq_of_uploadSize hsize, Nat.mul_comm,
        Nat.mul_comm snapshot.glyphs.length]
    exact ⟨by rw [hlen, hsize], by omega⟩

end Encode

end Ui
end EngineKit
