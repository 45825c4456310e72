import EngineKit.Lib.Records
import EngineKit.Ui.Paint

/-!
# What the vertex shader reads of the stream

The encoder and `shaders/ui.vert` share a byte layout and no code. The encoder writes one 80-byte
record for each item: five 16-byte *quads*, the first three of which are the rect, the clip rect
and the colour (`UiRenderItem.quads`). The shader sees the stream as 32-bit words and finds
instance `i` by arithmetic of its own: `gl_InstanceIndex * 16u`, with the opacity in the
thirteenth word.

Sixteen words are four quads, not five. So instance `i` reads the quads from `4 * i` on, while its
record starts at `5 * i`, and the word it takes for the opacity is the fourth quad's first, where
the encoder puts the clip's id. `UiRenderSnapshot.uiVert_eq_vertex_iff` says for every instance
what the other records then have to hold for the item to come out right.

The shader's floats are `uintBitsToFloat` of the words it reads, so a vertex is given by bit
patterns. Its positions, computed from the rect and the viewport, are not here.
-/

set_option autoImplicit false

namespace EngineKit
namespace Ui

open Lib

/-- What one run of the shader takes from the storage buffer. -/
structure UiVertex where
  rect : Vector UInt32 4
  outClip : Vector UInt32 4
  outColor : Vector UInt32 4
  outOpacity : UInt32
deriving DecidableEq

/-- `ui_items.words[k]`. -/
def uiItemsWords (bytes : List UInt8) (k : UInt32) : UInt32 := wordAt bytes k.toNat

/-- The four words from `base + k` on. -/
def vec4At (bytes : List UInt8) (base k : UInt32) : Vector UInt32 4 :=
  #v[uiItemsWords bytes (base + k), uiItemsWords bytes (base + (k + 1)),
    uiItemsWords bytes (base + (k + 2)), uiItemsWords bytes (base + (k + 3))]

/-- The reads of `main` in `ui.vert`. -/
def uiVert (bytes : List UInt8) (glInstanceIndex : UInt32) : UiVertex :=
  let base := glInstanceIndex * 16
  { rect := vec4At bytes base 0
    outClip := vec4At bytes base 4
    outColor := vec4At bytes base 8
    outOpacity := uiItemsWords bytes (base + 12) }

/-! ## The record as words -/

section Words

variable {F : Type} [Scalar F]

def UiRect.bits (rect : UiRect F) : Vector UInt32 4 :=
  #v[Scalar.toBits rect.x, Scalar.toBits rect.y, Scalar.toBits rect.width,
    Scalar.toBits rect.height]

/-- The upper half of `a` and the lower half of `b`: the word that straddles two fields of the
    record's tail, which starts two bytes off a word's boundary. -/
def straddle (a b : UInt32) : UInt32 :=
  UInt32.ofNat (a.toNat / 2 ^ 16 + b.toNat % 2 ^ 16 * 2 ^ 16)

/-- The 80 bytes of a record as the words a reader of words finds in them. -/
def UiRenderItem.quads (item : UiRenderItem F) : List (Vector UInt32 4) :=
  let texture := (item.texture.map fun id => id.index).getD 0xFFFFFFFF
  let font := (item.font.map fun id => id.index).getD 0xFFFFFFFF
  [ item.rect.bits,
    item.clipRect.bits,
    item.color.map Scalar.toBits,
    #v[item.clip.raw, item.zIndex.toUInt32, Scalar.toBits item.opacity,
      straddle (UInt32.ofNat (item.kind.toNat * 2 ^ 16)) item.glyphCount],
    #v[straddle item.glyphCount item.glyphOffset, straddle item.glyphOffset texture,
      straddle texture font, straddle font 0] ]

theorem length_quads (item : UiRenderItem F) : item.quads.length = 5 := rfl

/-- The quads of all records of a stream, in order. -/
def recordQuads (items : List (UiRenderItem F)) : List (Vector UInt32 4) :=
  items.flatMap UiRenderItem.quads

/-- The vertex an item asks for. -/
def UiRenderItem.vertex (item : UiRenderItem F) : UiVertex :=
  { rect := item.rect.bits
    outClip := item.clipRect.bits
    outColor := item.color.map Scalar.toBits
    outOpacity := Scalar.toBits item.opacity }

theorem take_u32ToLe (x : UInt32) : (u32ToLe x).take 2 = leBytes 2 x.toNat := by
  rw [u32ToLe, leBytes_add 2 2, List.take_left' (length_leBytes 2 _)]

theorem drop_u32ToLe (x : UInt32) : (u32ToLe x).drop 2 = leBytes 2 (x.toNat / 2 ^ 16) := by
  rw [u32ToLe, leBytes_add 2 2, List.drop_left' (length_leBytes 2 _)]
  rfl

theorem u32ToLe_straddle (a b : UInt32) :
    u32ToLe (straddle a b) = (u32ToLe a).drop 2 ++ (u32ToLe b).take 2 := by
  have ha : a.toNat < 2 ^ 32 := a.toNat_lt
  have hn : (straddle a b).toNat = a.toNat / 2 ^ 16 + b.toNat % 2 ^ 16 * 2 ^ 16 :=
    UInt32.toNat_ofNat_of_lt' (by show _ < 2 ^ 32; omega)
  have hlow : (straddle a b).toNat % 256 ^ 2 = a.toNat / 2 ^ 16 := by omega
  have hhigh : (straddle a b).toNat / 256 ^ 2 = b.toNat % 256 ^ 2 := by omega
  rw [drop_u32ToLe, take_u32ToLe, ← leBytes_mod 2 b.toNat, ← hhigh, ← hlow, leBytes_mod,
    ← leBytes_add, u32ToLe]

theorem drop_u32ToLe_kind (kind : UInt8) :
    (u32ToLe (UInt32.ofNat (kind.toNat * 2 ^ 16))).drop 2 = [kind, 0] := by
  have hk : kind.toNat < 256 := kind.toNat_lt
  have hn : (UInt32.ofNat (kind.toNat * 2 ^ 16)).toNat = kind.toNat * 2 ^ 16 :=
    UInt32.toNat_ofNat_of_lt' (by show _ < 2 ^ 32; omega)
  have hlow : kind.toNat % 256 = kind.toNat := Nat.mod_eq_of_lt hk
  have hhigh : kind.toNat / 256 % 256 = 0 := by omega
  rw [drop_u32ToLe, hn, Nat.mul_div_cancel _ (by decide), leBytes, leBytes, leBytes, hlow, hhigh,
    UInt8.ofNat_toNat]
  rfl

theorem UiRenderItem.encode_eq_quads (item : UiRenderItem F) :
    item.encode = (item.quads.flatMap fun quad => quad.toList).flatMap u32ToLe := by
  have halves (x : UInt32) (rest : List UInt8) :
      (u32ToLe x).take 2 ++ ((u32ToLe x).drop 2 ++ rest) = u32ToLe x ++ rest := by
    rw [← List.append_assoc, List.take_append_drop]
  have hcolor : item.color.toList.flatMap f32ToLe
      = (item.color.map Scalar.toBits).toList.flatMap u32ToLe := by
    rw [Vector.toList_map, List.flatMap_map]
    rfl
  have hzeros : (u32ToLe 0).take 2 = List.replicate (UI_ITEM_STRIDE_BYTES - 78) 0 := rfl
  simp only [quads, UiRect.bits, encode, UiRect.encode, f32ToLe, List.flatMap_cons,
    List.flatMap_nil, List.flatMap_append, Vector.toList_mk, List.append_nil, List.append_assoc,
    u32ToLe_straddle, drop_u32ToLe_kind, halves, hcolor, hzeros]

/-- The stream is the words of the record quads, then the glyphs. -/
theorem UiRenderSnapshot.encodeBytes_eq_quads {snapshot : UiRenderSnapshot F}
    {bytes : List UInt8} (h : snapshot.encodeBytes = .ok bytes) :
    bytes = ((recordQuads snapshot.items).flatMap fun quad => quad.toList).flatMap u32ToLe ++
      snapshot.glyphs.flatMap Glyph.encode := by
  simp only [encodeBytes, bind_eq_ok] at h
  obtain ⟨_, _, hbytes⟩ := h
  split at hbytes
  · exact absurd hbytes (by simp)
  · have hrecord : (UiRenderItem.encode : UiRenderItem F → List UInt8)
        = fun item => (item.quads.flatMap fun quad => quad.toList).flatMap u32ToLe :=
      funext UiRenderItem.encode_eq_quads
    rw [← Except.ok.inj hbytes, hrecord, recordQuads]
    simp only [List.flatMap_assoc]

/-- Word `4 * q + j` of the stream is word `j` of quad `q`. -/
theorem UiRenderSnapshot.wordAt_encodeBytes {snapshot : UiRenderSnapshot F} {bytes : List UInt8}
    (h : snapshot.encodeBytes = .ok bytes) {q : Nat} {quad : Vector UInt32 4}
    (hq : (recordQuads snapshot.items)[q]? = some quad) {j : Nat} (hj : j < 4) :
    wordAt bytes (4 * q + j) = quad[j] := by
  have hentry : ((recordQuads snapshot.items).flatMap fun quad => quad.toList)[4 * q + j]?
      = some quad[j] := by
    rw [getElem?_flatMap_stride (fun quad => quad.length_toList) _ hj, hq]
    simp
  rw [encodeBytes_eq_quads h]
  exact wordAt_flatMap _ hentry

/-! ## What instance `i` gets -/

/-- Where the shader looks for instance `i`, in quads: the word offset is a `uint`, so from
    instance `2 ^ 28` on it starts over. -/
def instanceQuad (i : UInt32) : Nat := 4 * (i.toNat % 2 ^ 28)

/-- The quads the shader takes for instance `i`'s all stand in the records: it stays behind them,
    never past them. -/
theorem instanceQuad_lt {i : UInt32} {items : List (UiRenderItem F)} {item : UiRenderItem F}
    (hi : items[i.toNat]? = some item) : instanceQuad i + 3 < (recordQuads items).length := by
  obtain ⟨hlt, -⟩ := List.getElem?_eq_some_iff.mp hi
  have hmod : i.toNat % 2 ^ 28 ≤ i.toNat := Nat.mod_le _ _
  rw [recordQuads, length_flatMap_stride length_quads, instanceQuad]
  omega

theorem toNat_instanceWord (i : UInt32) {c : UInt32} (hc : c.toNat < 16) :
    (i * 16 + c).toNat = 4 * instanceQuad i + c.toNat := by
  rw [UInt32.toNat_add, UInt32.toNat_mul, instanceQuad]
  show (i.toNat * 16 % 2 ^ 32 + c.toNat) % 2 ^ 32 = _
  omega

section Instance

variable {snapshot : UiRenderSnapshot F} {bytes : List UInt8} {i c : UInt32} {m : Nat}
  {quad : Vector UInt32 4}

theorem uiItemsWords_instance (h : snapshot.encodeBytes = .ok bytes)
    (hq : (recordQuads snapshot.items)[instanceQuad i + m]? = some quad) {j : Nat} (hm : m < 4)
    (hj : j < 4) (hc : c.toNat = 4 * m + j) : uiItemsWords bytes (i * 16 + c) = quad[j] := by
  have hword : (i * 16 + c).toNat = 4 * (instanceQuad i + m) + j := by
    rw [toNat_instanceWord i (by omega), hc]
    omega
  rw [uiItemsWords, hword, snapshot.wordAt_encodeBytes h hq hj]

theorem vec4At_instance (h : snapshot.encodeBytes = .ok bytes)
    (hq : (recordQuads snapshot.items)[instanceQuad i + m]? = some quad) (hm : m < 4)
    (hc : c.toNat = 4 * m) : vec4At bytes (i * 16) c = quad := by
  have hnext (j : UInt32) (hj : j.toNat < 4) : (c + j).toNat = 4 * m + j.toNat := by
    rw [UInt32.toNat_add, hc]
    omega
  have h0 := uiItemsWords_instance h hq hm (j := 0) (by omega) hc
  have h1 := uiItemsWords_instance h hq hm (j := 1) (by omega) (hnext 1 (by decide))
  have h2 := uiItemsWords_instance h hq hm (j := 2) (by omega) (hnext 2 (by decide))
  have h3 := uiItemsWords_instance h hq hm (j := 3) (by omega) (hnext 3 (by decide))
  rw [vec4At, h0, h1, h2, h3]
  ext j hj
  match j, hj with
  | 0, _ | 1, _ | 2, _ | 3, _ => rfl

/-- The records hold, in the four quads the shader takes for instance `i`, what `item` asks for. -/
def InStep (items : List (UiRenderItem F)) (i : UInt32) (item : UiRenderItem F) : Prop :=
  (recordQuads items)[instanceQuad i]? = some item.rect.bits ∧
    (recordQuads items)[instanceQuad i + 1]? = some item.clipRect.bits ∧
    (recordQuads items)[instanceQuad i + 2]? = some (item.color.map Scalar.toBits) ∧
    ((recordQuads items)[instanceQuad i + 3]?.map fun quad => quad.get 0)
      = some (Scalar.toBits item.opacity)

/-- **The vertex of an instance**: it is its own item's exactly when the records, one quad an
    instance too early, happen to hold that item's fields. -/
theorem UiRenderSnapshot.uiVert_eq_vertex_iff {item : UiRenderItem F}
    (h : snapshot.encodeBytes = .ok bytes) (hi : snapshot.items[i.toNat]? = some item) :
    uiVert bytes i = item.vertex ↔ InStep snapshot.items i item := by
  have hlt := instanceQuad_lt hi
  have hquad (m : Nat) (hm : m < 4) : ∃ quad,
      (recordQuads snapshot.items)[instanceQuad i + m]? = some quad := by
    have hin : instanceQuad i + m < (recordQuads snapshot.items).length := by omega
    exact ⟨_, List.getElem?_eq_getElem hin⟩
  obtain ⟨rect, hrect⟩ := hquad 0 (by omega)
  obtain ⟨clip, hclip⟩ := hquad 1 (by omega)
  obtain ⟨color, hcolor⟩ := hquad 2 (by omega)
  obtain ⟨last, hlast⟩ := hquad 3 (by omega)
  have hopacity : uiItemsWords bytes (i * 16 + 12) = last[0] :=
    uiItemsWords_instance h hlast (by omega) (by omega) rfl
  have hvertex : uiVert bytes i = ⟨rect, clip, color, last[0]⟩ := by
    rw [uiVert, vec4At_instance h hrect (by omega) rfl, vec4At_instance h hclip (by omega) rfl,
      vec4At_instance h hcolor (by omega) rfl, hopacity]
  rw [Nat.add_zero] at hrect
  rw [hvertex, UiRenderItem.vertex, InStep, hrect, hclip, hcolor, hlast]
  simp [Vector.get]

end Instance

/-- The first instance is in step up to its opacity, for which it gets the clip's id. -/
theorem inStep_zero {items : List (UiRenderItem F)} {item : UiRenderItem F}
    (hi : items[0]? = some item) :
    InStep items 0 item ↔ item.clip.raw = Scalar.toBits item.opacity := by
  cases items with
  | nil => exact absurd hi (by simp)
  | cons first rest =>
    obtain rfl : first = item := by simpa using hi
    simp [InStep, instanceQuad, recordQuads, UiRenderItem.quads, Vector.get]

end Words

/-! ## Two squares -/

/-- A white 64 by 64 square in the first clip. -/
def square (opacity : F32) : UiRenderItem F32 :=
  let rect : UiRect F32 := ⟨⟨0⟩, ⟨0⟩, ⟨0x42800000⟩, ⟨0x42800000⟩⟩
  { node := ⟨0, 1⟩
    rect
    clipRect := rect
    color := Vector.replicate 4 Scalar.one
    clip := ⟨0⟩
    zIndex := 0
    opacity
    kind := 0
    texture := none
    font := none
    glyphCount := 0
    glyphOffset := 0 }

/-- The square painted twice, in one batch. -/
def twoSquares (opacity : F32) : UiRenderSnapshot F32 :=
  { items := [square opacity, square opacity]
    batches := [⟨⟨0, ⟨0⟩, none, none, 0, 0⟩, 0, 2⟩]
    glyphs := []
    upload := ⟨2, 1, 0, 160⟩ }

/-- Two transparent squares: the first comes out right. -/
theorem transparent_square_in_step :
    ∃ bytes, (twoSquares Scalar.zero).encodeBytes = .ok bytes ∧
      uiVert bytes 0 = (square Scalar.zero).vertex :=
  ⟨_, rfl, ((twoSquares Scalar.zero).uiVert_eq_vertex_iff rfl rfl).mpr ((inStep_zero rfl).mpr rfl)⟩

/-- Two opaque squares: the first is drawn with opacity zero, and the second has the tail of the
    first's record for a rect. -/
theorem opaque_squares_out_of_step :
    ∃ bytes, (twoSquares Scalar.one).encodeBytes = .ok bytes ∧
      (uiVert bytes 0).outOpacity = 0 ∧ (square Scalar.one).vertex.outOpacity = 0x3F800000 ∧
      (uiVert bytes 1).rect = #v[0, 0xFFFF0000, 0xFFFFFFFF, 0xFFFF] ∧
      (square Scalar.one).vertex.rect = #v[0, 0, 0x42800000, 0x42800000] := by
  refine ⟨_, rfl, ?_⟩
  decide +kernel

end Ui
end EngineKit
