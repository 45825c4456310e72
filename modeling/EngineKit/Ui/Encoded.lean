import EngineKit.Ui.Painted
import EngineKit.Ui.TreeRuns

/-!
# What a reader finds in the stream

The encoder, the snapshot and the builder each compute the size of the stream, and the encoder
writes it field by field. This file reads it back: `decodeItem` and `decodeGlyph` take the fields
of a record from the places the layout gives them, and `build_stream` says that they are the
fields of the snapshot's items and glyphs, for every list a build has finished.

A record has no room for all of an item. `UiItemRecord` is what it has: the node and the
generations of the resources are not in it, and a resource that is absent has the index
`u32::MAX`. Floats are their bit patterns.

`Located` is about the glyphs. The records' ranges follow one another from the start of the glyph
stream to its end, so a record addresses the run of its own item and no other.

The fields are read from the places of the layout, and not by undoing the encoder. The widths of the
fields in their order are one list; that a field stands at a place is that the widths before it add
up to the place (`UiRenderItem.cut_encode`), which is computed once for each field.
-/

set_option autoImplicit false

namespace EngineKit
namespace Ui

open Lib

/-! ## The layout -/

/-- The fields of the 80-byte record. -/
structure UiItemRecord where
  rect : UiRect F32
  clipRect : UiRect F32
  color : Vector F32 4
  clip : ClipId
  zIndex : Int32
  opacity : F32
  kind : UInt8
  glyphCount : UInt32
  glyphOffset : UInt32
  texture : UInt32
  font : UInt32

def u8At (bytes : List UInt8) (start : Nat) : UInt8 := (cut bytes start 1).headD 0

def u32At (bytes : List UInt8) (start : Nat) : UInt32 := u32OfLe (cut bytes start 4)

def u16At (bytes : List UInt8) (start : Nat) : UInt16 := u16OfLe (cut bytes start 2)

def f32At (bytes : List UInt8) (start : Nat) : F32 := ⟨u32At bytes start⟩

def rectAt (bytes : List UInt8) (start : Nat) : UiRect F32 :=
  ⟨f32At bytes start, f32At bytes (start + 4), f32At bytes (start + 8), f32At bytes (start + 12)⟩

def colorAt (bytes : List UInt8) (start : Nat) : Vector F32 4 :=
  #v[f32At bytes start, f32At bytes (start + 4), f32At bytes (start + 8), f32At bytes (start + 12)]

/-- The fields of one record. -/
def UiItemRecord.decode (record : List UInt8) : UiItemRecord where
  rect := rectAt record 0
  clipRect := rectAt record 16
  color := colorAt record 32
  clip := ⟨u32At record 48⟩
  zIndex := (u32At record 52).toInt32
  opacity := f32At record 56
  kind := u8At record 60
  glyphCount := u32At record 62
  glyphOffset := u32At record 66
  texture := u32At record 70
  font := u32At record 74

/-- The fields of one glyph. -/
def Glyph.decode (record : List UInt8) : Glyph F32 where
  codepoint := u32At record 0
  advance := f32At record 4
  atlasX := u16At record 8
  atlasY := u16At record 10
  width := u16At record 12
  height := u16At record 14

/-- Record `i` of a stream. -/
def decodeItem (bytes : List UInt8) (i : Nat) : UiItemRecord :=
  .decode (cut bytes (UI_ITEM_STRIDE_BYTES * i) UI_ITEM_STRIDE_BYTES)

/-- Glyph `j` of a stream with `items` records before the glyphs. -/
def decodeGlyph (bytes : List UInt8) (items j : Nat) : Glyph F32 :=
  .decode (cut bytes (UI_ITEM_STRIDE_BYTES * items + UI_GLYPH_STRIDE_BYTES * j)
    UI_GLYPH_STRIDE_BYTES)

/-! ## One record -/

section Record

variable {F : Type} [Scalar F]

def toF32 (x : F) : F32 := ⟨Scalar.toBits x⟩

def UiRect.toF32 (rect : UiRect F) : UiRect F32 :=
  ⟨Ui.toF32 rect.x, Ui.toF32 rect.y, Ui.toF32 rect.width, Ui.toF32 rect.height⟩

/-- What the layout has room for of an item. -/
def UiRenderItem.record (item : UiRenderItem F) : UiItemRecord where
  rect := item.rect.toF32
  clipRect := item.clipRect.toF32
  color := item.color.map toF32
  clip := item.clip
  zIndex := item.zIndex
  opacity := toF32 item.opacity
  kind := item.kind
  glyphCount := item.glyphCount
  glyphOffset := item.glyphOffset
  texture := (item.texture.map fun id => id.index).getD 0xFFFFFFFF
  font := (item.font.map fun id => id.index).getD 0xFFFFFFFF

def Glyph.toF32 (glyph : Glyph F) : Glyph F32 :=
  ⟨glyph.codepoint, Ui.toF32 glyph.advance, glyph.atlasX, glyph.atlasY, glyph.width, glyph.height⟩

/-- A float that was written is read. -/
theorem f32At_eq {bytes : List UInt8} {start : Nat} {x : F}
    (h : cut bytes start 4 = f32ToLe x) : f32At bytes start = toF32 x := by
  rw [f32At, u32At, h, f32ToLe, u32OfLe_u32ToLe, toF32]

/-- A word that was written is read. -/
theorem u32At_eq {bytes : List UInt8} {start : Nat} {x : UInt32}
    (h : cut bytes start 4 = u32ToLe x) : u32At bytes start = x := by
  rw [u32At, h, u32OfLe_u32ToLe]

/-- A half word that was written is read. -/
theorem u16At_eq {bytes : List UInt8} {start : Nat} {x : UInt16}
    (h : cut bytes start 2 = u16ToLe x) : u16At bytes start = x := by
  rw [u16At, h, u16OfLe_u16ToLe]

theorem u8At_eq {bytes : List UInt8} {start : Nat} {x : UInt8} (h : cut bytes start 1 = [x]) :
    u8At bytes start = x := by
  rw [u8At, h, List.headD_cons]

theorem rectAt_eq {bytes : List UInt8} {start : Nat} {rect : UiRect F}
    (h : cut bytes start 16 = rect.encode) : rectAt bytes start = rect.toF32 := by
  have hpart (k : Nat) (hk : k + 4 ≤ 16) : cut bytes (start + k) 4 = cut rect.encode k 4 := by
    rw [← cut_cut bytes start hk, h]
  have hx : f32At bytes start = Ui.toF32 rect.x := f32At_eq (hpart 0 (by decide))
  have hy : f32At bytes (start + 4) = Ui.toF32 rect.y := f32At_eq (hpart 4 (by decide))
  have hwidth : f32At bytes (start + 8) = Ui.toF32 rect.width := f32At_eq (hpart 8 (by decide))
  have hheight : f32At bytes (start + 12) = Ui.toF32 rect.height :=
    f32At_eq (hpart 12 (by decide))
  rw [rectAt, hx, hy, hwidth, hheight, UiRect.toF32]

theorem colorAt_eq {bytes : List UInt8} {start : Nat} {color : Vector F 4}
    (h : cut bytes start 16 = color.toList.flatMap f32ToLe) :
    colorAt bytes start = color.map toF32 := by
  have hpart (j : Nat) (hj : j < 4) : f32At bytes (start + 4 * j) = toF32 color[j] := by
    have hentry : color.toList[j]? = some color[j] := by simp [hj]
    apply f32At_eq
    have hfield := cut_flatMap_stride (length_f32ToLe (F := F)) hentry []
      (by omega : 0 + 4 ≤ 4)
    rw [List.append_nil, Nat.add_zero] at hfield
    rw [← cut_cut bytes start (by omega : 4 * j + 4 ≤ 16), h, hfield]
    rfl
  apply Vector.ext
  intro j hj
  rw [Vector.getElem_map, ← hpart j hj]
  match j, hj with
  | 0, _ | 1, _ | 2, _ | 3, _ => rfl

theorem Glyph.decode_encode (glyph : Glyph F) : decode glyph.encode = glyph.toF32 := by
  have hcode : u32At glyph.encode 0 = glyph.codepoint := u32At_eq rfl
  have hadvance : f32At glyph.encode 4 = Ui.toF32 glyph.advance := f32At_eq rfl
  have hx : u16At glyph.encode 8 = glyph.atlasX := u16At_eq rfl
  have hy : u16At glyph.encode 10 = glyph.atlasY := u16At_eq rfl
  have hwidth : u16At glyph.encode 12 = glyph.width := u16At_eq rfl
  have hheight : u16At glyph.encode 14 = glyph.height := u16At_eq rfl
  rw [Glyph.decode, hcode, hadvance, hx, hy, hwidth, hheight, Glyph.toF32]

/-- The fields of a record, with its padding. -/
def UiRenderItem.fields (item : UiRenderItem F) : List (List UInt8) :=
  [item.rect.encode, item.clipRect.encode, item.color.toList.flatMap f32ToLe,
    u32ToLe item.clip.raw, u32ToLe item.zIndex.toUInt32, f32ToLe item.opacity, [item.kind], [0],
    u32ToLe item.glyphCount, u32ToLe item.glyphOffset,
    u32ToLe ((item.texture.map fun id => id.index).getD 0xFFFFFFFF),
    u32ToLe ((item.font.map fun id => id.index).getD 0xFFFFFFFF),
    List.replicate (UI_ITEM_STRIDE_BYTES - 78) 0]

theorem UiRenderItem.encode_eq_fields (item : UiRenderItem F) :
    item.encode = item.fields.flatMap id := by
  simp [encode, fields]

theorem UiRenderItem.length_fields (item : UiRenderItem F) :
    item.fields.map List.length = [16, 16, 16, 4, 4, 4, 1, 1, 4, 4, 4, 4, 2] := by
  have hcolor : (item.color.toList.flatMap f32ToLe).length = 16 := by
    rw [length_flatMap_stride length_f32ToLe, Vector.length_toList]
  simp [fields, hcolor, UI_ITEM_STRIDE_BYTES]

/-- Field `k` stands behind the fields before it. -/
theorem UiRenderItem.cut_encode (item : UiRenderItem F) {k start width : Nat}
    {field : List UInt8} (hk : item.fields[k]? = some field)
    (hstart : ([16, 16, 16, 4, 4, 4, 1, 1, 4, 4, 4, 4, 2].take k).sum = start)
    (hwidth : [16, 16, 16, 4, 4, 4, 1, 1, 4, 4, 4, 4, 2][k]? = some width) :
    cut item.encode start width = field := by
  have hlen : field.length = width := by
    rw [← item.length_fields, List.getElem?_map, hk] at hwidth
    exact Option.some.inj hwidth
  have hrun := cut_flatMap (f := id) hk
  have hsum : ((item.fields.take k).map fun field => (id field).length).sum = start := by
    rw [← hstart, ← item.length_fields, List.map_take]
    rfl
  rw [hsum] at hrun
  rw [encode_eq_fields, ← hlen]
  exact hrun

/-- **The fields of a record** stand where the layout says. -/
theorem UiRenderItem.decode_encode (item : UiRenderItem F) :
    UiItemRecord.decode item.encode = item.record := by
  have hrect : rectAt item.encode 0 = item.rect.toF32 :=
    rectAt_eq (item.cut_encode (k := 0) rfl rfl rfl)
  have hclipRect : rectAt item.encode 16 = item.clipRect.toF32 :=
    rectAt_eq (item.cut_encode (k := 1) rfl rfl rfl)
  have hcolor : colorAt item.encode 32 = item.color.map toF32 :=
    colorAt_eq (item.cut_encode (k := 2) rfl rfl rfl)
  have hclip : u32At item.encode 48 = item.clip.raw :=
    u32At_eq (item.cut_encode (k := 3) rfl rfl rfl)
  have hz : u32At item.encode 52 = item.zIndex.toUInt32 :=
    u32At_eq (item.cut_encode (k := 4) rfl rfl rfl)
  have hopacity : f32At item.encode 56 = Ui.toF32 item.opacity :=
    f32At_eq (item.cut_encode (k := 5) rfl rfl rfl)
  have hkind : u8At item.encode 60 = item.kind :=
    u8At_eq (item.cut_encode (k := 6) rfl rfl rfl)
  have hcount : u32At item.encode 62 = item.glyphCount :=
    u32At_eq (item.cut_encode (k := 8) rfl rfl rfl)
  have hoffset : u32At item.encode 66 = item.glyphOffset :=
    u32At_eq (item.cut_encode (k := 9) rfl rfl rfl)
  have htexture : u32At item.encode 70
      = (item.texture.map fun id => id.index).getD 0xFFFFFFFF :=
    u32At_eq (item.cut_encode (k := 10) rfl rfl rfl)
  have hfont : u32At item.encode 74 = (item.font.map fun id => id.index).getD 0xFFFFFFFF :=
    u32At_eq (item.cut_encode (k := 11) rfl rfl rfl)
  rw [UiItemRecord.decode, hrect, hclipRect, hcolor, hclip, hz, hopacity, hkind, hcount, hoffset,
    htexture, hfont, Int32.toInt32_toUInt32, record]

end Record

/-! ## The stream -/

section Stream

variable {F : Type} [Scalar F] {snapshot : UiRenderSnapshot F} {bytes : List UInt8}

/-- The stream is the records and then the glyphs. -/
theorem encodeBytes_eq (h : snapshot.encodeBytes = .ok bytes) :
    bytes = snapshot.items.flatMap UiRenderItem.encode ++ snapshot.glyphs.flatMap Glyph.encode := by
  simp only [UiRenderSnapshot.encodeBytes, bind_eq_ok] at h
  obtain ⟨n, -, h⟩ := h
  split at h
  · exact absurd h (by simp)
  · exact (Except.ok.inj h).symm

/-- **Each record** is read back. -/
theorem decodeItem_encodeBytes (h : snapshot.encodeBytes = .ok bytes) {i : Nat}
    {item : UiRenderItem F} (hi : snapshot.items[i]? = some item) :
    decodeItem bytes i = item.record := by
  have hrecord := cut_flatMap_stride UiRenderItem.length_encode hi
    (snapshot.glyphs.flatMap Glyph.encode) (Nat.zero_add UI_ITEM_STRIDE_BYTES).le
  rw [Nat.add_zero, cut_whole item.length_encode] at hrecord
  rw [decodeItem, encodeBytes_eq h, hrecord, item.decode_encode]

/-- **Each glyph** is read back. -/
theorem decodeGlyph_encodeBytes (h : snapshot.encodeBytes = .ok bytes) {j : Nat}
    {glyph : Glyph F} (hj : snapshot.glyphs[j]? = some glyph) :
    decodeGlyph bytes snapshot.items.length j = glyph.toF32 := by
  have hitems := length_flatMap_stride UiRenderItem.length_encode snapshot.items
  have hrecord := cut_flatMap_stride Glyph.length_encode hj []
    (Nat.zero_add UI_GLYPH_STRIDE_BYTES).le
  rw [Nat.add_zero, List.append_nil, cut_whole glyph.length_encode] at hrecord
  rw [decodeGlyph, encodeBytes_eq h, ← hitems, cut_append_right, hrecord, glyph.decode_encode]

end Stream

/-! ## Where the glyphs are -/

section Located

variable {F : Type} [Scalar F]

/-- The records of some items, when `n` glyphs stand before theirs: each addresses its own run, and
    the next one goes on behind it. -/
inductive Located (clips : List (UiClip F)) :
    Nat → List (PaintItem F) → List (UiRenderItem F) → Prop where
  | nil (n : Nat) : Located clips n [] []
  | cons {n : Nat} {item : PaintItem F} {items : List (PaintItem F)} {count offset : UInt32}
      {records : List (UiRenderItem F)} (starts : offset.toNat = n)
      (counts : count.toNat = item.kind.glyphs.length)
      (rest : Located clips (n + item.kind.glyphs.length) items records) :
      Located clips n (item :: items) (renderItem clips item count offset :: records)

variable {clips : List (UiClip F)} {n : Nat} {items : List (PaintItem F)}
  {records : List (UiRenderItem F)}

/-- The loop of `snapshot` puts the runs one behind the other, and locates them. -/
theorem snapshotItems_located {out out' : List (UiRenderItem F)} {glyphs glyphs' : List (Glyph F)}
    (h : snapshotItems clips items out glyphs = .ok (out', glyphs')) :
    glyphs' = glyphs ++ items.flatMap (fun item => item.kind.glyphs) ∧
      ∃ records, out' = out ++ records ∧ Located clips glyphs.length items records := by
  induction items generalizing out glyphs with
  | nil =>
    obtain ⟨rfl, rfl⟩ := Prod.mk.inj (Except.ok.inj h)
    exact ⟨by simp, [], by simp, .nil _⟩
  | cons item items ih =>
    simp only [snapshotItems, bind_eq_ok, orOverflow_eq_ok] at h
    obtain ⟨offset, hoffset, count, hcount, hrest⟩ := h
    obtain ⟨hglyphs, records, hout, hlocated⟩ := ih hrest
    rw [List.length_append] at hlocated
    refine ⟨?_, renderItem clips item count offset :: records, ?_, ?_⟩
    · rw [hglyphs, List.append_assoc, List.flatMap_cons]
    · rw [hout, List.append_assoc, List.singleton_append]
    · exact .cons (toNat_of_u32TryFrom hoffset) (toNat_of_u32TryFrom hcount) hlocated

/-- The counts of the records are the lengths of the runs. -/
theorem Located.counts_eq (h : Located clips n items records) :
    records.map (fun record => record.glyphCount.toNat)
      = items.map fun item => item.kind.glyphs.length := by
  induction h with
  | nil n => rfl
  | cons starts counts rest ih =>
    rw [List.map_cons, List.map_cons, ih]
    exact congrArg (· :: _) counts

/-- A record addresses the glyphs behind those of the items before it. -/
theorem Located.getElem? (h : Located clips n items records) {i : Nat} {record : UiRenderItem F}
    (hi : records[i]? = some record) :
    ∃ item, items[i]? = some item ∧
      record = renderItem clips item record.glyphCount record.glyphOffset ∧
      record.glyphCount.toNat = item.kind.glyphs.length ∧
      record.glyphOffset.toNat
        = n + ((items.take i).map fun item => item.kind.glyphs.length).sum := by
  induction h generalizing i with
  | nil n => exact absurd hi (by simp)
  | @cons n item items count offset records starts counts rest ih =>
    cases i with
    | zero =>
      obtain rfl := Option.some.inj hi
      exact ⟨item, rfl, rfl, counts, starts⟩
    | succ i =>
      rw [List.getElem?_cons_succ] at hi
      obtain ⟨found, hfound, hrecord, hcount, hoffset⟩ := ih hi
      refine ⟨found, hfound, hrecord, hcount, ?_⟩
      rw [hoffset, List.take_succ_cons, List.map_cons, List.sum_cons, Nat.add_assoc]

end Located

/-! ## A built list -/

section Built

variable {F : Type}

/-- A build that finishes is within its quota. -/
theorem uploadBytes_le_of_finishBuild {list list' : UiPaintList F} {plan : UiUploadPlan}
    (h : list.finishBuild = .ok (list', plan)) :
    plan.uploadBytes ≤ list.config.maxUploadBytes := by
  simp only [UiPaintList.finishBuild, bind_eq_ok] at h
  obtain ⟨_, -, _, -, _, -, _, -, _, -, _, -, hlist⟩ := h
  split at hlist
  · exact absurd hlist (by simp)
  · next hle =>
    obtain ⟨-, rfl⟩ := Prod.mk.inj (Except.ok.inj hlist)
    exact Nat.le_of_not_lt hle

/-- A finished list has a snapshot, with the plan of the build, and its records are located. -/
theorem snapshot_located [Scalar F] {list list' : UiPaintList F} {plan : UiUploadPlan}
    (h : list.finishBuild = .ok (list', plan)) :
    ∃ snapshot, list'.snapshot = .ok snapshot ∧ snapshot.upload = plan ∧
      Located list'.clips 0 list'.items snapshot.items ∧
      snapshot.glyphs = list'.items.flatMap (fun item => item.kind.glyphs) ∧
      snapshot.glyphs.length < 2 ^ 32 := by
  obtain ⟨snapshot, hsnap, -⟩ := snapshot_of_finishBuild h
  obtain ⟨batches, glyphs, rfl, -, hglyphs, hitems, hbatches, htotal, hupload⟩ := finishBuild_ok h
  refine ⟨snapshot, hsnap, ?_⟩
  simp only [UiPaintList.snapshot, bind_eq_ok, orOverflow_eq_ok] at hsnap
  obtain ⟨⟨records, stream⟩, hrecords, glyphs', hglyphs', uploadBytes, hupload', itemCount,
    hitems', batchCount, hbatches', glyphCount, htotal', hsnap⟩ := hsnap
  obtain rfl := Except.ok.inj hsnap
  obtain ⟨hstream, records', hout, hlocated⟩ := snapshotItems_located hrecords
  rw [List.nil_append] at hstream hout
  subst hout
  have hcounts := hlocated.counts_eq
  have hlen : records.length = list.items.length := by
    simpa only [List.length_map] using congrArg List.length hcounts
  -- both sides sum the same numbers, so every field of the two plans is the same word
  dsimp only at hglyphs' hupload'
  rw [hcounts] at hglyphs'
  obtain rfl := Option.some.inj (hglyphs.symm.trans hglyphs')
  rw [hlen] at hupload'
  have hplan : plan = ⟨itemCount, batchCount, glyphCount, uploadBytes⟩ := by
    obtain ⟨_, _, _, _⟩ := plan
    rw [UiUploadPlan.mk.injEq]
    exact ⟨Option.some.inj (hitems.symm.trans hitems'),
      Option.some.inj (hbatches.symm.trans hbatches'),
      Option.some.inj (htotal.symm.trans htotal'), Option.some.inj (hupload.symm.trans hupload')⟩
  refine ⟨hplan.symm, hlocated, hstream, ?_⟩
  have hsum := eq_of_checkedSum hglyphs
  have hlt := lt_of_u32TryFrom htotal
  dsimp only
  rw [hstream, List.length_flatMap]
  omega

/-- **The stream of a built list.** The size the build checked against the quota is the snapshot's
    and the length of the stream; the records' ranges cut the glyph stream into the runs of their
    items; and every record and every glyph is read back as it is. -/
theorem build_stream [Coord F] {scene : Scene F} {t : UiTree F} {list : UiPaintList F}
    {plan : UiUploadPlan} (h : buildWithResources scene t = .ok (list, plan)) :
    ∃ snapshot bytes, list.snapshot = .ok snapshot ∧ snapshot.encodeBytes = .ok bytes ∧
      bytes.length = snapshot.upload.uploadBytes ∧ snapshot.upload = plan ∧
      plan.uploadBytes ≤ scene.config.maxUploadBytes ∧
      snapshot.items.length = list.items.length ∧
      (snapshot.items.map fun record => record.glyphCount.toNat).sum = snapshot.glyphs.length ∧
      (∀ (i : Nat) (record : UiRenderItem F), snapshot.items[i]? = some record →
        ∃ item, list.items[i]? = some item ∧
          record = renderItem list.clips item record.glyphCount record.glyphOffset ∧
          record.glyphOffset.toNat
            = ((snapshot.items.take i).map fun record => record.glyphCount.toNat).sum ∧
          record.glyphCount.toNat = item.kind.glyphs.length ∧
          cut snapshot.glyphs record.glyphOffset.toNat record.glyphCount.toNat
            = item.kind.glyphs ∧
          decodeItem bytes i = record.record) ∧
      (∀ (j : Nat) (glyph : Glyph F), snapshot.glyphs[j]? = some glyph →
        decodeGlyph bytes snapshot.items.length j = glyph.toF32) := by
  simp only [buildWithResources, bind_eq_ok, monadLift_eq_ok] at h
  obtain ⟨_, -, order, -, p, -, q, -, hfinish⟩ := h
  obtain ⟨snapshot, hsnap, hplan, hlocated, hglyphs, hglyphCount⟩ := snapshot_located hfinish
  obtain ⟨-, hlen, hsize⟩ := UiPaintList.snapshot_spec hsnap
  have hcounts := hlocated.counts_eq
  -- a plan counts in 32 bits, so its stream fits a vector
  have hsmall : snapshot.upload.uploadBytes ≤ ISIZE_MAX := by
    have hitemCount : snapshot.items.length < 2 ^ 32 := by
      rw [hlen]
      exact (finishBuild_counts hfinish).1
    have hbytes := eq_of_uploadSize hsize
    unfold UI_ITEM_STRIDE_BYTES UI_GLYPH_STRIDE_BYTES at hbytes
    unfold ISIZE_MAX
    omega
  obtain ⟨bytes, hbytes⟩ : ∃ bytes, snapshot.encodeBytes = .ok bytes :=
    ⟨_, bind_eq_ok.mpr ⟨_, orOverflow_eq_ok.mpr hsize, if_neg (Nat.not_lt.mpr hsmall)⟩⟩
  have hbytesLen : bytes.length = snapshot.upload.uploadBytes :=
    Option.some.inj ((UiRenderSnapshot.length_encodeBytes hbytes).1.symm.trans hsize)
  have htotal : (snapshot.items.map fun record => record.glyphCount.toNat).sum
      = snapshot.glyphs.length := by
    rw [hcounts, hglyphs, List.length_flatMap]
  refine ⟨snapshot, bytes, hsnap, hbytes, hbytesLen, hplan, uploadBytes_le_of_finishBuild hfinish,
    hlen, htotal, ?_, fun j glyph hj => decodeGlyph_encodeBytes hbytes hj⟩
  intro i record hi
  obtain ⟨item, hitem, hrecord, hcount, hoffset⟩ := hlocated.getElem? hi
  rw [Nat.zero_add] at hoffset
  have hrun := cut_flatMap (f := fun item : PaintItem F => item.kind.glyphs) hitem
  refine ⟨item, hitem, hrecord, ?_, hcount, ?_, decodeItem_encodeBytes hbytes hi⟩
  · rw [hoffset, List.map_take, List.map_take, hcounts]
  · rw [hoffset, hcount, hglyphs, hrun]

/-- A text of two letters, with room for them. -/
def wideText : List (TreeCall Float32) :=
  [.create .ample ⟨0, 1⟩ { UiNodeContent.new .text with text := some ⟨"ab"⟩ },
    .setRect ⟨0, 1⟩ ⟨0, 0, 320, 200⟩, .setRect ⟨1, 1⟩ ⟨0, 0, 40, 20⟩]

/-- Two items with two glyphs, and as many bytes as planned. -/
theorem build_stream_text : ∃ (t₀ : UiTree Float32) (list : UiPaintList Float32)
    (plan : UiUploadPlan), UiTree.tryNew .ample ⟨4, 4, 16⟩ = .ok t₀ ∧
      buildWithResources smallScene (runCalls t₀ wideText) = .ok (list, plan) ∧
      plan = ⟨2, 2, 2, 224⟩ ∧
      ∃ snapshot bytes, list.snapshot = .ok snapshot ∧ snapshot.encodeBytes = .ok bytes ∧
        bytes.length = snapshot.upload.uploadBytes ∧ snapshot.upload = plan := by
  obtain ⟨t₀, h₀⟩ : ∃ t₀ : UiTree Float32, UiTree.tryNew .ample ⟨4, 4, 16⟩ = .ok t₀ := ⟨_, rfl⟩
  have hbuilt : (buildWithResources smallScene (runCalls t₀ wideText)).toOption.any
      (fun built => decide (built.2 = ⟨2, 2, 2, 224⟩)) = true := by
    obtain rfl := Except.ok.inj h₀
    decide +kernel
  obtain ⟨⟨list, plan⟩, hbuild, hplan⟩ := ok_of_any hbuilt
  obtain ⟨snapshot, bytes, hsnap, hbytes, hlen, hupload, -⟩ := build_stream hbuild
  exact ⟨t₀, list, plan, h₀, hbuild, of_decide_eq_true hplan, snapshot, bytes, hsnap, hbytes, hlen,
    hupload⟩

end Built

end Ui
end EngineKit
