import EngineKit.Lib.Single
import EngineKit.Ui.Painted
import EngineKit.Ui.TreeRuns

/-!
# When painting fails

The walk stops at the first error, and with it the whole frame. Quotas and memory aside there is one
error left: the text wrapper wants a column of eight pixels, and is given the width of its node, or
one pixel. So a text node that is painted and narrower than eight pixels (`Narrow`) is the error
`invalidValue`, unless a budget has stopped the walk before it (`Stumbles`).

The budgets are the hard part of the condition, not the text. A narrow text fails the frame only if
the walk comes to it, and whether it does is decided by what the nodes before it have used up: a
clip each, an item or two for those that are painted, glyphs for those with a text. `Paid` says of a
list of nodes that the budgets have lasted for it, in terms of the tree and the scene alone, so that
`Stumbles` is a condition on the input. That the painter agrees with it is `Walked`, from the walk.

The other errors are dealt with on the way: what fails for want of memory or of an index is a budget
(`UiError.Budget`), and the end of the build, which only splits the list up, has no other errors.
-/

set_option autoImplicit false

namespace EngineKit
namespace Ui

open Lib

/-! ## The width of a text -/

/-- The two constants of the width, as normal numbers. -/
theorem normal_one : IsNormal (1 : Float32) (2 ^ 23) (-23) :=
  ⟨by decide, by decide, by decide, by decide, by decide, rfl⟩

theorem normal_eight : IsNormal (8 : Float32) (2 ^ 23) (-20) :=
  ⟨by decide, by decide, by decide, by decide, by decide, rfl⟩

/-- The width a text is given: that of its node, or one. It is normal, and below eight if the
    node's is. -/
theorem f32Max_one {width : Float32} (h : width.isFinite = true) :
    ∃ m e, IsNormal (f32Max width 1) m e ∧ -23 ≤ e ∧ (f32Max width 1 < 8 ↔ width < 8) := by
  have hnan : width.isNaN = false := by
    change Float.Model.UnpackedFloat.isFinite width.toModel.unpack = true at h
    change Float.Model.UnpackedFloat.isNaN width.toModel.unpack = false
    cases hu : width.toModel.unpack with
    | notANumber => rw [hu] at h; cases h
    | infinity s => rfl
    | zero s => rfl
    | finite s m e hm => rfl
  have hone : (1 : Float32).isNaN = false := rfl
  unfold f32Max
  rw [hnan, hone]
  by_cases hlt : width < 1
  · refine ⟨2 ^ 23, -23, by simpa [hlt] using normal_one, by decide, ?_⟩
    have hbelow : width < 8 := lt_pow_mono normal_one normal_eight (by decide) hlt
    simp [hlt, hbelow, normal_one.lt_pow_iff normal_eight]
  · obtain ⟨m, e, hnormal, he⟩ := isNormal_of_not_lt h normal_one (by decide) hlt
    exact ⟨m, e, by simpa [hlt] using hnormal, he, by simp [hlt]⟩

/-! ## One text -/

namespace FallbackGlyphProvider

/-- The loop ends: there are no more lines than characters. -/
theorem wrap_ok {F : Type} [Coord F] (p : FallbackGlyphProvider F) (columns : Nat)
    {text : List Char} {index column line : Nat} {width : F} {glyphs : List (Glyph F)}
    (h : line + text.length < 2 ^ 64) :
    ∃ out, p.wrap columns index text column line width glyphs = .ok out := by
  induction text generalizing index column line width glyphs with
  | nil => exact ⟨_, rfl⟩
  | cons ch text ih =>
    rw [List.length_cons] at h
    have hadd : checkedAdd line 1 = some (line + 1) := checkedAdd_of_lt (by omega)
    simp only [wrap, hadd, orOverflow, UiTree.ok_bind]
    split <;> split <;> exact ih (by omega)

/-- The metrics of the provider, and any positive width, pass the wrapper's first check. -/
theorem defaults_domain {width : Float32} {m : Nat} {e : Int} (h : IsNormal width m e) :
    ¬ ¬ (validMetric
        (defaults : FallbackGlyphProvider Float32).advance &&
      validMetric (defaults : FallbackGlyphProvider Float32).lineHeight &&
      Coord.isFinite width && ! decide (width ≤ Scalar.zero)) = true := by
  have hmetrics : validMetric
        (defaults : FallbackGlyphProvider Float32).advance = true ∧
      validMetric
        (defaults : FallbackGlyphProvider Float32).lineHeight = true := by decide +kernel
  have hfinite : Coord.isFinite width = true := h.isFinite
  have hpositive : ¬ width ≤ Scalar.zero := h.not_le_zero
  simp [hmetrics, hfinite, hpositive]

/-- **A text is shaped** unless its node is narrower than eight, or there is no memory. -/
theorem shapeWrapped_cases {width : Float32} (hfinite : width.isFinite = true) (room : Bool)
    {text : String} {maxGlyphs : Nat} (hcount : text.toList.length ≤ maxGlyphs)
    (hsmall : maxGlyphs < 2 ^ 64) :
    (width < 8 ∧ defaults.shapeWrapped room text maxGlyphs
        (f32Max width 1) = .error .invalidValue) ∨
      (¬ width < 8 ∧ room = false ∧ defaults.shapeWrapped room text maxGlyphs
        (f32Max width 1) = .error .allocationFailed) ∨
      (¬ width < 8 ∧ room = true ∧ ∃ run, defaults.shapeWrapped room text
        maxGlyphs (f32Max width 1) = .ok run) := by
  obtain ⟨m, e, hnormal, he, hwidth⟩ := f32Max_one hfinite
  have hadvance : IsNormal (defaults : FallbackGlyphProvider Float32).advance (2 ^ 23) (-20) :=
    ⟨by decide, by decide, by decide, by decide, by decide, rfl⟩
  have hcolumns : Coord.toUsize
      (f32Max width 1 / (defaults : FallbackGlyphProvider Float32).advance) = 0 ↔
      width < 8 := by
    have hmax := hnormal.max
    have hquotient := hnormal.div_pow hadvance (by omega) (by omega)
    rw [← hwidth, hnormal.lt_pow_iff normal_eight]
    refine Iff.trans hquotient.toUInt64_eq_zero ?_
    omega
  simp only [shapeWrapped, failIf, if_neg (defaults_domain hnormal),
    if_neg (Nat.not_lt.mpr hcount), hcolumns, UiTree.ok_bind]
  -- Below eight the columns are none, since `f32Max` raises the width to one at most.
  by_cases hnarrow : width < 8
  · exact .inl ⟨hnarrow, by rw [if_pos hnarrow]; rfl⟩
  · rw [if_neg hnarrow]
    cases room with
    | false => exact .inr (.inl ⟨hnarrow, rfl, rfl⟩)
    | true =>
      generalize Coord.toUsize (f32Max width 1 /
        (defaults : FallbackGlyphProvider Float32).advance) = columns
      have hwrap : ∃ out, (defaults : FallbackGlyphProvider Float32).wrap columns 0 text.toList 0
          0 Scalar.zero [] = .ok out :=
        defaults.wrap_ok columns (by omega)
      obtain ⟨⟨glyphs, line, used⟩, hwrap⟩ := hwrap
      refine .inr (.inr ⟨hnarrow, rfl, ⟨glyphs, used, Coord.ofNat (usizeSaturatingAdd line 1) *
        (defaults : FallbackGlyphProvider Float32).lineHeight⟩, ?_⟩)
      rw [if_neg (by decide)]
      simp only [UiTree.ok_bind, hwrap]

end FallbackGlyphProvider

/-! ## One node -/

/-- The node's text is shaped. -/
def shapesText (resources : Option UiResourceTable) (content : UiNodeContent Float32) : Bool :=
  content.kind = .text && ! fontMissing resources content && content.text.isSome

/-- The node is painted, and its text is shaped. -/
def Shaped (scene : Scene Float32) (t : UiTree Float32) (id : UiNodeId) : Prop :=
  ∃ node, t.lookup id = some node ∧ Paints scene.viewport t id node ∧
    shapesText scene.resources node.content = true

/-- A text node that is painted, and narrower than a column. -/
def Narrow (scene : Scene Float32) (t : UiTree Float32) (id : UiNodeId) : Prop :=
  Shaped scene t id ∧ ∃ node, t.lookup id = some node ∧ node.rect.width < 8

/-- No text is longer than the tree takes, or has more characters than a run may have glyphs. -/
def legible (scene : Scene Float32) (t : UiTree Float32) : Bool :=
  t.slots.all fun slot => slot.all fun node => node.content.text.all fun text =>
    decide (text.byteLen ≤ t.config.maxTextBytes) &&
      decide (text.value.toList.length ≤ scene.config.maxGlyphs)

/-- The errors of a spent budget. -/
def UiError.Budget (e : UiError) : Prop :=
  e = .capacityExceeded ∨ e = .allocationFailed ∨ e = .indexOverflow

/-- So no text is refused for its length. -/
theorem length_of_legible {scene : Scene Float32} {t : UiTree Float32}
    (h : legible scene t = true) {id : UiNodeId} {node : UiNode Float32}
    (hnode : t.lookup id = some node) {text : UiText} (htext : node.content.text = some text) :
    text.value.toList.length ≤ scene.config.maxGlyphs := by
  obtain ⟨hslot, -⟩ := UiTree.lookup_eq_some.mp hnode
  have hnode := List.all_eq_true.mp h _ (List.mem_of_getElem? hslot)
  simp only [Option.all_some, htext, Bool.and_eq_true, decide_eq_true_eq] at hnode
  exact hnode.2

/-- Sane trees have no infinite widths. -/
theorem UiTree.width_finite {t : UiTree Float32} (h : t.sane = true) {id : UiNodeId}
    {node : UiNode Float32} (hnode : t.lookup id = some node) :
    node.rect.width.isFinite = true := by
  obtain ⟨hslot, -⟩ := UiTree.lookup_eq_some.mp hnode
  have hrect := List.all_eq_true.mp h _ (List.mem_of_getElem? hslot)
  simp only [Option.all_some, Bool.and_eq_true] at hrect
  have hall := hrect.2
  simp only [UiRect.sane, List.all_cons, Bool.and_eq_true] at hall
  exact hall.1.1.2.2.1

/-- **The kind of a node** is found unless its text is shaped, and then the wrapper decides. -/
theorem paintKind_cases {scene : Scene Float32} {t : UiTree Float32}
    (hlegible : legible scene t = true) {id : UiNodeId} {node : UiNode Float32}
    (hnode : t.lookup id = some node) (hfinite : node.rect.width.isFinite = true) :
    (shapesText scene.resources node.content = true ∧ node.rect.width < 8 ∧
        paintKind scene id node.content node.rect = .error .invalidValue) ∨
      (shapesText scene.resources node.content = true ∧ ¬ node.rect.width < 8 ∧
        scene.room.glyphs id = false ∧
        paintKind scene id node.content node.rect = .error .allocationFailed) ∨
      ((shapesText scene.resources node.content = true →
          ¬ node.rect.width < 8 ∧ scene.room.glyphs id = true) ∧
        ∃ kind, paintKind scene id node.content node.rect = .ok kind) := by
  -- Only a text goes to the wrapper; the other kinds look up a resource or nothing at all.
  cases hshapes : shapesText scene.resources node.content with
  | true =>
    simp only [shapesText, Bool.and_eq_true, decide_eq_true_eq, Bool.not_eq_true'] at hshapes
    obtain ⟨⟨hkind, hfont⟩, htext⟩ := hshapes
    obtain ⟨text, htext⟩ := Option.isSome_iff_exists.mp htext
    have hcount := length_of_legible hlegible hnode htext
    have hmax : Coord.max node.rect.width Scalar.one = f32Max node.rect.width 1 := rfl
    simp only [paintKind, hkind, hfont, htext, hmax]
    have hcases := FallbackGlyphProvider.shapeWrapped_cases hfinite (scene.room.glyphs id) hcount
      scene.config.glyphs_lt
    rcases hcases with
      ⟨hnarrow, hcall⟩ | ⟨hwide, hroom, hcall⟩ | ⟨hwide, hroom, run, hcall⟩ <;> rw [hcall]
    · exact .inl ⟨trivial, hnarrow, rfl⟩
    · exact .inr (.inl ⟨trivial, hwide, hroom, rfl⟩)
    · exact .inr (.inr ⟨fun _ => ⟨hwide, hroom⟩, _, rfl⟩)
  | false =>
    refine .inr (.inr ⟨fun h => absurd h (by simp), ?_⟩)
    unfold paintKind
    cases hkind : node.content.kind with
    | text =>
      simp only
      split
      · exact ⟨_, rfl⟩
      · next hfont =>
        split
        · exact ⟨_, rfl⟩
        · next text htext => simp [shapesText, hkind, hfont, htext] at hshapes
    | root | panel =>
      simp only
      split
      · exact ⟨_, rfl⟩
      · split <;> exact ⟨_, rfl⟩
    | image =>
      simp only
      split <;> exact ⟨_, rfl⟩
    | custom => exact ⟨_, rfl⟩

/-! ## Budgets -/

/-- The items a node takes. -/
def itemCount (scene : Scene Float32) (t : UiTree Float32) (id : UiNodeId) : Nat :=
  match t.lookup id with
  | none => 0
  | some node =>
    if Paints scene.viewport t id node then (if node.content.style.bordered then 2 else 1) else 0

/-- The budgets last for some nodes. -/
structure Paid (scene : Scene Float32) (t : UiTree Float32) (front : List UiNodeId) : Prop where
  clips : front.length + 1 ≤ scene.config.maxClips
  small : front.length < 2 ^ 32
  items : (front.map (itemCount scene t)).sum ≤ scene.config.maxPaintItems
  glyphs (id : UiNodeId) : id ∈ front → Shaped scene t id → scene.room.glyphs id = true

/-- There is a clip left for one node more. -/
def Roomy (scene : Scene Float32) (front : List UiNodeId) : Prop :=
  front.length + 2 ≤ scene.config.maxClips ∧ front.length + 1 < 2 ^ 32

/-- What lasted for more nodes lasted for fewer. -/
theorem Paid.of_append {scene : Scene Float32} {t : UiTree Float32} {front back : List UiNodeId}
    (h : Paid scene t (front ++ back)) : Paid scene t front := by
  obtain ⟨hclips, hsmall, hitems, hglyphs⟩ := h
  rw [List.length_append] at hclips hsmall
  rw [List.map_append, List.sum_append] at hitems
  exact ⟨by omega, by omega, by omega, fun id hid => hglyphs id (List.mem_append_left back hid)⟩

/-- One node more. -/
theorem Paid.snoc_iff {scene : Scene Float32} {t : UiTree Float32} {front : List UiNodeId}
    (h : Paid scene t front) {id : UiNodeId} :
    Paid scene t (front ++ [id]) ↔ Roomy scene front ∧
      (front.map (itemCount scene t)).sum + itemCount scene t id ≤ scene.config.maxPaintItems ∧
      (Shaped scene t id → scene.room.glyphs id = true) := by
  constructor
  · intro hall
    obtain ⟨hclips, hsmall, hitems, hglyphs⟩ := hall
    rw [List.length_append, List.length_singleton] at hclips hsmall
    rw [List.map_append, List.sum_append, List.map_singleton, List.sum_singleton] at hitems
    exact ⟨⟨hclips, hsmall⟩, hitems, hglyphs id (by simp)⟩
  · intro hall
    obtain ⟨⟨hclips, hsmall⟩, hitems, hglyph⟩ := hall
    refine ⟨?_, ?_, ?_, fun q hq => ?_⟩
    · rw [List.length_append, List.length_singleton]
      exact hclips
    · rw [List.length_append, List.length_singleton]
      exact hsmall
    · rw [List.map_append, List.sum_append, List.map_singleton, List.sum_singleton]
      exact hitems
    · rcases List.mem_append.mp hq with hq | hq
      · exact h.glyphs q hq
      · exact List.mem_singleton.mp hq ▸ hglyph

/-- The items of a node are as many as are counted for it. -/
theorem length_itemsOf {scene : Scene Float32} {t : UiTree Float32} {front : List UiNodeId}
    {p : Painter Float32} (h : Walked scene t front p) {id : UiNodeId} (hid : id ∈ front)
    (clip : ClipId) : (itemsOf scene t id clip).length = itemCount scene t id := by
  unfold itemCount
  cases hnode : t.lookup id with
  | none => simp [itemsOf, hnode]
  | some node =>
    simp only
    split
    · next hpaints =>
      obtain ⟨kind, hkind⟩ := h.painted hid hnode hpaints
      rw [itemsOf_eq hnode hpaints hkind, contentItems]
      split <;> simp [*]
    · next hnot => rw [itemsOf_of_not hnode hnot]; rfl

/-- The items so far are those of the nodes so far. -/
theorem Walked.length_items {scene : Scene Float32} {t : UiTree Float32} {front : List UiNodeId}
    {p : Painter Float32} (h : Walked scene t front p) :
    p.items.length = (front.map (itemCount scene t)).sum := by
  rw [h.items, List.length_flatten]
  congr 1
  refine List.ext_getElem (by simp) ?_
  intro i hi hi'
  rw [List.getElem_map, List.getElem_mapIdx, List.getElem_map]
  exact length_itemsOf h (List.getElem_mem _) _

/-! ## One round -/

/-- Every node asks for a clip, and the ids of the clips are 32 bits wide. -/
theorem Walked.pushClip_cases {scene : Scene Float32} {t : UiTree Float32} {front : List UiNodeId}
    {p : Painter Float32} (h : Walked scene t front p) (rect : UiRect Float32) :
    (Roomy scene front ∧ ∃ clip, p.pushClip scene.config rect =
        .ok (clip, { p with clips := p.clips ++ [⟨clip, rect⟩] })) ∨
      (¬ Roomy scene front ∧ ∃ e, UiError.Budget e ∧ p.pushClip scene.config rect = .error e) := by
  have hlen : p.clips.length = front.length + 1 := by simp [h.clips]
  unfold Painter.pushClip Roomy failIf
  rw [hlen]
  by_cases hmax : scene.config.maxClips ≤ front.length + 1
  · rw [if_pos hmax]
    exact .inr ⟨by omega, _, .inl rfl, rfl⟩
  · rw [if_neg hmax]
    by_cases hsmall : front.length + 1 < 2 ^ 32
    · have hindex : u32TryFrom (front.length + 1) = some (.ofNat (front.length + 1)) :=
        if_pos hsmall
      rw [hindex]
      exact .inl ⟨⟨by omega, hsmall⟩, _, rfl⟩
    · have hindex : u32TryFrom (front.length + 1) = none := if_neg hsmall
      rw [hindex]
      exact .inr ⟨by omega, _, .inr (.inr rfl), rfl⟩

/-- `paint_content` needs room for the node's items. -/
theorem Painter.paintContent_cases {scene : Scene Float32} {p : Painter Float32} {id : UiNodeId}
    {content : UiNodeContent Float32} {rect : UiRect Float32} {clip : ClipId}
    {kind : PaintKind Float32} (hkind : paintKind scene id content rect = .ok kind) :
    (p.items.length + (if content.style.bordered then 2 else 1) ≤ scene.config.maxPaintItems ∧
        ∃ p', p.paintContent scene id content rect clip = .ok p') ∨
      (¬ p.items.length + (if content.style.bordered then 2 else 1) ≤ scene.config.maxPaintItems ∧
        p.paintContent scene id content rect clip = .error .capacityExceeded) := by
  unfold Painter.paintContent
  simp only [hkind, UiTree.ok_bind, Painter.pushItem, failIf]
  by_cases hfirst : scene.config.maxPaintItems ≤ p.items.length
  · rw [if_pos hfirst]
    refine .inr ⟨?_, rfl⟩
    split <;> omega
  · rw [if_neg hfirst]
    simp only [UiTree.ok_bind]
    split
    · rw [List.length_append, List.length_singleton]
      by_cases hsecond : scene.config.maxPaintItems ≤ p.items.length + 1
      · rw [if_pos hsecond]
        exact .inr ⟨by omega, rfl⟩
      · rw [if_neg hsecond]
        exact .inl ⟨by omega, _, rfl⟩
    · exact .inl ⟨by omega, _, rfl⟩

/-- **A round of the walk** paints the node, or stumbles over it, or runs out of a budget. -/
theorem Walked.paintNode_cases {scene : Scene Float32} {t : UiTree Float32} (hs : t.Shape)
    (hsane : t.sane = true) (hlegible : legible scene t = true) {front : List UiNodeId}
    {p : Painter Float32} (h : Walked scene t front p) (hpaid : Paid scene t front)
    {id : UiNodeId} {node : UiNode Float32} (hnode : t.lookup id = some node)
    (hfront : ∀ q, node.parent = some q → q ∈ front) :
    (∃ p', p.paintNode scene t id = .ok p' ∧ ¬ Narrow scene t id ∧ Paid scene t (front ++ [id])) ∨
      (Narrow scene t id ∧ Roomy scene front ∧ p.paintNode scene t id = .error .invalidValue) ∨
      (∃ e, UiError.Budget e ∧ p.paintNode scene t id = .error e ∧
        ¬ (Narrow scene t id ∧ Roomy scene front) ∧ ¬ Paid scene t (front ++ [id])) := by
  have hfinite := UiTree.width_finite hsane hnode
  have hnarrow : Narrow scene t id ↔ Shaped scene t id ∧ node.rect.width < 8 := by
    simp [Narrow, hnode]
  have hshaped : Shaped scene t id ↔ Paints scene.viewport t id node ∧
      shapesText scene.resources node.content = true := by
    simp [Shaped, hnode]
  rw [h.paintNode_eq hs hnode hfront, hpaid.snoc_iff]
  -- The clip comes first, also for a node that is not painted.
  rcases h.pushClip_cases (t.clipOf scene.viewport id) with
    ⟨hroomy, clip, hcall⟩ | ⟨hspent, e, hbudget, hcall⟩ <;> rw [hcall]
  · simp only [UiTree.ok_bind]
    -- A node outside its clip takes a clip and nothing else.
    by_cases hpaints : Paints scene.viewport t id node
    · rw [if_pos hpaints]
      have hcount : itemCount scene t id = if node.content.style.bordered then 2 else 1 := by
        simp [itemCount, hnode, hpaints]
      rcases paintKind_cases hlegible hnode hfinite with
        ⟨hshapes, hwidth, hkind⟩ | ⟨hshapes, hwidth, hroom, hkind⟩ | ⟨hfits, kind, hkind⟩
      · refine .inr (.inl ⟨hnarrow.mpr ⟨hshaped.mpr ⟨hpaints, hshapes⟩, hwidth⟩, hroomy, ?_⟩)
        rw [Painter.paintContent, hkind]
        rfl
      · refine .inr (.inr ⟨_, .inr (.inl rfl), ?_, fun hboth => ?_, fun hall => ?_⟩)
        · rw [Painter.paintContent, hkind]
          rfl
        · exact hwidth (hnarrow.mp hboth.1).2
        · have hfound := hall.2.2 (hshaped.mpr ⟨hpaints, hshapes⟩)
          exact absurd (hroom.symm.trans hfound) (by simp)
      · have hwide : ¬ Narrow scene t id := fun hn =>
          (hfits (hshaped.mp (hnarrow.mp hn).1).2).1 (hnarrow.mp hn).2
        rw [hcount, ← h.length_items]
        have hpaint := @Painter.paintContent_cases scene
          { p with
            clips := p.clips ++ [⟨clip, t.clipOf scene.viewport id⟩]
            nodeClips := p.nodeClips ++ [(id, clip)] }
          id node.content node.rect clip kind hkind
        rcases hpaint with ⟨hroom, p', hpaint⟩ | ⟨hfull, hpaint⟩
        · exact .inl ⟨p', hpaint, hwide, hroomy, hroom, fun hshape =>
            (hfits (hshaped.mp hshape).2).2⟩
        · exact .inr (.inr ⟨_, .inl rfl, hpaint, fun hboth => hwide hboth.1, fun hall =>
            hfull hall.2.1⟩)
    · rw [if_neg hpaints]
      have hcount : itemCount scene t id = 0 := by simp [itemCount, hnode, hpaints]
      have hnot : ¬ Shaped scene t id := fun hshape => hpaints (hshaped.mp hshape).1
      rw [hcount]
      exact .inl ⟨_, rfl, fun hn => hnot (hnarrow.mp hn).1, hroomy, hpaid.items, fun hshape =>
        absurd hshape hnot⟩
  · exact .inr (.inr ⟨e, hbudget, rfl, fun hboth => hspent hboth.2, fun hall => hspent hall.1⟩)

/-! ## The walk -/

/-- The walk, with some nodes behind it, stumbles over a narrow text among the rest. -/
def StumblesFrom (scene : Scene Float32) (t : UiTree Float32) (front rest : List UiNodeId) : Prop :=
  ∃ mid id back, rest = mid ++ id :: back ∧ Narrow scene t id ∧ Paid scene t (front ++ mid) ∧
    Roomy scene (front ++ mid)

/-- At the next node, or at a later one. -/
theorem stumblesFrom_cons {scene : Scene Float32} {t : UiTree Float32} {front rest : List UiNodeId}
    {id : UiNodeId} :
    StumblesFrom scene t front (id :: rest) ↔
      (Narrow scene t id ∧ Paid scene t front ∧ Roomy scene front) ∨
        StumblesFrom scene t (front ++ [id]) rest := by
  constructor
  · intro hex
    obtain ⟨mid, q, back, hsplit, hnarrow, hpaid, hroomy⟩ := hex
    cases mid with
    | nil =>
      obtain ⟨rfl, -⟩ := List.cons.inj hsplit
      rw [List.append_nil] at hpaid hroomy
      exact .inl ⟨hnarrow, hpaid, hroomy⟩
    | cons x mid =>
      obtain ⟨rfl, rfl⟩ := List.cons.inj hsplit
      refine .inr ⟨mid, q, back, rfl, hnarrow, ?_, ?_⟩
      · rwa [List.append_assoc, List.singleton_append]
      · rwa [List.append_assoc, List.singleton_append]
  · rintro (⟨hnarrow, hpaid, hroomy⟩ | ⟨mid, q, back, rfl, hnarrow, hpaid, hroomy⟩)
    · exact ⟨[], id, rest, rfl, hnarrow, by rwa [List.append_nil], by rwa [List.append_nil]⟩
    · rw [List.append_assoc, List.singleton_append] at hpaid hroomy
      exact ⟨id :: mid, q, back, rfl, hnarrow, hpaid, hroomy⟩

/-- **The walk** paints the nodes, or stumbles, or runs out of a budget. -/
theorem Walked.paintNodes_cases {scene : Scene Float32} {t : UiTree Float32} (hs : t.Shape)
    (hsane : t.sane = true) (hlegible : legible scene t = true) {order front rest : List UiNodeId}
    {p : Painter Float32} (horder : Preorder t.links t.root order) (hsplit : order = front ++ rest)
    (h : Walked scene t front p) (hpaid : Paid scene t front) :
    (∃ p', Painter.paintNodes scene t rest p = .ok p' ∧ ¬ StumblesFrom scene t front rest) ∨
      (StumblesFrom scene t front rest ∧
        Painter.paintNodes scene t rest p = .error .invalidValue) ∨
      (∃ e, UiError.Budget e ∧ Painter.paintNodes scene t rest p = .error e ∧
        ¬ StumblesFrom scene t front rest) := by
  -- On the nodes still to be painted. The three outcomes of one round are the three of the walk: go
  -- on, stumble here, or run out here.
  induction rest generalizing front p with
  | nil =>
    refine .inl ⟨p, rfl, ?_⟩
    intro hex
    obtain ⟨mid, id, back, hnil, -⟩ := hex
    exact absurd hnil (by simp)
  | cons id rest ih =>
    obtain ⟨node, hnode, -, hfront⟩ := hs.parent_before horder hsplit
    rw [stumblesFrom_cons]
    simp only [Painter.paintNodes]
    rcases h.paintNode_cases hs hsane hlegible hpaid hnode hfront with
      ⟨p', hcall, hwide, hpaid'⟩ | ⟨hnarrow, hroomy, hcall⟩ | ⟨e, hbudget, hcall, hwide, hspent⟩
    · have hstep := h.step hs hnode hfront hcall
      have hskip : (Narrow scene t id ∧ Paid scene t front ∧ Roomy scene front) ∨
          StumblesFrom scene t (front ++ [id]) rest ↔ StumblesFrom scene t (front ++ [id]) rest :=
        ⟨fun hor => hor.resolve_left fun hn => hwide hn.1, .inr⟩
      rw [hcall, hskip]
      exact ih (by rw [hsplit, List.append_assoc, List.singleton_append]) hstep hpaid'
    · rw [hcall]
      exact .inr (.inl ⟨.inl ⟨hnarrow, hpaid, hroomy⟩, rfl⟩)
    · rw [hcall]
      refine .inr (.inr ⟨e, hbudget, rfl, ?_⟩)
      rintro (⟨hnarrow, -, hroomy⟩ | ⟨mid, q, back, -, -, hpaid', -⟩)
      · exact hwide ⟨hnarrow, hroomy⟩
      · exact hspent hpaid'.of_append

/-! ## The end of a build

Batches and their counts are formed from what was painted. Each step fails with a spent budget or
not at all, and that is closed under doing one step after the other (`budget_bind`).
-/

/-- An index that does not fit is a budget spent. -/
theorem orOverflow_cases {α : Type} (o : Option α) :
    (∃ a, orOverflow o = .ok a) ∨ orOverflow o = .error .indexOverflow := by
  cases o with
  | none => exact .inr rfl
  | some a => exact .inl ⟨a, rfl⟩

/-- A step that fails with a budget only, before others that do. -/
theorem budget_bind {α β : Type} {x : Except UiError α} {f : α → Except UiError β}
    (hx : ∀ e, x = .error e → UiError.Budget e)
    (hf : ∀ a, x = .ok a → ∀ e, f a = .error e → UiError.Budget e) :
    ∀ e, x >>= f = .error e → UiError.Budget e := by
  cases x with
  | error e =>
    intro e' h
    rw [UiTree.error_bind] at h
    exact Except.error.inj h ▸ hx e rfl
  | ok a => exact hf a rfl

theorem budget_orOverflow {α : Type} (o : Option α) :
    ∀ e, orOverflow o = .error e → UiError.Budget e := by
  intro e h
  rcases orOverflow_cases o with ⟨a, ha⟩ | hnone
  · rw [ha] at h
    cases h
  · exact .inr (.inr (Except.error.inj (hnone.symm.trans h)).symm)

/-- A new batch may find no memory or one too many, and an old one grows. -/
theorem budget_pushBatch {config : UiConfig} {batches : List UiBatch} {index : Nat}
    {item : PaintItem Float32} :
    ∀ e, pushBatch config batches index item = .error e → UiError.Budget e := by
  have hopen (key : UiBatchKey) (i : UInt32) (e : UiError)
      (h : openBatch config batches key i = .error e) : UiError.Budget e := by
    unfold openBatch at h
    split at h
    · exact .inl (Except.error.inj h).symm
    · cases h
  refine budget_bind (budget_orOverflow _) ?_
  intro i _ e h
  split at h
  · exact hopen _ _ e h
  · split at h
    · cases h
    · exact hopen _ _ e h

theorem budget_buildBatches {config : UiConfig} {items : List (PaintItem Float32)} {index : Nat}
    {batches : List UiBatch} :
    ∀ e, buildBatches config index items batches = .error e → UiError.Budget e := by
  induction items generalizing index batches with
  | nil => exact fun e h => by cases h
  | cons item items ih => exact budget_bind budget_pushBatch fun next _ => ih

/-- What is left after the walk fails with a budget only. -/
theorem budget_finishBuild (list : UiPaintList Float32) :
    ∀ e, list.finishBuild = .error e → UiError.Budget e := by
  refine budget_bind budget_buildBatches ?_
  intro batches _
  refine budget_bind (budget_orOverflow _) ?_
  intro glyphs _
  refine budget_bind (budget_orOverflow _) ?_
  intro itemCount _
  refine budget_bind (budget_orOverflow _) ?_
  intro batchCount _
  refine budget_bind (budget_orOverflow _) ?_
  intro glyphCount _
  refine budget_bind (budget_orOverflow _) ?_
  intro uploadBytes _ e h
  split at h
  · exact .inl (Except.error.inj h).symm
  · cases h

/-! ## The frame -/

/-- **The walk stumbles** over a narrow text: one that the budgets let it reach. -/
def Stumbles (scene : Scene Float32) (t : UiTree Float32) : Prop :=
  ∃ order front id back, t.preorder scene.room.tree = .ok order ∧ order = front ++ id :: back ∧
    Narrow scene t id ∧ Paid scene t front ∧ Roomy scene front

/-- With no clips at all the frame fails before the first node. -/
theorem Painter.start_cases (scene : Scene Float32) (t : UiTree Float32) :
    (∃ p, Painter.start scene = .ok p ∧ Paid scene t []) ∨
      (Painter.start scene = .error .capacityExceeded ∧ ¬ Paid scene t []) := by
  unfold Painter.start Painter.pushClip failIf
  by_cases hmax : scene.config.maxClips ≤ 0
  · refine .inr ⟨by rw [List.length_nil, if_pos hmax]; rfl, ?_⟩
    intro h
    have hclips := h.clips
    rw [List.length_nil] at hclips
    omega
  · refine .inl ⟨_, by rw [List.length_nil, if_neg hmax]; rfl, ?_, Nat.two_pow_pos 32,
      Nat.zero_le _, fun id hid => absurd hid List.not_mem_nil⟩
    rw [List.length_nil]
    omega

/-- The walk from the first node. -/
theorem stumbles_iff {scene : Scene Float32} {t : UiTree Float32} {order : List UiNodeId}
    (horder : t.preorder scene.room.tree = .ok order) :
    Stumbles scene t ↔ StumblesFrom scene t [] order := by
  constructor
  · intro hex
    obtain ⟨order', front, id, back, horder', hsplit, hnarrow, hpaid, hroomy⟩ := hex
    obtain rfl := Except.ok.inj (horder.symm.trans horder')
    exact ⟨front, id, back, hsplit, hnarrow, hpaid, hroomy⟩
  · intro hex
    obtain ⟨front, id, back, hsplit, hnarrow, hpaid, hroomy⟩ := hex
    exact ⟨order, front, id, back, horder, hsplit, hnarrow, hpaid, hroomy⟩

/-- The order of a tree in shape fails for memory only. -/
theorem UiTree.Shape.preorder_error {t : UiTree Float32} (h : t.Shape) {room : Room} {f : Failure}
    (hcall : t.preorder room = .error f) : f = .err .allocationFailed := by
  obtain ⟨l, hl, -⟩ := h.tree.top
  obtain ⟨root, hroot⟩ := live_iff.mp ⟨l, hl⟩
  obtain ⟨order, hwalk, -⟩ := h.collectSubtree hroot
  unfold UiTree.preorder failIf at hcall
  split at hcall
  · exact (Except.error.inj hcall).symm
  · rw [liftM_ok, ok_bind, hwalk] at hcall
    cases hcall

/-- **Painting fails with a budget only**, on every tree a run can leave, unless the walk stumbles
    over a narrow text. -/
theorem paint_fails_iff {room : Room} {config : TreeConfig} {t₀ : UiTree Float32}
    (h₀ : UiTree.tryNew room config = .ok t₀) (calls : List (TreeCall Float32))
    {scene : Scene Float32} (hsane : (runCalls t₀ calls).sane = true)
    (hlegible : legible scene (runCalls t₀ calls) = true) (hviewport : scene.viewport.sane = true) :
    ((∃ built, buildWithResources scene (runCalls t₀ calls) = .ok built) ∨
      ∃ e, UiError.Budget e ∧ buildWithResources scene (runCalls t₀ calls) = .error (.err e)) ↔
      ¬ Stumbles scene (runCalls t₀ calls) := by
  have hs := runCalls_shape h₀ calls
  generalize runCalls t₀ calls = t at *
  have hnone : ¬ scene.viewport.sane = false := by simp [hviewport]
  simp only [buildWithResources, failIf, if_neg hnone, UiTree.liftM_ok, UiTree.ok_bind]
  cases horder : t.preorder scene.room.tree with
  | error f =>
    obtain rfl := hs.preorder_error horder
    refine iff_of_true (.inr ⟨_, .inr (.inl rfl), rfl⟩) ?_
    intro hex
    obtain ⟨order, _, _, _, horder', -⟩ := hex
    exact absurd (horder.symm.trans horder') (by simp)
  | ok order =>
    have hpre := hs.preorder_ok horder
    rw [stumbles_iff horder, UiTree.ok_bind]
    -- The clip of the viewport, before the first node.
    rcases Painter.start_cases scene t with ⟨p, hstart, hpaid⟩ | ⟨hstart, hspent⟩ <;> rw [hstart]
    · rw [UiTree.liftM_ok, UiTree.ok_bind]
      rcases Walked.paintNodes_cases hs hsane hlegible hpre rfl (.start hstart) hpaid with
        ⟨q, hcall, hwide⟩ | ⟨hstumbles, hcall⟩ | ⟨e, hbudget, hcall, hwide⟩ <;> rw [hcall]
      · rw [UiTree.liftM_ok, UiTree.ok_bind]
        refine iff_of_true ?_ hwide
        have hbudget := budget_finishBuild ⟨q.clips, q.items, [], scene.config.toUiConfig⟩
        generalize UiPaintList.finishBuild ⟨q.clips, q.items, [], scene.config.toUiConfig⟩ = built
          at hbudget ⊢
        cases built with
        | ok built => exact .inl ⟨built, rfl⟩
        | error e => exact .inr ⟨e, hbudget e rfl, rfl⟩
      · refine iff_of_false ?_ (not_not_intro hstumbles)
        rintro (⟨built, hok⟩ | ⟨e, hbudget, herror⟩)
        · cases hok
        · obtain rfl := Failure.err.inj (Except.error.inj herror)
          rcases hbudget with h | h | h <;> cases h
      · exact iff_of_true (.inr ⟨e, hbudget, rfl⟩) hwide
    · refine iff_of_true (.inr ⟨_, .inl rfl, rfl⟩) ?_
      intro hex
      obtain ⟨mid, id, back, -, -, hpaid, -⟩ := hex
      have hfront : Paid scene t ([] ++ mid) := hpaid
      exact hspent hfront.of_append

/-- A text, four pixels wide. -/
def slimText : List (TreeCall Float32) :=
  [.create .ample ⟨0, 1⟩ { UiNodeContent.new .text with text := some ⟨"ab"⟩ },
    .setRect ⟨0, 1⟩ ⟨0, 0, 320, 200⟩, .setRect ⟨1, 1⟩ ⟨0, 0, 4, 20⟩]

/-- The tree of the text is sane, no budget is spent, and the frame fails with another error. -/
theorem slimText_build {t₀ : UiTree Float32} (h₀ : UiTree.tryNew .ample ⟨4, 4, 16⟩ = .ok t₀) :
    (runCalls t₀ slimText).sane = true ∧ legible smallScene (runCalls t₀ slimText) = true ∧
      buildWithResources smallScene (runCalls t₀ slimText) = .error (.err .invalidValue) := by
  obtain rfl := Except.ok.inj h₀
  have hfails (x : Except Failure (UiPaintList Float32 × UiUploadPlan))
      (h : (match x with | .error (.err .invalidValue) => true | _ => false) = true) :
      x = .error (.err .invalidValue) := by
    split at h
    · rfl
    · cases h
  exact ⟨by decide +kernel, by decide +kernel, hfails _ (by decide +kernel)⟩

/-- **One narrow node drops the frame**: everything is sane, no budget is spent, and the build fails
    with another error. -/
theorem slim_text_drops_frame : ∃ t₀ : UiTree Float32, UiTree.tryNew .ample ⟨4, 4, 16⟩ = .ok t₀ ∧
    (runCalls t₀ slimText).sane = true ∧ legible smallScene (runCalls t₀ slimText) = true ∧
      smallScene.viewport.sane = true ∧
      buildWithResources smallScene (runCalls t₀ slimText) = .error (.err .invalidValue) := by
  obtain ⟨t₀, h₀⟩ : ∃ t₀ : UiTree Float32, UiTree.tryNew .ample ⟨4, 4, 16⟩ = .ok t₀ := ⟨_, rfl⟩
  obtain ⟨hsane, hlegible, hbuild⟩ := slimText_build h₀
  exact ⟨t₀, h₀, hsane, hlegible, by decide +kernel, hbuild⟩

/-- The same text eight pixels wide, a column for each of its glyphs. -/
def columnText : List (TreeCall Float32) :=
  [.create .ample ⟨0, 1⟩ { UiNodeContent.new .text with text := some ⟨"ab"⟩ },
    .setRect ⟨0, 1⟩ ⟨0, 0, 320, 200⟩, .setRect ⟨1, 1⟩ ⟨0, 0, 8, 40⟩]

/-- The walk stumbles over the text four pixels wide, and not over the one of eight. -/
theorem paint_fails_small : ∃ t₀ : UiTree Float32, UiTree.tryNew .ample ⟨4, 4, 16⟩ = .ok t₀ ∧
    Stumbles smallScene (runCalls t₀ slimText) ∧
      ¬ Stumbles smallScene (runCalls t₀ columnText) := by
  obtain ⟨t₀, h₀⟩ : ∃ t₀ : UiTree Float32, UiTree.tryNew .ample ⟨4, 4, 16⟩ = .ok t₀ := ⟨_, rfl⟩
  obtain ⟨hsane, hlegible, hbuild⟩ := slimText_build h₀
  have hcolumn : (runCalls t₀ columnText).sane = true ∧
      legible smallScene (runCalls t₀ columnText) = true ∧
      (buildWithResources smallScene (runCalls t₀ columnText)).toOption.any
        (fun _ => true) = true := by
    obtain rfl := Except.ok.inj h₀
    decide +kernel
  obtain ⟨hsane', hlegible', hbuilt⟩ := hcolumn
  obtain ⟨built, hbuilt, -⟩ := ok_of_any hbuilt
  have hslim := paint_fails_iff h₀ slimText hsane hlegible (by decide +kernel)
  have hwide := paint_fails_iff h₀ columnText hsane' hlegible' (by decide +kernel)
  refine ⟨t₀, h₀, ?_, hwide.mp (.inl ⟨built, hbuilt⟩)⟩
  by_contra hclear
  rcases hslim.mpr hclear with ⟨_, hok⟩ | ⟨e, hbudget, herror⟩
  · cases hbuild.symm.trans hok
  · cases hbuild.symm.trans herror
    rcases hbudget with h | h | h <;> cases h

end Ui
end EngineKit
