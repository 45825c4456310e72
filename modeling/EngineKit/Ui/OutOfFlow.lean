import EngineKit.Ui.Siblings

/-!
# Children out of flow

An absolute child is placed at its own coordinates, but layout counts it with the others: in the
number of siblings that share what is left, in the running offset of what comes after it, and in
what the parent is measured to need. This compares two layouts of trees that agree on a node and on
its flow children and have any absolute children there (`SameFlow`). The rectangles of the flow
children are the same exactly if those three leave every one of them its size and its start
(`out_of_flow_iff`): inside the same box, its size and the room of what floats before it
(`samePlace_iff`).

The two layouts are solved one at a time (`Boxed.flow_place`): a flow child starts where its box
starts, moved by the absolute children before it and by the flow children before it. Of these three
the last is a sum over the flow children alone, which the two trees have in common; so if their
rectangles agree up to some child, the next one agrees exactly if box and absolute children move it
alike. The condition speaks of each child by itself, and that needs no induction over them: both
directions read the sum off rectangles that are assumed or shown equal in extent.
-/

set_option autoImplicit false

namespace EngineKit
namespace Ui

open Lib

variable {F : Type}

def UiDirection.cross : UiDirection → UiDirection
  | .row => .column
  | .column => .row

/-- A rectangle is its two starts and its two extents. -/
theorem UiRect.eq_of_along {a b : UiRect F} (d : UiDirection)
    (hextent : ∀ e, a.extent e = b.extent e) (hstart : a.start d = b.start d)
    (hcross : a.start d.cross = b.start d.cross) : a = b := by
  have hwidth : a.width = b.width := hextent .row
  have hheight : a.height = b.height := hextent .column
  obtain ⟨x, y, w, h⟩ := a
  obtain ⟨x', y', w', h'⟩ := b
  obtain rfl : w = w' := hwidth
  obtain rfl : h = h' := hheight
  cases d with
  | row =>
    obtain rfl : x = x' := hstart
    obtain rfl : y = y' := hcross
    rfl
  | column =>
    obtain rfl : y = y' := hstart
    obtain rfl : x = x' := hcross
    rfl

/-- An offset moves a flow child along the main axis, and not across. -/
theorem cross_childRect {parent style : UiStyle ℚ} (h : style.position.isFlow = true)
    (inner : UiRect ℚ) (offset offset' main cross : ℚ) :
    (childRect parent style inner offset main cross).start parent.direction.cross =
      (childRect parent style inner offset' main cross).start parent.direction.cross := by
  unfold childRect
  cases hposition : style.position with
  | absolute left top =>
    rw [hposition] at h
    cases h
  | flow =>
    unfold flowRect startRect
    cases parent.direction <;> cases parent.align <;> cases parent.overflow <;> rfl

/-- Where a child starts across is settled by its size there. -/
theorem cross_childRect_congr {parent style : UiStyle ℚ} (h : style.position.isFlow = true)
    {inner : UiRect ℚ} {offset main main' cross cross' : ℚ}
    (hextent : (childRect parent style inner offset main' cross').extent parent.direction.cross =
      (childRect parent style inner offset main cross).extent parent.direction.cross) :
    (childRect parent style inner offset main' cross').start parent.direction.cross =
      (childRect parent style inner offset main cross).start parent.direction.cross := by
  unfold childRect at hextent ⊢
  cases hposition : style.position with
  | absolute left top =>
    rw [hposition] at h
    cases h
  | flow =>
    rw [hposition] at hextent
    unfold flowRect startRect at hextent ⊢
    cases hdirection : parent.direction <;> cases halign : parent.align <;>
      cases hoverflow : parent.overflow <;>
      simp_all [UiDirection.pick, UiDirection.cross, UiRect.start, UiRect.extent, alignOffset]

/-- No clamp has its bounds the wrong way round, the arithmetic read exactly. -/
theorem clampSize_ok (size least most : ℚ) {available : ℚ} (h : 0 ≤ available) :
    ∃ clamped, clampSize size least most available = .ok clamped := by
  unfold clampSize clamp
  simp only [max_rat, min_rat, zero_rat, if_pos (le_max_right _ _), bind, Except.bind, if_pos h]
  exact ⟨_, rfl⟩

/-- So the sizes of a child can always be worked out. -/
theorem childSizes_ok (parent style : UiStyle ℚ) (rect intrinsic : UiRect ℚ) (siblings : Nat) :
    ∃ sizes, childSizes parent style (innerRect parent rect) intrinsic siblings = .ok sizes := by
  have hwidth : 0 ≤ (innerRect parent rect).width := le_max_right _ _
  have hheight : 0 ≤ (innerRect parent rect).height := le_max_right _ _
  have hmain : 0 ≤ parent.direction.pick (innerRect parent rect).width
      (innerRect parent rect).height := by
    cases parent.direction
    · exact hwidth
    · exact hheight
  have hcross : 0 ≤ parent.direction.pick (innerRect parent rect).height
      (innerRect parent rect).width := by
    cases parent.direction
    · exact hheight
    · exact hwidth
  unfold childSizes
  obtain ⟨main, hmain⟩ := clampSize_ok _ _ _ hmain
  obtain ⟨cross, hcross⟩ := clampSize_ok _ _ _ hcross
  exact ⟨(main, cross), bind_eq_ok.mpr ⟨main, hmain, bind_eq_ok.mpr ⟨cross, hcross, rfl⟩⟩⟩

namespace UiTree

/-- The flow children of a node, in order. -/
def flowOf (t : UiTree F) (p : UiNodeId) : List UiNodeId :=
  match t.children p with
  | .ok children => children.filter t.inFlow
  | .error _ => []

/-- Two trees that agree on a node and on its flow children. -/
structure SameFlow (t u : UiTree F) (p : UiNodeId) (parent : UiNodeContent F) : Prop where
  here : t.content p = .ok parent
  there : u.content p = .ok parent
  flow : u.flowOf p = t.flowOf p
  contents (c : UiNodeId) : c ∈ t.flowOf p → u.content c = t.content c

/-- The flow children have the same rectangles. -/
def SameFlowRects (t u : UiTree F) (p : UiNodeId) : Prop := ∀ c ∈ t.flowOf p, u.rect c = t.rect c

/-- The children of a node before one of them. -/
def childrenBefore (t : UiTree F) (p id : UiNodeId) : List UiNodeId :=
  match t.children p with
  | .ok children => children.take (children.idxOf id)
  | .error _ => []

/-- The box a child would have with no sibling before it, among as many as there are. -/
def firstBox (viewport : UiRect ℚ) (intrinsic : Intrinsic ℚ) (t : UiTree ℚ) (p : UiNodeId)
    (style : UiStyle ℚ) (id : UiNodeId) : UiRect ℚ :=
  match t.children p with
  | .ok children => t.childAt intrinsic style (innerRect style (t.boxOf viewport intrinsic p))
      children.length 0 id
  | .error _ => .zero

/-- What the children out of flow before another child take up, with their gaps. -/
def floatRoom (viewport : UiRect ℚ) (intrinsic : Intrinsic ℚ) (t : UiTree ℚ) (p : UiNodeId)
    (style : UiStyle ℚ) (id : UiNodeId) : ℚ :=
  (((t.childrenBefore p id).filter fun k => !t.inFlow k).map fun k =>
    (t.boxOf viewport intrinsic k).extent style.direction + style.gap).sum

/-- A flow child has the same place in two trees: the same size in the parent's box, the same start
    across, and along it the same start when the room of what floats before it is added. -/
structure SamePlace (viewport : UiRect ℚ) (intrinsic intrinsic' : Intrinsic ℚ) (t u : UiTree ℚ)
    (p : UiNodeId) (style : UiStyle ℚ) (id : UiNodeId) : Prop where
  size (d : UiDirection) : (u.firstBox viewport intrinsic' p style id).extent d =
    (t.firstBox viewport intrinsic p style id).extent d
  across : (u.firstBox viewport intrinsic' p style id).start style.direction.cross =
    (t.firstBox viewport intrinsic p style id).start style.direction.cross
  along : (u.firstBox viewport intrinsic' p style id).start style.direction +
      u.floatRoom viewport intrinsic' p style id =
    (t.firstBox viewport intrinsic p style id).start style.direction +
      t.floatRoom viewport intrinsic p style id

/-- Every flow child of the node has the same place in both trees. -/
def FloatsIgnored (engine : LayoutConfig ℚ) (memory memory' : Room) (viewport : UiRect ℚ)
    (t u : UiTree ℚ) (p : UiNodeId) (style : UiStyle ℚ) : Prop :=
  ∀ order intrinsic order' intrinsic',
    t.layoutChecks engine memory viewport = .ok (order, intrinsic) →
      u.layoutChecks engine memory' viewport = .ok (order', intrinsic') →
        ∀ c ∈ t.flowOf p, SamePlace viewport intrinsic intrinsic' t u p style c

/-! ## One layout

Boxes are taken without the siblings before a child, but with the number of all its siblings, since
that number decides how what is left is shared.
-/

/-- What of a filtered list is before an element, filtered or cut first. -/
theorem filter_take_idxOf {test : UiNodeId → Bool} {xs : List UiNodeId} {c : UiNodeId}
    (h : c ∈ xs.filter test) :
    (xs.take (xs.idxOf c)).filter test =
      (xs.filter test).take ((xs.filter test).idxOf c) := by
  obtain ⟨hmem, htest⟩ := List.mem_filter.mp h
  obtain ⟨before, after, rfl, hnot⟩ := List.eq_append_cons_of_mem hmem
  have hnot' : c ∉ before.filter test := fun hin => hnot (List.mem_of_mem_filter hin)
  rw [take_idxOf hnot, List.filter_append, List.filter_cons_of_pos htest, take_idxOf hnot']

/-- A sum over those that pass a test and those that do not. -/
theorem sum_filter_add {α : Type} (test : α → Bool) (f : α → ℚ) (xs : List α) :
    (xs.map f).sum = ((xs.filter test).map f).sum + ((xs.filter fun x => !test x).map f).sum := by
  induction xs with
  | nil => simp
  | cons x xs ih =>
    rw [List.map_cons, List.sum_cons, ih]
    cases htest : test x with
    | true => simp [htest, add_assoc]
    | false => simp [htest, add_left_comm]

theorem above_of_flowOf {t : UiTree F} {p c : UiNodeId} (h : c ∈ t.flowOf p) :
    ∃ parent, t.lookup p = some parent ∧ c ∈ parent.children.filter t.inFlow := by
  unfold flowOf at h
  cases hparent : t.lookup p with
  | none =>
    rw [UiTree.children, node_eq_error hparent] at h
    cases h
  | some parent =>
    rw [children_eq hparent] at h
    exact ⟨parent, rfl, h⟩

theorem Relaid.inFlow {t t' : UiTree F} (h : t.Relaid t') : t'.inFlow = t.inFlow := by
  funext id
  unfold UiTree.inFlow
  rw [h.content]

/-- Layout does not change who is in flow. -/
theorem Relaid.flowOf {t t' : UiTree F} (h : t.Relaid t') (p : UiNodeId) :
    t'.flowOf p = t.flowOf p := by
  have hchildren : t'.children p = t.children p := by
    rw [children_of_links, h.links, children_of_links]
  unfold UiTree.flowOf
  rw [hchildren, h.inFlow]

/-- What the flow children before another child take up. -/
def flowRoom (t : UiTree ℚ) (p : UiNodeId) (style : UiStyle ℚ) (id : UiNodeId) : ℚ :=
  t.taken style ((t.flowOf p).take ((t.flowOf p).idxOf id))

/-- The flow children before one of them are those of its earlier siblings that are in flow. -/
theorem Sits.flowRoom_eq {t : UiTree ℚ} {p c : UiNodeId} {node above : UiNode ℚ}
    {before after : List UiNodeId} (h : t.Sits c node p above before after) (hflow : t.inFlow c)
    (style : UiStyle ℚ) : t.flowRoom p style c = t.taken style (before.filter t.inFlow) := by
  have hlisted : c ∈ above.children := by simp [h.listed]
  have htake := filter_take_idxOf (List.mem_filter.mpr ⟨hlisted, hflow⟩)
  rw [h.listed, take_idxOf h.notMem, ← h.listed] at htake
  rw [flowRoom, flowOf, children_eq h.above, htake]

/-- The children out of flow before another child take up what their boxes say. -/
theorem Boxed.floatRoom_eq {t t' : UiTree ℚ} {viewport : UiRect ℚ} {intrinsic : Intrinsic ℚ}
    (h : t.Boxed t' viewport intrinsic) {p c : UiNodeId} {node above : UiNode ℚ}
    {before after : List UiNodeId} (hsits : t'.Sits c node p above before after)
    (hlive : ∀ y ∈ before, ∃ node, t'.lookup y = some node) (style : UiStyle ℚ) :
    t.floatRoom viewport intrinsic p style c =
      t'.taken style (before.filter fun k => !t'.inFlow k) := by
  have hchildren : t.childrenBefore p c = before := by
    rw [childrenBefore, ← h.toRelaid.children, children_eq hsits.above]
    simp only [hsits.listed]
    exact take_idxOf hsits.notMem
  rw [floatRoom, hchildren, ← h.toRelaid.inFlow, taken]
  refine congrArg List.sum (List.map_congr_left fun k hk => ?_)
  obtain ⟨sibling, hsibling⟩ := hlive k (List.mem_of_mem_filter hk)
  rw [extentOf, rect_eq hsibling, h.boxes hsibling]

/-- **The place of a flow child**: its box with nothing before it, moved by what floats before it
    and by the flow children before it. -/
theorem Boxed.flow_place {t t' : UiTree ℚ} (hs : t.Shape) {viewport : UiRect ℚ}
    {intrinsic : Intrinsic ℚ} (h : t.Boxed t' viewport intrinsic) {p c : UiNodeId}
    {parent : UiNodeContent ℚ} (hparent : t.content p = .ok parent) (hc : c ∈ t.flowOf p) :
    ∃ rect, t'.rect c = .ok rect ∧
      (∀ d, rect.extent d = (t.firstBox viewport intrinsic p parent.style c).extent d) ∧
      rect.start parent.style.direction.cross =
        (t.firstBox viewport intrinsic p parent.style c).start parent.style.direction.cross ∧
      rect.start parent.style.direction =
        (t.firstBox viewport intrinsic p parent.style c).start parent.style.direction +
          t.floatRoom viewport intrinsic p parent.style c + t'.flowRoom p parent.style c := by
  have hs' := h.toKept.shape hs
  rw [← h.toRelaid.flowOf] at hc
  obtain ⟨above, habove, hmem⟩ := above_of_flowOf hc
  obtain ⟨hlisted, hflow⟩ := List.mem_filter.mp hmem
  have hlink : t'.links p = some above.link := links_eq_some.mpr ⟨above, habove, rfl⟩
  obtain ⟨node, above', before, after, hsits, hbefore⟩ :=
    hs'.follows (hs'.tree.child hlink hlisted)
  obtain rfl := Option.some.inj (habove.symm.trans hsits.above)
  obtain ⟨content, hcontent, hposition⟩ := flow_of_inFlow hflow
  obtain rfl := Except.ok.inj ((content_eq hsits.live).symm.trans hcontent)
  obtain rfl : above.content = parent := by
    rw [← h.content, content_eq habove] at hparent
    exact Except.ok.inj hparent
  obtain ⟨main, cross, offset, hsizes, hoffset, hrect, -, -⟩ :=
    (h.settled (hs'.tree.child hlink hlisted)).rect_eq hsits
  have hlive (y : UiNodeId) (hy : y ∈ before) : ∃ node, t'.lookup y = some node :=
    live_iff.mp (IsTree.live_of_parent (hbefore y hy))
  rw [zero_rat, offset_eq_taken hlive] at hoffset
  obtain rfl := Except.ok.inj hoffset
  have hfirst : t.firstBox viewport intrinsic p above.content.style c =
      childRect above.content.style node.content.style
        (innerRect above.content.style above.rect) 0 main cross := by
    rw [firstBox, ← h.toRelaid.children, children_eq habove, ← h.boxes habove]
    simp only [← h.toRelaid.childAt]
    exact childAt_eq hsits.live hsizes 0
  have hfloat := h.floatRoom_eq hsits hlive above.content.style
  have hflowBefore := hsits.flowRoom_eq hflow above.content.style
  have hsum := sum_filter_add t'.inFlow
    (fun k => t'.extentOf above.content.style.direction k + above.content.style.gap) before
  refine ⟨node.rect, rect_eq hsits.live, fun d => ?_, ?_, ?_⟩
  · rw [hfirst, hrect]
    exact extent_childRect rfl rfl main cross d
  · rw [hfirst, hrect]
    exact cross_childRect hposition _ _ _ main cross
  · rw [hfirst, hrect, start_childRect hposition, start_childRect hposition, hfloat, hflowBefore]
    unfold taken
    rw [hsum]
    ring

/-! ## Two layouts -/

/-- The room of flow children, from their extents. -/
theorem flowRoom_congr {t' u' : UiTree ℚ} {p : UiNodeId} {style : UiStyle ℚ}
    (hflow : u'.flowOf p = t'.flowOf p)
    (h : ∀ c ∈ t'.flowOf p, u'.extentOf style.direction c = t'.extentOf style.direction c)
    (id : UiNodeId) : u'.flowRoom p style id = t'.flowRoom p style id := by
  unfold flowRoom taken
  rw [hflow]
  refine congrArg List.sum (List.map_congr_left fun c hc => ?_)
  rw [h c (List.mem_of_mem_take hc)]

end UiTree

/-- **When children out of flow leave the flow children alone**: two trees that runs can leave,
    laid out in the same viewport, that agree on a node and its flow children. -/
theorem out_of_flow_iff {room room' : Room} {config config' : TreeConfig} {t₀ u₀ : UiTree ℚ}
    (h₀ : UiTree.tryNew room config = .ok t₀) (h₀' : UiTree.tryNew room' config' = .ok u₀)
    (calls calls' : List (TreeCall ℚ)) {p : UiNodeId} {parent : UiNodeContent ℚ}
    (hsame : (runCalls t₀ calls).SameFlow (runCalls u₀ calls') p parent)
    (engine : LayoutConfig ℚ) (memory memory' : Room) (viewport : UiRect ℚ)
    (diagnostics diagnostics' : UiDiagnostics) {stats stats' : LayoutStats} {t' u' : UiTree ℚ}
    (h : ((runCalls t₀ calls).layout engine memory viewport diagnostics).1 = (.ok stats, t'))
    (h' : ((runCalls u₀ calls').layout engine memory' viewport diagnostics').1
      = (.ok stats', u')) :
    t'.SameFlowRects u' p ↔ UiTree.FloatsIgnored engine memory memory' viewport (runCalls t₀ calls)
      (runCalls u₀ calls') p parent.style := by
  have hs : (runCalls t₀ calls).Shape := runCalls_shape h₀ calls
  have hs' : (runCalls u₀ calls').Shape := runCalls_shape h₀' calls'
  rw [UiTree.layout_fst] at h h'
  obtain ⟨rest, intrinsic, hchecks, hboxed⟩ := UiTree.layout_boxes hs h
  obtain ⟨rest', intrinsic', hchecks', hboxed'⟩ := UiTree.layout_boxes hs' h'
  have hflow := hboxed.toRelaid.flowOf p
  have hflow' := hboxed'.toRelaid.flowOf p
  have hrooms : (∀ c ∈ (runCalls t₀ calls).flowOf p, u'.extentOf parent.style.direction c =
      t'.extentOf parent.style.direction c) → ∀ c, u'.flowRoom p parent.style c =
        t'.flowRoom p parent.style c := by
    intro hextents c
    refine UiTree.flowRoom_congr ?_ (fun c hc => hextents c (hflow ▸ hc)) c
    rw [hflow', hsame.flow, hflow]
  constructor
  · intro hrects order intrinsic₁ order' intrinsic₂ hok hok' c hc
    obtain ⟨-, rfl⟩ := Prod.mk.inj (Except.ok.inj (hchecks.symm.trans hok))
    obtain ⟨-, rfl⟩ := Prod.mk.inj (Except.ok.inj (hchecks'.symm.trans hok'))
    obtain ⟨rect, hrect, hsize, hacross, halong⟩ := hboxed.flow_place hs hsame.here hc
    obtain ⟨rect', hrect', hsize', hacross', halong'⟩ :=
      hboxed'.flow_place hs' hsame.there (hsame.flow ▸ hc)
    have hroom := hrooms (fun k hk => ?_) c
    · have hboth := hrects c (hflow ▸ hc)
      rw [hrect, hrect'] at hboth
      obtain rfl := Except.ok.inj hboth
      refine ⟨fun d => ?_, ?_, ?_⟩
      · rw [← hsize, hsize']
      · rw [← hacross, hacross']
      · rw [hroom] at halong'
        exact add_right_cancel (halong'.symm.trans halong)
    · rw [UiTree.extentOf, hrects k (hflow ▸ hk), UiTree.extentOf]
  · intro hplaces c hc
    rw [hflow] at hc
    have hplace := hplaces _ intrinsic _ intrinsic' hchecks hchecks'
    obtain ⟨rect, hrect, hsize, hacross, halong⟩ := hboxed.flow_place hs hsame.here hc
    obtain ⟨rect', hrect', hsize', hacross', halong'⟩ :=
      hboxed'.flow_place hs' hsame.there (hsame.flow ▸ hc)
    have hroom := hrooms (fun k hk => ?_) c
    · rw [hrect, hrect']
      refine congrArg Except.ok (UiRect.eq_of_along parent.style.direction (fun d => ?_) ?_ ?_)
      · rw [hsize', (hplace c hc).size, hsize]
      · rw [halong', (hplace c hc).along, hroom, halong]
      · rw [hacross', (hplace c hc).across, hacross]
    · obtain ⟨a, ha, hsizea, -⟩ := hboxed.flow_place hs hsame.here hk
      obtain ⟨b, hb, hsizeb, -⟩ := hboxed'.flow_place hs' hsame.there (hsame.flow ▸ hk)
      rw [UiTree.extentOf, hb, UiTree.extentOf, ha]
      simp only [hsizea, hsizeb, (hplace k hk).size]

/-! ## The same box

If the node itself has the same box in both trees, as it has where nothing above it differs, the
condition is about sizes and about room before a child only: where a child starts across follows
from its size.
-/

namespace UiTree

/-- The box of a flow child, from its style and the box of its parent. -/
theorem firstBox_eq {t : UiTree ℚ} {p c : UiNodeId} {content : UiNodeContent ℚ}
    (hc : c ∈ t.flowOf p) (hcontent : t.content c = .ok content) (viewport : UiRect ℚ)
    (intrinsic : Intrinsic ℚ) (style : UiStyle ℚ) :
    ∃ main cross, t.firstBox viewport intrinsic p style c = childRect style content.style
      (innerRect style (t.boxOf viewport intrinsic p)) 0 main cross := by
  obtain ⟨above, habove, -⟩ := above_of_flowOf hc
  obtain ⟨⟨main, cross⟩, hsizes⟩ := childSizes_ok style content.style
    (t.boxOf viewport intrinsic p) (intrinsicOf intrinsic c) above.children.length
  refine ⟨main, cross, ?_⟩
  rw [firstBox, children_eq habove]
  simp only [childAt, hcontent, hsizes]

/-- **In the same box** a flow child has the same place if it has the same size, and what floats
    before it takes up the same room. -/
theorem samePlace_iff {t u : UiTree ℚ} {p c : UiNodeId} {parent : UiNodeContent ℚ}
    (h : t.SameFlow u p parent) (hc : c ∈ t.flowOf p) {viewport : UiRect ℚ}
    {intrinsic intrinsic' : Intrinsic ℚ}
    (hbox : u.boxOf viewport intrinsic' p = t.boxOf viewport intrinsic p) (style : UiStyle ℚ) :
    SamePlace viewport intrinsic intrinsic' t u p style c ↔
      (∀ d, (u.firstBox viewport intrinsic' p style c).extent d =
        (t.firstBox viewport intrinsic p style c).extent d) ∧
        u.floatRoom viewport intrinsic' p style c = t.floatRoom viewport intrinsic p style c := by
  obtain ⟨above, -, hmem⟩ := above_of_flowOf hc
  obtain ⟨content, hcontent, hflow⟩ := flow_of_inFlow (List.mem_filter.mp hmem).2
  obtain ⟨main, cross, hfirst⟩ := firstBox_eq hc hcontent viewport intrinsic style
  obtain ⟨main', cross', hfirst'⟩ := firstBox_eq (h.flow ▸ hc) ((h.contents c hc).trans hcontent)
    viewport intrinsic' style
  rw [hbox] at hfirst'
  have halong : (u.firstBox viewport intrinsic' p style c).start style.direction =
      (t.firstBox viewport intrinsic p style c).start style.direction := by
    rw [hfirst, hfirst', start_childRect hflow, start_childRect hflow]
  constructor
  · intro hplace
    have hroom := hplace.along
    rw [halong] at hroom
    exact ⟨hplace.size, add_left_cancel hroom⟩
  · intro hsame
    refine ⟨hsame.1, ?_, by rw [halong, hsame.2]⟩
    have hsize := hsame.1 style.direction.cross
    rw [hfirst, hfirst'] at hsize ⊢
    exact cross_childRect_congr hflow hsize

end UiTree

/-! ## Two trees

An overlay of height 50 in front of a panel. It is out of flow, and the panel is moved by 50.
-/

/-- A panel out of flow, of this height. -/
def overlay (height : ℚ) : UiNodeContent ℚ :=
  { UiNodeContent.new .panel with
    style := { UiStyle.defaults with height := .points height, position := .absolute 0 0 } }

/-- An overlay over the panel after it. -/
def overlayFirst : List (TreeCall ℚ) :=
  [.create .ample ⟨0, 1⟩ (overlay 50), .create .ample ⟨0, 1⟩ (tall 30 0)]

/-- The same without the overlay. -/
def overlayGone : List (TreeCall ℚ) := overlayFirst ++ [.destroy .ample ⟨1, 1⟩]

/-- Taking the overlay away changes nothing of the panel. -/
theorem overlay_sameFlow {t₀ : UiTree ℚ} (h₀ : UiTree.tryNew .ample ⟨4, 4, 16⟩ = .ok t₀) :
    (runCalls t₀ overlayFirst).SameFlow (runCalls t₀ overlayGone) ⟨0, 1⟩ (.new .root) := by
  obtain rfl := Except.ok.inj h₀
  refine ⟨?_, ?_, ?_, fun c hc => ?_⟩
  · with_unfolding_all rfl
  · with_unfolding_all rfl
  · with_unfolding_all rfl
  · obtain rfl : c = ⟨2, 1⟩ := by
      refine List.mem_singleton.mp (Eq.mp (congrArg (c ∈ ·) ?_) hc)
      with_unfolding_all rfl
    with_unfolding_all rfl

/-- Both trees laid out in one viewport. -/
theorem overlay_layouts : ∃ (t₀ t' u' : UiTree ℚ) (stats stats' : LayoutStats),
    UiTree.tryNew .ample ⟨4, 4, 16⟩ = .ok t₀ ∧
      ((runCalls t₀ overlayFirst).layout ⟨16, 4096, 8, 1⟩ .ample ⟨0, 0, 320, 200⟩ ⟨0, 0⟩).1
        = (.ok stats, t') ∧
      ((runCalls t₀ overlayGone).layout ⟨16, 4096, 8, 1⟩ .ample ⟨0, 0, 320, 200⟩ ⟨0, 0⟩).1
        = (.ok stats', u') ∧
      (t'.rect ⟨2, 1⟩).toOption.any (fun rect => rect.y == 50) = true ∧
      (u'.rect ⟨2, 1⟩).toOption.any (fun rect => rect.y == 0) = true ∧
      ⟨2, 1⟩ ∈ t'.flowOf ⟨0, 1⟩ := by
  obtain ⟨t₀, h₀⟩ : ∃ t₀ : UiTree ℚ, UiTree.tryNew .ample ⟨4, 4, 16⟩ = .ok t₀ := ⟨_, rfl⟩
  obtain ⟨⟨result, t'⟩, hcall⟩ : ∃ call, ((runCalls t₀ overlayFirst).layout ⟨16, 4096, 8, 1⟩ .ample
      ⟨0, 0, 320, 200⟩ ⟨0, 0⟩).1 = call := ⟨_, rfl⟩
  obtain ⟨⟨result', u'⟩, hcall'⟩ : ∃ call, ((runCalls t₀ overlayGone).layout ⟨16, 4096, 8, 1⟩ .ample
      ⟨0, 0, 320, 200⟩ ⟨0, 0⟩).1 = call := ⟨_, rfl⟩
  have hread : (result.toOption.isSome = true ∧ result'.toOption.isSome = true) ∧
      (t'.rect ⟨2, 1⟩).toOption.any (fun rect => rect.y == 50) = true ∧
      (u'.rect ⟨2, 1⟩).toOption.any (fun rect => rect.y == 0) = true ∧
      ⟨2, 1⟩ ∈ t'.flowOf ⟨0, 1⟩ := by
    obtain rfl := Except.ok.inj h₀
    obtain rfl := congrArg Prod.fst hcall
    obtain rfl := congrArg Prod.snd hcall
    obtain rfl := congrArg Prod.fst hcall'
    obtain rfl := congrArg Prod.snd hcall'
    decide +kernel
  obtain ⟨⟨hsome, hsome'⟩, hplaces⟩ := hread
  obtain ⟨stats, hok⟩ := Option.isSome_iff_exists.mp hsome
  obtain ⟨stats', hok'⟩ := Option.isSome_iff_exists.mp hsome'
  rw [eq_ok_of_toOption hok] at hcall
  rw [eq_ok_of_toOption hok'] at hcall'
  exact ⟨t₀, t', u', stats, stats', h₀, hcall, hcall', hplaces⟩

/-- One panel, in flow in both trees, and not at the same place. -/
theorem not_sameFlowRects {t' u' : UiTree ℚ}
    (hat : (t'.rect ⟨2, 1⟩).toOption.any (fun rect => rect.y == 50) = true)
    (hat' : (u'.rect ⟨2, 1⟩).toOption.any (fun rect => rect.y == 0) = true)
    (hflow : ⟨2, 1⟩ ∈ t'.flowOf ⟨0, 1⟩) : ¬ t'.SameFlowRects u' ⟨0, 1⟩ := by
  intro hrects
  rw [hrects ⟨2, 1⟩ hflow] at hat'
  obtain ⟨rect, hrect, htest⟩ := ok_of_any hat
  rw [hrect] at hat'
  simp only [Except.toOption, Option.any_some, beq_iff_eq] at hat' htest
  rw [htest] at hat'
  norm_num at hat'

/-- **An overlay moves the panel after it**: it starts at 50 with the overlay there, and at 0
    without. -/
theorem overlay_moves_panel : ∃ (t₀ t' u' : UiTree ℚ) (stats stats' : LayoutStats),
    UiTree.tryNew .ample ⟨4, 4, 16⟩ = .ok t₀ ∧
      (runCalls t₀ overlayFirst).SameFlow (runCalls t₀ overlayGone) ⟨0, 1⟩ (.new .root) ∧
      ((runCalls t₀ overlayFirst).layout ⟨16, 4096, 8, 1⟩ .ample ⟨0, 0, 320, 200⟩ ⟨0, 0⟩).1
        = (.ok stats, t') ∧
      ((runCalls t₀ overlayGone).layout ⟨16, 4096, 8, 1⟩ .ample ⟨0, 0, 320, 200⟩ ⟨0, 0⟩).1
        = (.ok stats', u') ∧
      (t'.rect ⟨2, 1⟩).toOption.any (fun rect => rect.y == 50) = true ∧
      (u'.rect ⟨2, 1⟩).toOption.any (fun rect => rect.y == 0) = true ∧
      ¬ t'.SameFlowRects u' ⟨0, 1⟩ := by
  obtain ⟨t₀, t', u', stats, stats', h₀, hcall, hcall', hat, hat', hflow⟩ := overlay_layouts
  exact ⟨t₀, t', u', stats, stats', h₀, overlay_sameFlow h₀, hcall, hcall', hat, hat',
    not_sameFlowRects hat hat' hflow⟩

/-- The room the overlay takes up before the panel is what the two trees differ in. -/
theorem out_of_flow_overlay : ∃ (t₀ t' u' : UiTree ℚ) (stats stats' : LayoutStats),
    UiTree.tryNew .ample ⟨4, 4, 16⟩ = .ok t₀ ∧
      ((runCalls t₀ overlayFirst).layout ⟨16, 4096, 8, 1⟩ .ample ⟨0, 0, 320, 200⟩ ⟨0, 0⟩).1
        = (.ok stats, t') ∧
      ((runCalls t₀ overlayGone).layout ⟨16, 4096, 8, 1⟩ .ample ⟨0, 0, 320, 200⟩ ⟨0, 0⟩).1
        = (.ok stats', u') ∧
      ¬ UiTree.FloatsIgnored ⟨16, 4096, 8, 1⟩ .ample .ample ⟨0, 0, 320, 200⟩
        (runCalls t₀ overlayFirst) (runCalls t₀ overlayGone) ⟨0, 1⟩ UiStyle.defaults := by
  obtain ⟨t₀, t', u', stats, stats', h₀, hcall, hcall', hat, hat', hflow⟩ := overlay_layouts
  have hiff := out_of_flow_iff h₀ h₀ _ _ (overlay_sameFlow h₀) _ _ _ _ _ _ hcall hcall'
  exact ⟨t₀, t', u', stats, stats', h₀, hcall, hcall',
    fun hignored => not_sameFlowRects hat hat' hflow (hiff.mpr hignored)⟩

end Ui
end EngineKit
