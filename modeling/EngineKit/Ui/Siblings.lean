import EngineKit.Ui.Boxes
import EngineKit.Ui.Exact
import Mathlib.Algebra.Order.BigOperators.Group.List

/-!
# Flow siblings

How far apart layout puts two flow children of one node, the arithmetic read exactly. A child's
margins are taken out of its own size, and what comes after it moves by the size that is left: the
start of a later sibling counts its own leading margin, but neither margin of the earlier one. So
the two are apart as they should be exactly if the sizes of what stands between them make up for
the earlier one's margins (`flow_apart_iff`), and next to each other only if it has none.

The start of a child is a sum over all siblings before it, and the difference of two starts a sum
over those between the two. The gap and the margins of the later one are on both sides and cancel.
What is left is the earlier child's own margins: it is smaller by them, and nothing else counts
them. So the condition is about them and about what stands between, in flow or not.

For a pair with flow children between them it follows from the next one, so it is asked of that
alone.
-/

set_option autoImplicit false

namespace EngineKit
namespace Ui

open Lib

variable {F : Type}

/-- The margin in front along a direction. -/
def UiEdges.before (edges : UiEdges F) (along : UiDirection) : F := along.pick edges.left edges.top

/-- The margin behind. -/
def UiEdges.after (edges : UiEdges F) (along : UiDirection) : F :=
  along.pick edges.right edges.bottom

def UiPosition.isFlow : UiPosition F → Bool
  | .flow => true
  | .absolute _ _ => false

namespace UiTree

/-- Every live node has a sane content. -/
def saneContents [Coord F] (t : UiTree F) : Bool :=
  t.slots.all fun slot => slot.all fun node => node.content.sane

/-- Two flow children of one node, and the children between them. -/
structure FlowPair (t : UiTree F) (p i j : UiNodeId) (parent first second : UiNodeContent F)
    (mid : List UiNodeId) : Prop where
  parent : t.content p = .ok parent
  listed : ∃ before after, t.children p = .ok (before ++ i :: (mid ++ j :: after))
  first : t.content i = .ok first ∧ first.style.position.isFlow = true
  second : t.content j = .ok second ∧ second.style.position.isFlow = true

/-- A child out of flow. -/
def Floats (t : UiTree F) (id : UiNodeId) : Prop :=
  ∃ content, t.content id = .ok content ∧ content.style.position.isFlow = false

/-- Of two flow children of one node, the later starts where the earlier ends or after it, with the
    gap and the two margins that face each other between them. -/
def FlowApart (t : UiTree ℚ) : Prop :=
  ∀ p i j parent first second mid, t.FlowPair p i j parent first second mid →
    ∀ a b, t.rect i = .ok a → t.rect j = .ok b →
      let along := parent.style.direction
      a.start along + a.extent along + first.style.margin.after along + parent.style.gap +
        second.style.margin.before along ≤ b.start along

/-- The margins of a flow child before another one are no more than what stands between the two,
    all of it out of flow, takes up in its boxes and its gaps. -/
def MarginsCovered (engine : LayoutConfig ℚ) (memory : Room) (viewport : UiRect ℚ) (t : UiTree ℚ) :
    Prop :=
  ∀ order intrinsic, t.layoutChecks engine memory viewport = .ok (order, intrinsic) →
    ∀ p i j parent first second mid, t.FlowPair p i j parent first second mid →
      (∀ k ∈ mid, t.Floats k) →
        let along := parent.style.direction
        first.style.margin.before along + first.style.margin.after along ≤
          (mid.map fun k =>
            (t.boxOf viewport intrinsic k).extent along + parent.style.gap).sum

end UiTree

/-! ## Where a flow child starts -/

/-- How far a scrolling parent pulls its flow children back. -/
def UiStyle.scrolled (style : UiStyle ℚ) : ℚ :=
  if style.overflow = .scroll then style.direction.pick style.scrollX style.scrollY else 0

/-- Where a flow child's rectangle starts. -/
theorem start_childRect {parent style : UiStyle ℚ} (h : style.position.isFlow = true)
    (inner : UiRect ℚ) (offset main cross : ℚ) :
    (childRect parent style inner offset main cross).start parent.direction =
      inner.start parent.direction + offset + style.margin.before parent.direction -
        parent.scrolled := by
  unfold childRect
  cases hposition : style.position with
  | absolute left top =>
    rw [hposition] at h
    cases h
  | flow =>
    unfold flowRect startRect UiStyle.scrolled
    cases parent.direction <;> cases parent.align <;> cases parent.overflow <;>
      simp [UiDirection.pick, UiRect.start, UiEdges.before]

/-- The loop of the code is a sum. -/
theorem foldl_taken {α : Type} (extent : α → ℚ) (gap sum : ℚ) (xs : List α) :
    xs.foldl (fun sum x => sum + extent x + gap) sum =
      sum + (xs.map fun x => extent x + gap).sum := by
  induction xs generalizing sum with
  | nil => simp
  | cons x xs ih =>
    rw [List.foldl_cons, ih, List.map_cons, List.sum_cons]
    ring

namespace UiTree

/-- The size of a node along a direction. -/
def extentOf (t : UiTree ℚ) (along : UiDirection) (id : UiNodeId) : ℚ :=
  match t.rect id with
  | .error _ => 0
  | .ok rect => rect.extent along

/-- What some siblings take up, with a gap behind each. -/
def taken (t : UiTree ℚ) (style : UiStyle ℚ) (ids : List UiNodeId) : ℚ :=
  (ids.map fun id => t.extentOf style.direction id + style.gap).sum

/-- The offset of a child is what its earlier siblings take up. -/
theorem offset_eq_taken {t : UiTree ℚ} {style : UiStyle ℚ} {ids : List UiNodeId}
    (h : ∀ y ∈ ids, ∃ node, t.lookup y = some node) :
    t.offset style ids 0 = .ok (t.taken style ids) := by
  have hextent (y : UiNodeId) (hy : y ∈ ids) : ∃ rect, t.rect y = .ok rect ∧
      rect.extent style.direction = t.extentOf style.direction y := by
    obtain ⟨node, hnode⟩ := h y hy
    exact ⟨node.rect, rect_eq hnode, by rw [extentOf, rect_eq hnode]⟩
  rw [offset_eq_foldl hextent, foldl_taken, zero_add, taken]

/-- **The start of a flow child**: behind what its earlier siblings take up, and its margin. -/
theorem Settled.start_eq {t : UiTree ℚ} (hs : t.Shape) {intrinsic : Intrinsic ℚ}
    {id p : UiNodeId} {node parent : UiNode ℚ} {before after : List UiNodeId}
    (h : t.Settled intrinsic id) (hsits : t.Sits id node p parent before after)
    (hflow : node.content.style.position.isFlow = true) :
    node.rect.start parent.content.style.direction =
      (innerRect parent.content.style parent.rect).start parent.content.style.direction +
        t.taken parent.content.style before +
        node.content.style.margin.before parent.content.style.direction -
        parent.content.style.scrolled := by
  obtain ⟨main, cross, offset, -, hoffset, hrect, -, -⟩ := h.rect_eq hsits
  have hlive (y : UiNodeId) (hy : y ∈ before) : ∃ node, t.lookup y = some node := by
    have hlink : t.links p = some parent.link := links_eq_some.mpr ⟨parent, hsits.above, rfl⟩
    have hmem : y ∈ parent.children := by simp [hsits.listed, hy]
    exact live_iff.mp (IsTree.live_of_parent (hs.tree.child hlink hmem))
  rw [zero_rat, offset_eq_taken hlive] at hoffset
  rw [hrect, start_childRect hflow, Except.ok.inj hoffset]

/-- **What two flow siblings need**: the earlier one's margins, against what is between. -/
theorem apart_iff {t : UiTree ℚ} (hs : t.Shape) {intrinsic : Intrinsic ℚ} {p i j : UiNodeId}
    {parent first second : UiNode ℚ} {before mid after : List UiNodeId}
    (hparent : t.lookup p = some parent)
    (hchildren : parent.children = before ++ i :: (mid ++ j :: after))
    (hi : t.lookup i = some first) (hj : t.lookup j = some second)
    (hfirst : first.content.style.position.isFlow = true)
    (hsecond : second.content.style.position.isFlow = true)
    (hsettled : t.Settled intrinsic i ∧ t.Settled intrinsic j) {along : UiDirection}
    (halong : parent.content.style.direction = along) :
    first.rect.start along + first.rect.extent along + first.content.style.margin.after along +
        parent.content.style.gap + second.content.style.margin.before along ≤
        second.rect.start along ↔
      first.content.style.margin.before along + first.content.style.margin.after along ≤
        t.taken parent.content.style mid := by
  subst halong
  obtain ⟨_, hsits⟩ := hs.sits_of_children hparent hchildren
  obtain rfl := Option.some.inj (hi.symm.trans hsits.live)
  have hchildren' : parent.children = (before ++ i :: mid) ++ j :: after := by
    rw [hchildren, List.append_assoc, List.cons_append]
  obtain ⟨_, hsits'⟩ := hs.sits_of_children hparent hchildren'
  obtain rfl := Option.some.inj (hj.symm.trans hsits'.live)
  have hstart := hsettled.1.start_eq hs hsits hfirst
  have hstart' := hsettled.2.start_eq hs hsits' hsecond
  have hsum : t.taken parent.content.style (before ++ i :: mid) =
      t.taken parent.content.style before +
        (first.rect.extent parent.content.style.direction + parent.content.style.gap +
          t.taken parent.content.style mid) := by
    have hextent : t.extentOf parent.content.style.direction i =
        first.rect.extent parent.content.style.direction := by rw [extentOf, rect_eq hi]
    rw [taken, List.map_append, List.sum_append, List.map_cons, List.sum_cons, hextent]
    rfl
  rw [hsum] at hstart'
  rw [hstart, hstart']
  constructor
  · intro h
    linarith
  · intro h
    linarith

/-! ## Pairs -/

/-- Layout makes no pairs and breaks none. -/
theorem Relaid.flowPair {t t' : UiTree ℚ} (h : t.Relaid t') {p i j : UiNodeId}
    {parent first second : UiNodeContent ℚ} {mid : List UiNodeId} :
    t'.FlowPair p i j parent first second mid ↔ t.FlowPair p i j parent first second mid := by
  have hchildren := h.children p
  constructor
  · intro hpair
    refine ⟨?_, ?_, ?_, ?_⟩
    · rw [← h.content, hpair.parent]
    · rw [← hchildren]
      exact hpair.listed
    · rw [← h.content]
      exact hpair.first
    · rw [← h.content]
      exact hpair.second
  · intro hpair
    refine ⟨?_, ?_, ?_, ?_⟩
    · rw [h.content, hpair.parent]
    · rw [hchildren]
      exact hpair.listed
    · rw [h.content]
      exact hpair.first
    · rw [h.content]
      exact hpair.second

/-- A content is a node's. -/
theorem content_eq_ok {t : UiTree F} {id : UiNodeId} {content : UiNodeContent F}
    (h : t.content id = .ok content) :
    ∃ node, t.lookup id = some node ∧ node.content = content := by
  cases hnode : t.lookup id with
  | none =>
    rw [UiTree.content, node_eq_error hnode] at h
    cases h
  | some node =>
    rw [content_eq hnode] at h
    exact ⟨node, rfl, Except.ok.inj h⟩

/-- What holds of the contents of all nodes holds of the one a handle leads to. -/
theorem test_of_content {t : UiTree F} {test : UiNodeContent F → Bool}
    (h : (t.slots.all fun slot => slot.all fun node => test node.content) = true) {id : UiNodeId}
    {content : UiNodeContent F} (hcontent : t.content id = .ok content) : test content = true := by
  obtain ⟨node, hnode, rfl⟩ := content_eq_ok hcontent
  have hslot := List.mem_of_getElem? (lookup_eq_some.mp hnode).1
  exact List.all_eq_true.mp h _ hslot

theorem sane_of_saneContents [Coord F] {t : UiTree F} (h : t.saneContents = true) {id : UiNodeId}
    {content : UiNodeContent F} (hcontent : t.content id = .ok content) :
    content.sane = true :=
  test_of_content h hcontent

/-- The pair stands in the tree, both settled. -/
theorem FlowPair.apart_iff {t : UiTree ℚ} (hs : t.Shape) {intrinsic : Intrinsic ℚ}
    (hsettled : ∀ x p, parentOf t.links x = some p → t.Settled intrinsic x) {p i j : UiNodeId}
    {parent first second : UiNodeContent ℚ} {mid : List UiNodeId}
    (h : t.FlowPair p i j parent first second mid) {along : UiDirection}
    (halong : parent.style.direction = along) :
    (∀ a b, t.rect i = .ok a → t.rect j = .ok b →
      a.start along + a.extent along + first.style.margin.after along + parent.style.gap +
        second.style.margin.before along ≤ b.start along) ↔
      first.style.margin.before along + first.style.margin.after along ≤
        t.taken parent.style mid := by
  obtain ⟨above, habove, rfl⟩ := content_eq_ok h.parent
  obtain ⟨a, ha, rfl⟩ := content_eq_ok h.first.1
  obtain ⟨b, hb, rfl⟩ := content_eq_ok h.second.1
  obtain ⟨before, after, hlisted⟩ := h.listed
  have hchildren := Except.ok.inj ((children_eq habove).symm.trans hlisted)
  have hlink : t.links p = some above.link := links_eq_some.mpr ⟨above, habove, rfl⟩
  have hi := hs.tree.child hlink (show i ∈ above.children by simp [hchildren])
  have hj := hs.tree.child hlink (show j ∈ above.children by simp [hchildren])
  have hpair := UiTree.apart_iff hs habove hchildren ha hb h.first.2 h.second.2
    ⟨hsettled i p hi, hsettled j p hj⟩ halong
  rw [← hpair]
  constructor
  · intro hall
    exact hall a.rect b.rect (rect_eq ha) (rect_eq hb)
  · intro hle a' b' ha' hb'
    obtain rfl := Except.ok.inj ((rect_eq ha).symm.trans ha')
    obtain rfl := Except.ok.inj ((rect_eq hb).symm.trans hb')
    exact hle

/-! ## The law -/

/-- A sane gap is not negative. -/
theorem gap_nonneg {content : UiNodeContent ℚ} (h : content.sane = true) :
    0 ≤ content.style.gap := by
  simp only [UiNodeContent.sane, UiStyle.sane, Bool.and_eq_true, decide_eq_true_eq, zero_rat] at h
  tauto

/-- A size that was laid out is not negative. -/
theorem extentOf_nonneg {t : UiTree ℚ} {intrinsic : Intrinsic ℚ} {id : UiNodeId}
    (h : t.Settled intrinsic id) (along : UiDirection) : 0 ≤ t.extentOf along id := by
  obtain ⟨node, hnode, -, hplaced⟩ := h
  obtain ⟨hwidth, hheight⟩ := node.rect.sane_rat.mp (placed_eq_ok.mp hplaced).2
  rw [extentOf, rect_eq hnode]
  cases along with
  | row => exact hwidth
  | column => exact hheight

/-- Siblings take up more, the more of them there are. -/
theorem taken_le_append {t : UiTree ℚ} {style : UiStyle ℚ} {front back : List UiNodeId}
    (hgap : 0 ≤ style.gap) (h : ∀ y ∈ back, 0 ≤ t.extentOf style.direction y) :
    t.taken style front ≤ t.taken style (front ++ back) := by
  unfold taken
  rw [List.map_append, List.sum_append]
  refine le_add_of_nonneg_right (List.sum_nonneg fun r hr => ?_)
  obtain ⟨y, hy, rfl⟩ := List.mem_map.mp hr
  exact add_nonneg (h y hy) hgap

/-- In flow, as a test. -/
def inFlow (t : UiTree F) (id : UiNodeId) : Bool :=
  (t.content id).toOption.any fun content => content.style.position.isFlow

/-- What is not in flow floats. -/
theorem floats_of_not_inFlow {t : UiTree F} {id : UiNodeId} {node : UiNode F}
    (hnode : t.lookup id = some node) (h : t.inFlow id = false) : t.Floats id := by
  refine ⟨node.content, content_eq hnode, ?_⟩
  rwa [inFlow, content_eq hnode] at h

theorem flow_of_inFlow {t : UiTree F} {id : UiNodeId} (h : t.inFlow id = true) :
    ∃ content, t.content id = .ok content ∧ content.style.position.isFlow = true := by
  unfold inFlow at h
  exact ok_of_any h

/-- A pair is as far apart as the first and the next flow child after it are. -/
theorem FlowPair.of_next {t : UiTree ℚ} (hs : t.Shape) {intrinsic : Intrinsic ℚ}
    (hsettled : ∀ x p, parentOf t.links x = some p → t.Settled intrinsic x) {p i j : UiNodeId}
    {parent first second : UiNodeContent ℚ} {mid : List UiNodeId} (hgap : 0 ≤ parent.style.gap)
    (h : t.FlowPair p i j parent first second mid) {bound : ℚ}
    (hnext : ∀ j second mid, t.FlowPair p i j parent first second mid →
      (∀ k ∈ mid, t.Floats k) → bound ≤ t.taken parent.style mid) :
    bound ≤ t.taken parent.style mid := by
  obtain ⟨above, habove, -⟩ := content_eq_ok h.parent
  obtain ⟨before, after, hlisted⟩ := h.listed
  have hchildren := Except.ok.inj ((children_eq habove).symm.trans hlisted)
  have hlink : t.links p = some above.link := links_eq_some.mpr ⟨above, habove, rfl⟩
  have hmid (k : UiNodeId) (hk : k ∈ mid) : parentOf t.links k = some p :=
    hs.tree.child hlink (show k ∈ above.children by simp [hchildren, hk])
  -- The next flow child after the first, if there is one before the second.
  cases hfind : mid.find? t.inFlow with
  | none =>
    refine hnext j second mid h ?_
    intro k hk
    obtain ⟨node, hnode⟩ := live_iff.mp (IsTree.live_of_parent (hmid k hk))
    have hnot := List.find?_eq_none.mp hfind k hk
    exact floats_of_not_inFlow hnode (by simpa using hnot)
  | some next =>
    obtain ⟨hflow, front, back, rfl, hfront⟩ := List.find?_eq_some_iff_append.mp hfind
    obtain ⟨content, hcontent⟩ := flow_of_inFlow hflow
    have hpair : t.FlowPair p i next parent first content front := by
      refine ⟨h.parent, ⟨before, back ++ j :: after, ?_⟩, h.first, hcontent⟩
      rw [hlisted, List.append_assoc, List.cons_append]
    have hle := hnext next content front hpair fun k hk => by
      obtain ⟨node, hnode⟩ :=
        live_iff.mp (IsTree.live_of_parent (hmid k (List.mem_append_left _ hk)))
      exact floats_of_not_inFlow hnode (by simpa using hfront k hk)
    refine hle.trans (taken_le_append hgap fun y hy => ?_)
    exact extentOf_nonneg (hsettled y p (hmid y (List.mem_append_right front hy))) _

end UiTree

/-- **When flow siblings are apart**, in every tree a run can leave whose contents are sane. -/
theorem flow_apart_iff {room : Room} {config : TreeConfig} {t₀ : UiTree ℚ}
    (h₀ : UiTree.tryNew room config = .ok t₀) (calls : List (TreeCall ℚ))
    (hsane : (runCalls t₀ calls).saneContents = true)
    (engine : LayoutConfig ℚ) (memory : Room) (viewport : UiRect ℚ) (diagnostics : UiDiagnostics)
    {stats : LayoutStats} {t' : UiTree ℚ}
    (h : ((runCalls t₀ calls).layout engine memory viewport diagnostics).1 = (.ok stats, t')) :
    t'.FlowApart ↔ (runCalls t₀ calls).MarginsCovered engine memory viewport := by
  have hs : (runCalls t₀ calls).Shape := runCalls_shape h₀ calls
  rw [UiTree.layout_fst] at h
  obtain ⟨rest, intrinsic, hchecks, hboxed⟩ := UiTree.layout_boxes hs h
  have hrelaid := hboxed.toRelaid
  have hs' := hrelaid.toKept.shape hs
  have hsettled (x p : UiNodeId) (hp : parentOf t'.links x = some p) :
      t'.Settled intrinsic x := hboxed.settled hp
  -- what floats between a pair takes up what its boxes say
  have htaken {style : UiStyle ℚ} {mid : List UiNodeId}
      (hmid : ∀ k ∈ mid, (runCalls t₀ calls).Floats k) :
      t'.taken style mid = (mid.map fun k => ((runCalls t₀ calls).boxOf viewport intrinsic k).extent
        style.direction + style.gap).sum := by
    refine congrArg List.sum (List.map_congr_left fun k hk => ?_)
    obtain ⟨content, hcontent, -⟩ := hmid k hk
    rw [← hrelaid.content] at hcontent
    obtain ⟨node, hnode, -⟩ := UiTree.content_eq_ok hcontent
    rw [UiTree.extentOf, UiTree.rect_eq hnode, hboxed.boxes hnode]
  constructor
  · intro hapart order intrinsic' hchecks' p i j parent first second mid hpair hmid
    obtain ⟨-, rfl⟩ := Prod.mk.inj (Except.ok.inj (hchecks.symm.trans hchecks'))
    have hpair' := hrelaid.flowPair.mpr hpair
    have hle := (hpair'.apart_iff hs' hsettled rfl).mp
      (hapart p i j parent first second mid hpair')
    exact hle.trans_eq (htaken hmid)
  · intro hcovered p i j parent first second mid hpair
    refine (hpair.apart_iff hs' hsettled rfl).mpr ?_
    have hgap := UiTree.gap_nonneg
      (UiTree.sane_of_saneContents hsane (hrelaid.flowPair.mp hpair).parent)
    refine hpair.of_next hs' hsettled hgap ?_
    intro j second mid hnext hmid
    have hmid' : ∀ k ∈ mid, (runCalls t₀ calls).Floats k := by
      intro k hk
      obtain ⟨content, hcontent⟩ := hmid k hk
      exact ⟨content, by rw [← hrelaid.content, hcontent.1], hcontent.2⟩
    rw [htaken hmid']
    exact hcovered _ intrinsic hchecks p i j parent first second mid (hrelaid.flowPair.mp hnext)
      hmid'

/-- A panel of this height. -/
def tall (height : ℚ) (margin : ℚ) : UiNodeContent ℚ :=
  { UiNodeContent.new .panel with
    style := { UiStyle.defaults with height := .points height, margin := .all margin } }

/-- Two panels below each other, the first with margins. -/
def framedFirst : List (TreeCall ℚ) :=
  [.create .ample ⟨0, 1⟩ (tall 60 20), .create .ample ⟨0, 1⟩ (tall 30 0)]

/-- **Two flow siblings overlap**: the first has its lower half where the second starts. -/
theorem margin_makes_overlap : ∃ (t₀ t' : UiTree ℚ) (stats : LayoutStats),
    UiTree.tryNew .ample ⟨4, 4, 16⟩ = .ok t₀ ∧
      ((runCalls t₀ framedFirst).layout ⟨16, 4096, 8, 1⟩ .ample ⟨0, 0, 320, 200⟩ ⟨0, 0⟩).1
        = (.ok stats, t') ∧
      (t'.rect ⟨1, 1⟩).toOption.any (fun rect => rect.y == 20 && rect.height == 20) = true ∧
      (t'.rect ⟨2, 1⟩).toOption.any (fun rect => rect.y == 20 && rect.height == 30) = true ∧
      ¬ t'.FlowApart := by
  obtain ⟨t₀, h₀⟩ : ∃ t₀ : UiTree ℚ, UiTree.tryNew .ample ⟨4, 4, 16⟩ = .ok t₀ := ⟨_, rfl⟩
  obtain ⟨⟨result, t'⟩, hcall⟩ : ∃ call, ((runCalls t₀ framedFirst).layout ⟨16, 4096, 8, 1⟩ .ample
      ⟨0, 0, 320, 200⟩ ⟨0, 0⟩).1 = call := ⟨_, rfl⟩
  have hread : result.toOption.isSome = true ∧
      (t'.rect ⟨1, 1⟩).toOption.any (fun rect => rect.y == 20 && rect.height == 20) = true ∧
      (t'.rect ⟨2, 1⟩).toOption.any (fun rect => rect.y == 20 && rect.height == 30) = true ∧
      (t'.children ⟨0, 1⟩).toOption = some [⟨1, 1⟩, ⟨2, 1⟩] ∧
      (t'.content ⟨0, 1⟩).toOption.any (fun content => decide (content.style.direction = .column) &&
        content.style.gap == 0) = true ∧
      (t'.content ⟨1, 1⟩).toOption.any (fun content => content.style.position.isFlow &&
        content.style.margin.bottom == 20) = true ∧
      (t'.content ⟨2, 1⟩).toOption.any (fun content => content.style.position.isFlow &&
        content.style.margin.top == 0) = true := by
    obtain rfl := Except.ok.inj h₀
    obtain rfl := congrArg Prod.fst hcall
    obtain rfl := congrArg Prod.snd hcall
    decide +kernel
  obtain ⟨hsome, hfirst, hsecond, hchildren, hroot, hmargin, hplain⟩ := hread
  obtain ⟨stats, hok⟩ := Option.isSome_iff_exists.mp hsome
  rw [eq_ok_of_toOption hok] at hcall
  refine ⟨t₀, t', stats, h₀, hcall, hfirst, hsecond, ?_⟩
  intro hapart
  obtain ⟨a, ha, htesta⟩ := ok_of_any hfirst
  obtain ⟨b, hb, htestb⟩ := ok_of_any hsecond
  obtain ⟨parent, hparent, htestp⟩ := ok_of_any hroot
  obtain ⟨first, hcontent, htest⟩ := ok_of_any hmargin
  obtain ⟨second, hcontent', htest'⟩ := ok_of_any hplain
  simp only [Bool.and_eq_true, beq_iff_eq, decide_eq_true_eq] at htesta htestb htestp htest htest'
  have hle := hapart ⟨0, 1⟩ ⟨1, 1⟩ ⟨2, 1⟩ parent first second []
    ⟨hparent, ⟨[], [], eq_ok_of_toOption hchildren⟩, ⟨hcontent, htest.1⟩, ⟨hcontent', htest'.1⟩⟩
    a b ha hb
  simp only [htestp.1, UiRect.start, UiRect.extent, UiEdges.after, UiEdges.before,
    UiDirection.pick, htesta, htestb, htestp.2, htest.2, htest'.2] at hle
  norm_num at hle

/-- The two panels without margins. -/
def plainPanels : List (TreeCall ℚ) :=
  [.create .ample ⟨0, 1⟩ (tall 60 0), .create .ample ⟨0, 1⟩ (tall 30 0)]

/-- In flow, and without margins. -/
def UiNodeContent.bare (content : UiNodeContent ℚ) : Bool :=
  content.style.position.isFlow && decide (content.style.margin.left = 0) &&
    decide (content.style.margin.right = 0) && decide (content.style.margin.top = 0) &&
    decide (content.style.margin.bottom = 0)

/-- Without margins there is nothing to cover. -/
theorem UiNodeContent.margins_of_bare {content : UiNodeContent ℚ} (h : content.bare = true)
    (along : UiDirection) :
    content.style.margin.before along + content.style.margin.after along = 0 := by
  simp only [bare, Bool.and_eq_true, decide_eq_true_eq] at h
  obtain ⟨⟨⟨⟨-, hleft⟩, hright⟩, htop⟩, hbottom⟩ := h
  cases along with
  | row => exact (congrArg₂ (· + ·) hleft hright).trans (add_zero 0)
  | column => exact (congrArg₂ (· + ·) htop hbottom).trans (add_zero 0)

/-- No margin has to be covered, and the panels are apart. -/
theorem flow_apart_plain : ∃ (t₀ t' : UiTree ℚ) (stats : LayoutStats),
    UiTree.tryNew .ample ⟨4, 4, 16⟩ = .ok t₀ ∧
      ((runCalls t₀ plainPanels).layout ⟨16, 4096, 8, 1⟩ .ample ⟨0, 0, 320, 200⟩ ⟨0, 0⟩).1
        = (.ok stats, t') ∧
      (t'.children ⟨0, 1⟩).toOption = some [⟨1, 1⟩, ⟨2, 1⟩] ∧ t'.FlowApart := by
  obtain ⟨t₀, h₀⟩ : ∃ t₀ : UiTree ℚ, UiTree.tryNew .ample ⟨4, 4, 16⟩ = .ok t₀ := ⟨_, rfl⟩
  obtain ⟨⟨result, t'⟩, hcall⟩ : ∃ call, ((runCalls t₀ plainPanels).layout ⟨16, 4096, 8, 1⟩ .ample
      ⟨0, 0, 320, 200⟩ ⟨0, 0⟩).1 = call := ⟨_, rfl⟩
  have hread : (runCalls t₀ plainPanels).saneContents = true ∧ result.toOption.isSome = true ∧
      (t'.children ⟨0, 1⟩).toOption = some [⟨1, 1⟩, ⟨2, 1⟩] ∧
      ((runCalls t₀ plainPanels).slots.all fun slot => slot.all fun node => node.content.bare) =
        true := by
    obtain rfl := Except.ok.inj h₀
    obtain rfl := congrArg Prod.fst hcall
    obtain rfl := congrArg Prod.snd hcall
    decide +kernel
  obtain ⟨hsane, hsome, hchildren, hplain⟩ := hread
  have hbare {id : UiNodeId} {content : UiNodeContent ℚ}
      (hcontent : (runCalls t₀ plainPanels).content id = .ok content) : content.bare = true :=
    UiTree.test_of_content hplain hcontent
  have hcovered : (runCalls t₀ plainPanels).MarginsCovered ⟨16, 4096, 8, 1⟩ .ample
      ⟨0, 0, 320, 200⟩ := by
    intro order intrinsic _ p i j parent first second mid hpair hmid
    have hnone : mid = [] := by
      refine List.eq_nil_iff_forall_not_mem.mpr ?_
      intro k hk
      obtain ⟨content, hcontent, hfloats⟩ := hmid k hk
      have hbare' := hbare hcontent
      simp only [UiNodeContent.bare, hfloats, Bool.false_and, Bool.false_eq_true] at hbare'
    rw [hnone]
    exact (UiNodeContent.margins_of_bare (hbare hpair.first.1) _).le
  obtain ⟨stats, hok⟩ := Option.isSome_iff_exists.mp hsome
  rw [eq_ok_of_toOption hok] at hcall
  exact ⟨t₀, t', stats, h₀, hcall, hchildren,
    (flow_apart_iff h₀ _ hsane _ _ _ _ hcall).mpr hcovered⟩

end Ui
end EngineKit
