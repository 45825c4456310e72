import EngineKit.Ui.LayoutRuns

/-!
# The boxes of a layout

What a successful layout comes to, without the writes: the root's box is the viewport, and the box
of any other node is its place in its parent's box, behind the sizes of the siblings before it
(`boxFrom`). The size of a child does not depend on where it stands (`extent_childRect`), so a box
is read off the way up from the node, and nothing is said about the order of the pass.

`layout_boxes` is the refinement: in the tree a successful layout leaves, every node has its box.
-/

set_option autoImplicit false

namespace EngineKit
namespace Ui

open Lib

variable {F : Type}

/-- The size of a rectangle along a direction. -/
def UiRect.extent (rect : UiRect F) (along : UiDirection) : F := along.pick rect.width rect.height

/-- Where it starts along a direction. -/
def UiRect.start (rect : UiRect F) (along : UiDirection) : F := along.pick rect.x rect.y

variable [Coord F]

/-! ## Sizes do not depend on the place -/

theorem extent_flowRect {parent : UiStyle F} {margin : UiEdges F}
    {inner inner' rect rect' : UiRect F}
    (hwidth : inner'.width = inner.width) (hheight : inner'.height = inner.height)
    (hrect : ∀ d, rect'.extent d = rect.extent d) (d : UiDirection) :
    (flowRect parent margin inner' rect').extent d =
      (flowRect parent margin inner rect).extent d := by
  have hw : rect'.width = rect.width := hrect .row
  have hh : rect'.height = rect.height := hrect .column
  unfold flowRect
  rw [hwidth, hheight, hw, hh]
  cases parent.direction <;> cases d <;>
    simp only [UiDirection.pick, UiRect.extent] <;> split <;> split <;> rfl

/-- **The size of a child** is the same wherever its parent starts and whatever is before it. -/
theorem extent_childRect {parent style : UiStyle F} {inner inner' : UiRect F} {offset offset' : F}
    (hwidth : inner'.width = inner.width) (hheight : inner'.height = inner.height)
    (main cross : F) (d : UiDirection) :
    (childRect parent style inner' offset' main cross).extent d =
      (childRect parent style inner offset main cross).extent d := by
  have hstart (d : UiDirection) : (startRect parent.direction inner' offset' main cross).extent d =
      (startRect parent.direction inner offset main cross).extent d := by
    unfold startRect
    cases parent.direction <;> cases d <;> rfl
  unfold childRect
  cases style.position with
  | absolute left top => cases d <;> first | exact hstart .row | exact hstart .column
  | flow => exact extent_flowRect hwidth hheight hstart d

namespace UiTree

/-! ## Boxes -/

/-- The box of a child, at an offset inside its parent. -/
def childAt (t : UiTree F) (intrinsic : Intrinsic F) (style : UiStyle F) (inner : UiRect F)
    (siblings : Nat) (offset : F) (id : UiNodeId) : UiRect F :=
  match t.content id with
  | .error _ => .zero
  | .ok content =>
    match childSizes style content.style inner (intrinsicOf intrinsic id) siblings with
    | .error _ => .zero
    | .ok (main, cross) => childRect style content.style inner offset main cross

/-- How far some children of one parent move what comes after them. -/
def lead (t : UiTree F) (intrinsic : Intrinsic F) (style : UiStyle F) (inner : UiRect F)
    (siblings : Nat) (before : List UiNodeId) : F :=
  before.foldl (fun sum id =>
    sum + (t.childAt intrinsic style inner siblings Scalar.zero id).extent style.direction +
      style.gap) Scalar.zero

/-- The box of a node, on fuel for the way up. -/
def boxFrom (viewport : UiRect F) (intrinsic : Intrinsic F) (t : UiTree F) :
    Nat → UiNodeId → UiRect F
  | 0, _ => .zero
  | fuel + 1, id =>
    match t.parent id with
    | .error _ => .zero
    | .ok none => viewport
    | .ok (some p) =>
      match t.content p, t.children p with
      | .ok content, .ok siblings =>
        let inner := innerRect content.style (boxFrom viewport intrinsic t fuel p)
        let before := siblings.take (siblings.idxOf id)
        t.childAt intrinsic content.style inner siblings.length
          (t.lead intrinsic content.style inner siblings.length before) id
      | _, _ => .zero

def boxOf (viewport : UiRect F) (intrinsic : Intrinsic F) (t : UiTree F) (id : UiNodeId) :
    UiRect F := boxFrom viewport intrinsic t t.slots.length id

omit [Coord F] in
theorem Relaid.children {t t' : UiTree F} (h : t.Relaid t') (id : UiNodeId) :
    t'.children id = t.children id := by
  rw [children_of_links, h.links, children_of_links]

theorem Relaid.childAt {t t' : UiTree F} (h : t.Relaid t') (intrinsic : Intrinsic F)
    (style : UiStyle F) (inner : UiRect F) (siblings : Nat) (offset : F) (id : UiNodeId) :
    t'.childAt intrinsic style inner siblings offset id =
      t.childAt intrinsic style inner siblings offset id := by
  unfold UiTree.childAt
  rw [h.content]

/-- Boxes are read from the links and the contents alone. -/
theorem Relaid.boxFrom {t t' : UiTree F} (h : t.Relaid t') (viewport : UiRect F)
    (intrinsic : Intrinsic F) (fuel : Nat) (id : UiNodeId) :
    boxFrom viewport intrinsic t' fuel id = boxFrom viewport intrinsic t fuel id := by
  induction fuel generalizing id with
  | zero => rfl
  | succ fuel ih =>
    unfold UiTree.boxFrom
    rw [parent_of_links, h.links, ← parent_of_links]
    simp only [h.children, h.content, h.childAt, lead, ih]

/-! ## The refinement -/

/-- A settled node, with the sizes its parent gives it. -/
theorem Settled.rect_eq {t : UiTree F} {intrinsic : Intrinsic F} {id p : UiNodeId}
    {node parent : UiNode F} {before after : List UiNodeId} (h : t.Settled intrinsic id)
    (hsits : t.Sits id node p parent before after) :
    ∃ main cross offset,
      childSizes parent.content.style node.content.style
          (innerRect parent.content.style parent.rect) (intrinsicOf intrinsic id)
          parent.children.length = .ok (main, cross) ∧
        t.offset parent.content.style before Scalar.zero = .ok offset ∧
        node.rect = childRect parent.content.style node.content.style
          (innerRect parent.content.style parent.rect) offset main cross ∧
        node.content.sane = true ∧ node.rect.sane = true := by
  obtain ⟨node', hnode, -, hplaced⟩ := h
  obtain rfl := Option.some.inj (hsits.live.symm.trans hnode)
  obtain ⟨hplace, hsane⟩ := placed_eq_ok.mp hplaced
  rw [hsits.placeNode_eq] at hplace
  simp only [bind_eq_ok, monadLift_eq_ok, failIf_eq_ok, Bool.not_eq_false,
    Except.ok.injEq] at hplace
  obtain ⟨_, hcontent, ⟨main, cross⟩, hsizes, offset, hoffset, hrect⟩ := hplace
  exact ⟨main, cross, offset, hsizes, hoffset, hrect.symm, hcontent, hsane⟩

theorem offset_eq_foldl {t : UiTree F} {style : UiStyle F} {extent : UiNodeId → F}
    {before : List UiNodeId}
    (h : ∀ y ∈ before, ∃ rect, t.rect y = .ok rect ∧ rect.extent style.direction = extent y)
    (sum : F) :
    t.offset style before sum =
      .ok (before.foldl (fun sum id => sum + extent id + style.gap) sum) := by
  induction before generalizing sum with
  | nil => rfl
  | cons y before ih =>
    obtain ⟨rect, hrect, hextent⟩ := h y List.mem_cons_self
    unfold offset
    rw [hrect, List.foldl_cons, ← hextent]
    exact ih (fun x hx => h x (List.mem_cons_of_mem y hx)) _

theorem childAt_eq {t : UiTree F} {intrinsic : Intrinsic F} {style : UiStyle F} {inner : UiRect F}
    {siblings : Nat} {id : UiNodeId} {node : UiNode F} {main cross : F}
    (hnode : t.lookup id = some node)
    (hsizes : childSizes style node.content.style inner (intrinsicOf intrinsic id) siblings =
      .ok (main, cross)) (offset : F) :
    t.childAt intrinsic style inner siblings offset id =
      childRect style node.content.style inner offset main cross := by
  simp only [childAt, content_eq hnode, hsizes]

omit [Coord F] in
theorem Shape.follows {t : UiTree F} (hs : t.Shape) {id p : UiNodeId}
    (h : parentOf t.links id = some p) :
    ∃ node parent before after, t.Sits id node p parent before after ∧
      ∀ y ∈ before, parentOf t.links y = some p := by
  obtain ⟨l, hl, hmem⟩ := hs.tree.listed h
  obtain ⟨parent, hparent, rfl⟩ := links_eq_some.mp hl
  obtain ⟨before, after, hchildren⟩ := List.append_of_mem hmem
  obtain ⟨node, hsits⟩ := hs.sits_of_children hparent hchildren
  refine ⟨node, parent, before, after, hsits, ?_⟩
  intro y hy
  exact hs.tree.child hl (show y ∈ parent.children by simp [hsits.listed, hy])

/-- **Every node has its box** in a tree whose root has the viewport and whose other nodes are
    settled. -/
theorem Shape.boxFrom_eq {t : UiTree F} (hs : t.Shape) {viewport : UiRect F}
    {intrinsic : Intrinsic F} (hroot : t.rect t.root = .ok viewport)
    (hsettled : ∀ x p, parentOf t.links x = some p → t.Settled intrinsic x) {fuel d : Nat}
    {id : UiNodeId} {node : UiNode F} (hnode : t.lookup id = some node)
    (hd : Climb (parentOf t.links) id t.root d) (hfuel : d < fuel) :
    boxFrom viewport intrinsic t fuel id = node.rect := by
  induction fuel generalizing id d node with
  | zero => omega
  | succ fuel ih =>
    unfold boxFrom
    cases hd with
    | here =>
      have hup : node.parent = none := (parentOf_links hnode).symm.trans hs.tree.root_parent
      rw [parent_eq hnode, hup]
      exact Except.ok.inj (hroot.symm.trans (rect_eq hnode))
    | @up _ p _ d step rest =>
      obtain ⟨node', parent, before, after, hsits, hbefore⟩ := hs.follows step
      obtain rfl := Option.some.inj (hnode.symm.trans hsits.live)
      have hparent := ih hsits.above rest (Nat.lt_of_succ_lt_succ hfuel)
      obtain ⟨main, cross, offset, hsizes, hoffset, hrect, -, -⟩ :=
        (hsettled id p step).rect_eq hsits
      have htake : parent.children.take (parent.children.idxOf id) = before := by
        rw [hsits.listed]
        exact take_idxOf hsits.notMem
      have hlead : t.lead intrinsic parent.content.style
          (innerRect parent.content.style parent.rect) parent.children.length before = offset := by
        refine Except.ok.inj ((offset_eq_foldl (fun y hy => ?_) _).symm.trans hoffset)
        -- an earlier sibling is settled too, and its size is the same at any offset
        obtain ⟨sibling, parent', before', after', hsits', -⟩ := hs.follows (hbefore y hy)
        obtain rfl := Option.some.inj (hsits.above.symm.trans hsits'.above)
        obtain ⟨main', cross', offset', hsizes', -, hrect', -, -⟩ :=
          (hsettled y p (hbefore y hy)).rect_eq hsits'
        refine ⟨sibling.rect, rect_eq hsits'.live, ?_⟩
        rw [childAt_eq hsits'.live hsizes', hrect']
        exact extent_childRect rfl rfl main' cross' _
      simp only [parent_eq hnode, hsits.up, content_eq hsits.above, children_eq hsits.above,
        hparent, htake, hlead]
      rw [childAt_eq hnode hsizes, hrect]

/-- What a successful layout leaves: the links and the contents as they were, and every node settled
    in its box. -/
structure Boxed (t t' : UiTree F) (viewport : UiRect F) (intrinsic : Intrinsic F) : Prop
    extends Relaid t t' where
  settled {x p : UiNodeId} : parentOf t'.links x = some p → t'.Settled intrinsic x
  boxes {x : UiNodeId} {node : UiNode F} :
    t'.lookup x = some node → node.rect = t.boxOf viewport intrinsic x

/-- **A successful layout gives every node its box.** -/
theorem layout_boxes {t t' : UiTree F} (hs : t.Shape) {config : LayoutConfig F} {room : Room}
    {viewport : UiRect F} {stats : LayoutStats}
    (h : t.layoutTree config room viewport = (.ok stats, t')) :
    ∃ rest intrinsic, t.layoutChecks config room viewport = .ok (t.root :: rest, intrinsic) ∧
      t.Boxed t' viewport intrinsic := by
  cases hchecks : t.layoutChecks config room viewport with
  | error e =>
    rw [layoutTree_of_error hchecks] at h
    cases h
  | ok found =>
    obtain ⟨order, intrinsic⟩ := found
    obtain ⟨rest, rfl, -, -, -, hmem⟩ := hs.preorder_rest (layoutChecks_eq_ok hchecks).2.1
    obtain ⟨hleft, hdone⟩ := layoutTree_spec hs hchecks h
    have hsettled {x p : UiNodeId} (hp : parentOf t'.links x = some p) :
        t'.Settled intrinsic x := by
      rw [hleft.links] at hp
      refine hdone stats rfl x ((hmem x).mpr ⟨?_, live_iff.mp (IsTree.live_of_parent hp)⟩)
      intro heq
      rw [heq, hs.tree.root_parent] at hp
      cases hp
    refine ⟨rest, intrinsic, rfl, hleft.toRelaid, hsettled, fun {x node} hnode => ?_⟩
    have hs' := hleft.toKept.shape hs
    obtain ⟨d, hlt, hd⟩ := hs'.depth_lt hnode
    have hbox := hs'.boxFrom_eq (by rw [hleft.toKept.root, hleft.top.1])
      (fun y p => hsettled) hnode hd hlt
    rw [hleft.toRelaid.boxFrom, hleft.slots] at hbox
    exact hbox.symm

end UiTree

end Ui
end EngineKit
