import EngineKit.Render.Draws
import EngineKit.Ui.Walk

/-!
# What the walk paints

After some nodes of the preorder have been walked, the list is a function of these nodes
(`Walked`): the `i`-th of them has clip `i + 1`, the intersection of the viewport with the
rectangles on its way up (`clipOf`), and its items. A node's parent comes before it, so the search
for the parent's clip finds it.

Everything about a frame is read off the order of the walk. The painter looks a parent's clip up in
the list of those it has pushed, and finds it if the parent was walked before and once; so the clip
of a node is a function of the tree after all, and no longer of the state of the painter. From there
the clips, the items and the ids in them are maps over the list of nodes, and a law about the items
is a law about a position in the preorder.

The walk paints in exact arithmetic and in floats alike, so the coordinates are left open (`Coord`).
-/

set_option autoImplicit false

namespace EngineKit
namespace Ui

open Lib

variable {F : Type} [Coord F]

namespace UiTree

/-- Every live node has a sane content and a sane rectangle. -/
def sane (t : UiTree F) : Bool :=
  t.slots.all fun slot => slot.all fun node => node.content.sane && node.rect.sane

/-! ## Clips -/

/-- The rectangles on the way up, cut out one after the other. The fuel is the number of slots. -/
def clipFrom (viewport : UiRect F) (t : UiTree F) : Nat → UiNodeId → UiRect F
  | 0, _ => viewport
  | fuel + 1, id =>
    match t.lookup id with
    | none => viewport
    | some node =>
      ((node.parent.map (clipFrom viewport t fuel)).getD viewport).intersect node.rect

/-- The clip of a node: the viewport, cut down by the rectangles from the root to it. -/
def clipOf (viewport : UiRect F) (t : UiTree F) (id : UiNodeId) : UiRect F :=
  t.clipFrom viewport t.slots.length id

theorem Shape.clipFrom_congr {t : UiTree F} (h : t.Shape) (viewport : UiRect F) {id : UiNodeId}
    {d fuel fuel' : Nat} (hd : Climb (parentOf t.links) id t.root d) (hfuel : d < fuel)
    (hfuel' : d < fuel') : t.clipFrom viewport fuel id = t.clipFrom viewport fuel' id := by
  -- Two climbs with fuel enough take the same steps.
  induction fuel generalizing id d fuel' with
  | zero => omega
  | succ fuel ih =>
    obtain ⟨fuel', rfl⟩ := Nat.exists_eq_succ_of_ne_zero (by omega : fuel' ≠ 0)
    obtain ⟨node, hnode⟩ := h.live_of_climb hd
    have hparent := parentOf_links hnode
    simp only [clipFrom, hnode]
    cases hp : node.parent with
    | none => rfl
    | some p =>
      rw [hp] at hparent
      cases hd with
      | here => exact absurd (h.tree.root_parent.symm.trans hparent) (by simp)
      | up step rest =>
        obtain rfl := Option.some.inj (step.symm.trans hparent)
        rw [Option.map_some, Option.map_some, ih rest (by omega) (by omega : _ < fuel')]

/-- **A node's clip** is its rectangle within its parent's clip. -/
theorem Shape.clipOf_eq {t : UiTree F} (h : t.Shape) (viewport : UiRect F) {id : UiNodeId}
    {node : UiNode F} (hnode : t.lookup id = some node) :
    t.clipOf viewport id =
      ((node.parent.map (t.clipOf viewport)).getD viewport).intersect node.rect := by
  obtain ⟨d, hlt, hd⟩ := h.depth_lt hnode
  obtain ⟨n, hn⟩ := Nat.exists_eq_succ_of_ne_zero (by omega : t.slots.length ≠ 0)
  have hparent := parentOf_links hnode
  have hunfold : t.clipOf viewport id =
      ((node.parent.map (t.clipFrom viewport n)).getD viewport).intersect node.rect := by
    rw [clipOf, hn, clipFrom, hnode]
  rw [hunfold]
  cases hp : node.parent with
  | none => rfl
  | some p =>
    rw [hp] at hparent
    cases hd with
    | here => exact absurd (h.tree.root_parent.symm.trans hparent) (by simp)
    | @up _ _ _ d step rest =>
      obtain rfl := Option.some.inj (step.symm.trans hparent)
      rw [Option.map_some, Option.map_some, clipOf,
        h.clipFrom_congr viewport rest (by omega : d < n) (by omega : d < t.slots.length)]

end UiTree

/-! ## Items -/

/-- The node is painted: it is visible, and its clip has an area. -/
def Paints (viewport : UiRect F) (t : UiTree F) (id : UiNodeId) (node : UiNode F) : Prop :=
  node.content.visible = true ∧ ¬ (t.clipOf viewport id).area ≤ Scalar.zero

instance (viewport : UiRect F) (t : UiTree F) (id : UiNodeId) (node : UiNode F) :
    Decidable (Paints viewport t id node) := by
  unfold Paints
  infer_instance

/-- The items of a painted node of the given kind. -/
def contentItems (id : UiNodeId) (content : UiNodeContent F) (rect : UiRect F) (clip : ClipId)
    (kind : PaintKind F) : List (PaintItem F) :=
  nodeItem id content rect clip kind ::
    if content.style.bordered then
      [nodeItem id content rect clip (.border content.style.border content.style.borderWidth)]
    else []

/-- The items of a node, with its clip. -/
def itemsOf (scene : Scene F) (t : UiTree F) (id : UiNodeId) (clip : ClipId) :
    List (PaintItem F) :=
  match t.lookup id with
  | none => []
  | some node =>
    if Paints scene.viewport t id node then
      match paintKind scene id node.content node.rect with
      | .error _ => []
      | .ok kind => contentItems id node.content node.rect clip kind
    else []

/-- Clip 0 is the viewport, so the nodes count from 1. -/
def clipAt (i : Nat) : ClipId := ⟨UInt32.ofNat (i + 1)⟩

/-- **The list after some nodes** of the preorder have been walked. -/
structure Walked (scene : Scene F) (t : UiTree F) (front : List UiNodeId) (p : Painter F) :
    Prop where
  small : front.length < 2 ^ 32
  clips : p.clips = ⟨⟨0⟩, scene.viewport⟩ ::
    front.mapIdx fun i id => ⟨clipAt i, t.clipOf scene.viewport id⟩
  nodeClips : p.nodeClips = front.mapIdx fun i id => (id, clipAt i)
  items : p.items = (front.mapIdx fun i id => itemsOf scene t id (clipAt i)).flatten
  painted {id : UiNodeId} {node : UiNode F} : id ∈ front → t.lookup id = some node →
    Paints scene.viewport t id node → ∃ kind, paintKind scene id node.content node.rect = .ok kind

theorem clipAt_toNat {i : Nat} (h : i + 1 < 2 ^ 32) : (clipAt i).raw.toNat = i + 1 :=
  UInt32.toNat_ofNat_of_lt' h

/-- The clip of the `i`-th node is where its id says. -/
theorem Walked.clip_getElem? {scene : Scene F} {t : UiTree F} {front : List UiNodeId}
    {p : Painter F} (h : Walked scene t front p) {i : Nat} {id : UiNodeId}
    (hi : front[i]? = some id) :
    p.clips[(clipAt i).raw.toNat]? = some ⟨clipAt i, t.clipOf scene.viewport id⟩ := by
  have hlt := (List.getElem?_eq_some_iff.mp hi).1
  have hsmall := h.small
  rw [clipAt_toNat (by omega), h.clips, List.getElem?_cons_succ, List.getElem?_mapIdx, hi]
  rfl

/-- Before the first node there is the viewport. -/
theorem Walked.start {scene : Scene F} {t : UiTree F} {p : Painter F}
    (h : Painter.start scene = .ok p) : Walked scene t [] p := by
  simp only [Painter.start, Painter.pushClip, bind_eq_ok, failIf_eq_ok, orOverflow_eq_ok] at h
  obtain ⟨_, ⟨_, -, raw, hraw, hpair⟩, hp⟩ := h
  obtain rfl := Except.ok.inj hpair
  obtain rfl := Except.ok.inj hp
  have hzero : raw = 0 := UInt32.toNat_inj.mp (toNat_of_u32TryFrom hraw)
  exact ⟨Nat.two_pow_pos 32, by rw [hzero]; rfl, rfl, rfl, fun hmem => absurd hmem (by simp)⟩

/-- **The parent's clip** is found: it was walked before. -/
theorem Walked.parentRect {scene : Scene F} {t : UiTree F} (hs : t.Shape)
    {front : List UiNodeId} {p : Painter F} (h : Walked scene t front p) {id : UiNodeId}
    {node : UiNode F} (hnode : t.lookup id = some node)
    (hfront : ∀ q, node.parent = some q → q ∈ front) :
    (p.parentRect scene.viewport (p.parentClip t id)).intersect node.rect
      = t.clipOf scene.viewport id := by
  have hup : t.up id = node.parent := by rw [UiTree.up_eq, UiTree.parentOf_links hnode]
  rw [hs.clipOf_eq scene.viewport hnode, Painter.parentClip, hup]
  -- The root is cut from the viewport, and any other node from the clip its parent was given.
  cases hp : node.parent with
  | none =>
    simp only [Option.bind_none, Option.getD_none, Option.map_none]
    rw [Painter.parentRect, h.clips]
    rfl
  | some q =>
    have hfound : ∃ entry, p.nodeClips.find? (fun entry => entry.1 = q) = some entry := by
      rw [← Option.isSome_iff_exists, List.find?_isSome]
      obtain ⟨i, hi⟩ := List.mem_iff_getElem?.mp (hfront q hp)
      refine ⟨(q, clipAt i), ?_, by simp⟩
      refine List.mem_of_getElem? (i := i) ?_
      rw [h.nodeClips, List.getElem?_mapIdx, hi]
      rfl
    obtain ⟨entry, hentry⟩ := hfound
    have hkey : entry.1 = q := by simpa using List.find?_some hentry
    obtain ⟨i, hi⟩ := List.mem_iff_getElem?.mp (List.mem_of_find?_eq_some hentry)
    rw [h.nodeClips, List.getElem?_mapIdx] at hi
    obtain ⟨x, hx, rfl⟩ := Option.map_eq_some_iff.mp hi
    obtain rfl : x = q := hkey
    simp only [Option.bind_some, hentry, Option.map_some, Option.getD_some]
    rw [Painter.parentRect, h.clip_getElem? hx]
    rfl

/-! ## One node -/

/-- The items of a node that is painted. -/
theorem itemsOf_eq {scene : Scene F} {t : UiTree F} {id : UiNodeId} {node : UiNode F}
    {kind : PaintKind F} (hnode : t.lookup id = some node)
    (hpaints : Paints scene.viewport t id node)
    (hkind : paintKind scene id node.content node.rect = .ok kind) (clip : ClipId) :
    itemsOf scene t id clip = contentItems id node.content node.rect clip kind := by
  simp only [itemsOf, hnode, if_pos hpaints, hkind]

theorem itemsOf_of_not {scene : Scene F} {t : UiTree F} {id : UiNodeId} {node : UiNode F}
    (hnode : t.lookup id = some node) (hnot : ¬ Paints scene.viewport t id node) (clip : ClipId) :
    itemsOf scene t id clip = [] := by
  simp only [itemsOf, hnode, if_neg hnot]

/-- Both items of a bordered node are its own. -/
theorem mem_contentItems {id : UiNodeId} {content : UiNodeContent F} {rect : UiRect F}
    {clip : ClipId} {kind : PaintKind F} {item : PaintItem F}
    (h : item ∈ contentItems id content rect clip kind) : item.node = id ∧ item.clip = clip := by
  unfold contentItems at h
  rcases List.mem_cons.mp h with rfl | h
  · exact ⟨rfl, rfl⟩
  · split at h
    · obtain rfl := List.mem_singleton.mp h
      exact ⟨rfl, rfl⟩
    · exact absurd h List.not_mem_nil

/-- An item is of its node, with its clip, and of no node that is not painted. -/
theorem mem_itemsOf {scene : Scene F} {t : UiTree F} {id : UiNodeId} {clip : ClipId}
    {item : PaintItem F} (h : item ∈ itemsOf scene t id clip) :
    item.node = id ∧ item.clip = clip ∧
      ∃ node, t.lookup id = some node ∧ Paints scene.viewport t id node := by
  unfold itemsOf at h
  cases hnode : t.lookup id with
  | none => simp [hnode] at h
  | some node =>
    simp only [hnode] at h
    split at h
    · next hpaints =>
      split at h
      · exact absurd h List.not_mem_nil
      · obtain ⟨hid, hclip⟩ := mem_contentItems h
        exact ⟨hid, hclip, node, rfl, hpaints⟩
    · exact absurd h List.not_mem_nil

/-- `paint_content` pushes the items of the node's kind, or fails. -/
theorem Painter.paintContent_ok {scene : Scene F} {p p' : Painter F} {id : UiNodeId}
    {content : UiNodeContent F} {rect : UiRect F} {clip : ClipId}
    (h : p.paintContent scene id content rect clip = .ok p') :
    ∃ kind, paintKind scene id content rect = .ok kind ∧
      p' = { p with items := p.items ++ contentItems id content rect clip kind } := by
  simp only [Painter.paintContent, Painter.pushItem, bind_eq_ok, failIf_eq_ok] at h
  obtain ⟨kind, hkind, _, ⟨_, -, hfirst⟩, hrest⟩ := h
  obtain rfl := Except.ok.inj hfirst
  refine ⟨kind, hkind, ?_⟩
  unfold contentItems
  split at hrest
  · next hborder =>
    simp only [bind_eq_ok, failIf_eq_ok] at hrest
    obtain ⟨_, -, hsecond⟩ := hrest
    obtain rfl := Except.ok.inj hsecond
    simp [hborder]
  · next hborder =>
    obtain rfl := Except.ok.inj hrest
    simp [hborder]

/-- What a round of the walk comes to, once the clip of the node's parent is known. -/
theorem Walked.paintNode_eq {scene : Scene F} {t : UiTree F} (hs : t.Shape)
    {front : List UiNodeId} {p : Painter F} (h : Walked scene t front p) {id : UiNodeId}
    {node : UiNode F} (hnode : t.lookup id = some node)
    (hfront : ∀ q, node.parent = some q → q ∈ front) :
    p.paintNode scene t id = (do
      let (clip, p) ← p.pushClip scene.config (t.clipOf scene.viewport id)
      let p : Painter F := { p with nodeClips := p.nodeClips ++ [(id, clip)] }
      if Paints scene.viewport t id node then
        p.paintContent scene id node.content node.rect clip
      else .ok p) := by
  have hcontent := UiTree.content_eq hnode
  have hrect := UiTree.rect_eq hnode
  have hskip : (node.content.visible = false ∨
      (t.clipOf scene.viewport id).area ≤ Scalar.zero) ↔ ¬ Paints scene.viewport t id node := by
    rw [Paints, not_and_or, Bool.not_eq_true, not_not]
  simp only [Painter.paintNode, hcontent, hrect, UiTree.ok_bind, h.parentRect hs hnode hfront,
    hskip, ite_not]

/-- The next clip has the next id. -/
theorem Walked.pushClip {scene : Scene F} {t : UiTree F} {front : List UiNodeId} {p p' : Painter F}
    (h : Walked scene t front p) {id : UiNodeId} {clip : ClipId}
    (hcall : p.pushClip scene.config (t.clipOf scene.viewport id) = .ok (clip, p')) :
    front.length + 1 < 2 ^ 32 ∧ clip = clipAt front.length ∧
      p' = { p with clips := p.clips ++ [⟨clip, t.clipOf scene.viewport id⟩] } := by
  have hlen : p.clips.length = front.length + 1 := by simp [h.clips]
  simp only [Painter.pushClip, bind_eq_ok, failIf_eq_ok, orOverflow_eq_ok, hlen] at hcall
  obtain ⟨_, -, raw, hraw, hpair⟩ := hcall
  obtain ⟨rfl, rfl⟩ := Prod.mk.inj (Except.ok.inj hpair)
  have hlt := lt_of_u32TryFrom hraw
  refine ⟨hlt, congrArg ClipId.mk (UInt32.toNat_inj.mp ?_), rfl⟩
  rw [toNat_of_u32TryFrom hraw]
  exact (clipAt_toNat hlt).symm

/-- **A round of the walk** walks one node more. -/
theorem Walked.step {scene : Scene F} {t : UiTree F} (hs : t.Shape) {front : List UiNodeId}
    {p p' : Painter F} (h : Walked scene t front p) {id : UiNodeId} {node : UiNode F}
    (hnode : t.lookup id = some node) (hfront : ∀ q, node.parent = some q → q ∈ front)
    (hcall : p.paintNode scene t id = .ok p') : Walked scene t (front ++ [id]) p' := by
  rw [h.paintNode_eq hs hnode hfront, bind_eq_ok] at hcall
  obtain ⟨⟨clip, q⟩, hclip, hrest⟩ := hcall
  obtain ⟨hlt, rfl, rfl⟩ := h.pushClip hclip
  have hclips : p.clips ++ [⟨clipAt front.length, t.clipOf scene.viewport id⟩] =
      ⟨⟨0⟩, scene.viewport⟩ ::
        (front ++ [id]).mapIdx fun i id => ⟨clipAt i, t.clipOf scene.viewport id⟩ := by
    rw [h.clips, List.mapIdx_concat, List.cons_append]
  have hnodes : p.nodeClips ++ [(id, clipAt front.length)] =
      (front ++ [id]).mapIdx fun i id => (id, clipAt i) := by
    rw [h.nodeClips, List.mapIdx_concat]
  have hitems : (List.mapIdx (fun i id => itemsOf scene t id (clipAt i)) (front ++ [id])).flatten =
      p.items ++ itemsOf scene t id (clipAt front.length) := by
    rw [List.mapIdx_concat, List.flatten_append, ← h.items, List.flatten_singleton]
  have hsmall : (front ++ [id]).length < 2 ^ 32 := by
    rw [List.length_append]
    exact hlt
  have hlast {m : UiNodeId} {node' : UiNode F} (hm : m ∈ front ++ [id])
      (hnode' : t.lookup m = some node') (hpaints : Paints scene.viewport t m node')
      (hid : Paints scene.viewport t id node →
        ∃ kind, paintKind scene id node.content node.rect = .ok kind) :
      ∃ kind, paintKind scene m node'.content node'.rect = .ok kind := by
    rcases List.mem_append.mp hm with hm | hm
    · exact h.painted hm hnode' hpaints
    · obtain rfl := List.mem_singleton.mp hm
      obtain rfl := Option.some.inj (hnode.symm.trans hnode')
      exact hid hpaints
  dsimp only at hrest
  split at hrest
  · next hpaints =>
    obtain ⟨kind, hkind, rfl⟩ := Painter.paintContent_ok hrest
    refine ⟨hsmall, hclips, hnodes, ?_, fun hm hnode' hp =>
      hlast hm hnode' hp fun _ => ⟨kind, hkind⟩⟩
    rw [hitems, itemsOf_eq hnode hpaints hkind]
  · next hnot =>
    obtain rfl := Except.ok.inj hrest
    refine ⟨hsmall, hclips, hnodes, ?_, fun hm hnode' hp =>
      hlast hm hnode' hp fun hp => absurd hp hnot⟩
    rw [hitems, itemsOf_of_not hnode hnot, List.append_nil]

/-! ## The whole walk -/

/-- **All of them.** -/
theorem Walked.paintNodes {scene : Scene F} {t : UiTree F} (hs : t.Shape)
    {order front back : List UiNodeId} {p p' : Painter F}
    (horder : Preorder t.links t.root order) (hsplit : order = front ++ back)
    (h : Walked scene t front p) (hcall : Painter.paintNodes scene t back p = .ok p') :
    Walked scene t order p' := by
  induction back generalizing front p with
  | nil =>
    obtain rfl := Except.ok.inj hcall
    rw [hsplit, List.append_nil]
    exact h
  | cons id back ih =>
    simp only [Painter.paintNodes, bind_eq_ok] at hcall
    obtain ⟨q, hnext, hrest⟩ := hcall
    obtain ⟨node, hnode, -, hfront⟩ := hs.parent_before horder hsplit
    exact ih (by rw [hsplit, List.append_assoc, List.singleton_append])
      (h.step hs hnode hfront hnext) hrest

/-- **A list that was built**: its clips and items are those of the preorder. -/
theorem build_walked {scene : Scene F} {t : UiTree F} (hs : t.Shape) {list : UiPaintList F}
    {plan : UiUploadPlan} (h : buildWithResources scene t = .ok (list, plan)) :
    ∃ order p, t.preorder scene.room.tree = .ok order ∧ Preorder t.links t.root order ∧
      Walked scene t order p ∧ list.items = p.items ∧ list.clips = p.clips := by
  simp only [buildWithResources, bind_eq_ok, monadLift_eq_ok] at h
  obtain ⟨_, -, order, horder, p, hstart, q, hwalk, hfinish⟩ := h
  obtain ⟨hitems, hclips, -⟩ := finishBuild_cut hfinish
  have hpre := hs.preorder_ok horder
  have hwalked := Walked.paintNodes hs hpre rfl (.start hstart) hwalk
  exact ⟨order, q, horder, hpre, hwalked, hitems, hclips⟩

/-- A scene with small budgets. -/
def smallScene : Scene Float32 :=
  ⟨⟨⟨8, 4096⟩, 16, 8, 8, by decide⟩, .ample, ⟨0, 0, 320, 200⟩, none⟩

end Ui
end EngineKit
