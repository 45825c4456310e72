import EngineKit.Ui.Exact
import EngineKit.Ui.Painted
import EngineKit.Ui.TreeRuns

/-!
# What a built list shows of a node

The walk cuts a node's clip out of its parent's, which it finds in the list it is building. Read
exactly, the outcome needs no list: the clip of a node is the part of the viewport that lies in
its rectangle and in those of all nodes above it (`Shape.region_clipOf`), and a visible node has
items when there is such a part (`clip_law`).

Visibility is not passed down in this way. `build_with_resources` asks a node for its own flag
alone, so a visible node below a hidden one is painted: `hidden_iff` says for which trees no item
belongs to a hidden subtree, and `hidden_parent_shows` that there are others. Hit testing asks
every ancestor.

A clip is a rectangle to the code and a set here. Intersections of rectangles are computed with
maxima and minima, and in exact arithmetic they are the intersections of the sets; that is the only
reason why the law is about rational coordinates. With it the order in which the clips were cut does
not matter, and what is seen of a node can be said for each node above it by itself (`UiTree.seen`).
-/

set_option autoImplicit false

namespace EngineKit
namespace Ui

open Lib

/-! ## Items by node -/

section Groups

variable {F : Type} [Coord F] {scene : Scene F} {t : UiTree F} {list : UiPaintList F}
  {plan : UiUploadPlan}

/-- What a built list holds of one node of the preorder: its items carry its clip, and there are
    some when it is painted. -/
structure Group (scene : Scene F) (t : UiTree F) (list : UiPaintList F) (id : UiNodeId)
    (items : List (PaintItem F)) : Prop where
  node : ∀ item ∈ items, item.node = id
  clip : ∀ item ∈ items,
    list.clips[item.clip.raw.toNat]? = some ⟨item.clip, t.clipOf scene.viewport id⟩
  painted : ∃ node, t.lookup id = some node ∧ (items ≠ [] ↔ Paints scene.viewport t id node)

/-- **The items of a built list**, node by node in preorder. -/
theorem build_groups (hs : t.Shape) (h : buildWithResources scene t = .ok (list, plan)) :
    ∃ (order : List UiNodeId) (group : UiNodeId → List (PaintItem F)),
      t.preorder scene.room.tree = .ok order ∧ Preorder t.links t.root order ∧
        list.items = order.flatMap group ∧ ∀ id ∈ order, Group scene t list id (group id) := by
  obtain ⟨order, p, horder, hpre, hwalked, hitems, hclips⟩ := build_walked hs h
  refine ⟨order, fun id => itemsOf scene t id (clipAt (order.idxOf id)), horder, hpre, ?_, ?_⟩
  · have hindex : order.mapIdx (fun i id => itemsOf scene t id (clipAt i))
        = order.map fun id => itemsOf scene t id (clipAt (order.idxOf id)) := by
      apply List.ext_getElem (by simp)
      intro i hi hi'
      simp [hpre.nodup.idxOf_getElem]
    rw [hitems, hwalked.items, hindex, List.flatMap]
  · intro id hid
    obtain ⟨j, hj⟩ := (hpre.mem _).mp hid
    obtain ⟨node, hnode⟩ := hs.live_of_climb hj
    refine ⟨?_, ?_, node, hnode, ?_⟩
    · intro item hitem
      exact (mem_itemsOf hitem).1
    · intro item hitem
      rw [(mem_itemsOf hitem).2.1, hclips]
      exact hwalked.clip_getElem? (List.getElem?_idxOf hid)
    · constructor
      · intro hne
        obtain ⟨item, hitem⟩ := List.exists_mem_of_ne_nil _ hne
        obtain ⟨-, -, node', hnode', hpaints⟩ := mem_itemsOf hitem
        obtain rfl := Option.some.inj (hnode.symm.trans hnode')
        exact hpaints
      · intro hpaints
        obtain ⟨kind, hkind⟩ := hwalked.painted hid hnode hpaints
        show itemsOf scene t id (clipAt (order.idxOf id)) ≠ []
        rw [itemsOf_eq hnode hpaints hkind]
        exact List.cons_ne_nil _ _

/-- A node has an item exactly when it is live and painted. -/
theorem exists_item_iff (hs : t.Shape) (h : buildWithResources scene t = .ok (list, plan))
    (id : UiNodeId) :
    (∃ item ∈ list.items, item.node = id) ↔
      ∃ node, t.lookup id = some node ∧ Paints scene.viewport t id node := by
  obtain ⟨order, group, -, hpre, hitems, hgroup⟩ := build_groups hs h
  constructor
  · intro hitem
    obtain ⟨item, hitem, rfl⟩ := hitem
    rw [hitems] at hitem
    obtain ⟨id, hid, hin⟩ := List.mem_flatMap.mp hitem
    obtain ⟨node, hnode, hpaints⟩ := (hgroup id hid).painted
    rw [(hgroup id hid).node item hin]
    exact ⟨node, hnode, hpaints.mp (List.ne_nil_of_mem hin)⟩
  · intro hnode
    obtain ⟨node, hnode, hpaints⟩ := hnode
    obtain ⟨d, -, hd⟩ := hs.depth_lt hnode
    have hid : id ∈ order := (hpre.mem id).mpr ⟨d, hd⟩
    obtain ⟨node', hnode', hiff⟩ := (hgroup id hid).painted
    obtain rfl := Option.some.inj (hnode.symm.trans hnode')
    obtain ⟨item, hitem⟩ := List.exists_mem_of_ne_nil _ (hiff.mpr hpaints)
    refine ⟨item, ?_, (hgroup id hid).node item hitem⟩
    rw [hitems]
    exact List.mem_flatMap.mpr ⟨id, hid, hitem⟩

end Groups

/-! ## Clips as sets -/

section Exact

/-- The part of the viewport that lies in the rectangles of a node and of all nodes above it. -/
def UiTree.seen (viewport : UiRect ℚ) (t : UiTree ℚ) (id : UiNodeId) : Set (ℚ × ℚ) :=
  viewport.region ∩
    {p | ∀ a d node, Climb (parentOf t.links) id a d → t.lookup a = some node →
      p ∈ node.rect.region}

/-- What is seen of a node is what is seen of its parent, within its rectangle. -/
theorem UiTree.seen_eq {t : UiTree ℚ} (viewport : UiRect ℚ) {id : UiNodeId} {node : UiNode ℚ}
    (hnode : t.lookup id = some node) :
    t.seen viewport id =
      (node.parent.map (t.seen viewport)).getD viewport.region ∩ node.rect.region := by
  have hparent := parentOf_links hnode
  -- The root is cut out of the viewport, and any other node out of its parent's part.
  cases hp : node.parent with
  | none =>
    rw [hp] at hparent
    ext p
    simp only [seen, Option.map_none, Option.getD_none, Set.mem_inter_iff, Set.mem_ofPred_eq]
    apply and_congr_right
    intro _
    constructor
    · intro hall
      exact hall id 0 node (.here id) hnode
    · intro hin a d other hclimb hother
      obtain rfl := hclimb.eq_of_top hparent
      obtain rfl := Option.some.inj (hnode.symm.trans hother)
      exact hin
  | some q =>
    rw [hp] at hparent
    ext p
    simp only [seen, Option.map_some, Option.getD_some, Set.mem_inter_iff, Set.mem_ofPred_eq]
    rw [and_assoc]
    apply and_congr_right
    intro _
    constructor
    · intro hall
      exact ⟨fun a d other hclimb hother => hall a (d + 1) other (.up hparent hclimb) hother,
        hall id 0 node (.here id) hnode⟩
    · intro hboth a d other hclimb hother
      -- The node itself, or one above its parent.
      cases hclimb with
      | here =>
        obtain rfl := Option.some.inj (hnode.symm.trans hother)
        exact hboth.2
      | up step rest =>
        obtain rfl := Option.some.inj (step.symm.trans hparent)
        exact hboth.1 a _ other rest hother

/-- **The clip of a node is what is seen of it**, by induction on its depth. -/
theorem UiTree.Shape.region_clipOf {t : UiTree ℚ} (hs : t.Shape) (viewport : UiRect ℚ)
    {id : UiNodeId} {d : Nat} (hd : Climb (parentOf t.links) id t.root d) :
    (t.clipOf viewport id).region = t.seen viewport id := by
  -- On the depth: a node's clip is cut out of the clip of its parent.
  induction d generalizing id with
  | zero =>
    obtain ⟨node, hnode⟩ := hs.live_of_climb hd
    have hparent := parentOf_links hnode
    cases hd with
    | here =>
      rw [hs.tree.root_parent] at hparent
      rw [hs.clipOf_eq viewport hnode, UiTree.seen_eq viewport hnode, ← hparent,
        UiRect.region_intersect]
      rfl
  | succ d ih =>
    obtain ⟨node, hnode⟩ := hs.live_of_climb hd
    have hparent := parentOf_links hnode
    cases hd with
    | up step rest =>
      rw [step] at hparent
      rw [hs.clipOf_eq viewport hnode, UiTree.seen_eq viewport hnode, ← hparent,
        UiRect.region_intersect]
      simp only [Option.map_some, Option.getD_some, ih rest]

/-- A clip is never of negative size. -/
theorem UiTree.Shape.sane_clipOf {t : UiTree ℚ} (hs : t.Shape) (viewport : UiRect ℚ)
    {id : UiNodeId} {node : UiNode ℚ} (hnode : t.lookup id = some node) :
    (t.clipOf viewport id).sane = true := by
  rw [hs.clipOf_eq viewport hnode]
  exact UiRect.sane_intersect _ _

/-- A node is painted when it is visible and some of it is seen. -/
theorem paints_iff_seen {t : UiTree ℚ} (hs : t.Shape) (viewport : UiRect ℚ) {id : UiNodeId}
    {node : UiNode ℚ} (hnode : t.lookup id = some node) :
    Paints viewport t id node ↔
      node.content.visible = true ∧ (t.seen viewport id).Nonempty := by
  obtain ⟨d, -, hd⟩ := hs.depth_lt hnode
  rw [Paints, zero_rat, not_le, UiRect.area_pos_iff (hs.sane_clipOf viewport hnode),
    hs.region_clipOf viewport hd]

/-- **The clip law.** The items of a built list come in the preorder of their nodes. The clip an
    item names is in the table and is, as a set, what is seen of its node, which is not empty; and
    a visible node has items exactly when that set is a rectangle with an area. -/
theorem clip_law {room : Room} {config : TreeConfig} {t₀ : UiTree ℚ}
    (h₀ : UiTree.tryNew room config = .ok t₀) (calls : List (TreeCall ℚ)) {scene : Scene ℚ}
    {list : UiPaintList ℚ} {plan : UiUploadPlan}
    (h : buildWithResources scene (runCalls t₀ calls) = .ok (list, plan)) :
    ∃ (order : List UiNodeId) (group : UiNodeId → List (PaintItem ℚ)),
      (runCalls t₀ calls).preorder scene.room.tree = .ok order ∧
        Preorder (runCalls t₀ calls).links (runCalls t₀ calls).root order ∧
        list.items = order.flatMap group ∧
        ∀ id ∈ order, ∃ node rect, (runCalls t₀ calls).lookup id = some node ∧
          rect.region = (runCalls t₀ calls).seen scene.viewport id ∧
          (∀ item ∈ group id, item.node = id ∧
            list.clips[item.clip.raw.toNat]? = some ⟨item.clip, rect⟩ ∧ rect.region.Nonempty) ∧
          (node.content.visible = true → (group id ≠ [] ↔ 0 < rect.area)) := by
  have hs : (runCalls t₀ calls).Shape := runCalls_shape h₀ calls
  obtain ⟨order, group, horder, hpre, hitems, hgroup⟩ := build_groups hs h
  refine ⟨order, group, horder, hpre, hitems, ?_⟩
  intro id hid
  obtain ⟨d, hd⟩ := (hpre.mem id).mp hid
  obtain ⟨node, hnode, hpainted⟩ := (hgroup id hid).painted
  have hregion := hs.region_clipOf scene.viewport hd
  have hsane := hs.sane_clipOf scene.viewport hnode
  rw [paints_iff_seen hs scene.viewport hnode] at hpainted
  refine ⟨node, (runCalls t₀ calls).clipOf scene.viewport id, hnode, hregion, ?_, ?_⟩
  · intro item hitem
    refine ⟨(hgroup id hid).node item hitem, (hgroup id hid).clip item hitem, ?_⟩
    rw [hregion]
    exact (hpainted.mp (List.ne_nil_of_mem hitem)).2
  · intro hvisible
    rw [hpainted, UiRect.area_pos_iff hsane, hregion]
    exact and_iff_right hvisible

/-- Two panels, the inner one partly outside the outer one. -/
def nestedPanels : List (TreeCall ℚ) :=
  [.create .ample ⟨0, 1⟩ (.new .panel), .create .ample ⟨1, 1⟩ (.new .panel),
    .setRect ⟨0, 1⟩ ⟨0, 0, 320, 200⟩, .setRect ⟨1, 1⟩ ⟨10, 10, 50, 50⟩,
    .setRect ⟨2, 1⟩ ⟨40, 40, 50, 50⟩]

/-- A scene with small budgets, in exact coordinates. -/
def exactScene : Scene ℚ := ⟨⟨⟨8, 4096⟩, 17, 8, 8, by decide⟩, .ample, ⟨0, 0, 320, 200⟩, none⟩

/-- What of the inner panel is within the outer one is clipped to 20 pixels. -/
theorem clip_law_nested : ∃ (t₀ : UiTree ℚ) (list : UiPaintList ℚ) (plan : UiUploadPlan),
    UiTree.tryNew .ample ⟨4, 4, 16⟩ = .ok t₀ ∧
      buildWithResources exactScene (runCalls t₀ nestedPanels) = .ok (list, plan) ∧
      (list.clips.map fun clip => (clip.rect.x, clip.rect.width)) =
        [(0, 320), (0, 320), (10, 50), (40, 20)] ∧
      ∃ (order : List UiNodeId) (group : UiNodeId → List (PaintItem ℚ)),
        (runCalls t₀ nestedPanels).preorder exactScene.room.tree = .ok order ∧
          list.items = order.flatMap group := by
  obtain ⟨t₀, h₀⟩ : ∃ t₀ : UiTree ℚ, UiTree.tryNew .ample ⟨4, 4, 16⟩ = .ok t₀ := ⟨_, rfl⟩
  have hbuilt : (buildWithResources exactScene (runCalls t₀ nestedPanels)).toOption.any
      (fun built => decide ((built.1.clips.map fun clip => (clip.rect.x, clip.rect.width)) =
        [(0, 320), (0, 320), (10, 50), (40, 20)])) = true := by
    obtain rfl := Except.ok.inj h₀
    decide +kernel
  obtain ⟨⟨list, plan⟩, hbuild, hclips⟩ := ok_of_any hbuilt
  obtain ⟨order, group, horder, -, hitems, -⟩ := clip_law h₀ nestedPanels hbuild
  exact ⟨t₀, list, plan, h₀, hbuild, of_decide_eq_true hclips, order, group, horder, hitems⟩

end Exact

/-! ## Hidden subtrees

The flag of a node is asked when the node is painted, and nobody asks those above it. So what hides
a subtree is the clip or nothing, and the condition is that it does.
-/

section Hidden

variable {F : Type} [Coord F]

/-- The node and everything above it is visible. -/
def UiTree.Exposed (t : UiTree F) (id : UiNodeId) : Prop :=
  ∀ a d node, Climb (parentOf t.links) id a d → t.lookup a = some node →
    node.content.visible = true

/-- **When a hidden node hides its subtree**, for every tree a run can leave and every list built
    of it: exactly when every visible node with something hidden above it is clipped away. -/
theorem hidden_iff {room : Room} {config : TreeConfig} {t₀ : UiTree F}
    (h₀ : UiTree.tryNew room config = .ok t₀) (calls : List (TreeCall F)) {scene : Scene F}
    {list : UiPaintList F} {plan : UiUploadPlan}
    (h : buildWithResources scene (runCalls t₀ calls) = .ok (list, plan)) :
    (∀ item ∈ list.items, (runCalls t₀ calls).Exposed item.node) ↔
      ∀ id node, (runCalls t₀ calls).lookup id = some node → node.content.visible = true →
        ¬ (runCalls t₀ calls).Exposed id →
          ((runCalls t₀ calls).clipOf scene.viewport id).area ≤ Scalar.zero := by
  have hs : (runCalls t₀ calls).Shape := runCalls_shape h₀ calls
  constructor
  · intro hall id node hnode hvisible hhidden
    by_contra harea
    obtain ⟨item, hitem, rfl⟩ := (exists_item_iff hs h id).mpr ⟨node, hnode, hvisible, harea⟩
    exact hhidden (hall item hitem)
  · intro hclipped item hitem
    obtain ⟨node, hnode, hvisible, harea⟩ := (exists_item_iff hs h item.node).mp ⟨item, hitem, rfl⟩
    by_contra hhidden
    exact harea (hclipped item.node node hnode hvisible hhidden)

/-- A panel, hidden, and one in it. -/
def hiddenParent : List (TreeCall Float32) :=
  [.create .ample ⟨0, 1⟩ (.new .panel), .create .ample ⟨1, 1⟩ (.new .panel),
    .command .ample (.setVisible ⟨1, 1⟩ false), .setRect ⟨0, 1⟩ ⟨0, 0, 320, 200⟩,
    .setRect ⟨1, 1⟩ ⟨0, 0, 100, 100⟩, .setRect ⟨2, 1⟩ ⟨0, 0, 100, 100⟩]

/-- **A hidden node does not hide its subtree**: the panel inside is painted. -/
theorem hidden_parent_shows : ∃ (t₀ : UiTree Float32) (list : UiPaintList Float32)
    (plan : UiUploadPlan), UiTree.tryNew .ample ⟨4, 4, 16⟩ = .ok t₀ ∧
      buildWithResources smallScene (runCalls t₀ hiddenParent) = .ok (list, plan) ∧
      list.items.map PaintItem.node = [⟨0, 1⟩, ⟨2, 1⟩] ∧
      (runCalls t₀ hiddenParent).up ⟨2, 1⟩ = some ⟨1, 1⟩ ∧
      ((runCalls t₀ hiddenParent).lookup ⟨1, 1⟩).map (fun node => node.content.visible)
        = some false ∧
      ¬ ∀ item ∈ list.items, (runCalls t₀ hiddenParent).Exposed item.node := by
  obtain ⟨t₀, h₀⟩ : ∃ t₀ : UiTree Float32, UiTree.tryNew .ample ⟨4, 4, 16⟩ = .ok t₀ := ⟨_, rfl⟩
  have hrun : (buildWithResources smallScene (runCalls t₀ hiddenParent)).toOption.any
        (fun built => decide (built.1.items.map PaintItem.node = [⟨0, 1⟩, ⟨2, 1⟩])) = true ∧
      (runCalls t₀ hiddenParent).up ⟨2, 1⟩ = some ⟨1, 1⟩ ∧
      ((runCalls t₀ hiddenParent).lookup ⟨1, 1⟩).map (fun node => node.content.visible)
        = some false := by
    obtain rfl := Except.ok.inj h₀
    decide +kernel
  obtain ⟨hbuilt, hup, hhidden⟩ := hrun
  obtain ⟨⟨list, plan⟩, hbuild, hnodes⟩ := ok_of_any hbuilt
  have hnodes := of_decide_eq_true hnodes
  refine ⟨t₀, list, plan, h₀, hbuild, hnodes, hup, hhidden, ?_⟩
  intro hall
  have hmem : (⟨2, 1⟩ : UiNodeId) ∈ list.items.map PaintItem.node := by
    rw [hnodes]
    decide
  obtain ⟨item, hitem, hnode⟩ := List.mem_map.mp hmem
  obtain ⟨parent, hparent, hflag⟩ := Option.map_eq_some_iff.mp hhidden
  rw [UiTree.up_eq] at hup
  have hvisible := hall item hitem ⟨1, 1⟩ 1 parent (hnode ▸ .up hup (.here _)) hparent
  rw [hflag] at hvisible
  cases hvisible

/-- A hidden panel, and one inside it that lies beside it. -/
def hiddenBeside : List (TreeCall Float32) :=
  [.create .ample ⟨0, 1⟩ (.new .panel), .create .ample ⟨1, 1⟩ (.new .panel),
    .command .ample (.setVisible ⟨1, 1⟩ false), .setRect ⟨0, 1⟩ ⟨0, 0, 320, 200⟩,
    .setRect ⟨1, 1⟩ ⟨0, 0, 100, 100⟩, .setRect ⟨2, 1⟩ ⟨200, 0, 100, 100⟩]

/-- The inner one is clipped away, so only the root is painted. -/
theorem hidden_iff_nested : ∃ (t₀ : UiTree Float32) (list : UiPaintList Float32)
    (plan : UiUploadPlan), UiTree.tryNew .ample ⟨4, 4, 16⟩ = .ok t₀ ∧
      buildWithResources smallScene (runCalls t₀ hiddenBeside) = .ok (list, plan) ∧
      list.items.map PaintItem.node = [⟨0, 1⟩] ∧
      (∀ item ∈ list.items, (runCalls t₀ hiddenBeside).Exposed item.node) ∧
      ¬ (runCalls t₀ hiddenBeside).Exposed ⟨2, 1⟩ ∧
      ((runCalls t₀ hiddenBeside).clipOf smallScene.viewport ⟨2, 1⟩).area ≤ Scalar.zero := by
  obtain ⟨t₀, h₀⟩ : ∃ t₀ : UiTree Float32, UiTree.tryNew .ample ⟨4, 4, 16⟩ = .ok t₀ := ⟨_, rfl⟩
  have hrun : (buildWithResources smallScene (runCalls t₀ hiddenBeside)).toOption.any
        (fun built => decide (built.1.items.map PaintItem.node = [⟨0, 1⟩])) = true ∧
      ((runCalls t₀ hiddenBeside).up ⟨0, 1⟩ = none ∧
        (runCalls t₀ hiddenBeside).up ⟨2, 1⟩ = some ⟨1, 1⟩) ∧
      ([⟨0, 1⟩, ⟨1, 1⟩, ⟨2, 1⟩].map fun id => ((runCalls t₀ hiddenBeside).lookup id).map
        fun node => node.content.visible) = [some true, some false, some true] := by
    obtain rfl := Except.ok.inj h₀
    decide +kernel
  obtain ⟨hbuilt, ⟨htop, hup⟩, hflags⟩ := hrun
  rw [UiTree.up_eq] at htop hup
  simp only [List.map_cons, List.map_nil, List.cons.injEq, and_true] at hflags
  obtain ⟨hroot, houter, hinner⟩ := hflags
  obtain ⟨⟨list, plan⟩, hbuild, hnodes⟩ := ok_of_any hbuilt
  have hnodes := of_decide_eq_true hnodes
  have hall : ∀ item ∈ list.items, (runCalls t₀ hiddenBeside).Exposed item.node := by
    intro item hitem a d node hclimb hnode
    have hmem := List.mem_map_of_mem (f := PaintItem.node) hitem
    rw [hnodes, List.mem_singleton] at hmem
    rw [hmem] at hclimb
    rw [hclimb.eq_of_top htop] at hnode
    rw [hnode] at hroot
    exact Option.some.inj hroot
  have hhidden : ¬ (runCalls t₀ hiddenBeside).Exposed ⟨2, 1⟩ := by
    intro hexposed
    obtain ⟨outer, houter, hflag⟩ := Option.map_eq_some_iff.mp houter
    exact absurd ((hexposed ⟨1, 1⟩ 1 outer (.up hup (.here _)) houter).symm.trans hflag) (by decide)
  obtain ⟨inner, hinner, hvisible⟩ := Option.map_eq_some_iff.mp hinner
  exact ⟨t₀, list, plan, h₀, hbuild, hnodes, hall, hhidden,
    (hidden_iff h₀ hiddenBeside hbuild).mp hall ⟨2, 1⟩ inner hinner hvisible hhidden⟩

end Hidden

end Ui
end EngineKit
