import EngineKit.Ui.Layout

/-!
# What a layout writes

The second pass writes rectangles and clears dirty flags, and nothing else (`Relaid`). A node is
`Settled` when it is clean and has the rectangle the pass would give it. Since the preorder lists a
node's parent and its earlier siblings first, what the pass reads for a node is not written again,
and so the nodes it has been through are settled in the tree it leaves, also when it stops at an
error (`layoutNodes_spec`).

`Settled` is about the tree a pass leaves, and is not read off the pass: the place is computed
again, in the tree as it is, and compared with what is written there. So the same word says what a
pass has done (`layoutTree_spec`) and what it would do if it were called once more
(`NothingToWrite`), and the condition of `layout_error_keeps_iff` speaks of the tree before the call
only. `SettledUntil` stops where a place fails because the pass does: it reads nothing behind that
node, and writes nothing.
-/

set_option autoImplicit false

namespace EngineKit
namespace Ui

open Lib

variable {F : Type}

namespace UiTree

/-! ## Reading through links -/

theorem parent_of_links (t : UiTree F) (id : UiNodeId) :
    t.parent id = match t.links id with
      | some l => .ok l.parent
      | none => .error .invalidNode := by
  unfold UiTree.parent UiTree.node links
  cases t.lookup id <;> rfl

theorem children_of_links (t : UiTree F) (id : UiNodeId) :
    t.children id = match t.links id with
      | some l => .ok l.children
      | none => .error .invalidNode := by
  unfold UiTree.children UiTree.node links
  cases t.lookup id <;> rfl

theorem isDirty_eq {t : UiTree F} {id : UiNodeId} {node : UiNode F} (h : t.lookup id = some node) :
    t.isDirty id = .ok node.dirty := by
  rw [isDirty, node_eq_ok.mpr h]
  rfl

/-- A write that leaves the links and the contents: of rects and dirty flags. -/
structure Relaid (t t' : UiTree F) : Prop extends Kept t t' where
  content (x : UiNodeId) : t'.content x = t.content x

theorem Relaid.refl (t : UiTree F) : t.Relaid t := ⟨.refl t, fun _ => rfl⟩

theorem Relaid.trans {t u v : UiTree F} (h : t.Relaid u) (h' : u.Relaid v) : t.Relaid v :=
  ⟨h.toKept.trans h'.toKept, fun x => (h'.content x).trans (h.content x)⟩

theorem lookup_rewrite {t : UiTree F} {id : UiNodeId} {node : UiNode F}
    (hnode : t.lookup id = some node) (rect : UiRect F) (dirty : Bool) (x : UiNodeId) :
    (t.setNode { node with rect, dirty }).lookup x =
      if x = node.id then some { node with rect, dirty } else t.lookup x := by
  have hold : t.lookup node.id = some node := by rw [lookup_id hnode, hnode]
  exact @lookup_setNode F t { node with rect, dirty } node hold x

theorem Relaid.setNode {t : UiTree F} {id : UiNodeId} {node : UiNode F}
    (hnode : t.lookup id = some node) (rect : UiRect F) (dirty : Bool) :
    t.Relaid (t.setNode { node with rect, dirty }) := by
  have hold : t.lookup node.id = some node := by rw [lookup_id hnode, hnode]
  refine ⟨.setNode hold rfl, ?_⟩
  intro x
  have hlookup := lookup_rewrite hnode rect dirty x
  by_cases hx : x = node.id
  · rw [if_pos hx] at hlookup
    rw [content_eq hlookup, hx, content_eq hold]
  · rw [if_neg hx] at hlookup
    unfold UiTree.content UiTree.node
    rw [hlookup]

/-- Writing a node as it is changes nothing. -/
theorem setNode_self {t : UiTree F} {id : UiNodeId} {node : UiNode F}
    (hnode : t.lookup id = some node) : t.setNode node = t := by
  obtain ⟨hslot, rfl⟩ := lookup_eq_some.mp hnode
  obtain ⟨hlt, hget⟩ := List.getElem?_eq_some_iff.mp hslot
  have hset : t.slots.set node.id.index.toNat (some node) = t.slots := by
    rw [← hget, List.set_getElem_self]
  rw [setNode, hset]

variable [Coord F]

/-- A write of a sane rectangle. -/
theorem setRect_eq {t : UiTree F} {id : UiNodeId} {node : UiNode F}
    (hnode : t.lookup id = some node) {rect : UiRect F} (hrect : rect.sane = true) :
    t.setRect id rect = (.ok (), t.setNode { node with rect, dirty := false }) := by
  rw [setRect, if_neg (by simp [hrect]), nodeMut, node_eq_ok.mpr hnode]

/-! ## What a place is read from

The rectangle of a node depends on the node's style and measure, on its parent's rectangle and
style, and on the rectangles of the siblings before it. All of them stand in front of it in the
preorder, so a write to a later node does not change it (`Relaid.placeNode`).
-/

/-- Where a row or a column goes on, after the siblings before it. -/
theorem offset_congr {t t' : UiTree F} (style : UiStyle F) {siblings : List UiNodeId} (sum : F)
    (h : ∀ y ∈ siblings, t'.rect y = t.rect y) :
    t'.offset style siblings sum = t.offset style siblings sum := by
  induction siblings generalizing sum with
  | nil => rfl
  | cons y siblings ih =>
    unfold offset
    rw [h y List.mem_cons_self]
    cases t.rect y with
    | error e => rfl
    | ok rect => exact ih _ fun x hx => h x (List.mem_cons_of_mem y hx)

theorem take_idxOf {α : Type} [DecidableEq α] {before after : List α} {a : α} (h : a ∉ before) :
    (before ++ a :: after).take ((before ++ a :: after).idxOf a) = before := by
  rw [List.idxOf_append_of_notMem h, List.idxOf_cons_self, Nat.add_zero, List.take_left]

/-- A node and the siblings around it, as layout finds them. -/
structure Sits (t : UiTree F) (id : UiNodeId) (node : UiNode F) (p : UiNodeId) (parent : UiNode F)
    (before after : List UiNodeId) : Prop where
  live : t.lookup id = some node
  up : node.parent = some p
  above : t.lookup p = some parent
  listed : parent.children = before ++ id :: after
  notMem : id ∉ before

omit [Coord F] in
theorem Shape.sits_of_children {t : UiTree F} (hs : t.Shape) {id p : UiNodeId} {parent : UiNode F}
    {before after : List UiNodeId} (hparent : t.lookup p = some parent)
    (hchildren : parent.children = before ++ id :: after) :
    ∃ node, t.Sits id node p parent before after := by
  have hl : t.links p = some parent.link := links_eq_some.mpr ⟨parent, hparent, rfl⟩
  have hup := hs.tree.child hl (show id ∈ parent.children by simp [hchildren])
  obtain ⟨node, hnode⟩ := live_iff.mp (IsTree.live_of_parent hup)
  have hnodup : parent.children.Nodup := hs.tree.nodup hl
  rw [hchildren] at hnodup
  refine ⟨node, hnode, ?_, hparent, hchildren, ?_⟩
  · rw [← parentOf_links hnode, hup]
  · intro hin
    exact (List.nodup_append.mp hnodup).2.2 id hin id List.mem_cons_self rfl

omit [Coord F] in
theorem Shape.sits {t : UiTree F} (hs : t.Shape) {front : List UiNodeId} {id : UiNodeId}
    (h : Follows t.links front id) :
    ∃ node p parent before after, t.Sits id node p parent before after ∧ p :: before ⊆ front := by
  obtain ⟨p, l, before, after, hl, hchildren, hfront⟩ := h
  obtain ⟨parent, hparent, rfl⟩ := links_eq_some.mp hl
  obtain ⟨node, hsits⟩ := hs.sits_of_children hparent hchildren
  exact ⟨node, p, parent, before, after, hsits, hfront⟩

/-- **The place of a node**, once its parent and its siblings are known. -/
theorem Sits.placeNode_eq {t : UiTree F} {id p : UiNodeId} {node parent : UiNode F}
    {before after : List UiNodeId} (h : t.Sits id node p parent before after)
    (intrinsic : Intrinsic F) :
    t.placeNode intrinsic id = (do
      failIf (node.content.sane = false) .invalidValue
      let inner := innerRect parent.content.style parent.rect
      let (main, cross) ← childSizes parent.content.style node.content.style inner
        (intrinsicOf intrinsic id) parent.children.length
      let offset ← t.offset parent.content.style before Scalar.zero
      .ok (childRect parent.content.style node.content.style inner offset main cross)) := by
  have hmem : ¬ id ∉ parent.children := by simp [h.listed]
  have htake : parent.children.take (parent.children.idxOf id) = before := by
    rw [h.listed]
    exact take_idxOf h.notMem
  simp only [placeNode, parent_eq h.live, h.up, rect_eq h.above, children_eq h.above,
    content_eq h.live, content_eq h.above, liftM_ok, ok_bind, failIf, if_neg hmem, htake]

/-- What layout reads for a node: the links, the contents, and the rectangles in `front`. -/
theorem Relaid.placeNode {t t' : UiTree F} (h : t.Relaid t') (hs : t.Shape)
    {front : List UiNodeId} {id : UiNodeId} (hfront : Follows t.links front id)
    (hsame : ∀ y ∈ front, t'.rect y = t.rect y) (intrinsic : Intrinsic F) :
    t'.placeNode intrinsic id = t.placeNode intrinsic id := by
  obtain ⟨node, p, parent, before, after, hsits, hsub⟩ := hs.sits hfront
  have hparent : t'.parent id = t.parent id := by
    rw [parent_of_links, h.links, parent_of_links]
  have hchildren : t'.children p = t.children p := by
    rw [children_of_links, h.links, children_of_links]
  have hbefore (y : UiNodeId) (hy : y ∈ before) : t'.rect y = t.rect y :=
    hsame y (hsub (List.mem_cons_of_mem p hy))
  have hoffset := offset_congr parent.content.style Scalar.zero hbefore
  have hmem : ¬ id ∉ parent.children := by simp [hsits.listed]
  have htake : parent.children.take (parent.children.idxOf id) = before := by
    rw [hsits.listed]
    exact take_idxOf hsits.notMem
  rw [hsits.placeNode_eq]
  simp only [UiTree.placeNode, hparent, parent_eq hsits.live, hsits.up,
    hsame p (hsub List.mem_cons_self), rect_eq hsits.above, hchildren, children_eq hsits.above,
    h.content, content_eq hsits.live, content_eq hsits.above, liftM_ok, ok_bind, failIf,
    if_neg hmem, htake, hoffset]

/-! ## Settled nodes -/

/-- The rectangle layout gives a node, as the tree is now. -/
def placed (t : UiTree F) (intrinsic : Intrinsic F) (id : UiNodeId) :
    Except Failure (UiRect F) := do
  let rect ← t.placeNode intrinsic id
  failIf (rect.sane = false) .invalidValue
  .ok rect

/-- The node is clean and has that rectangle. -/
def Settled (t : UiTree F) (intrinsic : Intrinsic F) (id : UiNodeId) : Prop :=
  ∃ node, t.lookup id = some node ∧ node.dirty = false ∧
    t.placed intrinsic id = .ok node.rect

/-- The nodes of a list are settled, up to the first whose place fails. -/
def SettledUntil (t : UiTree F) (intrinsic : Intrinsic F) : List UiNodeId → Prop
  | [] => True
  | id :: ids =>
    (∃ e, t.placed intrinsic id = .error e) ∨
      (t.Settled intrinsic id ∧ t.SettledUntil intrinsic ids)

theorem Relaid.placed {t t' : UiTree F} (h : t.Relaid t') (hs : t.Shape)
    {front : List UiNodeId} {id : UiNodeId} (hfront : Follows t.links front id)
    (hsame : ∀ y ∈ front, t'.rect y = t.rect y) (intrinsic : Intrinsic F) :
    t'.placed intrinsic id = t.placed intrinsic id := by
  rw [UiTree.placed, h.placeNode hs hfront hsame, UiTree.placed]

/-- The place, if it can be computed and written. -/
theorem placed_eq_ok {t : UiTree F} {intrinsic : Intrinsic F} {id : UiNodeId} {rect : UiRect F} :
    t.placed intrinsic id = .ok rect ↔
      t.placeNode intrinsic id = .ok rect ∧ rect.sane = true := by
  simp only [placed, bind_eq_ok, monadLift_eq_ok, failIf_eq_ok, Bool.not_eq_false,
    Except.ok.injEq]
  constructor
  · intro h
    obtain ⟨_, hplace, _, hsane, rfl⟩ := h
    exact ⟨hplace, hsane⟩
  · intro h
    exact ⟨rect, h.1, (), h.2, rfl⟩

/-- **One round**: it fails and writes nothing, or the node is settled. -/
theorem layoutNode_cases {t : UiTree F} {id : UiNodeId} {node : UiNode F}
    (hnode : t.lookup id = some node) (intrinsic : Intrinsic F) (stats : LayoutStats) :
    (∃ e, t.placed intrinsic id = .error e ∧ layoutNode intrinsic stats id t = (.error e, t)) ∨
      ∃ rect stats', t.placed intrinsic id = .ok rect ∧
        layoutNode intrinsic stats id t =
          (.ok stats', t.setNode { node with rect, dirty := false }) := by
  unfold layoutNode placed
  cases t.placeNode intrinsic id with
  | error e => exact .inl ⟨e, rfl, rfl⟩
  | ok rect =>
    simp only [isDirty_eq hnode, ok_bind]
    cases hsane : rect.sane with
    | false =>
      refine .inl ⟨.err .invalidValue, rfl, ?_⟩
      rw [setRect, if_pos (by simp [hsane])]
      rfl
    | true =>
      rw [setRect_eq hnode hsane]
      exact .inr ⟨rect, _, rfl, rfl⟩

omit [Coord F] in
/-- A rectangle is read off the node. -/
theorem rect_congr {t t' : UiTree F} {id : UiNodeId} (h : t'.lookup id = t.lookup id) :
    t'.rect id = t.rect id := by
  rw [UiTree.rect, UiTree.node, h, UiTree.rect, UiTree.node]

/-- **The second pass**, from some node on: `seen` are the nodes before it. -/
theorem layoutNodes_spec {t t' : UiTree F} (hs : t.Shape) {seen ids : List UiNodeId}
    (hnd : ids.Nodup) (hfirst : SiblingsFirst t.links seen ids) (hapart : ∀ y ∈ seen, y ∉ ids)
    {intrinsic : Intrinsic F} {stats : LayoutStats} {result : Except Failure LayoutStats}
    (h : layoutNodes intrinsic stats ids t = (result, t')) :
    t.Relaid t' ∧ (∀ y, y ∉ ids → t'.lookup y = t.lookup y) ∧ t'.SettledUntil intrinsic ids ∧
      ∀ stats', result = .ok stats' → ∀ x ∈ ids, t'.Settled intrinsic x := by
  -- On the nodes to come; the tree, what has been seen and the counters change with each.
  induction ids generalizing t seen stats with
  | nil =>
    obtain ⟨-, rfl⟩ := Prod.mk.inj h
    exact ⟨.refl t, fun _ _ => rfl, trivial, fun _ _ _ hx => nomatch hx⟩
  | cons x xs ih =>
    obtain ⟨hfollows, hrest⟩ := hfirst
    obtain ⟨hx, hnd⟩ := List.nodup_cons.mp hnd
    obtain ⟨node, p, parent, before, after, hsits, -⟩ := hs.sits hfollows
    rw [layoutNodes] at h
    -- The round fails, and it stops here; or the node is settled, and no later round reads it anew.
    rcases layoutNode_cases hsits.live intrinsic stats with
      ⟨e, hplaced, hcall⟩ | ⟨rect, stats₁, hplaced, hcall⟩
    · rw [hcall] at h
      obtain ⟨rfl, rfl⟩ := Prod.mk.inj h
      exact ⟨.refl t, fun _ _ => rfl, .inl ⟨e, hplaced⟩, fun _ hok => nomatch hok⟩
    · rw [hcall] at h
      have hwrite := Relaid.setNode hsits.live rect false
      have hlookup := lookup_rewrite hsits.live rect false
      have hafter : ∀ y ∈ seen ++ [x], y ∉ xs := by
        intro y hy hin
        rcases List.mem_append.mp hy with hy | hy
        · exact hapart y hy (List.mem_cons_of_mem x hin)
        · exact hx (List.mem_singleton.mp hy ▸ hin)
      obtain ⟨hrelaid, hkeep, huntil, hdone⟩ :=
        ih (hwrite.shape hs) hnd (by rwa [hwrite.links]) hafter h
      have hback (y : UiNodeId) (hy : y ∉ x :: xs) : t'.lookup y = t.lookup y := by
        have hne : y ≠ node.id := lookup_id hsits.live ▸ List.ne_of_not_mem_cons hy
        rw [hkeep y (List.not_mem_of_not_mem_cons hy), hlookup, if_neg hne]
      have hsame (y : UiNodeId) (hy : y ∈ seen) : t'.rect y = t.rect y :=
        rect_congr (hback y (hapart y hy))
      have hsettled : t'.Settled intrinsic x := by
        refine ⟨{ node with rect, dirty := false }, ?_, rfl, ?_⟩
        · rw [hkeep x hx, hlookup, if_pos (lookup_id hsits.live).symm]
        · rw [(hwrite.trans hrelaid).placed hs hfollows hsame, hplaced]
      refine ⟨hwrite.trans hrelaid, hback, .inr ⟨hsettled, huntil⟩, ?_⟩
      intro stats' hok y hy
      rcases List.mem_cons.mp hy with rfl | hy
      · exact hsettled
      · exact hdone stats' hok y hy

/-- Where the nodes are settled already, the pass writes what is there. -/
theorem layoutNodes_settled {t : UiTree F} {intrinsic : Intrinsic F} {ids : List UiNodeId}
    (h : t.SettledUntil intrinsic ids) (hlive : ∀ x ∈ ids, ∃ node, t.lookup x = some node)
    (stats : LayoutStats) : (layoutNodes intrinsic stats ids t).2 = t := by
  -- On the nodes, up to the one that fails.
  induction ids generalizing stats with
  | nil => rfl
  | cons x xs ih =>
    obtain ⟨node, hnode⟩ := hlive x List.mem_cons_self
    rw [layoutNodes]
    rcases layoutNode_cases hnode intrinsic stats with
      ⟨e, -, hcall⟩ | ⟨rect, stats₁, hplaced, hcall⟩
    · rw [hcall]
      rfl
    · rcases h with ⟨e, herror⟩ | ⟨⟨node', hnode', hclean, hrect⟩, hrest⟩
      · rw [hplaced] at herror
        cases herror
      · obtain rfl := Option.some.inj (hnode.symm.trans hnode')
        obtain rfl := Except.ok.inj (hplaced.symm.trans hrect)
        have hself : { node with rect := node.rect, dirty := false } = node := by
          rw [← hclean]
        rw [hcall, hself, setNode_self hnode]
        exact ih hrest (fun y hy => hlive y (List.mem_cons_of_mem x hy)) stats₁

/-! ## A whole layout -/

theorem layoutChecks_eq_ok {t : UiTree F} {config : LayoutConfig F} {room : Room}
    {viewport : UiRect F} {order : List UiNodeId} {intrinsic : Intrinsic F}
    (h : t.layoutChecks config room viewport = .ok (order, intrinsic)) :
    viewport.sane = true ∧ t.preorder room = .ok order ∧
      measure config t order.reverse [] = .ok intrinsic := by
  simp only [layoutChecks, bind_eq_ok, monadLift_eq_ok, failIf_eq_ok, Bool.not_eq_false,
    Except.ok.injEq, Prod.mk.injEq] at h
  obtain ⟨_, hsane, _, -, _, horder, _, hmeasure, rfl, rfl⟩ := h
  exact ⟨hsane, horder, hmeasure⟩

omit [Coord F] in
/-- The preorder: the root, then every other node once, after its parent and its earlier
    siblings. -/
theorem Shape.preorder_rest {t : UiTree F} (hs : t.Shape) {room : Room} {order : List UiNodeId}
    (h : t.preorder room = .ok order) :
    ∃ rest, order = t.root :: rest ∧ t.root ∉ rest ∧ rest.Nodup ∧
      SiblingsFirst t.links [t.root] rest ∧
      ∀ x, x ∈ rest ↔ x ≠ t.root ∧ ∃ node, t.lookup x = some node := by
  have hpre := hs.preorder_ok h
  obtain ⟨l, hl, -⟩ := hs.tree.top
  obtain ⟨root, hroot⟩ := live_iff.mp ⟨l, hl⟩
  have hlen := t.length_ids_le
  obtain ⟨order', hwalk, -⟩ := hs.tree.walk_spec hs.mem_ids_of_link (.here t.root)
    (show t.ids.length ≤ t.slots.length + 0 by omega)
  obtain rfl : order' = order :=
    Except.ok.inj ((collectSubtree_of_walk hwalk).symm.trans (preorder_eq_ok.mp h).2)
  obtain ⟨rest, rfl, hfirst⟩ := walk_siblingsFirst hwalk
  obtain ⟨hnot, hnd⟩ := List.nodup_cons.mp hpre.nodup
  refine ⟨rest, rfl, hnot, hnd, hfirst _ List.mem_cons_self, ?_⟩
  intro x
  have hmem : x ∈ t.root :: rest ↔ ∃ node, t.lookup x = some node := by
    rw [hpre.mem, ← live_iff]
    exact ⟨fun ⟨j, hj⟩ => hs.tree.live_of_rooted hj, fun ⟨l, hl⟩ => hs.tree.rooted hl⟩
  rw [← hmem, List.mem_cons]
  constructor
  · intro hx
    exact ⟨fun heq => hnot (heq ▸ hx), .inr hx⟩
  · intro hx
    exact hx.2.resolve_left hx.1

omit [Coord F] in
theorem Shape.root_live {t : UiTree F} (hs : t.Shape) : ∃ node, t.lookup t.root = some node := by
  obtain ⟨l, hl, -⟩ := hs.tree.top
  exact live_iff.mp ⟨l, hl⟩

/-- **The checks** come before the first write. -/
theorem layoutTree_of_error {t : UiTree F} {config : LayoutConfig F} {room : Room}
    {viewport : UiRect F} {e : Failure} (h : t.layoutChecks config room viewport = .error e) :
    t.layoutTree config room viewport = (.error e, t) := by
  rw [layoutTree, h]

/-- The root gets the viewport, and the second pass starts there. -/
theorem layoutTree_of_ok {t : UiTree F} {config : LayoutConfig F} {room : Room}
    {viewport : UiRect F} {root : UiNode F} (hroot : t.lookup t.root = some root)
    {rest : List UiNodeId} {intrinsic : Intrinsic F}
    (h : t.layoutChecks config room viewport = .ok (t.root :: rest, intrinsic)) :
    t.layoutTree config room viewport =
      andThen (layoutNodes intrinsic ⟨0, 0, 1⟩ rest
          (t.setNode { root with rect := viewport, dirty := false })) fun stats t =>
        if config.maxLayoutIterations.toNat < stats.iterations then
          (.error (.err .layoutDidNotConverge), t)
        else (.ok stats, t) := by
  rw [layoutTree, h]
  simp only [setRect_eq hroot (layoutChecks_eq_ok h).1, andThen, List.drop_one, List.tail_cons]

omit [Coord F] in
theorem andThen_of_same {α β : Type} {x : Except Failure α × UiTree F} {c : α → Prop}
    [DecidablePred c] {e : Failure} {f : α → Except Failure β} {result : Except Failure β}
    {t' : UiTree F}
    (h : (andThen x fun a t => if c a then (.error e, t) else (f a, t)) = (result, t')) :
    x.2 = t' ∧ ∀ b, result = .ok b → ∃ a, x.1 = .ok a := by
  obtain ⟨x, t⟩ := x
  cases x with
  | error e' =>
    obtain ⟨rfl, rfl⟩ := Prod.mk.inj h
    exact ⟨rfl, fun b hb => nomatch hb⟩
  | ok a =>
    refine ⟨?_, fun b hb => ⟨a, rfl⟩⟩
    unfold andThen at h
    simp only at h
    split at h
    · exact (Prod.mk.inj h).2
    · exact (Prod.mk.inj h).2

/-- What a layout leaves of a tree, whatever its result. -/
structure LaidOut (t t' : UiTree F) (viewport : UiRect F) (intrinsic : Intrinsic F)
    (rest : List UiNodeId) : Prop extends Relaid t t' where
  top : t'.rect t.root = .ok viewport ∧ t'.isDirty t.root = .ok false
  settled : t'.SettledUntil intrinsic rest

/-- **A layout that passes its checks** settles the nodes it comes to, and all of them if it
    succeeds. -/
theorem layoutTree_spec {t t' : UiTree F} (hs : t.Shape) {config : LayoutConfig F} {room : Room}
    {viewport : UiRect F} {rest : List UiNodeId} {intrinsic : Intrinsic F}
    {result : Except Failure LayoutStats}
    (hchecks : t.layoutChecks config room viewport = .ok (t.root :: rest, intrinsic))
    (h : t.layoutTree config room viewport = (result, t')) :
    t.LaidOut t' viewport intrinsic rest ∧
      ∀ stats, result = .ok stats → ∀ x ∈ rest, t'.Settled intrinsic x := by
  obtain ⟨root, hroot⟩ := hs.root_live
  obtain ⟨rest', heq, hnot, hnd, hfirst, -⟩ := hs.preorder_rest (layoutChecks_eq_ok hchecks).2.1
  obtain rfl : rest = rest' := (List.cons.inj heq).2
  have hwrite := Relaid.setNode hroot viewport false
  have hlookup := lookup_rewrite hroot viewport false
  rw [layoutTree_of_ok hroot hchecks] at h
  obtain ⟨hsame, hok⟩ := andThen_of_same h
  generalize hpass : layoutNodes intrinsic ⟨0, 0, 1⟩ rest
    (t.setNode { root with rect := viewport, dirty := false }) = pass at hsame hok
  obtain ⟨result', t''⟩ := pass
  obtain rfl : t'' = t' := hsame
  obtain ⟨hrelaid, hkeep, huntil, hdone⟩ := layoutNodes_spec (hwrite.shape hs) hnd
    (by rwa [hwrite.links]) (fun y hy => List.mem_singleton.mp hy ▸ hnot) hpass
  have hfinal : t''.lookup t.root = some { root with rect := viewport, dirty := false } := by
    rw [hkeep t.root hnot, hlookup, if_pos (lookup_id hroot).symm]
  refine ⟨⟨hwrite.trans hrelaid, ⟨rect_eq hfinal, isDirty_eq hfinal⟩, huntil⟩, ?_⟩
  intro stats hb
  obtain ⟨stats', hresult⟩ := hok stats hb
  exact hdone stats' hresult

/-- The diagnostics are counted beside the layout and do not change it. -/
theorem layout_fst (t : UiTree F) (config : LayoutConfig F) (room : Room) (viewport : UiRect F)
    (diagnostics : UiDiagnostics) :
    (t.layout config room viewport diagnostics).1 = t.layoutTree config room viewport := by
  unfold layout
  split <;> simp_all

/-! ## Layouts that fail

A layout that fails leaves the nodes it has been through written. The tree is the same after it
exactly if they were settled already: then the writes were of what was there.
-/

omit [Coord F] in
/-- The rectangles and the dirty flags are those of the other tree. -/
def SameRects (t t' : UiTree F) : Prop := ∀ x, t'.rect x = t.rect x ∧ t'.isDirty x = t.isDirty x

/-- A layout has nothing to write: one of its checks fails, or the root is clean and has the
    viewport, and the nodes after it are settled up to the first whose place fails. -/
def NothingToWrite (config : LayoutConfig F) (room : Room) (t : UiTree F) (viewport : UiRect F) :
    Prop :=
  match t.layoutChecks config room viewport with
  | .error _ => True
  | .ok (order, intrinsic) =>
    (t.rect t.root = .ok viewport ∧ t.isDirty t.root = .ok false) ∧
      t.SettledUntil intrinsic (order.drop 1)

/-- What has to be read to see that a node is settled. -/
theorem settled_iff {t : UiTree F} {intrinsic : Intrinsic F} {id : UiNodeId} :
    t.Settled intrinsic id ↔
      ∃ rect, t.rect id = .ok rect ∧ t.isDirty id = .ok false ∧
        t.placed intrinsic id = .ok rect := by
  constructor
  · intro h
    obtain ⟨node, hnode, hclean, hplaced⟩ := h
    exact ⟨node.rect, rect_eq hnode, hclean ▸ isDirty_eq hnode, hplaced⟩
  · intro h
    obtain ⟨rect, hrect, hclean, hplaced⟩ := h
    obtain ⟨node, hnode, hdirty⟩ := isDirty_eq_ok.mp hclean
    obtain rfl := Except.ok.inj ((rect_eq hnode).symm.trans hrect)
    exact ⟨node, hnode, hdirty, hplaced⟩

/-- What is settled can be read off the rectangles and the flags. -/
theorem Relaid.settledUntil {t t' : UiTree F} (h : t.Relaid t') (hs : t.Shape)
    (hsame : t.SameRects t') {seen ids : List UiNodeId} (hfirst : SiblingsFirst t.links seen ids)
    {intrinsic : Intrinsic F} (huntil : t'.SettledUntil intrinsic ids) :
    t.SettledUntil intrinsic ids := by
  induction ids generalizing seen with
  | nil => trivial
  | cons x xs ih =>
    obtain ⟨hfollows, hrest⟩ := hfirst
    have hplaced : t'.placed intrinsic x = t.placed intrinsic x :=
      h.placed hs hfollows (fun y _ => (hsame y).1) intrinsic
    rcases huntil with ⟨e, he⟩ | ⟨hsettled, huntil⟩
    · exact .inl ⟨e, hplaced ▸ he⟩
    · obtain ⟨rect, hrect, hclean, hok⟩ := settled_iff.mp hsettled
      refine .inr ⟨settled_iff.mpr ⟨rect, ?_, ?_, ?_⟩, ih hrest huntil⟩
      · rw [← (hsame x).1, hrect]
      · rw [← (hsame x).2, hclean]
      · rw [← hplaced, hok]

/-- **A layout with nothing to write** leaves the tree as it is. -/
theorem layoutTree_idle {t : UiTree F} (hs : t.Shape) {config : LayoutConfig F} {room : Room}
    {viewport : UiRect F} (h : t.NothingToWrite config room viewport) :
    (t.layoutTree config room viewport).2 = t := by
  unfold NothingToWrite at h
  -- The checks fail before anything is written.
  cases hchecks : t.layoutChecks config room viewport with
  | error e => rw [layoutTree_of_error hchecks]
  | ok found =>
    obtain ⟨order, intrinsic⟩ := found
    obtain ⟨rest, rfl, -, -, -, hmem⟩ := hs.preorder_rest (layoutChecks_eq_ok hchecks).2.1
    rw [hchecks] at h
    obtain ⟨⟨hrect, hclean⟩, huntil⟩ := h
    obtain ⟨root, hroot⟩ := hs.root_live
    obtain rfl := Except.ok.inj ((rect_eq hroot).symm.trans hrect)
    have hdirty : root.dirty = false := Except.ok.inj ((isDirty_eq hroot).symm.trans hclean)
    have hself : { root with rect := root.rect, dirty := false } = root := by
      rw [← hdirty]
    rw [layoutTree_of_ok hroot hchecks, hself, setNode_self hroot]
    -- The root's write changes nothing, and the pass goes over settled nodes.
    generalize hcall : (andThen (layoutNodes intrinsic ⟨0, 0, 1⟩ rest t) fun stats t =>
      if config.maxLayoutIterations.toNat < stats.iterations then
        (.error (.err .layoutDidNotConverge), t)
      else (.ok stats, t)) = call
    rw [← (andThen_of_same hcall).1]
    exact layoutNodes_settled huntil (fun x hx => ((hmem x).mp hx).2) _

/-- A layout that leaves the rectangles and the flags had nothing to write. -/
theorem nothingToWrite_of_same {t t' : UiTree F} (hs : t.Shape) {config : LayoutConfig F}
    {room : Room} {viewport : UiRect F} {result : Except Failure LayoutStats}
    (h : t.layoutTree config room viewport = (result, t')) (hsame : t.SameRects t') :
    t.NothingToWrite config room viewport := by
  unfold NothingToWrite
  cases hchecks : t.layoutChecks config room viewport with
  | error e => trivial
  | ok found =>
    obtain ⟨order, intrinsic⟩ := found
    obtain ⟨rest, rfl, -, -, hfirst, -⟩ := hs.preorder_rest (layoutChecks_eq_ok hchecks).2.1
    obtain ⟨hleft, -⟩ := layoutTree_spec hs hchecks h
    refine ⟨⟨?_, ?_⟩, hleft.toRelaid.settledUntil hs hsame hfirst hleft.settled⟩
    · rw [← (hsame t.root).1, hleft.top.1]
    · rw [← (hsame t.root).2, hleft.top.2]

end UiTree

/-- **When a failed layout changes nothing**: exactly if it had nothing to write before the step
    that fails. -/
theorem layout_error_keeps_iff {room : Room} {config : TreeConfig} {t₀ : UiTree F} [Coord F]
    (h₀ : UiTree.tryNew room config = .ok t₀) (calls : List (TreeCall F))
    (engine : LayoutConfig F) (memory : Room) (viewport : UiRect F) (diagnostics : UiDiagnostics)
    {e : Failure} {t' : UiTree F}
    (h : ((runCalls t₀ calls).layout engine memory viewport diagnostics).1 = (.error e, t')) :
    (runCalls t₀ calls).SameRects t' ↔
      (runCalls t₀ calls).NothingToWrite engine memory viewport := by
  have hs : (runCalls t₀ calls).Shape := runCalls_shape h₀ calls
  rw [UiTree.layout_fst] at h
  constructor
  · exact UiTree.nothingToWrite_of_same hs h
  · intro hidle
    have hsame := UiTree.layoutTree_idle hs hidle
    rw [h] at hsame
    obtain rfl : t' = runCalls t₀ calls := hsame
    exact fun _ => ⟨rfl, rfl⟩

/-- The error of a call, to be compared. -/
def failureOf {α : Type} : Except Failure α → Option Failure
  | .error e => some e
  | .ok _ => none

theorem eq_error_of_failureOf {α : Type} {x : Except Failure α} {e : Failure}
    (h : failureOf x = some e) : x = .error e := by
  cases x with
  | error e' => rw [Option.some.inj h]
  | ok a => cases h

/-- A panel in the root, with an opacity written past the checks. -/
def insaneContent : List (TreeCall Float32) :=
  [.create .ample ⟨0, 1⟩ (.new .panel), .contentMut ⟨1, 1⟩ fun content =>
    { content with opacity := 2 }]

/-- **A failed layout moves the root**: it had no size and was dirty, the panel is refused, and the
    root has the viewport's width and is clean. -/
theorem failed_layout_moves_root : ∃ (t₀ t' : UiTree Float32),
    UiTree.tryNew .ample ⟨4, 4, 16⟩ = .ok t₀ ∧
      ((runCalls t₀ insaneContent).layout ⟨16, 4096, 8, 1⟩ .ample ⟨0, 0, 320, 200⟩ ⟨0, 0⟩).1
        = (.error (.err .invalidValue), t') ∧
      ((runCalls t₀ insaneContent).rect ⟨0, 1⟩).toOption.any (fun rect => rect.width == 0) ∧
      (t'.rect ⟨0, 1⟩).toOption.any (fun rect => rect.width == 320) ∧
      (runCalls t₀ insaneContent).isDirty ⟨0, 1⟩ = .ok true ∧ t'.isDirty ⟨0, 1⟩ = .ok false ∧
      ¬ (runCalls t₀ insaneContent).SameRects t' := by
  obtain ⟨t₀, h₀⟩ : ∃ t₀ : UiTree Float32, UiTree.tryNew .ample ⟨4, 4, 16⟩ = .ok t₀ := ⟨_, rfl⟩
  obtain ⟨⟨result, t'⟩, hcall⟩ : ∃ call, ((runCalls t₀ insaneContent).layout ⟨16, 4096, 8, 1⟩ .ample
      ⟨0, 0, 320, 200⟩ ⟨0, 0⟩).1 = call := ⟨_, rfl⟩
  have hread : failureOf result = some (.err .invalidValue) ∧
      ((runCalls t₀ insaneContent).rect ⟨0, 1⟩).toOption.any (fun rect => rect.width == 0) = true ∧
      (t'.rect ⟨0, 1⟩).toOption.any (fun rect => rect.width == 320) = true ∧
      ((runCalls t₀ insaneContent).isDirty ⟨0, 1⟩).toOption = some true ∧
      (t'.isDirty ⟨0, 1⟩).toOption = some false := by
    obtain rfl := Except.ok.inj h₀
    obtain rfl := congrArg Prod.fst hcall
    obtain rfl := congrArg Prod.snd hcall
    decide +kernel
  obtain ⟨herror, hbefore, hafter, hdirty, hclean⟩ := hread
  rw [eq_error_of_failureOf herror] at hcall
  refine ⟨t₀, t', h₀, hcall, hbefore, hafter, eq_ok_of_toOption hdirty,
    eq_ok_of_toOption hclean, ?_⟩
  intro hsame
  have hflag := (hsame ⟨0, 1⟩).2
  rw [eq_ok_of_toOption hdirty, eq_ok_of_toOption hclean] at hflag
  cases hflag

/-- The same panel, in a root that has its rectangle already. -/
theorem layout_error_keeps_settled : ∃ (t₀ t' : UiTree Float32),
    UiTree.tryNew .ample ⟨4, 4, 16⟩ = .ok t₀ ∧
      ((runCalls t₀ (insaneContent ++ [.setRect ⟨0, 1⟩ ⟨0, 0, 320, 200⟩])).layout
        ⟨16, 4096, 8, 1⟩ .ample ⟨0, 0, 320, 200⟩ ⟨0, 0⟩).1 = (.error (.err .invalidValue), t') ∧
      ((runCalls t₀ (insaneContent ++ [.setRect ⟨0, 1⟩ ⟨0, 0, 320, 200⟩])).SameRects t' ↔
        (runCalls t₀ (insaneContent ++ [.setRect ⟨0, 1⟩ ⟨0, 0, 320, 200⟩])).NothingToWrite
          ⟨16, 4096, 8, 1⟩ .ample ⟨0, 0, 320, 200⟩) := by
  obtain ⟨t₀, h₀⟩ : ∃ t₀ : UiTree Float32, UiTree.tryNew .ample ⟨4, 4, 16⟩ = .ok t₀ := ⟨_, rfl⟩
  obtain ⟨⟨result, t'⟩, hcall⟩ : ∃ call,
      ((runCalls t₀ (insaneContent ++ [.setRect ⟨0, 1⟩ ⟨0, 0, 320, 200⟩])).layout
        ⟨16, 4096, 8, 1⟩ .ample ⟨0, 0, 320, 200⟩ ⟨0, 0⟩).1 = call := ⟨_, rfl⟩
  have herror : failureOf result = some (.err .invalidValue) := by
    obtain rfl := Except.ok.inj h₀
    obtain rfl := congrArg Prod.fst hcall
    decide +kernel
  rw [eq_error_of_failureOf herror] at hcall
  exact ⟨t₀, t', h₀, hcall, layout_error_keeps_iff h₀ _ _ _ _ _ hcall⟩

end Ui
end EngineKit
