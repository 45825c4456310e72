import Mathlib.Data.List.Induction
import EngineKit.Ui.TreeRuns

/-!
# The laws of the UI tree

Each law is about every tree a run can leave (`runCalls`), in terms of what the tree's own
accessors answer.

* `one_tree` — the live nodes are one tree, and the free list is the dead slots.
* `depth_bounded_iff` — the depth bound, and which moves break it: `reparent` checks the depth of
  the node it moves and not the height of what hangs below it.
* `stale_ids_stay_dead` — an id that was destroyed is rejected from then on.
* `calls_are_atomic` — a call that fails changes nothing.

`Shape` and the links are how the laws are proved, and they do not occur in what is proved: `Climb`
along `up`, which asks `parent`, takes the place of the links, and the accessors that of the slots.
The bridge is `parent_eq_some` and `children_eq_ok`.

Depth is counted from the node to the root and not the other way round, because a move changes the
way up of what it moves and of nothing else. Below the node the levels are the old ones, so whether
the bound still holds is a question about the levels below it and the depth of the new parent: the
two numbers of `Fits`. The code asks for the second only.
-/

set_option autoImplicit false

namespace EngineKit
namespace Ui

open Lib

variable {F : Type}

/-! ## One tree -/

/-- What the accessors say of a tree that is one. -/
structure OneTree (t : UiTree F) : Prop where
  root : t.contains t.root = true ∧ t.parent t.root = .ok none
  listed {id p : UiNodeId} : t.parent id = .ok (some p) →
    ∃ children, t.children p = .ok children ∧ id ∈ children
  child {id c : UiNodeId} {children : List UiNodeId} : t.children id = .ok children →
    c ∈ children → t.parent c = .ok (some id)
  nodup {id : UiNodeId} {children : List UiNodeId} : t.children id = .ok children → children.Nodup
  rooted {id : UiNodeId} : t.contains id = true → ∃ d, Climb t.up id t.root d
  preorder : ∃ order, t.preorder .ample = .ok order ∧ order.Nodup ∧
    (∀ id, id ∈ order ↔ t.contains id = true) ∧
    (∀ front id back, order = front ++ id :: back →
      id = t.root ∨ ∃ p ∈ front, t.parent id = .ok (some p)) ∧
    t.len = order.length
  len : t.len ≤ t.config.maxNodes
  free : t.free.Nodup ∧ ∀ i, t.slots[i]? = some none ↔ ∃ j ∈ t.free, j.toNat = i

namespace UiTree

/-- The accessors in terms of the slots. -/
theorem parent_eq_ok {t : UiTree F} {id : UiNodeId} {p : Option UiNodeId} :
    t.parent id = .ok p ↔ ∃ node, t.lookup id = some node ∧ node.parent = p := by
  unfold UiTree.parent UiTree.node
  cases t.lookup id <;> simp [Except.map]

/-- And in terms of the links. -/
theorem parent_eq_some {t : UiTree F} {id p : UiNodeId} :
    t.parent id = .ok (some p) ↔ parentOf t.links id = some p := by
  rw [parent_eq_ok, parentOf, Option.bind_eq_some_iff]
  constructor
  · intro hex
    obtain ⟨node, hnode, hp⟩ := hex
    exact ⟨node.link, links_eq_some.mpr ⟨node, hnode, rfl⟩, hp⟩
  · intro hex
    obtain ⟨l, hl, hp⟩ := hex
    obtain ⟨node, hnode, rfl⟩ := links_eq_some.mp hl
    exact ⟨node, hnode, hp⟩

theorem children_eq_ok {t : UiTree F} {id : UiNodeId} {children : List UiNodeId} :
    t.children id = .ok children ↔ ∃ l, t.links id = some l ∧ l.children = children := by
  unfold UiTree.children UiTree.node links
  cases t.lookup id <;> simp [Except.map, UiNode.link]

/-- The ids of the live nodes are distinct: each is in its own slot. -/
theorem Wf.nodup_ids {t : UiTree F} (h : t.Wf) : t.ids.Nodup := by
  refine List.Pairwise.filterMap (R := fun a b : Option (UiNode F) =>
    ∀ x ∈ a, ∀ y ∈ b, x.id ≠ y.id) _ ?_ ?_
  · intro a b hab x hx y hy
    obtain ⟨m, hm, rfl⟩ := Option.map_eq_some_iff.mp hx
    obtain ⟨n, hn, rfl⟩ := Option.map_eq_some_iff.mp hy
    exact hab m hm n hn
  · refine List.pairwise_iff_getElem.mpr ?_
    intro i j hi hj hlt x hx y hy heq
    have hslot (i : Nat) (hi : i < t.slots.length) (node : UiNode F)
        (hnode : t.slots[i] = some node) : node.id.index.toNat = i :=
      (h.named (by rw [List.getElem?_eq_getElem hi, hnode])).1
    have := hslot i hi x hx
    have := hslot j hj y hy
    rw [heq] at *
    omega

/-- **The count is the number of live nodes**, in whatever order they are listed. -/
theorem Wf.len_eq {t : UiTree F} (h : t.Wf) {order : List UiNodeId} (hnd : order.Nodup)
    (hmem : ∀ id, id ∈ order ↔ ∃ node, t.lookup id = some node) : t.len = order.length := by
  have hperm : order.Perm t.ids := by
    rw [List.perm_ext_iff_of_nodup hnd h.nodup_ids]
    intro id
    rw [hmem, h.mem_ids]
  rw [hperm.length_eq, ids, List.length_filterMap_eq_countP, len, h.counted]
  simp only [Option.isSome_map]

/-- What the laws of the links say, put in terms of the accessors. Tightness, no slot dead and not
    free, is what a run that finds its memory has in addition. -/
theorem Shape.oneTree {t : UiTree F} (h : t.Shape) (ht : t.Tight) : OneTree t := by
  have hcontains (id : UiNodeId) :
      t.contains id = true ↔ ∃ node, t.lookup id = some node := h.validSlot_iff
  obtain ⟨l, hl, hnone⟩ := h.tree.top
  obtain ⟨root, hroot, rfl⟩ := links_eq_some.mp hl
  constructor
  · exact ⟨(hcontains _).mpr ⟨root, hroot⟩, parent_eq_ok.mpr ⟨root, hroot, hnone⟩⟩
  · intro id p hp
    obtain ⟨m, hm, hmem⟩ := h.tree.listed (parent_eq_some.mp hp)
    exact ⟨m.children, children_eq_ok.mpr ⟨m, hm, rfl⟩, hmem⟩
  · intro id c children hchildren hc
    obtain ⟨m, hm, rfl⟩ := children_eq_ok.mp hchildren
    exact parent_eq_some.mpr (h.tree.child hm hc)
  · intro id children hchildren
    obtain ⟨m, hm, rfl⟩ := children_eq_ok.mp hchildren
    exact h.tree.nodup hm
  · intro id hid
    obtain ⟨node, hnode⟩ := (hcontains id).mp hid
    obtain ⟨d, -, hd⟩ := h.depth_lt hnode
    rw [up_eq]
    exact ⟨d, hd⟩
  · obtain ⟨order, hwalk, horder⟩ := h.collectSubtree hroot
    have hmem (id : UiNodeId) : id ∈ order ↔ ∃ node, t.lookup id = some node := by
      rw [horder.mem]
      constructor
      · intro hex
        obtain ⟨d, hd⟩ := hex
        exact h.live_of_climb hd
      · intro hex
        obtain ⟨node, hnode⟩ := hex
        obtain ⟨d, -, hd⟩ := h.depth_lt hnode
        exact ⟨d, hd⟩
    refine ⟨order, ?_, horder.nodup, fun id => by rw [hmem, hcontains], ?_,
      h.len_eq horder.nodup hmem⟩
    · simp [UiTree.preorder, failIf, Room.ample, hwalk]
    · intro front id back hsplit
      obtain ⟨node, hnode, hroot, hbefore⟩ := h.parent_before horder hsplit
      cases hp : node.parent with
      | none => exact .inl (hroot hp)
      | some p => exact .inr ⟨p, hbefore p hp, parent_eq_ok.mpr ⟨node, hnode, hp⟩⟩
  · exact h.bounded
  · refine ⟨h.nodup, fun i => ⟨fun hi => ?_, ?_⟩⟩
    · have hlt := (List.getElem?_eq_some_iff.mp hi).1
      have hindex : (UInt32.ofNat i).toNat = i :=
        UInt32.toNat_ofNat_of_lt' (Nat.lt_of_lt_of_le hlt h.small)
      exact ⟨UInt32.ofNat i, ht _ (by rw [hindex, hi]), hindex⟩
    · intro hex
      obtain ⟨j, hj, rfl⟩ := hex
      exact h.dead j hj

end UiTree

theorem Changes.tight {t t' : UiTree F} (h : Changes false t t') (ht : t.Tight) : t'.Tight := by
  induction h with
  | refl => exact ht
  | tail _ hstep ih => exact hstep.tight ih

section Laws

variable [Coord F]

/-- **The live nodes are one tree**, after any run that finds its memory. -/
theorem one_tree {room : Room} {config : TreeConfig} {t₀ : UiTree F}
    (h₀ : UiTree.tryNew room config = .ok t₀) {calls : List (TreeCall F)}
    (hample : ∀ call ∈ calls, call.Ample) : OneTree (runCalls t₀ calls) := by
  obtain ⟨hshape, htight, -, -⟩ := tryNew_shape h₀
  have hchanges := runCalls_changes false hshape fun _ => hample
  exact (hchanges.shape hshape).oneTree (hchanges.tight htight)

/-- Three nodes below the root, one of them moved and one destroyed. -/
theorem one_tree_small : ∃ t₀ : UiTree Float32, UiTree.tryNew .ample ⟨4, 4, 16⟩ = .ok t₀ ∧
    OneTree (runCalls t₀
      [.create .ample ⟨0, 1⟩ (.new .panel), .create .ample ⟨1, 1⟩ (.new .text),
        .create .ample ⟨0, 1⟩ (.new .image), .reparent .ample ⟨2, 1⟩ ⟨3, 1⟩,
        .destroy .ample ⟨1, 1⟩]) := by
  refine ⟨_, rfl, one_tree (show UiTree.tryNew .ample ⟨4, 4, 16⟩ = .ok _ from rfl) ?_⟩
  simp [TreeCall.Ample]

end Laws

/-! ## Depth -/

/-- Every live node has fewer ancestors than the depth limit. -/
def Bounded (t : UiTree F) : Prop :=
  ∀ id d, Climb t.up id t.root d → d < t.config.maxDepth

/-- The moves that `reparent` takes up: of a node other than the root, below a node that is not
    below it and has room for one level more. -/
def Movable (t : UiTree F) (id newParent : UiNodeId) : Prop :=
  id ≠ t.root ∧ t.contains id = true ∧ (∀ j, ¬ Climb t.up newParent id j) ∧
    ∃ d, Climb t.up newParent t.root d ∧ d + 1 < t.config.maxDepth

/-- A move that leaves no node too deep: every node `j` levels below the one that moves stays above
    the limit below its new parent. -/
def Fits (room : Room) (t : UiTree F) (id newParent : UiNodeId) : Prop :=
  room.link = true → Movable t id newParent →
    ∀ x j d, Climb t.up x id j → Climb t.up newParent t.root d → d + 1 + j < t.config.maxDepth

namespace UiTree

/-- Nodes that keep their ways up keep their depths. -/
theorem bounded_of_climb {t t' : UiTree F} (hs' : t'.Shape) (h : Bounded t)
    (hroot : t'.root = t.root) (hconfig : t'.config = t.config)
    (hold : ∀ id node, t'.lookup id = some node →
      (∃ d, Climb (parentOf t.links) id t.root d ∧ Climb (parentOf t'.links) id t.root d) ∨
        ∃ d < t.config.maxDepth, Climb (parentOf t'.links) id t.root d) : Bounded t' := by
  intro id d hd
  rw [up_eq] at hd
  obtain ⟨node, hnode⟩ := hs'.live_of_climb hd
  have htop := hs'.tree.root_parent
  rw [hroot] at hd htop
  rw [hconfig]
  rcases hold id node hnode with ⟨e, he, he'⟩ | ⟨e, hlt, he⟩
  · obtain rfl := hd.depth_unique he' htop
    exact h id d (by rw [up_eq]; exact he)
  · obtain rfl := hd.depth_unique he htop
    exact hlt

/-- No way up has changed. -/
theorem Kept.bounded {t t' : UiTree F} (h : t.Kept t') (hb : Bounded t) : Bounded t' := by
  unfold Bounded
  rw [up_eq, h.links, h.root, h.config, ← up_eq]
  exact hb

/-- A slot set aside has no node in it. -/
theorem Reserved.bounded {t t' : UiTree F} {id : UiNodeId} (h : t.Reserved t' id)
    (hb : Bounded t) : Bounded t' := by
  have hlinks : t'.links = t.links := by
    funext x
    rw [links, h.lookup, links]
  unfold Bounded
  rw [up_eq, hlinks, h.root, h.config, ← up_eq]
  exact hb

/-- The new leaf is as deep as the check of the creation allows. -/
theorem Created.bounded {t u t' : UiTree F} {id parent : UiNodeId} {d : Nat}
    (h : t.Created u t' id parent) (hs : t.Shape) (hs' : t'.Shape)
    (hd : Climb (parentOf t.links) parent t.root d) (hroom : d + 1 < t.config.maxDepth)
    (hb : Bounded t) : Bounded t' := by
  have hfresh : t.links id = none := by
    rw [UiTree.links, h.fresh]
    rfl
  have hkeep {x : UiNodeId} {e : Nat} (hx : Climb (parentOf t.links) x t.root e) :
      Climb (parentOf t'.links) x t.root e := by
    refine hx.transfer (P := fun _ => True) trivial fun y z _ hyz => ⟨?_, trivial⟩
    rw [h.links, parentOf_insertLeaf, if_neg, hyz]
    rintro rfl
    obtain ⟨l, hl⟩ := IsTree.live_of_parent hyz
    rw [hfresh] at hl
    cases hl
  refine bounded_of_climb hs' hb h.root h.config ?_
  intro x node hx
  -- The new node is one level below its parent, and no other way up has changed.
  by_cases hxid : x = id
  · refine .inr ⟨d + 1, hroom, .up ?_ (hkeep hd)⟩
    rw [hxid, h.links, parentOf_insertLeaf, if_pos rfl]
  · obtain ⟨l, hl⟩ := live_iff.mpr ⟨node, hx⟩
    rw [h.links, insertLeaf, if_neg hxid] at hl
    obtain ⟨m, hm, -⟩ := Option.map_eq_some_iff.mp hl
    obtain ⟨e, he⟩ := hs.tree.rooted hm
    exact .inl ⟨e, he, hkeep he⟩

/-- What is left keeps its ways up: none of them led through the subtree. -/
theorem Destroyed.bounded {t t' : UiTree F} {id : UiNodeId} {order : List UiNodeId}
    (h : t.Destroyed t' id order) (hs : t.Shape) (hs' : t'.Shape) (hb : Bounded t) :
    Bounded t' := by
  obtain ⟨u, hframe, hremoved⟩ := h.removed
  refine bounded_of_climb hs' hb (hremoved.root.trans hframe.root)
    (hremoved.config.trans hframe.config) fun x node hx => .inl ?_
  obtain ⟨l, hl⟩ := live_iff.mpr ⟨node, hx⟩
  rw [h.links, cutAway] at hl
  split at hl
  · cases hl
  · next hnot =>
    obtain ⟨m, hm, -⟩ := Option.map_eq_some_iff.mp hl
    obtain ⟨e, he⟩ := hs.tree.rooted hm
    refine ⟨e, he, ?_⟩
    rw [h.links]
    exact IsTree.climb_cut h.preorder.mem hnot he

/-- `Movable` is what the checks of `reparent` ask, in terms of the accessors. -/
theorem Shape.movable_iff {t : UiTree F} (h : t.Shape) {id newParent : UiNodeId} :
    Movable t id newParent ↔ ∃ oldParent, t.reparentChecks id newParent = .ok oldParent := by
  unfold Movable
  rw [up_eq]
  constructor
  · intro hall
    obtain ⟨hne, hlive, hout, hroom⟩ := hall
    obtain ⟨node, hnode⟩ := h.validSlot_iff.mp hlive
    obtain ⟨d, -, hd⟩ := h.depth_lt hnode
    cases hd with
    | here => exact absurd rfl hne
    | up step _ => exact ⟨_, h.reparentChecks_iff.mpr ⟨hne, step, hout, hroom⟩⟩
  · intro hex
    obtain ⟨oldParent, hchecks⟩ := hex
    obtain ⟨hne, hparent, hout, hroom⟩ := h.reparentChecks_iff.mp hchecks
    exact ⟨hne, h.validSlot_iff.mpr (live_iff.mp (IsTree.live_of_parent hparent)), hout, hroom⟩

/-- **A move** keeps the bound exactly if the subtree fits below its new parent. -/
theorem Shape.bounded_moved_iff {t t' : UiTree F} (hs : t.Shape)
    {id newParent oldParent : UiNodeId}
    (checks : t.reparentChecks id newParent = .ok oldParent) (frame : t.Frame t')
    (hlinks : t'.links = moveBelow id newParent t.links) (hb : Bounded t) :
    Bounded t' ↔ ∀ x j d, Climb t.up x id j → Climb t.up newParent t.root d →
      d + 1 + j < t.config.maxDepth := by
  obtain ⟨hne, hparent, hout, e, he, -⟩ := hs.reparentChecks_iff.mp checks
  obtain ⟨l, hl⟩ := IsTree.live_of_parent hparent
  have hchange : t.Change false t' := .moved checks frame hlinks
  have hs' := hchange.shape hs
  -- what hangs below the node goes up through the new parent
  have hbelow {x : UiNodeId} {j : Nat} (hx : Climb (parentOf t.links) x id j) :
      Climb (parentOf t'.links) x t.root (j + (e + 1)) := by
    rw [hlinks]
    refine (hs.tree.climb_moved hl hx).trans (.up ?_ (IsTree.climb_outside hout he))
    rw [parentOf_moveBelow hl, if_pos rfl]
  rw [up_eq]
  constructor
  · intro hb' x j d hx hd
    obtain rfl := hd.depth_unique he hs.tree.root_parent
    have := hb' x _ (by rw [up_eq, frame.root]; exact hbelow hx)
    rw [frame.config] at this
    omega
  · intro hfits
    refine bounded_of_climb hs' hb frame.root frame.config ?_
    intro x node hx
    obtain ⟨m', hm'⟩ := live_iff.mpr ⟨node, hx⟩
    rw [hlinks] at hm'
    obtain ⟨m, hm, -⟩ := Option.map_eq_some_iff.mp hm'
    -- What hangs below the node now goes up through the new parent; what does not keeps its way.
    by_cases hin : ∃ j, Climb (parentOf t.links) x id j
    · obtain ⟨j, hj⟩ := hin
      have := hfits x j e hj he
      exact .inr ⟨_, by omega, hbelow hj⟩
    · obtain ⟨k, hk⟩ := hs.tree.rooted hm
      refine .inl ⟨k, hk, ?_⟩
      rw [hlinks]
      exact IsTree.climb_outside (fun j hj => hin ⟨j, hj⟩) hk

end UiTree

/-- A move has to fit, and every other command does. -/
def UiCommand.Fits (room : Room) (t : UiTree F) : UiCommand F → Prop
  | .reparent id newParent => Ui.Fits room t id newParent
  | _ => True

section Laws

variable [Coord F]

/-- A run of single commands, each with what it finds of memory. -/
def runCommands (t : UiTree F) (steps : List (Room × UiCommand F)) : UiTree F :=
  steps.foldl (fun t step => (step.2.run step.1 t).2) t

theorem runCommands_concat (t : UiTree F) (steps : List (Room × UiCommand F))
    (step : Room × UiCommand F) :
    runCommands t (steps ++ [step]) = (step.2.run step.1 (runCommands t steps)).2 := by
  simp only [runCommands, List.foldl_append, List.foldl_cons, List.foldl_nil]

/-- Single commands keep the shape as calls do. -/
theorem runCommands_shape {t : UiTree F} (hs : t.Shape) (steps : List (Room × UiCommand F)) :
    (runCommands t steps).Shape := by
  induction steps using List.reverseRecOn with
  | nil => exact hs
  | append_singleton steps step ih =>
    rw [runCommands_concat]
    exact step.2.run_shape ih step.1

/-- **One command** keeps the depth bound exactly if it fits. -/
theorem UiCommand.bounded_run_iff {t : UiTree F} (hs : t.Shape) (hb : Bounded t) (room : Room)
    (command : UiCommand F) : Bounded (command.run room t).2 ↔ command.Fits room t := by
  have hmut (id : UiNodeId) (f : UiNodeContent F → UiNodeContent F) :
      Bounded (t.contentMut id f).2 :=
    (UiTree.Kept.nodeMut t id (f := fun node => { node with content := f node.content })
      fun _ => ⟨rfl, rfl⟩).bounded hb
  cases command with
  | create parent content =>
    refine iff_of_true ?_ trivial
    have hchange := (UiCommand.create parent content).run_shape hs room
    unfold UiCommand.run at hchange ⊢
    rcases hs.create_cases room parent content with ⟨e, hcall⟩ | ⟨id, t', -, hcall, hreserved⟩ |
      ⟨id, u, t', hchecks, hcall, hcreated⟩ <;> simp only [hcall, andThen] at hchange ⊢
    · exact hb
    · exact hreserved.bounded hb
    · obtain ⟨-, -, d, hd, hroom⟩ := hs.createChecks_iff.mp hchecks
      exact hcreated.bounded hs hchange hd hroom hb
  | destroy node =>
    refine iff_of_true ?_ trivial
    have hshape : (t.destroy room node).2.Shape := (UiCommand.destroy node).run_shape hs room
    change Bounded (t.destroy room node).2
    rcases hs.destroy_cases room node with ⟨e, hcall⟩ | ⟨order, t', -, hcall, hdestroyed⟩ <;>
      rw [hcall] at hshape ⊢
    · exact hb
    · exact hdestroyed.bounded hs hshape hb
  | reparent node parent =>
    change Bounded (t.reparent room node parent).2 ↔ Ui.Fits room t node parent
    rcases hs.reparent_cases room node parent with ⟨hrefused, e, hcall⟩ |
      ⟨oldParent, t', hlink, hchecks, hcall, hframe, hlinks⟩ <;> rw [hcall]
    · refine iff_of_true hb ?_
      intro hlink hmovable
      obtain ⟨old, hold⟩ := hs.movable_iff.mp hmovable
      exact absurd hold (hrefused hlink old)
    · have hmoved := hs.bounded_moved_iff hchecks hframe hlinks hb
      have hmovable := hs.movable_iff.mpr ⟨oldParent, hchecks⟩
      exact hmoved.trans ⟨fun hfits _ _ => hfits, fun hfits => hfits hlink hmovable⟩
  | setStyle node style =>
    refine iff_of_true ?_ trivial
    change Bounded (if style.sane then t.contentMut node _ else (.error _, t)).2
    split
    · exact hmut node _
    · exact hb
  | setText node text =>
    refine iff_of_true ?_ trivial
    change Bounded (if text.byteLen ≤ t.config.maxTextBytes then t.contentMut node _
      else (.error _, t)).2
    split
    · exact hmut node _
    · exact hb
  | setVisible node visible => exact iff_of_true (hmut node _) trivial
  | setZIndex node zIndex => exact iff_of_true (hmut node _) trivial
  | setAccessibility node accessibility => exact iff_of_true (hmut node _) trivial

/-- **The depth bound holds along a run exactly if every move of it fits.** -/
theorem depth_bounded_iff {room : Room} {config : TreeConfig} {t₀ : UiTree F}
    (h₀ : UiTree.tryNew room config = .ok t₀) (steps : List (Room × UiCommand F)) :
    (∀ front back, steps = front ++ back → Bounded (runCommands t₀ front)) ↔
      ∀ front step back, steps = front ++ step :: back →
        step.2.Fits step.1 (runCommands t₀ front) := by
  obtain ⟨hshape, -, hdepth, htop⟩ := tryNew_shape h₀
  have hrun := runCommands_shape hshape
  constructor
  · intro hbounded front step back hsplit
    have hbefore := hbounded front (step :: back) hsplit
    have hafter := hbounded (front ++ [step]) back (by rw [hsplit, List.append_assoc]; rfl)
    rw [runCommands_concat] at hafter
    exact (step.2.bounded_run_iff (hrun front) hbefore step.1).mp hafter
  · intro hfits front back hsplit
    -- On the commands run so far, from the last one.
    induction front using List.reverseRecOn generalizing back with
    | nil =>
      intro id d hd
      cases hd with
      | here => exact hdepth
      | up step _ => exact absurd ((htop id).symm.trans step) (by simp)
    | append_singleton front step ih =>
      rw [List.append_assoc] at hsplit
      have hbefore := ih (step :: back) hsplit
      rw [runCommands_concat]
      exact (step.2.bounded_run_iff (hrun front) hbefore step.1).mpr
        (hfits front step back hsplit)

/-- `b` hangs below `a`, and `c` beside `a`. -/
def siblings : List (Room × UiCommand Float32) :=
  [(.ample, .create ⟨0, 1⟩ (.new .panel)), (.ample, .create ⟨1, 1⟩ (.new .panel)),
    (.ample, .create ⟨0, 1⟩ (.new .panel))]

/-- Nothing hangs below `b`, so it can move below `c`. -/
theorem depth_bounded_small : ∃ t₀ : UiTree Float32,
    UiTree.tryNew .ample ⟨8, 3, 16⟩ = .ok t₀ ∧
      Bounded (runCommands t₀ (siblings ++ [(.ample, .reparent ⟨2, 1⟩ ⟨3, 1⟩)])) ∧
        (runCommands t₀ (siblings ++ [(.ample, .reparent ⟨2, 1⟩ ⟨3, 1⟩)])).up ⟨2, 1⟩ =
          some ⟨3, 1⟩ := by
  obtain ⟨t₀, h₀⟩ : ∃ t₀ : UiTree Float32, UiTree.tryNew .ample ⟨8, 3, 16⟩ = .ok t₀ := ⟨_, rfl⟩
  have hcreates (t : UiTree Float32) : ∀ step ∈ siblings, step.2.Fits step.1 t := by
    intro step hstep
    simp only [siblings, List.mem_cons, List.not_mem_nil, or_false] at hstep
    rcases hstep with rfl | rfl | rfl <;> exact trivial
  have hbefore : Bounded (runCommands t₀ siblings) := by
    refine (depth_bounded_iff h₀ siblings).mpr ?_ siblings [] (List.append_nil _).symm
    intro front step back hsplit
    exact hcreates _ step (by rw [hsplit]; simp)
  have hfits : Ui.Fits .ample (runCommands t₀ siblings) ⟨2, 1⟩ ⟨3, 1⟩ := by
    obtain ⟨hb, hc, hlimit⟩ : Climb (runCommands t₀ siblings).up ⟨2, 1⟩
          (runCommands t₀ siblings).root 2 ∧
        Climb (runCommands t₀ siblings).up ⟨3, 1⟩ (runCommands t₀ siblings).root 1 ∧
          (runCommands t₀ siblings).config.maxDepth = 3 := by
      obtain rfl := Except.ok.inj h₀
      refine ⟨.up (p := ⟨1, 1⟩) (by decide +kernel) (.up (p := ⟨0, 1⟩) (by decide +kernel)
        (.of_eq ?_)), .up (p := ⟨0, 1⟩) (by decide +kernel) (.of_eq ?_), ?_⟩ <;> decide +kernel
    have htop : (runCommands t₀ siblings).up (runCommands t₀ siblings).root = none := by
      rw [UiTree.up_eq]
      exact (runCommands_shape (tryNew_shape h₀).1 siblings).tree.root_parent
    intro _ _ x j d hx hd
    -- what climbs to `b` has `b`'s two levels above it, and the limit is three
    have hdepth := hbefore x _ (hx.trans hb)
    have hone := hd.depth_unique hc htop
    omega
  refine ⟨t₀, h₀, (depth_bounded_iff h₀ _).mpr ?_ _ [] (List.append_nil _).symm, ?_⟩
  · intro front step back hsplit
    rcases List.eq_nil_or_concat back with rfl | ⟨back, last, rfl⟩
    · obtain ⟨rfl, hlast⟩ := List.append_inj' hsplit rfl
      obtain rfl := List.singleton_inj.mp hlast
      exact hfits
    · rw [List.concat_eq_append, ← List.cons_append, ← List.append_assoc] at hsplit
      obtain ⟨hcreate, -⟩ := List.append_inj' hsplit rfl
      exact hcreates _ step (by rw [hcreate]; simp)
  · obtain rfl := Except.ok.inj h₀
    decide +kernel

/-- `b` hangs below `a`; moving `a` below `c` puts `b` at the depth limit. -/
theorem moved_too_deep : ¬ ∀ (t₀ : UiTree Float32) (steps : List (Room × UiCommand Float32)),
    UiTree.tryNew .ample ⟨8, 3, 16⟩ = .ok t₀ → Bounded (runCommands t₀ steps) := by
  intro h
  have hbounded := h _ [(.ample, .create ⟨0, 1⟩ (.new .panel)),
    (.ample, .create ⟨1, 1⟩ (.new .panel)), (.ample, .create ⟨0, 1⟩ (.new .panel)),
    (.ample, .reparent ⟨1, 1⟩ ⟨3, 1⟩)] rfl ⟨2, 1⟩ 3
  refine absurd (hbounded (.up (p := ⟨1, 1⟩) (by decide +kernel) (.up (p := ⟨3, 1⟩)
    (by decide +kernel) (.up (p := ⟨0, 1⟩) (by decide +kernel) (.of_eq ?_))))) (by decide +kernel)
  decide +kernel

end Laws

/-! ## Stale ids -/

/-- The commands that name an id. -/
def UiCommand.Names (id : UiNodeId) : UiCommand F → Prop
  | .create parent _ => parent = id
  | .destroy node => node = id
  | .reparent node parent => node = id ∨ parent = id
  | .setStyle node _ | .setText node _ | .setVisible node _ | .setZIndex node _ => node = id
  | .setAccessibility node _ => node = id

/-- A call that fails and leaves the tree as it was. -/
def Fails {α : Type} (t : UiTree F) (call : Except Failure α × UiTree F) : Prop :=
  ∃ e, call = (.error (.err e), t)

/-- Every accessor and every call rejects the id. -/
structure Rejected [Coord F] (t : UiTree F) (id : UiNodeId) : Prop where
  contains : t.contains id = false
  content : t.content id = .error .invalidNode
  parent : t.parent id = .error .invalidNode
  children : t.children id = .error .invalidNode
  rect : t.rect id = .error .invalidNode
  setRect (rect : UiRect F) : Fails t (t.setRect id rect)
  setContent (content : UiNodeContent F) : Fails t (t.setContent id content)
  reparent (room : Room) (newParent : UiNodeId) : Fails t (t.reparent room id newParent)
  reparentBelow (room : Room) (node : UiNodeId) : Fails t (t.reparent room node id)
  create (room : Room) (content : UiNodeContent F) : Fails t (t.create room id content)
  destroy (room : Room) : Fails t (t.destroy room id)
  command (room : Room) (command : UiCommand F) : command.Names id → Fails t (command.run room t)

namespace UiTree

/-- The slot of the id has moved on to a later generation. -/
def Aged (t : UiTree F) (id : UiNodeId) : Prop :=
  ∃ g, t.generations[id.index.toNat]? = some g ∧ id.generation < g

/-- No id of an earlier generation is found. -/
theorem Aged.lookup {t : UiTree F} {id : UiNodeId} (h : t.Aged id) (hs : t.Shape) :
    t.lookup id = none := by
  obtain ⟨g, hg, hlt⟩ := h
  refine Option.eq_none_iff_forall_not_mem.mpr ?_
  intro node hnode
  have := Option.some.inj ((hs.lookup_generation hnode).symm.trans hg)
  exact absurd (this ▸ hlt) (UInt32.lt_irrefl _)

/-- Generations do not go back. -/
theorem Change.aged {lossy : Bool} {t t' : UiTree F} (h : t.Change lossy t') {id : UiNodeId}
    (ha : t.Aged id) : t'.Aged id := by
  obtain ⟨g, hg, hlt⟩ := ha
  obtain ⟨g', hg', hle⟩ := h.grows hg
  exact ⟨g', hg', UInt32.lt_of_lt_of_le hlt hle⟩

/-- **What a change does to a live id**: it stays live, or its slot moves on. -/
theorem Change.live_or_aged {lossy : Bool} {t t' : UiTree F} (h : t.Change lossy t')
    {id : UiNodeId} (hlive : ∃ node, t.lookup id = some node) :
    (∃ node, t'.lookup id = some node) ∨ t'.Aged id := by
  obtain ⟨l, hl⟩ := live_iff.mpr hlive
  rw [← live_iff]
  -- Only two of the five kinds of change end a node's life; the others keep it live.
  cases h with
  | kept kept => exact .inl ⟨l, by rw [kept.links, hl]⟩
  | moved _ _ links => exact .inl ⟨_, by rw [links, moveBelow, hl]; rfl⟩
  | reserved _ reserved =>
    rw [live_iff, reserved.lookup]
    exact .inl hlive
  | @created u _ new parent _ _ _ _ created =>
    refine .inl ?_
    rw [created.links, insertLeaf]
    split
    · exact ⟨_, rfl⟩
    · exact ⟨_, by rw [hl]; rfl⟩
  | @destroyed _ gone order _ destroyed =>
    obtain ⟨u, hframe, hremoved⟩ := destroyed.removed
    by_cases hmem : id ∈ order
    · exact .inr (hremoved.aged id (List.mem_reverse.mpr hmem))
    · refine .inl ⟨⟨l.parent, l.children.filter (· ≠ gone)⟩, ?_⟩
      rw [destroyed.links, cutAway, if_neg hmem, hl]
      rfl

end UiTree

theorem Changes.aged {lossy : Bool} {t t' : UiTree F} (h : Changes lossy t t') {id : UiNodeId}
    (ha : t.Aged id) : t'.Aged id := by
  induction h with
  | refl => exact ha
  | tail _ hstep ih => exact hstep.aged ih

/-- The same of several changes. Once the slot has moved on there is no way back. -/
theorem Changes.live_or_aged {lossy : Bool} {t t' : UiTree F} (h : Changes lossy t t')
    {id : UiNodeId} (hlive : ∃ node, t.lookup id = some node) :
    (∃ node, t'.lookup id = some node) ∨ t'.Aged id := by
  induction h with
  | refl => exact .inl hlive
  | tail _ hstep ih =>
    cases ih with
    | inl hlive => exact hstep.live_or_aged hlive
    | inr haged => exact .inr (hstep.aged haged)

/-! ## What the calls do with an id that names no node -/

section Dead

variable {t : UiTree F} {id : UiNodeId}

theorem UiTree.not_live (hid : t.lookup id = none) : ¬ ∃ node, t.lookup id = some node := by
  intro hex
  obtain ⟨node, hlive⟩ := hex
  rw [hid] at hlive
  cases hlive

theorem UiTree.Shape.validSlot_dead (hs : t.Shape) (hid : t.lookup id = none) :
    t.validSlot id = false :=
  Bool.eq_false_iff.mpr fun hvalid => UiTree.not_live hid (hs.validSlot_iff.mp hvalid)

/-- The calls that write to one node look it up first. -/
theorem UiTree.nodeMut_dead (hid : t.lookup id = none) (f : UiNode F → UiNode F) :
    t.nodeMut id f = (.error (.err .invalidNode), t) := by
  rw [UiTree.nodeMut, UiTree.node_eq_error hid]

theorem UiTree.Shape.reparent_dead (hs : t.Shape) (hid : t.lookup id = none) (room : Room)
    (newParent : UiNodeId) : Fails t (t.reparent room id newParent) := by
  rcases hs.reparent_cases room id newParent with ⟨-, e, hcall⟩ | ⟨_, _, -, hchecks, -⟩
  · exact ⟨e, hcall⟩
  · obtain ⟨-, hparent, -⟩ := hs.reparentChecks_iff.mp hchecks
    exact absurd (UiTree.live_iff.mp (IsTree.live_of_parent hparent)) (UiTree.not_live hid)

theorem UiTree.Shape.reparent_below_dead (hs : t.Shape) (hid : t.lookup id = none) (room : Room)
    (node : UiNodeId) : Fails t (t.reparent room node id) := by
  refine ⟨.invalidParent, ?_⟩
  simp [UiTree.reparent, UiTree.reparentChecks, failIf, hs.validSlot_dead hid]

theorem UiTree.Shape.destroy_dead (hs : t.Shape) (hid : t.lookup id = none) (room : Room) :
    Fails t (t.destroy room id) := by
  rcases hs.destroy_cases room id with ⟨e, hcall⟩ | ⟨_, _, -, -, hdestroyed⟩
  · exact ⟨e, hcall⟩
  · exact absurd hdestroyed.live (UiTree.not_live hid)

variable [Coord F]

theorem UiTree.setRect_dead (hid : t.lookup id = none) (rect : UiRect F) :
    Fails t (t.setRect id rect) := by
  unfold UiTree.setRect
  split
  · exact ⟨_, rfl⟩
  · exact ⟨_, UiTree.nodeMut_dead hid _⟩

theorem UiTree.setContent_dead (hid : t.lookup id = none) (content : UiNodeContent F) :
    Fails t (t.setContent id content) := by
  unfold UiTree.setContent
  cases t.checkContent content with
  | error e => exact ⟨e, rfl⟩
  | ok _ => exact ⟨.invalidNode, by rw [UiTree.nodeMut_dead hid]; rfl⟩

theorem UiTree.Shape.create_dead (hs : t.Shape) (hid : t.lookup id = none) (room : Room)
    (content : UiNodeContent F) :
    t.create room id content = (.error (.err .invalidParent), t) := by
  simp [UiTree.create, UiTree.createChecks, failIf, hs.validSlot_dead hid]

theorem UiTree.Shape.command_dead (hs : t.Shape) (hid : t.lookup id = none) (room : Room)
    {command : UiCommand F} (hnames : command.Names id) : Fails t (command.run room t) := by
  cases command with
  | create parent content =>
    obtain rfl := hnames
    refine ⟨.invalidParent, ?_⟩
    change andThen (t.create room parent content) _ = _
    rw [hs.create_dead hid]
    rfl
  | destroy node =>
    obtain rfl := hnames
    exact hs.destroy_dead hid room
  | reparent node parent =>
    rcases hnames with rfl | rfl
    · exact hs.reparent_dead hid room parent
    · exact hs.reparent_below_dead hid room node
  | setStyle node style =>
    obtain rfl := hnames
    change Fails t (if style.sane then t.contentMut node _ else (.error _, t))
    split
    · exact ⟨_, UiTree.nodeMut_dead hid _⟩
    · exact ⟨_, rfl⟩
  | setText node text =>
    obtain rfl := hnames
    change Fails t (if text.byteLen ≤ t.config.maxTextBytes then t.contentMut node _
      else (.error _, t))
    split
    · exact ⟨_, UiTree.nodeMut_dead hid _⟩
    · exact ⟨_, rfl⟩
  | setVisible node visible =>
    obtain rfl := hnames
    exact ⟨_, UiTree.nodeMut_dead hid _⟩
  | setZIndex node zIndex =>
    obtain rfl := hnames
    exact ⟨_, UiTree.nodeMut_dead hid _⟩
  | setAccessibility node accessibility =>
    obtain rfl := hnames
    exact ⟨_, UiTree.nodeMut_dead hid _⟩

/-- An id that is not found is rejected by every accessor and every call. -/
theorem UiTree.Shape.rejected (hs : t.Shape) (hid : t.lookup id = none) : Rejected t id := by
  have hnode := UiTree.node_eq_error hid
  constructor
  · exact hs.validSlot_dead hid
  · rw [UiTree.content, hnode]
    rfl
  · rw [UiTree.parent, hnode]
    rfl
  · rw [UiTree.children, hnode]
    rfl
  · rw [UiTree.rect, hnode]
    rfl
  · exact UiTree.setRect_dead hid
  · exact UiTree.setContent_dead hid
  · exact hs.reparent_dead hid
  · exact hs.reparent_below_dead hid
  · exact fun room content => ⟨_, hs.create_dead hid room content⟩
  · exact hs.destroy_dead hid
  · exact fun room _ hnames => hs.command_dead hid room hnames

end Dead

section Laws

variable [Coord F]

theorem runCalls_append (t : UiTree F) (front back : List (TreeCall F)) :
    runCalls t (front ++ back) = runCalls (runCalls t front) back := List.foldl_append

/-- **A destroyed id is rejected from then on.** A destruction takes every id at or below its node,
    and whichever way an id went, no later call of any run accepts it. -/
theorem stale_ids_stay_dead {room : Room} {config : TreeConfig} {t₀ : UiTree F}
    (h₀ : UiTree.tryNew room config = .ok t₀) (before : List (TreeCall F)) {id : UiNodeId}
    (hlive : (runCalls t₀ before).contains id = true) :
    (∀ room node j, ((runCalls t₀ before).destroy room node).1 = .ok () →
      Climb (runCalls t₀ before).up id node j →
        (runCalls t₀ (before ++ [.destroy room node])).contains id = false) ∧
      ∀ between, (runCalls t₀ (before ++ between)).contains id = false →
        ∀ after, Rejected (runCalls t₀ (before ++ between ++ after)) id := by
  have hany {t : UiTree F} (hs : t.Shape) (calls : List (TreeCall F)) :
      Changes true t (runCalls t calls) := runCalls_changes true hs fun hl => absurd hl (by simp)
  have hs := runCalls_shape h₀ before
  have hnode := hs.validSlot_iff.mp hlive
  constructor
  · intro room node j hok hbelow
    rcases hs.destroy_cases room node with ⟨e, hcall⟩ | ⟨order, t', hne, hcall, hdestroyed⟩
    · rw [hcall] at hok
      cases hok
    · have hnext : runCalls t₀ (before ++ [.destroy room node]) = t' := by
        rw [runCalls_append]
        change ((runCalls t₀ before).destroy room node).2 = t'
        rw [hcall]
      have hchange : (runCalls t₀ before).Change true t' := .destroyed hne hdestroyed
      have hs' := hchange.shape hs
      obtain ⟨u, -, hremoved⟩ := hdestroyed.removed
      have hmem : id ∈ order := by
        rw [hdestroyed.preorder.mem, ← UiTree.up_eq]
        exact ⟨j, hbelow⟩
      have haged : t'.Aged id := hremoved.aged id (List.mem_reverse.mpr hmem)
      rw [hnext]
      exact (hs'.rejected (haged.lookup hs')).contains
  · intro between hdead after
    rw [runCalls_append] at hdead
    have hbetween := hany hs between
    have hs' := hbetween.shape hs
    have hafter := hany hs' after
    have haged : (runCalls (runCalls t₀ before) between).Aged id := by
      rcases hbetween.live_or_aged hnode with hstill | haged
      · have hcontains := hs'.validSlot_iff.mpr hstill
        rw [UiTree.contains] at hdead
        rw [hdead] at hcontains
        cases hcontains
      · exact haged
    rw [runCalls_append, runCalls_append]
    exact (hafter.shape hs').rejected ((hafter.aged haged).lookup (hafter.shape hs'))

/-- The slot of a destroyed node is handed out again under another id. -/
theorem stale_id_small : ∃ t₀ : UiTree Float32, UiTree.tryNew .ample ⟨4, 4, 16⟩ = .ok t₀ ∧
    Rejected (runCalls t₀ ([.create .ample ⟨0, 1⟩ (.new .panel)] ++ [.destroy .ample ⟨1, 1⟩] ++
      [.create .ample ⟨0, 1⟩ (.new .panel)])) ⟨1, 1⟩ :=
  ⟨_, rfl, (stale_ids_stay_dead (show UiTree.tryNew .ample ⟨4, 4, 16⟩ = .ok _ from rfl)
    [.create .ample ⟨0, 1⟩ (.new .panel)] (by decide +kernel)).2 [.destroy .ample ⟨1, 1⟩]
      (by decide +kernel) _⟩

end Laws

/-! ## Atomicity -/

section Laws

variable [Coord F]

/-- The commands of a buffer that succeed, in order, and the tree they leave: one that fails
    leaves nothing. -/
inductive Applied : UiTree F → List (UiCommand F) → List (UiCommand F) → UiTree F → Prop where
  | nil (t : UiTree F) : Applied t [] [] t
  | succeeds {t u t' : UiTree F} {command : UiCommand F} {commands done : List (UiCommand F)}
      (run : command.run .ample t = (.ok (), u)) (rest : Applied u commands done t') :
      Applied t (command :: commands) (command :: done) t'
  | fails {t t' : UiTree F} {command : UiCommand F} {commands done : List (UiCommand F)}
      {e : UiError} (run : (command.run .ample t).1 = .error (.err e))
      (rest : Applied t commands done t') : Applied t (command :: commands) done t'

/-- At most all of them. -/
theorem Applied.length_le {t t' : UiTree F} {commands done : List (UiCommand F)}
    (h : Applied t commands done t') : done.length ≤ commands.length := by
  induction h with
  | nil => exact Nat.le_refl _
  | succeeds _ _ ih => exact Nat.succ_le_succ ih
  | fails _ _ ih => exact Nat.le_succ_of_le ih

/-- **The loop of `apply`** runs the commands that succeed and counts them. -/
theorem applyCommands_applied {t : UiTree F} (hs : t.Shape) {commands : List (UiCommand F)}
    {applied : Nat} (hsmall : applied + commands.length < 2 ^ 64) :
    ∃ done t', Applied t commands done t' ∧
      applyCommands commands (fun _ => .ample) applied t = (.ok (applied + done.length), t') := by
  -- On the commands that are left. A command that fails leaves the tree, so the next one starts
  -- where it did.
  induction commands generalizing t applied with
  | nil => exact ⟨[], t, .nil t, rfl⟩
  | cons command commands ih =>
    have hacts : Acts false t (command.run .ample t) := .command hs (fun _ => rfl) command
    rw [List.length_cons] at hsmall
    unfold applyCommands
    rcases hcall : command.run .ample t with ⟨e | _, u⟩ <;> rw [hcall] at hacts
    · cases e with
      | noReturn => exact absurd rfl hacts.returns
      | err e =>
        obtain rfl : u = t := hacts.refuses rfl rfl
        obtain ⟨done, t', hdone, hrest⟩ := ih hs (show applied + commands.length < 2 ^ 64 by omega)
        exact ⟨done, t', .fails (by rw [hcall]) hdone, hrest⟩
    · have hadd : usizeSaturatingAdd applied 1 = applied + 1 := by
        rw [usizeSaturatingAdd]
        omega
      obtain ⟨done, t', hdone, hrest⟩ :=
        ih (hacts.change.shape hs)
          (show usizeSaturatingAdd applied 1 + commands.length < 2 ^ 64 by omega)
      refine ⟨command :: done, t', .succeeds hcall hdone, hrest.trans ?_⟩
      rw [hadd, List.length_cons, Nat.add_assoc, Nat.add_comm 1]

/-- **A call that fails changes nothing**, when memory is found; and every call returns. A buffer
    therefore applies just the commands that succeed. -/
theorem calls_are_atomic {room : Room} {config : TreeConfig} {t₀ : UiTree F}
    (h₀ : UiTree.tryNew room config = .ok t₀) (calls : List (TreeCall F)) :
    (∀ (call : TreeCall F) (f : Failure), call.Ample → (call.run (runCalls t₀ calls)).1 = .error f →
      (∃ e, f = .err e) ∧ call.next (runCalls t₀ calls) = runCalls t₀ calls) ∧
    ∀ buffer : UiCommandBuffer F, ∃ done t',
      Applied (runCalls t₀ calls) buffer.commands done t' ∧
        ∃ drained : UiCommandBuffer F, drained.commands = [] ∧ drained.capacity = buffer.capacity ∧
          buffer.apply (fun _ => .ample) (runCalls t₀ calls) = (.ok done.length, t', drained) := by
  have hs := runCalls_shape h₀ calls
  constructor
  · intro call f hample hfails
    obtain ⟨hreturns, -, hrefuses⟩ := TreeCall.changes false hs fun _ => hample
    refine ⟨?_, hrefuses f rfl hfails⟩
    cases f with
    | err e => exact ⟨e, rfl⟩
    | noReturn => exact absurd hfails hreturns
  · intro buffer
    have hfits := buffer.fits
    have hsmall := buffer.small
    obtain ⟨done, t', hdone, hcall⟩ :=
      applyCommands_applied hs (show 0 + buffer.commands.length < 2 ^ 64 by omega)
    refine ⟨done, t', hdone, { buffer with commands := [], fits := Nat.zero_le _ }, rfl, rfl, ?_⟩
    rw [UiCommandBuffer.apply, hcall, Nat.zero_add]

/-- A move of the root fails, and of two commands the one that succeeds is counted. -/
theorem calls_are_atomic_small : ∃ t₀ : UiTree Float32,
    UiTree.tryNew .ample ⟨4, 4, 16⟩ = .ok t₀ ∧
      (TreeCall.reparent .ample ⟨0, 1⟩ ⟨0, 1⟩).next t₀ = t₀ ∧
        ∃ done t', Applied t₀ [.destroy ⟨1, 1⟩, .setVisible ⟨0, 1⟩ false] done t' :=
  have h (calls : List (TreeCall Float32)) :=
    calls_are_atomic (show UiTree.tryNew .ample ⟨4, 4, 16⟩ = .ok _ from rfl) calls
  ⟨_, rfl, ((h []).1 (.reparent .ample ⟨0, 1⟩ ⟨0, 1⟩) (.err .invalidParent) rfl rfl).2,
    let ⟨done, t', hdone, _⟩ := (h []).2 ⟨[.destroy ⟨1, 1⟩, .setVisible ⟨0, 1⟩ false], 2, by simp,
      by simp⟩
    ⟨done, t', hdone⟩⟩

end Laws

end Ui
end EngineKit
