import EngineKit.Ui.TreeRuns

/-!
# Dirty flags

A node is dirty until layout has given it a rectangle (`set_rect` clears the flag). Two mutations
walk up and mark what they find, `set_content` and `reparent`, and they mark along the links as
they are after the change. The others leave the flags alone: `create` only makes its node dirty,
`destroy` and the commands that write a content mark nothing.

So after a mutation a node and all above it are dirty when the mutation marked them or they were
dirty before, and `mutation_marks_iff` says for each of the mutations what must have been dirty.
`Unmarked` is what most of the steps inside a mutation have in common: no live node's flag changed.

What a mutation marks is a set of nodes, the way up from where it starts; what should be dirty is
another, the ways up from what changed. The lemmas about the walk (`MarksUp`) and about the other
steps (`Unmarked`) say how flags and links change, and an exact condition comes out by comparing the
two sets: a node of the second that is not in the first must have been dirty before. For
`set_content` the sets are the same and the condition is none; for a write of a content the first is
empty.
-/

set_option autoImplicit false

namespace EngineKit
namespace Ui

open Lib

variable {F : Type}

namespace UiTree

def isDirty (t : UiTree F) (id : UiNodeId) : Except UiError Bool := (t.node id).map UiNode.dirty

/-- The node and everything above it is dirty. -/
def DirtyUp (t : UiTree F) (id : UiNodeId) : Prop :=
  ∀ a d, Climb (parentOf t.links) id a d → t.isDirty a = .ok true

/-! ## One write -/

/-- The flag is a live node's. -/
theorem isDirty_eq_ok {t : UiTree F} {id : UiNodeId} {b : Bool} :
    t.isDirty id = .ok b ↔ ∃ node, t.lookup id = some node ∧ node.dirty = b := by
  rw [isDirty, node]
  cases t.lookup id with
  | none => simp [Except.map]
  | some node => simp [Except.map]

/-- A write of one node changes its flag at most. -/
theorem isDirty_setNode {t : UiTree F} {node old : UiNode F} (hold : t.lookup node.id = some old)
    (x : UiNodeId) :
    (t.setNode node).isDirty x = if x = node.id then .ok node.dirty else t.isDirty x := by
  rw [isDirty, UiTree.node, lookup_setNode hold]
  by_cases hx : x = node.id
  · rw [if_pos hx, if_pos hx]
    rfl
  · rw [if_neg hx, if_neg hx]
    rfl

/-- No live node's flag changed. -/
def Unmarked (t t' : UiTree F) : Prop := ∀ x b, t'.isDirty x = .ok b → t.isDirty x = .ok b

theorem Unmarked.trans {t u v : UiTree F} (h : t.Unmarked u) (h' : u.Unmarked v) :
    t.Unmarked v := fun x b hx => h x b (h' x b hx)

/-- A write that keeps the flag marks nothing. -/
theorem Unmarked.setNode {t : UiTree F} {node old : UiNode F} (hold : t.lookup node.id = some old)
    (hdirty : node.dirty = old.dirty) : t.Unmarked (t.setNode node) := by
  intro x b hx
  rw [isDirty_setNode hold] at hx
  split at hx
  · next heq =>
    rw [heq]
    exact isDirty_eq_ok.mpr ⟨old, hold, by rw [← hdirty]; exact Except.ok.inj hx⟩
  · exact hx

theorem Unmarked.nodeMut {t t' : UiTree F} {id : UiNodeId} {f : UiNode F → UiNode F}
    (hf : ∀ node, (f node).id = node.id ∧ (f node).dirty = node.dirty)
    (h : t.nodeMut id f = (.ok (), t')) : t.Unmarked t' := by
  rcases t.nodeMut_cases id f with ⟨-, hcall⟩ | ⟨node, hnode, hcall⟩
  · cases hcall.symm.trans h
  · obtain rfl : t.setNode (f node) = t' := congrArg Prod.snd (hcall.symm.trans h)
    have hold : t.lookup (f node).id = some node := by rw [(hf node).1, lookup_id hnode, hnode]
    exact .setNode hold (hf node).2

/-- What is above a live node is live. -/
theorem Shape.live_above {t : UiTree F} (h : t.Shape) {id a : UiNodeId} {d : Nat}
    (hclimb : Climb (parentOf t.links) id a d) {node : UiNode F}
    (hnode : t.lookup id = some node) : ∃ above, t.lookup a = some above := by
  obtain ⟨e, -, he⟩ := h.depth_lt hnode
  rcases Nat.le_total d e with hle | hle
  · exact h.live_of_climb (hclimb.split he hle)
  · obtain rfl := (he.split hclimb hle).eq_of_top h.tree.root_parent
    exact h.live_of_climb (.here _)

/-- A flag that did not change is still set. -/
theorem dirty_of_unchanged {t t' : UiTree F} {a : UiNodeId}
    (hlive : ∃ node, t'.lookup a = some node)
    (hsame : ∀ b, t'.isDirty a = .ok b → t.isDirty a = .ok b) (h : t.isDirty a = .ok true) :
    t'.isDirty a = .ok true := by
  obtain ⟨node, hnode⟩ := hlive
  have hflag : t'.isDirty a = .ok node.dirty := isDirty_eq_ok.mpr ⟨node, hnode, rfl⟩
  have hthen := hsame _ hflag
  rw [h] at hthen
  rw [hflag, ← Except.ok.inj hthen]

/-- **Where no flag changed** and the way up is the old one, it is dirty if it was. -/
theorem Unmarked.dirtyUp_iff {t t' : UiTree F} (h : t.Unmarked t') (hs : t'.Shape)
    {id : UiNodeId} {node : UiNode F} (hnode : t'.lookup id = some node)
    (hway : ∀ a d, Climb (parentOf t'.links) id a d ↔ Climb (parentOf t.links) id a d) :
    t'.DirtyUp id ↔ t.DirtyUp id := by
  constructor
  · intro hup a d hclimb
    exact h a true (hup a d ((hway a d).mpr hclimb))
  · intro hup a d hclimb
    have hthen := hup a d ((hway a d).mp hclimb)
    exact dirty_of_unchanged (hs.live_above hclimb hnode) (h a) hthen

/-! ## The walk that marks -/

/-- The way up from a node is marked, and nothing else. -/
structure MarksUp (t t' : UiTree F) (id : UiNodeId) : Prop where
  above : t'.DirtyUp id
  others {x : UiNodeId} {b : Bool} : (∀ d, ¬ Climb (parentOf t'.links) id x d) →
    t'.isDirty x = .ok b → t.isDirty x = .ok b

/-- One mark, on a node with nothing above it. -/
theorem MarksUp.top {t u : UiTree F} {id : UiNodeId}
    (hmarked : ∀ x, u.isDirty x = if x = id then .ok true else t.isDirty x)
    (hparent : parentOf u.links id = none) : t.MarksUp u id := by
  refine ⟨?_, ?_⟩
  · intro a d hclimb
    obtain rfl := hclimb.eq_of_top hparent
    rw [hmarked, if_pos rfl]
  · intro x b hout hx
    rw [hmarked, if_neg] at hx
    · exact hx
    · intro heq
      exact hout 0 (heq ▸ .here _)

/-- One mark, and then the way up from the parent. -/
theorem MarksUp.up {t u t' : UiTree F} {id p : UiNodeId}
    (hmarked : ∀ x, u.isDirty x = if x = id then .ok true else t.isDirty x)
    (hparent : parentOf t'.links id = some p) (hlive : ∃ node, t'.lookup id = some node)
    (h : u.MarksUp t' p) : t.MarksUp t' id := by
  refine ⟨?_, ?_⟩
  · intro a d hclimb
    cases hclimb with
    | here =>
      -- the node itself stays marked, whether the walk passes it again or not
      by_cases hagain : ∃ e, Climb (parentOf t'.links) p id e
      · obtain ⟨e, he⟩ := hagain
        exact h.above id e he
      · refine dirty_of_unchanged hlive (fun b => h.others fun e he => hagain ⟨e, he⟩) ?_
        rw [hmarked, if_pos rfl]
    | up step rest =>
      obtain rfl := Option.some.inj (step.symm.trans hparent)
      exact h.above a _ rest
  · intro x b hout hx
    have hthen := h.others (fun d hd => hout (d + 1) (.up hparent hd)) hx
    rw [hmarked, if_neg] at hthen
    · exact hthen
    · intro heq
      exact hout 0 (heq ▸ .here _)

/-- **The walk**, by induction on its fuel: it marks the node it is at and goes on above it. -/
theorem MarksUp.markAncestorsDirty {fuel : Nat} {id : UiNodeId} {t t' : UiTree F}
    (h : t.markAncestorsDirty fuel id = (.ok (), t')) : t.MarksUp t' id := by
  -- On the fuel of the walk, which marks as it goes up.
  induction fuel generalizing t id with
  | zero => cases h
  | succ fuel ih =>
    have hlinks : t'.links = t.links := by
      rw [← (Kept.markAncestorsDirty (fuel + 1) id t).links, h]
    unfold UiTree.markAncestorsDirty at h
    cases hnode : t.lookup id with
    | none =>
      rw [node_eq_error hnode] at h
      cases h
    | some node =>
      rw [node_eq_ok.mpr hnode] at h
      have hparent : parentOf t'.links id = node.parent := by rw [hlinks, parentOf_links hnode]
      have hold : t.lookup node.id = some node := by rw [lookup_id hnode, hnode]
      have hmarked (x : UiNodeId) : (t.setNode { node with dirty := true }).isDirty x
          = if x = id then .ok true else t.isDirty x := by
        rw [@isDirty_setNode F t { node with dirty := true } node hold x]
        simp only [lookup_id hnode]
      dsimp only at h
      generalize t.setNode { node with dirty := true } = u at h hmarked
      cases hp : node.parent with
      | none =>
        simp only [hp] at h
        obtain rfl : u = t' := congrArg Prod.snd h
        exact .top hmarked (hparent.trans hp)
      | some p =>
        simp only [hp] at h
        have hlive : ∃ now, t'.lookup id = some now := by
          apply live_iff.mp
          rw [hlinks]
          exact live_iff.mpr ⟨node, hnode⟩
        exact .up hmarked (hparent.trans hp) hlive (ih h)

/-- **Where the walk went** and the way up from a node is the old one, all of it is dirty if each
    part was, or has been marked. -/
theorem MarksUp.dirtyUp_iff {t t' : UiTree F} {id p : UiNodeId} (h : t.MarksUp t' id)
    (hs : t'.Shape) {node : UiNode F} (hnode : t'.lookup p = some node)
    (hway : ∀ a d, Climb (parentOf t'.links) p a d ↔ Climb (parentOf t.links) p a d) :
    t'.DirtyUp p ↔ ∀ a d, Climb (parentOf t.links) p a d →
      t.isDirty a = .ok true ∨ ∃ e, Climb (parentOf t'.links) id a e := by
  constructor
  · intro hup a d ha
    by_cases hmarked : ∃ e, Climb (parentOf t'.links) id a e
    · exact .inr hmarked
    · exact .inl (h.others (fun e he => hmarked ⟨e, he⟩) (hup a d ((hway a d).mpr ha)))
  · intro hcond a d ha
    by_cases hmarked : ∃ e, Climb (parentOf t'.links) id a e
    · obtain ⟨e, he⟩ := hmarked
      exact h.above a e he
    · have hdirty := (hcond a d ((hway a d).mp ha)).resolve_right hmarked
      exact dirty_of_unchanged (hs.live_above ha hnode)
        (fun b => h.others fun e he => hmarked ⟨e, he⟩) hdirty

/-- Flags that did not change before the walk. -/
theorem Unmarked.marksUp {t u v : UiTree F} {id : UiNodeId} (h : t.Unmarked u)
    (h' : u.MarksUp v id) : t.MarksUp v id :=
  ⟨h'.above, fun hout hx => h _ _ (h'.others hout hx)⟩

/-! ## What each mutation does to the flags -/

/-- A write of a content marks nothing. -/
theorem Shape.dirtyUp_contentMut {t t' : UiTree F} (hs : t.Shape) {id : UiNodeId}
    {f : UiNodeContent F → UiNodeContent F} (h : t.contentMut id f = (.ok (), t')) :
    t'.DirtyUp id ↔ t.DirtyUp id := by
  unfold UiTree.contentMut at h
  have hkept := Kept.nodeMut t id (f := fun node => { node with content := f node.content })
    fun _ => ⟨rfl, rfl⟩
  rw [h] at hkept
  have hflags : t.Unmarked t' :=
    .nodeMut (f := fun node => { node with content := f node.content }) (fun _ => ⟨rfl, rfl⟩) h
  obtain ⟨node, hnode⟩ : ∃ node, t'.lookup id = some node := by
    apply live_iff.mp
    rw [hkept.links]
    rcases t.nodeMut_cases id (fun node => { node with content := f node.content }) with
      ⟨-, hcall⟩ | ⟨node, hnode, -⟩
    · cases hcall.symm.trans h
    · exact live_iff.mpr ⟨node, hnode⟩
  refine hflags.dirtyUp_iff (hkept.shape hs) hnode ?_
  intro a d
  rw [hkept.links]

/-- What is outside a node's subtree has nothing of it above. -/
theorem climb_outside_iff {t t' : UiTree F} {id k : UiNodeId}
    (hout : ∀ j, ¬ Climb (parentOf t.links) k id j)
    (hparent : ∀ x, (∀ j, ¬ Climb (parentOf t.links) x id j) →
      parentOf t'.links x = parentOf t.links x) (a : UiNodeId) (d : Nat) :
    Climb (parentOf t'.links) k a d ↔ Climb (parentOf t.links) k a d := by
  refine Climb.congr (P := fun x => ∀ j, ¬ Climb (parentOf t.links) x id j) hout ?_
  intro x hx
  exact ⟨hparent x hx, fun y hxy j hy => hx (j + 1) (.up hxy hy)⟩

/-- A step of a mutation that succeeds. -/
theorem andThen_eq_ok {α β : Type} {x : Except Failure α × UiTree F}
    {f : α → UiTree F → Except Failure β × UiTree F} {b : β} {t' : UiTree F} :
    andThen x f = (.ok b, t') ↔ ∃ a u, x = (.ok a, u) ∧ f a u = (.ok b, t') := by
  obtain ⟨result, u⟩ := x
  cases result with
  | error e => simp [andThen]
  | ok a => simp [andThen]

/-- Nor does taking nodes away. -/
theorem Unmarked.removeNodes {t : UiTree F} (gone : List UiNodeId) :
    t.Unmarked (gone.foldl removeNode t) := by
  -- On the nodes that are removed; one that is gone has no flag.
  induction gone generalizing t with
  | nil => exact fun x b hx => hx
  | cons id gone ih =>
    refine Unmarked.trans ?_ ih
    intro x b hx
    obtain ⟨node, hnode, hb⟩ := isDirty_eq_ok.mp hx
    obtain ⟨hslot, hid⟩ := lookup_eq_some.mp hnode
    change (t.slots.set id.index.toNat none)[x.index.toNat]? = some (some node) at hslot
    rw [List.getElem?_set] at hslot
    refine isDirty_eq_ok.mpr ⟨node, lookup_eq_some.mpr ⟨?_, hid⟩, hb⟩
    split at hslot
    · split at hslot
      · cases hslot
      · cases hslot
    · exact hslot

/-- No node is below its child. -/
theorem Shape.not_below_child {t : UiTree F} (hs : t.Shape) {id p : UiNodeId}
    (hp : parentOf t.links id = some p) (j : Nat) : ¬ Climb (parentOf t.links) p id j := by
  intro hclimb
  obtain ⟨l, hl⟩ := IsTree.live_of_parent hp
  exact absurd (hs.tree.acyclic hl (.up hp hclimb)) (Nat.succ_ne_zero j)

/-- **`destroy`** marks nothing: above the old parent all is dirty if it was. -/
theorem Shape.dirtyUp_destroy {t t' : UiTree F} (hs : t.Shape) {room : Room} {id p : UiNodeId}
    (h : t.destroy room id = (.ok (), t')) (hp : parentOf t.links id = some p) :
    t'.DirtyUp p ↔ t.DirtyUp p := by
  have hshape : t'.Shape := by
    have hacts := (show Acts true t (t.destroy room id) from .destroy hs room id).change.shape hs
    rwa [h] at hacts
  have hflags : t.Unmarked t' := by
    unfold UiTree.destroy at h
    split at h
    · cases h
    · obtain ⟨_, u, hwrite, hlast⟩ := andThen_eq_ok.mp h
      obtain rfl := congrArg Prod.snd hlast
      refine Unmarked.trans (.nodeMut ?_ hwrite) (.removeNodes _)
      exact fun _ => ⟨rfl, rfl⟩
  rcases hs.destroy_cases room id with ⟨e, hcall⟩ | ⟨order, u, hne, hcall, hdestroyed⟩
  · cases hcall.symm.trans h
  · obtain rfl : u = t' := congrArg Prod.snd (hcall.symm.trans h)
    have hout := hs.not_below_child hp
    have hkeeps (x : UiNodeId) (hx : ∀ j, ¬ Climb (parentOf t.links) x id j) : x ∉ order := by
      intro hin
      obtain ⟨j, hj⟩ := (hdestroyed.preorder.mem x).mp hin
      exact hx j hj
    obtain ⟨m, hm, -⟩ := hs.tree.listed hp
    obtain ⟨node, hnode⟩ : ∃ node, u.lookup p = some node := by
      apply live_iff.mp
      rw [hdestroyed.links, cutAway, if_neg (hkeeps p hout), hm]
      exact ⟨_, rfl⟩
    refine hflags.dirtyUp_iff hshape hnode (climb_outside_iff hout fun x hx => ?_)
    rw [hdestroyed.links, parentOf_cutAway, if_neg (hkeeps x hx)]

/-- What `reparent` leaves of the flags: the way up from the node's new place is marked. -/
theorem reparent_marksUp {t t' : UiTree F} {room : Room} {id newParent : UiNodeId}
    (h : t.reparent room id newParent = (.ok (), t')) : t.MarksUp t' id := by
  unfold UiTree.reparent at h
  split at h
  · cases h
  · split at h
    · cases h
    · split at h
      · cases h
      · obtain ⟨_, u, hfirst, h⟩ := andThen_eq_ok.mp h
        obtain ⟨_, v, hsecond, h⟩ := andThen_eq_ok.mp h
        obtain ⟨_, w, hthird, h⟩ := andThen_eq_ok.mp h
        have hflags : t.Unmarked w := by
          refine Unmarked.trans (.nodeMut ?_ hfirst)
            (Unmarked.trans (.nodeMut ?_ hsecond) (.nodeMut ?_ hthird))
          all_goals exact fun _ => ⟨rfl, rfl⟩
        exact hflags.marksUp (.markAncestorsDirty h)

/-- **`reparent`** leaves the old parent and all above it dirty when they were, or are above the
    new place as well. -/
theorem Shape.dirtyUp_reparent {t t' : UiTree F} (hs : t.Shape) {room : Room}
    {id newParent p : UiNodeId} (h : t.reparent room id newParent = (.ok (), t'))
    (hp : parentOf t.links id = some p) :
    t'.DirtyUp p ↔ ∀ a d, Climb (parentOf t.links) p a d →
      t.isDirty a = .ok true ∨ ∃ e, Climb (parentOf t.links) newParent a e := by
  have hshape : t'.Shape := by
    have hacts : Acts true t (t.reparent room id newParent) := .reparent hs room id newParent
    have hafter := hacts.change.shape hs
    rwa [h] at hafter
  have hmarks := reparent_marksUp h
  rcases hs.reparent_cases room id newParent with ⟨-, e, hcall⟩ |
    ⟨oldParent, u, -, hchecks, hcall, -, hlinks⟩
  · cases hcall.symm.trans h
  obtain rfl : u = t' := congrArg Prod.snd (hcall.symm.trans h)
  obtain ⟨-, -, hnew, -⟩ := hs.reparentChecks_iff.mp hchecks
  obtain ⟨l, hl⟩ := IsTree.live_of_parent hp
  have hout := hs.not_below_child hp
  have hparent (x : UiNodeId) (hx : ∀ j, ¬ Climb (parentOf t.links) x id j) :
      parentOf u.links x = parentOf t.links x := by
    rw [hlinks, parentOf_moveBelow_of_ne (IsTree.ne_of_outside hx)]
  -- The way up from the new place, in the new links.
  -- above its new place the node has itself, and what the new parent has
  have hid : parentOf u.links id = some newParent := by
    rw [hlinks, parentOf_moveBelow hl, if_pos rfl]
  have habove (a : UiNodeId) (d : Nat) (ha : Climb (parentOf t.links) p a d) :
      (∃ e, Climb (parentOf u.links) id a e) ↔ ∃ e, Climb (parentOf t.links) newParent a e := by
    constructor
    · intro hclimb
      obtain ⟨e, he⟩ := hclimb
      cases he with
      | here => exact absurd ha (hout d)
      | up step rest =>
        obtain rfl := Option.some.inj (step.symm.trans hid)
        exact ⟨_, (climb_outside_iff hnew hparent _ _).mp rest⟩
    · intro hclimb
      obtain ⟨e, he⟩ := hclimb
      exact ⟨e + 1, .up hid ((climb_outside_iff hnew hparent _ _).mpr he)⟩
  obtain ⟨node, hnode⟩ : ∃ node, u.lookup p = some node := by
    obtain ⟨m, hm, -⟩ := hs.tree.listed hp
    apply live_iff.mp
    rw [hlinks, moveBelow, hm]
    exact ⟨_, rfl⟩
  rw [hmarks.dirtyUp_iff hshape hnode (climb_outside_iff hout hparent)]
  refine forall_congr' fun a => forall_congr' fun d => forall_congr' ?_
  intro ha
  rw [habove a d ha]

variable [Coord F]

/-- **`set_content`** marks the node and all above it. -/
theorem dirtyUp_setContent {t t' : UiTree F} {id : UiNodeId} {content : UiNodeContent F}
    (h : t.setContent id content = (.ok (), t')) : t'.DirtyUp id := by
  unfold UiTree.setContent at h
  split at h
  · cases h
  · obtain ⟨_, u, -, hwalk⟩ := andThen_eq_ok.mp h
    exact (MarksUp.markAncestorsDirty hwalk).above

omit [Coord F] in
/-- A node put into a dead slot is seen at its id only. -/
theorem isDirty_fill {t : UiTree F} {node : UiNode F}
    (hslot : t.slots[node.id.index.toNat]? = some none) (count : Nat) (x : UiNodeId) :
    ({ t.setNode node with count } : UiTree F).isDirty x
      = if x = node.id then .ok node.dirty else t.isDirty x := by
  have htakes : t.Takes node.id := ⟨none, hslot, fun n hn => by cases hn⟩
  have hlookup : ({ t.setNode node with count } : UiTree F).lookup x
      = if x = node.id then some node else t.lookup x :=
    lookup_set htakes (fun n hn => by rw [← Option.some.inj hn]) rfl x
  rw [isDirty, UiTree.node, hlookup]
  by_cases hx : x = node.id
  · rw [if_pos hx, if_pos hx]
    rfl
  · rw [if_neg hx, if_neg hx]
    rfl

/-- What adding a node does to the flags. -/
theorem addNode_flags {t t' : UiTree F} {room : Room} {parent id id' : UiNodeId}
    {content : UiNodeContent F} (hslot : t.slots[id.index.toNat]? = some none)
    (h : addNode room parent content id t = (.ok id', t')) :
    id' = id ∧ t'.isDirty id = .ok true ∧
      ∀ x b, x ≠ id → t'.isDirty x = .ok b → t.isDirty x = .ok b := by
  unfold addNode at h
  split at h
  · cases h
  · split at h
    · cases h
    · next node hnode =>
      split at h
      · cases h
      · obtain ⟨hid, htree⟩ := Prod.mk.inj h
        obtain rfl := Except.ok.inj hid
        subst htree
        have hlookup := node_eq_ok.mp hnode
        have hold : t.lookup node.id = some node := by rw [lookup_id hlookup, hlookup]
        generalize hgrown : ({ node with children := node.children ++ [id] } : UiNode F) = grown
        have hkept : t.lookup grown.id = some node := by rw [← hgrown]; exact hold
        have hflags : t.Unmarked (t.setNode grown) := .setNode hkept (by rw [← hgrown])
        have hdead := ((Frame.setNode hkept).dead id.index.toNat).mpr hslot
        have hnew (x : UiNodeId) := @isDirty_fill F (t.setNode grown)
          ⟨id, some parent, [], content, .zero, true⟩ hdead ((t.setNode grown).count + 1) x
        refine ⟨rfl, ?_, ?_⟩
        · exact (hnew id).trans (if_pos rfl)
        · intro x b hx hflag
          exact hflags x b (((hnew x).trans (if_neg hx)).symm.trans hflag)

/-- What `create` leaves of the flags: the new node is dirty, and no other changed. -/
theorem Shape.create_flags {t t' : UiTree F} (hs : t.Shape) {room : Room} {parent id : UiNodeId}
    {content : UiNodeContent F} (h : t.create room parent content = (.ok id, t')) :
    t'.isDirty id = .ok true ∧
      ∀ x b, x ≠ id → t'.isDirty x = .ok b → t.isDirty x = .ok b := by
  unfold UiTree.create at h
  split at h
  · cases h
  · obtain ⟨new, u, hslot, hadd⟩ := andThen_eq_ok.mp h
    rcases hs.takeSlot_cases room with ⟨e, hcall⟩ | ⟨reserved, v, hcall, hreserved⟩
    · cases hcall.symm.trans hslot
    · obtain ⟨hid, rfl⟩ := Prod.mk.inj (hcall.symm.trans hslot)
      obtain rfl := Except.ok.inj hid
      obtain ⟨rfl, hnew, hothers⟩ := addNode_flags hreserved.slot hadd
      refine ⟨hnew, ?_⟩
      intro x b hx hflag
      have hthen := hothers x b hx hflag
      rwa [isDirty, UiTree.node, hreserved.lookup] at hthen

/-- **`create`** marks its node alone: above it all is dirty if it was. -/
theorem Shape.dirtyUp_create {t t' : UiTree F} (hs : t.Shape) {room : Room}
    {parent id : UiNodeId} {content : UiNodeContent F}
    (h : t.create room parent content = (.ok id, t')) :
    t.lookup id = none ∧ t'.contains id = true ∧ (t'.DirtyUp id ↔ t.DirtyUp parent) := by
  have hshape : t'.Shape := by
    have hacts : Acts true t (t.create room parent content) :=
      .create hs (fun hl => by cases hl) parent content
    have hnext := hacts.change.shape hs
    rwa [h] at hnext
  obtain ⟨hdirty, hothers⟩ := hs.create_flags h
  -- Nothing was created, or one node in a slot that was dead.
  rcases hs.create_cases room parent content with ⟨e, hcall⟩ | ⟨_, _, -, hcall, -⟩ |
    ⟨id', u, v, hchecks, hcall, hcreated⟩
  · cases hcall.symm.trans h
  · cases hcall.symm.trans h
  obtain ⟨hid, rfl⟩ := Prod.mk.inj (hcall.symm.trans h)
  obtain rfl := Except.ok.inj hid
  obtain ⟨-, -, d, hd, -⟩ := hs.createChecks_iff.mp hchecks
  obtain ⟨node, hnode⟩ := hs.live_of_climb hd
  obtain ⟨new, hnew, -⟩ := isDirty_eq_ok.mp hdirty
  have hid : parentOf v.links id' = some parent := by
    rw [hcreated.links, parentOf_insertLeaf, if_pos rfl]
  have hway (a : UiNodeId) (d : Nat) :
      Climb (parentOf v.links) parent a d ↔ Climb (parentOf t.links) parent a d := by
    refine Climb.congr (P := fun x => ∃ node, t.lookup x = some node) ⟨node, hnode⟩ ?_
    intro x hx
    obtain ⟨above, habove⟩ := hx
    refine ⟨?_, ?_⟩
    · rw [hcreated.links, parentOf_insertLeaf, if_neg]
      intro heq
      rw [heq, hcreated.fresh] at habove
      cases habove
    · intro y hy
      obtain ⟨m, hm, -⟩ := hs.tree.listed hy
      exact live_iff.mp ⟨m, hm⟩
  refine ⟨hcreated.fresh, hshape.validSlot_iff.mpr ⟨new, hnew⟩, ?_, ?_⟩
  · intro hup a d ha
    obtain ⟨above, habove⟩ := hs.live_above ha hnode
    refine hothers a true ?_ (hup a (d + 1) (.up hid ((hway a d).mpr ha)))
    intro heq
    rw [heq, hcreated.fresh] at habove
    cases habove
  · intro hup a d ha
    cases ha with
    | here => exact hdirty
    | @up _ _ _ d step rest =>
      obtain rfl := Option.some.inj (step.symm.trans hid)
      have hthen := hup a d ((hway a d).mp rest)
      by_cases heq : a = id'
      · rw [heq]
        exact hdirty
      · exact dirty_of_unchanged (hshape.live_above (.up step rest) hnew)
          (fun b => hothers a b heq) hthen

end UiTree

/-! ## The law -/

section Law

variable [Coord F]

/-- The calls that change what a tree shows: the four of the tree, and the commands. -/
inductive UiMutation (F : Type) where
  | create (parent : UiNodeId) (content : UiNodeContent F)
  | destroy (id : UiNodeId)
  | reparent (id newParent : UiNodeId)
  | setContent (id : UiNodeId) (content : UiNodeContent F)
  | command (command : UiCommand F)

namespace UiMutation

def call (room : Room) : UiMutation F → TreeCall F
  | .create parent content => .create room parent content
  | .destroy id => .destroy room id
  | .reparent id newParent => .reparent room id newParent
  | .setContent id content => .setContent id content
  | .command cmd => .command room cmd

/-- What should be dirty after the mutation: the node and all above it, and above a node that was
    taken away or moved its old parent and all above that. -/
def Marks (t t' : UiTree F) : UiMutation F → Prop
  | .create _ _ | .command (.create _ _) =>
    ∀ id, t.lookup id = none → t'.contains id = true → t'.DirtyUp id
  | .destroy id | .command (.destroy id) => ∀ p, t.up id = some p → t'.DirtyUp p
  | .reparent id _ | .command (.reparent id _) =>
    t'.DirtyUp id ∧ ∀ p, t.up id = some p → t'.DirtyUp p
  | .setContent id _ | .command (.setStyle id _) | .command (.setText id _)
  | .command (.setVisible id _) | .command (.setZIndex id _)
  | .command (.setAccessibility id _) => t'.DirtyUp id

/-- What must be dirty before. -/
def Spared (t : UiTree F) : UiMutation F → Prop
  | .create parent _ | .command (.create parent _) => t.DirtyUp parent
  | .destroy id | .command (.destroy id) => ∀ p, t.up id = some p → t.DirtyUp p
  | .reparent id newParent | .command (.reparent id newParent) =>
    ∀ p, t.up id = some p → ∀ a d, Climb (parentOf t.links) p a d →
      t.isDirty a = .ok true ∨ ∃ e, Climb (parentOf t.links) newParent a e
  | .setContent _ _ => True
  | .command (.setStyle id _) | .command (.setText id _) | .command (.setVisible id _)
  | .command (.setZIndex id _) | .command (.setAccessibility id _) => t.DirtyUp id

end UiMutation

section Cases

variable {t t' : UiTree F} {memory : Room}

/-- **Creating** makes one dirty node. -/
theorem create_marks_iff (hs : t.Shape) {parent : UiNodeId} {content : UiNodeContent F}
    (h : andThen (t.create memory parent content) (fun _ t => (.ok (), t)) = (.ok (), t')) :
    (∀ id, t.lookup id = none → t'.contains id = true → t'.DirtyUp id) ↔ t.DirtyUp parent := by
  obtain ⟨new, u, hcall, hlast⟩ := UiTree.andThen_eq_ok.mp h
  obtain rfl : u = t' := congrArg Prod.snd hlast
  obtain ⟨hfresh, hlive, hiff⟩ := hs.dirtyUp_create hcall
  rw [← hiff]
  constructor
  · intro hall
    exact hall new hfresh hlive
  · intro hup id hnone hcontains
    -- whatever else lives was there before
    have hid : id = new := by
      by_contra hne
      have hshape : u.Shape := by
        have hacts : Acts true t (t.create memory parent content) :=
          .create hs (fun hl => by cases hl) parent content
        have hnext := hacts.change.shape hs
        rwa [hcall] at hnext
      obtain ⟨node, hnode⟩ := hshape.validSlot_iff.mp hcontains
      have hthen := (hs.create_flags hcall).2 id node.dirty hne
        (UiTree.isDirty_eq_ok.mpr ⟨node, hnode, rfl⟩)
      obtain ⟨old, hold, -⟩ := UiTree.isDirty_eq_ok.mp hthen
      rw [hnone] at hold
      cases hold
    rw [hid]
    exact hup

omit [Coord F] in
/-- **Destroying** leaves what is above as it was. -/
theorem destroy_marks_iff (hs : t.Shape) {id : UiNodeId}
    (h : t.destroy memory id = (.ok (), t')) :
    (∀ p, t.up id = some p → t'.DirtyUp p) ↔ ∀ p, t.up id = some p → t.DirtyUp p := by
  refine forall₂_congr ?_
  intro p hp
  rw [UiTree.up_eq] at hp
  exact hs.dirtyUp_destroy h hp

omit [Coord F] in
/-- **Moving** marks the new way up, and the old one where it is the same. -/
theorem reparent_marks_iff (hs : t.Shape) {id newParent : UiNodeId}
    (h : t.reparent memory id newParent = (.ok (), t')) :
    (t'.DirtyUp id ∧ ∀ p, t.up id = some p → t'.DirtyUp p) ↔
      ∀ p, t.up id = some p → ∀ a d, Climb (parentOf t.links) p a d →
        t.isDirty a = .ok true ∨ ∃ e, Climb (parentOf t.links) newParent a e := by
  rw [and_iff_right (UiTree.reparent_marksUp h).above]
  refine forall₂_congr ?_
  intro p hp
  rw [UiTree.up_eq] at hp
  exact hs.dirtyUp_reparent h hp

/-- The commands that write a content leave the flags to what they were. -/
theorem command_marks_iff (hs : t.Shape) {cmd : UiCommand F}
    (h : cmd.run memory t = (.ok (), t')) :
    (UiMutation.command cmd).Marks t t' ↔ (UiMutation.command cmd).Spared t := by
  -- Three of the commands are the calls of the tree; the others write a content.
  cases cmd with
  | create parent content => exact create_marks_iff hs h
  | destroy id => exact destroy_marks_iff hs h
  | reparent id newParent => exact reparent_marks_iff hs h
  | setStyle id style =>
    simp only [UiCommand.run] at h
    split at h
    · exact hs.dirtyUp_contentMut h
    · cases h
  | setText id text =>
    simp only [UiCommand.run] at h
    split at h
    · exact hs.dirtyUp_contentMut h
    · cases h
  | setVisible id visible =>
    simp only [UiCommand.run] at h
    exact hs.dirtyUp_contentMut h
  | setZIndex id zIndex =>
    simp only [UiCommand.run] at h
    exact hs.dirtyUp_contentMut h
  | setAccessibility id accessibility =>
    simp only [UiCommand.run] at h
    exact hs.dirtyUp_contentMut h

end Cases

/-- **Which mutations leave everything dirty** that they should, on every tree a run can leave. -/
theorem mutation_marks_iff {room : Room} {config : TreeConfig} {t₀ : UiTree F}
    (h₀ : UiTree.tryNew room config = .ok t₀) (calls : List (TreeCall F)) (memory : Room)
    (m : UiMutation F) {t' : UiTree F}
    (h : (m.call memory).run (runCalls t₀ calls) = (.ok (), t')) :
    m.Marks (runCalls t₀ calls) t' ↔ m.Spared (runCalls t₀ calls) := by
  have hs : (runCalls t₀ calls).Shape := runCalls_shape h₀ calls
  cases m with
  | create parent content => exact create_marks_iff hs h
  | destroy id => exact destroy_marks_iff hs h
  | reparent id newParent => exact reparent_marks_iff hs h
  | setContent id content => exact iff_of_true (UiTree.dirtyUp_setContent h) trivial
  | command cmd => exact command_marks_iff hs h

/-- A panel in the root, both laid out. -/
def laidOut : List (TreeCall Float32) :=
  [.create .ample ⟨0, 1⟩ (.new .panel), .setRect ⟨0, 1⟩ ⟨0, 0, 320, 200⟩,
    .setRect ⟨1, 1⟩ ⟨0, 0, 100, 100⟩]

/-- A call whose answer holds a value. -/
theorem eq_ok_of_toOption {ε α : Type} {x : Except ε α} {a : α} (h : x.toOption = some a) :
    x = .ok a := by
  cases x with
  | error e => cases h
  | ok b => rw [Option.some.inj h]

/-- **A command leaves a node clean**: the panel is hidden, and neither it nor the root is dirty. -/
theorem setVisible_leaves_clean : ∃ (t₀ t' : UiTree Float32),
    UiTree.tryNew .ample ⟨4, 4, 16⟩ = .ok t₀ ∧
      (TreeCall.command .ample (.setVisible ⟨1, 1⟩ false)).run (runCalls t₀ laidOut)
        = (.ok (), t') ∧
      t'.isDirty ⟨1, 1⟩ = .ok false ∧ t'.isDirty ⟨0, 1⟩ = .ok false ∧
      ¬ (UiMutation.command (.setVisible ⟨1, 1⟩ false)).Marks (runCalls t₀ laidOut) t' := by
  obtain ⟨t₀, h₀⟩ : ∃ t₀ : UiTree Float32, UiTree.tryNew .ample ⟨4, 4, 16⟩ = .ok t₀ := ⟨_, rfl⟩
  obtain ⟨⟨result, t'⟩, hrun⟩ : ∃ call, (TreeCall.command .ample (.setVisible ⟨1, 1⟩ false)).run
      (runCalls t₀ laidOut) = call := ⟨_, rfl⟩
  have hflags : result.toOption = some () ∧ (t'.isDirty ⟨1, 1⟩).toOption = some false ∧
      (t'.isDirty ⟨0, 1⟩).toOption = some false := by
    obtain rfl := Except.ok.inj h₀
    obtain rfl := congrArg Prod.fst hrun
    obtain rfl := congrArg Prod.snd hrun
    decide +kernel
  obtain ⟨hok, hpanel, hroot⟩ := hflags
  rw [eq_ok_of_toOption hok] at hrun
  refine ⟨t₀, t', h₀, hrun, eq_ok_of_toOption hpanel, eq_ok_of_toOption hroot, ?_⟩
  intro hmarks
  cases (eq_ok_of_toOption hpanel).symm.trans (hmarks ⟨1, 1⟩ 0 (.here _))

/-- In the tree that is laid out nothing is dirty. A new content for the panel marks it and the
    root, and to hide it marks neither. -/
theorem mutation_marks_clean : ∃ (t₀ written hidden : UiTree Float32),
    UiTree.tryNew .ample ⟨4, 4, 16⟩ = .ok t₀ ∧
      (runCalls t₀ laidOut).isDirty ⟨0, 1⟩ = .ok false ∧
      (TreeCall.setContent ⟨1, 1⟩ (.new .panel)).run (runCalls t₀ laidOut) = (.ok (), written) ∧
      (UiMutation.setContent ⟨1, 1⟩ (.new .panel)).Marks (runCalls t₀ laidOut) written ∧
      (TreeCall.command .ample (.setVisible ⟨1, 1⟩ false)).run (runCalls t₀ laidOut)
        = (.ok (), hidden) ∧
      ¬ (UiMutation.command (.setVisible ⟨1, 1⟩ false)).Marks (runCalls t₀ laidOut) hidden := by
  obtain ⟨t₀, h₀⟩ : ∃ t₀ : UiTree Float32, UiTree.tryNew .ample ⟨4, 4, 16⟩ = .ok t₀ := ⟨_, rfl⟩
  obtain ⟨⟨result, written⟩, hwrite⟩ : ∃ call, (TreeCall.setContent ⟨1, 1⟩ (.new .panel)).run
      (runCalls t₀ laidOut) = call := ⟨_, rfl⟩
  obtain ⟨⟨result', hidden⟩, hhide⟩ : ∃ call, (TreeCall.command .ample
      (.setVisible ⟨1, 1⟩ false)).run (runCalls t₀ laidOut) = call := ⟨_, rfl⟩
  have hflags : result.toOption = some () ∧ result'.toOption = some () ∧
      ((runCalls t₀ laidOut).isDirty ⟨1, 1⟩).toOption = some false ∧
        ((runCalls t₀ laidOut).isDirty ⟨0, 1⟩).toOption = some false := by
    obtain rfl := Except.ok.inj h₀
    obtain rfl := congrArg Prod.fst hwrite
    obtain rfl := congrArg Prod.fst hhide
    decide +kernel
  obtain ⟨hok, hok', hpanel, hroot⟩ := hflags
  rw [eq_ok_of_toOption hok] at hwrite
  rw [eq_ok_of_toOption hok'] at hhide
  have hwritten := mutation_marks_iff h₀ laidOut .ample (.setContent ⟨1, 1⟩ (.new .panel)) hwrite
  have hhidden := mutation_marks_iff h₀ laidOut .ample (.command (.setVisible ⟨1, 1⟩ false)) hhide
  refine ⟨t₀, written, hidden, h₀, eq_ok_of_toOption hroot, hwrite, hwritten.mpr trivial, hhide,
    mt hhidden.mp ?_⟩
  intro hspared
  cases (eq_ok_of_toOption hpanel).symm.trans (hspared ⟨1, 1⟩ 0 (.here _))

end Law

end Ui
end EngineKit
