import EngineKit.Ui.Slots

/-!
# The shape of the UI tree

`Shape` is what every call keeps: the slots are well formed, and the links are a tree with its
root at `root()`. In a tree of this shape the walks end with the fuel they are given, and the
checks of the calls say what they should: the cycle check finds the node above its new parent
exactly if it is there, and the depth check compares the depth.

The loops of the tree climb or descend with the number of slots, or the depth budget, for fuel, and
fail when it runs out. None of the laws about the tree holds of a call that failed like this. So it
is shown here once, from the tree alone, that it does not happen: a climb visits every node once,
and there are more slots than nodes on any path. After this no proof mentions fuel again. What is
left of it is `Returns`, the calls that end with a value or an error of their own.
-/

set_option autoImplicit false

namespace EngineKit
namespace Ui

open Lib

variable {F : Type}

namespace UiTree

/-! ## The shape -/

/-- What every call keeps. The bound is on the count the code keeps, which `Wf` says is the number
    of live nodes. -/
structure Shape (t : UiTree F) : Prop extends Wf t where
  tree : IsTree t.root t.links
  bounded : t.count ≤ t.config.maxNodes

/-- Calls that change nothing but contents, rectangles and flags keep the shape. -/
theorem Kept.shape {t t' : UiTree F} (h : t.Kept t') (hs : t.Shape) : t'.Shape where
  toWf := h.wf hs.toWf
  tree := by
    rw [h.root, h.links]
    exact hs.tree
  bounded := by
    rw [h.count, h.config]
    exact hs.bounded

/-- The ids of the live nodes, in the order of their slots. -/
def ids (t : UiTree F) : List UiNodeId := t.slots.filterMap fun slot => slot.map UiNode.id

/-- The slots list every live node under its own id. -/
theorem Wf.mem_ids {t : UiTree F} (h : t.Wf) {id : UiNodeId} :
    id ∈ t.ids ↔ ∃ node, t.lookup id = some node := by
  rw [ids, List.mem_filterMap]
  constructor
  · intro hex
    obtain ⟨slot, hmem, hid⟩ := hex
    obtain ⟨node, rfl, rfl⟩ := Option.map_eq_some_iff.mp hid
    obtain ⟨i, hi⟩ := List.mem_iff_getElem?.mp hmem
    obtain ⟨rfl, -⟩ := h.named hi
    exact ⟨node, lookup_eq_some.mpr ⟨hi, rfl⟩⟩
  · intro hex
    obtain ⟨node, hnode⟩ := hex
    obtain ⟨hslot, hid⟩ := lookup_eq_some.mp hnode
    exact ⟨some node, List.mem_of_getElem? hslot, by rw [Option.map_some, hid]⟩

theorem length_ids_le (t : UiTree F) : t.ids.length ≤ t.slots.length :=
  List.length_filterMap_le _ _

/-- A node that has links is one that is found. -/
theorem live_iff {t : UiTree F} {id : UiNodeId} :
    (∃ l, t.links id = some l) ↔ ∃ node, t.lookup id = some node := by
  constructor
  · intro hex
    obtain ⟨l, hl⟩ := hex
    obtain ⟨node, hnode, -⟩ := links_eq_some.mp hl
    exact ⟨node, hnode⟩
  · intro hex
    obtain ⟨node, hnode⟩ := hex
    exact ⟨node.link, links_eq_some.mpr ⟨node, hnode, rfl⟩⟩

theorem Shape.mem_ids_of_link {t : UiTree F} (h : t.Shape) (id : UiNodeId)
    (l : Link UiNodeId) (hl : t.links id = some l) : id ∈ t.ids :=
  h.mem_ids.mpr (live_iff.mp ⟨l, hl⟩)

/-- Every live node is at a depth, and there are more slots than that. -/
theorem Shape.depth_lt {t : UiTree F} (h : t.Shape) {id : UiNodeId} {node : UiNode F}
    (hnode : t.lookup id = some node) :
    ∃ d < t.slots.length, Climb (parentOf t.links) id t.root d := by
  obtain ⟨l, hl⟩ := live_iff.mpr ⟨node, hnode⟩
  obtain ⟨d, hd⟩ := h.tree.rooted hl
  refine ⟨d, ?_, hd⟩
  have hlt : d < t.ids.length := hd.lt_length h.tree.root_parent fun x j hx => by
    obtain ⟨m, hm⟩ := h.tree.live_of_rooted hx
    exact h.mem_ids_of_link x m hm
  exact Nat.lt_of_lt_of_le hlt t.length_ids_le

/-- Whatever can climb to the root is live. -/
theorem Shape.live_of_climb {t : UiTree F} (h : t.Shape) {id : UiNodeId} {d : Nat}
    (hd : Climb (parentOf t.links) id t.root d) : ∃ node, t.lookup id = some node :=
  live_iff.mp (h.tree.live_of_rooted hd)

/-! ## The walks end -/

theorem Shape.markAncestorsDirty {t : UiTree F} (h : t.Shape) {id : UiNodeId} {d fuel : Nat}
    (hd : Climb (parentOf t.links) id t.root d) (hfuel : d < fuel) :
    (t.markAncestorsDirty fuel id).1 = .ok () := by
  -- On the fuel: each step up is one less to climb, and both are counted from the same node.
  induction fuel generalizing t id d with
  | zero => omega
  | succ fuel ih =>
    obtain ⟨node, hnode⟩ := h.live_of_climb hd
    have hparent := parentOf_links hnode
    have hold : t.lookup node.id = some node := by rw [lookup_id hnode, hnode]
    have hkept : t.Kept (t.setNode { node with dirty := true }) := .setNode hold rfl
    unfold UiTree.markAncestorsDirty
    rw [node_eq_ok.mpr hnode]
    simp only
    split
    · next parent hp =>
      rw [hp] at hparent
      cases hd with
      | here => exact absurd (h.tree.root_parent.symm.trans hparent) (by simp)
      | up step rest =>
        obtain rfl := Option.some.inj (step.symm.trans hparent)
        refine ih (hkept.shape h) ?_ (Nat.lt_of_succ_lt_succ hfuel)
        rw [hkept.links, hkept.root]
        exact rest
    · rfl

/-- **The cycle check** climbs from the new parent and stops at the node, if it is there. -/
theorem Shape.checkCycle_cases {t : UiTree F} (h : t.Shape) (id : UiNodeId) {cursor : UiNodeId}
    {d fuel : Nat} (hd : Climb (parentOf t.links) cursor t.root d) (hfuel : d < fuel) :
    (t.checkCycle id fuel cursor = .error (.err .cycle) ∧
        ∃ j, Climb (parentOf t.links) cursor id j) ∨
      (t.checkCycle id fuel cursor = .ok () ∧ ∀ j, ¬ Climb (parentOf t.links) cursor id j) := by
  -- The same climb, which may end at `id` before it comes to the root.
  induction fuel generalizing cursor d with
  | zero => omega
  | succ fuel ih =>
    unfold UiTree.checkCycle
    by_cases hcursor : cursor = id
    · rw [if_pos hcursor]
      exact .inl ⟨rfl, 0, hcursor ▸ .here cursor⟩
    · rw [if_neg hcursor]
      obtain ⟨node, hnode⟩ := h.live_of_climb hd
      have hparent := parentOf_links hnode
      have hread : t.parent cursor = .ok node.parent := by
        rw [UiTree.parent, node_eq_ok.mpr hnode]
        rfl
      have hup {p : UiNodeId} {j : Nat} (hp : node.parent = some p)
          (hj : Climb (parentOf t.links) cursor id j) :
          ∃ i, Climb (parentOf t.links) p id i := by
        cases hj with
        | here => exact absurd rfl hcursor
        | up step rest =>
          rw [hparent, hp] at step
          obtain rfl := Option.some.inj step
          exact ⟨_, rest⟩
      rw [hread]
      cases hp : node.parent with
      | none =>
        refine .inr ⟨rfl, ?_⟩
        intro j hj
        cases hj with
        | here => exact absurd rfl hcursor
        | up step _ =>
          rw [hparent, hp] at step
          cases step
      | some p =>
        have hstep : parentOf t.links cursor = some p := hparent.trans hp
        cases hd with
        | here => exact absurd (h.tree.root_parent.symm.trans hstep) (by simp)
        | up step rest =>
          obtain rfl := Option.some.inj (step.symm.trans hstep)
          rcases ih rest (Nat.lt_of_succ_lt_succ hfuel) with ⟨hcall, j, hj⟩ | ⟨hcall, hout⟩
          · exact .inl ⟨hcall, j + 1, .up hstep hj⟩
          · refine .inr ⟨hcall, ?_⟩
            intro j hj
            obtain ⟨i, hi⟩ := hup hp hj
            exact hout i hi

/-- **The depth**, from a cursor `k` steps up. -/
theorem Shape.depthFrom_eq {t : UiTree F} (h : t.Shape) {cursor : UiNodeId} {d k fuel : Nat}
    (hd : Climb (parentOf t.links) cursor t.root d) (hsmall : k + d < 2 ^ 64)
    (hk : k ≤ t.config.maxDepth) (hfuel : t.config.maxDepth < fuel + k) :
    t.depthFrom fuel k cursor =
      if d = 0 ∨ k + d < t.config.maxDepth then .ok (k + d)
      else .error (.err .depthExceeded) := by
  -- The walk counts upward while the climb gets shorter, so `k + d` is the same in every call.
  induction fuel generalizing cursor d k with
  | zero => omega
  | succ fuel ih =>
    obtain ⟨node, hnode⟩ := h.live_of_climb hd
    have hparent := parentOf_links hnode
    unfold UiTree.depthFrom
    rw [node_eq_ok.mpr hnode]
    cases hd with
    | here =>
      have hp : node.parent = none := by rw [← hparent, h.tree.root_parent]
      simp [hp, liftM, monadLift, MonadLift.monadLift, Except.mapError, bind, Except.bind]
    | @up _ p _ d step rest =>
      have hp : node.parent = some p := by rw [← hparent, step]
      have hadd : checkedAdd k 1 = some (k + 1) := checkedAdd_of_lt (by omega)
      simp only [hp, hadd, orOverflow, liftM, monadLift, MonadLift.monadLift, Except.mapError, bind,
        Except.bind]
      split
      · next hfull =>
        rw [if_neg (by omega)]
      · next hroom =>
        have hsum : k + 1 + d = k + (d + 1) := by omega
        rw [ih rest (by omega) (by omega) (by omega), hsum]
        by_cases hlt : k + (d + 1) < t.config.maxDepth
        · rw [if_pos (.inr hlt), if_pos (.inr hlt)]
        · rw [if_neg (by omega), if_neg (by omega)]

/-! ## What the calls check -/

@[simp] theorem liftM_ok {α : Type} (a : α) :
    (liftM (.ok a : Except UiError α) : Except Failure α) = .ok a := rfl

@[simp] theorem liftM_error {α : Type} (e : UiError) :
    (liftM (.error e : Except UiError α) : Except Failure α) = .error (.err e) := rfl

@[simp] theorem ok_bind {ε α β : Type} (a : α) (f : α → Except ε β) : (.ok a >>= f) = f a := rfl

@[simp] theorem error_bind {ε α β : Type} (e : ε) (f : α → Except ε β) :
    (.error e >>= f) = .error e := rfl

/-- No climb is longer than there are slots. -/
theorem Shape.climb_lt {t : UiTree F} (h : t.Shape) {id : UiNodeId} {d : Nat}
    (hd : Climb (parentOf t.links) id t.root d) : d < t.slots.length := by
  obtain ⟨node, hnode⟩ := h.live_of_climb hd
  obtain ⟨e, hlt, he⟩ := h.depth_lt hnode
  exact hd.depth_unique he h.tree.root_parent ▸ hlt

/-- The check of the depth counts the level that would be added. -/
theorem Shape.checkDepth_eq {t : UiTree F} (h : t.Shape) {parent : UiNodeId} {d : Nat}
    (hd : Climb (parentOf t.links) parent t.root d) :
    t.checkDepth parent =
      if d + 1 < t.config.maxDepth then .ok () else .error (.err .depthExceeded) := by
  have hsmall := Nat.lt_of_lt_of_le (h.climb_lt hd) h.small
  have hadd : checkedAdd d 1 = some (d + 1) := checkedAdd_of_lt (by omega)
  rw [checkDepth, depth, h.depthFrom_eq hd (by omega) (Nat.zero_le _) (by omega), Nat.zero_add]
  by_cases hlt : d + 1 < t.config.maxDepth
  · rw [if_pos (.inr (by omega)), if_pos hlt]
    simp [hadd, orOverflow, failIf, Nat.not_le.mpr hlt]
  · rw [if_neg hlt]
    split
    · simp [hadd, orOverflow, failIf, Nat.not_lt.mp hlt]
    · rfl

theorem parent_eq {t : UiTree F} {id : UiNodeId} {node : UiNode F}
    (h : t.lookup id = some node) : t.parent id = .ok node.parent := by
  rw [UiTree.parent, node_eq_ok.mpr h]
  rfl

theorem content_eq {t : UiTree F} {id : UiNodeId} {node : UiNode F}
    (h : t.lookup id = some node) : t.content id = .ok node.content := by
  rw [UiTree.content, node_eq_ok.mpr h]
  rfl

theorem rect_eq {t : UiTree F} {id : UiNodeId} {node : UiNode F} (h : t.lookup id = some node) :
    t.rect id = .ok node.rect := by
  rw [UiTree.rect, node_eq_ok.mpr h]
  rfl

/-- **What `reparent` asks for**: a node other than the root, and a live new parent that is not
    below it and has room for a level more. -/
theorem Shape.reparentChecks_iff {t : UiTree F} (h : t.Shape) {id newParent oldParent : UiNodeId} :
    t.reparentChecks id newParent = .ok oldParent ↔
      id ≠ t.root ∧ parentOf t.links id = some oldParent ∧
        (∀ j, ¬ Climb (parentOf t.links) newParent id j) ∧
        ∃ d, Climb (parentOf t.links) newParent t.root d ∧ d + 1 < t.config.maxDepth := by
  constructor
  · intro hcall
    simp only [reparentChecks, bind_eq_ok, monadLift_eq_ok, failIf_eq_ok] at hcall
    obtain ⟨_, hfirst, _, hcycle, _, hdepth, found, hfound, hlast⟩ := hcall
    push Not at hfirst
    obtain ⟨hne, hvalid⟩ := hfirst
    obtain ⟨parent, hparent⟩ := h.validSlot_iff.mp (by simpa using hvalid)
    obtain ⟨d, hlt, hd⟩ := h.depth_lt hparent
    have hout : ∀ j, ¬ Climb (parentOf t.links) newParent id j := by
      rcases h.checkCycle_cases id hd hlt with ⟨hcall, -⟩ | ⟨-, hout⟩
      · rw [hcall] at hcycle
        cases hcycle
      · exact hout
    have hroom : d + 1 < t.config.maxDepth := by
      rw [h.checkDepth_eq hd] at hdepth
      split at hdepth
      · assumption
      · cases hdepth
    refine ⟨hne, ?_, hout, d, hd, hroom⟩
    cases hnode : t.lookup id with
    | none =>
      rw [UiTree.parent, node_eq_error hnode] at hfound
      cases hfound
    | some node =>
      rw [parent_eq hnode] at hfound
      rw [parentOf_links hnode, Except.ok.inj hfound]
      cases found with
      | none => cases hlast
      | some parent => rw [Except.ok.inj hlast]
  · intro hall
    obtain ⟨hne, hparent, hout, d, hd, hroom⟩ := hall
    obtain ⟨node, hnode⟩ := live_iff.mp (IsTree.live_of_parent hparent)
    have hvalid : t.validSlot newParent = true := h.validSlot_iff.mpr (h.live_of_climb hd)
    have hcycle : t.checkCycle id t.slots.length newParent = .ok () := by
      rcases h.checkCycle_cases id hd (h.climb_lt hd) with ⟨-, j, hj⟩ | ⟨hcall, -⟩
      · exact absurd hj (hout j)
      · exact hcall
    rw [parentOf_links hnode] at hparent
    simp [reparentChecks, failIf, hne, hvalid, hcycle, h.checkDepth_eq hd, hroom, parent_eq hnode,
      hparent]

/-! ## Every check returns -/

/-- A call that ends, with a value or an error. -/
def Returns {α : Type} (x : Except Failure α) : Prop := x ≠ .error .noReturn

/-- An error of the tree's own is an answer. -/
theorem returns_lift {α : Type} (x : Except UiError α) :
    Returns (liftM x : Except Failure α) := by
  cases x <;> simp [Returns]

theorem Returns.bind {α β : Type} {x : Except Failure α} {f : α → Except Failure β}
    (hx : Returns x) (hf : ∀ a, x = .ok a → Returns (f a)) : Returns (x >>= f) := by
  cases x with
  | ok a => exact hf a rfl
  | error e => exact fun h => hx (by rw [error_bind] at h; cases h; rfl)

/-- What returns is split in two, and the fuel is gone from the proof. -/
theorem Returns.cases {α : Type} {x : Except Failure α} (h : Returns x) :
    (∃ a, x = .ok a) ∨ ∃ e, x = .error (.err e) := by
  cases x with
  | ok a => exact .inl ⟨a, rfl⟩
  | error e =>
    cases e with
    | err e => exact .inr ⟨e, rfl⟩
    | noReturn => exact absurd rfl h

theorem Shape.checkDepth_returns {t : UiTree F} (h : t.Shape) {id : UiNodeId} {node : UiNode F}
    (hnode : t.lookup id = some node) : Returns (t.checkDepth id) := by
  obtain ⟨d, -, hd⟩ := h.depth_lt hnode
  rw [h.checkDepth_eq hd]
  split <;> simp [Returns]

/-- In every order of the checks the climbs have fuel enough. -/
theorem Shape.reparentChecks_returns {t : UiTree F} (h : t.Shape) (id newParent : UiNodeId) :
    Returns (t.reparentChecks id newParent) := by
  refine (returns_lift _).bind ?_
  intro _ hfirst
  rw [monadLift_eq_ok, failIf_eq_ok] at hfirst
  push Not at hfirst
  obtain ⟨node, hnode⟩ := h.validSlot_iff.mp (by simpa using hfirst.2)
  obtain ⟨d, hlt, hd⟩ := h.depth_lt hnode
  have hcycle : Returns (t.checkCycle id t.slots.length newParent) := by
    rcases h.checkCycle_cases id hd hlt with ⟨hcall, -⟩ | ⟨hcall, -⟩ <;> rw [hcall] <;>
      simp [Returns]
  refine hcycle.bind fun _ _ => (h.checkDepth_returns hnode).bind ?_
  intro _ _
  refine (returns_lift _).bind ?_
  intro oldParent _
  cases oldParent <;> simp [Returns]

end UiTree
end Ui
end EngineKit
