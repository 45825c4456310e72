import EngineKit.Ui.Tree

/-!
# Slots of the UI tree

`Wf` is what the slots and the ids in them agree on: a node's id is its slot and the slot's
generation, so the two ways the accessors accept an id come to one (`Wf.validSlot_iff`), and
`lookup` is the tree as a partial map. A write is then seen through `lookup` (`lookup_set`) or
through the links alone (`nodeMut_link`); what it leaves of the slots is its `Frame`.

An id is accepted in two ways in the source. Some accessors compare the id that is stored in the
node, others the generation that is stored beside the slots. Everything after this module uses
`lookup`, that is, the first; that the second agrees needs both that nodes know their own id and
that the generations are kept in step (`named`).

A write is described by what it leaves alone. `Frame` leaves the bookkeeping, `Kept` the links as
well, and both compose; so a call that does several writes is described by the last of them and the
chain of frames before it, and the slots between are never looked at.
-/

set_option autoImplicit false

namespace EngineKit
namespace Ui

open Lib

variable {F : Type}

/-- What the tree is made of. -/
def UiNode.link (node : UiNode F) : Link UiNodeId := ⟨node.parent, node.children⟩

namespace UiTree

/-- The tree as links between ids. -/
def links (t : UiTree F) (id : UiNodeId) : Option (Link UiNodeId) := (t.lookup id).map UiNode.link

/-- A node is found in its slot and under its own id. -/
theorem lookup_eq_some {t : UiTree F} {id : UiNodeId} {node : UiNode F} :
    t.lookup id = some node ↔ t.slots[id.index.toNat]? = some (some node) ∧ node.id = id := by
  rw [lookup, Option.filter_eq_some_iff, Option.join_eq_some_iff, decide_eq_true_eq]

/-- The accessor that errors finds what `lookup` finds. -/
theorem node_eq_ok {t : UiTree F} {id : UiNodeId} {node : UiNode F} :
    t.node id = .ok node ↔ t.lookup id = some node := by
  unfold UiTree.node
  cases t.lookup id <;> simp

theorem node_eq_error {t : UiTree F} {id : UiNodeId} (h : t.lookup id = none) :
    t.node id = .error .invalidNode := by
  rw [UiTree.node, h]

theorem links_eq_some {t : UiTree F} {id : UiNodeId} {l : Link UiNodeId} :
    t.links id = some l ↔ ∃ node, t.lookup id = some node ∧ node.link = l :=
  Option.map_eq_some_iff

/-- The way up is that of the links. -/
theorem up_eq (t : UiTree F) : t.up = parentOf t.links := by
  funext id
  unfold up UiTree.parent UiTree.node parentOf links
  cases t.lookup id <;> rfl

theorem parentOf_links {t : UiTree F} {id : UiNodeId} {node : UiNode F}
    (h : t.lookup id = some node) : parentOf t.links id = node.parent := by
  rw [parentOf, links, h]
  rfl

/-! ## Slots -/

/-- What slots, generations and the free list agree on. A dead slot need not be free: see
    `Reserved`. -/
structure Wf (t : UiTree F) : Prop where
  lengths : t.generations.length = t.slots.length
  small : t.slots.length ≤ 2 ^ 32
  named {i : Nat} {node : UiNode F} : t.slots[i]? = some (some node) →
    node.id.index.toNat = i ∧ t.generations[i]? = some node.id.generation
  counted : t.count = t.slots.countP Option.isSome
  nodup : t.free.Nodup
  dead : ∀ i ∈ t.free, t.slots[i.toNat]? = some none

/-- The two ways to accept an id agree. -/
theorem Wf.validSlot_iff {t : UiTree F} (h : t.Wf) {id : UiNodeId} :
    t.validSlot id = true ↔ ∃ node, t.lookup id = some node := by
  rw [validSlot, Bool.and_eq_true, beq_iff_eq, Option.isSome_iff_exists]
  constructor
  · intro hall
    obtain ⟨hgen, node, hnode⟩ := hall
    have hslot := Option.join_eq_some_iff.mp hnode
    obtain ⟨hindex, hnamed⟩ := h.named hslot
    refine ⟨node, lookup_eq_some.mpr ⟨hslot, ?_⟩⟩
    have hgeneration := Option.some.inj (hnamed.symm.trans hgen)
    obtain ⟨⟨index, generation⟩, _, _, _, _, _⟩ := node
    obtain ⟨index', generation'⟩ := id
    obtain rfl : index = index' := UInt32.toNat_inj.mp hindex
    obtain rfl : generation = generation' := hgeneration
    rfl
  · intro hex
    obtain ⟨node, hnode⟩ := hex
    obtain ⟨hslot, rfl⟩ := lookup_eq_some.mp hnode
    exact ⟨(h.named hslot).2, node, Option.join_eq_some_iff.mpr hslot⟩

theorem Wf.lookup_generation {t : UiTree F} (h : t.Wf) {id : UiNodeId} {node : UiNode F}
    (hnode : t.lookup id = some node) : t.generations[id.index.toNat]? = some id.generation := by
  obtain ⟨hslot, rfl⟩ := lookup_eq_some.mp hnode
  exact (h.named hslot).2

/-- The slot of a node that is written: it is there, and holds the node's old value or nothing. -/
def Takes (t : UiTree F) (id : UiNodeId) : Prop :=
  ∃ old, t.slots[id.index.toNat]? = some old ∧ ∀ node ∈ old, node.id = id

/-- A live node can be written over. -/
theorem takes_of_lookup {t : UiTree F} {id : UiNodeId} {node : UiNode F}
    (h : t.lookup id = some node) : t.Takes id := by
  obtain ⟨hslot, hid⟩ := lookup_eq_some.mp h
  exact ⟨some node, hslot, fun n hn => Option.some.inj hn ▸ hid⟩

/-- A slot has one id at a time. -/
theorem lookup_none_of_takes {t : UiTree F} {id id' : UiNodeId} (h : t.Takes id)
    (hindex : id'.index = id.index) (hne : id' ≠ id) : t.lookup id' = none := by
  obtain ⟨old, hslot, hold⟩ := h
  refine Option.eq_none_iff_forall_not_mem.mpr fun node hnode => hne ?_
  obtain ⟨hslot', hid⟩ := lookup_eq_some.mp hnode
  rw [hindex, hslot] at hslot'
  rw [← hid]
  exact hold node (Option.some.inj hslot')

theorem getElem?_set_of_lt {α : Type} {xs : List α} {i : Nat} (h : i < xs.length) (x : α)
    (j : Nat) : (xs.set i x)[j]? = if j = i then some x else xs[j]? := by
  by_cases hj : j = i
  · rw [if_pos hj, hj, List.getElem?_set_self h]
  · rw [if_neg hj, List.getElem?_set_ne (Ne.symm hj)]

theorem Takes.lt {t : UiTree F} {id : UiNodeId} (h : t.Takes id) :
    id.index.toNat < t.slots.length := by
  obtain ⟨old, hslot, -⟩ := h
  exact (List.getElem?_eq_some_iff.mp hslot).1

/-- A write of a slot is seen at its own id only. -/
theorem lookup_set {t t' : UiTree F} {id : UiNodeId} {new : Option (UiNode F)} (h : t.Takes id)
    (hnew : ∀ node ∈ new, node.id = id) (hslots : t'.slots = t.slots.set id.index.toNat new)
    (id' : UiNodeId) : t'.lookup id' = if id' = id then new else t.lookup id' := by
  have hget := getElem?_set_of_lt h.lt new
  rw [← hslots] at hget
  -- Another id is another slot or another generation, and the slot of this one now has its own.
  by_cases hid : id' = id
  · rw [if_pos hid, hid, lookup, hget, if_pos rfl, Option.join_some]
    cases new with
    | none => rfl
    | some node => rw [Option.filter_some, if_pos (decide_eq_true (hnew node rfl))]
  · rw [if_neg hid]
    by_cases hindex : id'.index = id.index
    · rw [lookup_none_of_takes h hindex hid, lookup, hget, hindex, if_pos rfl, Option.join_some]
      refine Option.filter_eq_none_iff.mpr ?_
      intro node hnode
      rw [decide_eq_true_eq]
      intro heq
      exact hid (heq.symm.trans (hnew node hnode))
    · have hne : id'.index.toNat ≠ id.index.toNat := fun heq => hindex (UInt32.toNat_inj.mp heq)
      rw [lookup, hget, if_neg hne, lookup]

/-- A slot that gets a node with the slot's generation: the table stays well formed, with the
    count the write leaves. -/
theorem Wf.fill {t t' : UiTree F} (h : t.Wf) {node : UiNode F} (htakes : t.Takes node.id)
    (hgen : t.generations[node.id.index.toNat]? = some node.id.generation)
    (hslots : t'.slots = t.slots.set node.id.index.toNat (some node))
    (hgens : t'.generations = t.generations) (hfree : t'.free = t.free)
    (hnot : node.id.index ∉ t.free) (hcount : t'.count = t'.slots.countP Option.isSome) :
    t'.Wf := by
  have hget := getElem?_set_of_lt htakes.lt (some node)
  rw [← hslots] at hget
  have hlen : t'.slots.length = t.slots.length := by rw [hslots, List.length_set]
  constructor
  · rw [hgens, hlen, h.lengths]
  · rw [hlen]
    exact h.small
  · intro i n hi
    rw [hget] at hi
    rw [hgens]
    split at hi
    · next heq =>
      obtain rfl := Option.some.inj (Option.some.inj hi)
      exact ⟨heq.symm, heq ▸ hgen⟩
    · exact h.named hi
  · exact hcount
  · exact hfree ▸ h.nodup
  · intro i hi
    rw [hfree] at hi
    have hne : i.toNat ≠ node.id.index.toNat := by
      intro heq
      exact hnot (UInt32.toNat_inj.mp heq ▸ hi)
    rw [hget, if_neg hne]
    exact h.dead i hi

/-- A node that is written over. -/
theorem Wf.setNode {t : UiTree F} (h : t.Wf) {node old : UiNode F}
    (hold : t.lookup node.id = some old) : (t.setNode node).Wf := by
  have hslot := (lookup_eq_some.mp hold).1
  have hlt := (List.getElem?_eq_some_iff.mp hslot).1
  have hget := (List.getElem?_eq_some_iff.mp hslot).2
  refine h.fill (takes_of_lookup hold) (h.lookup_generation hold) rfl rfl rfl ?_ ?_
  · intro hin
    rw [h.dead _ hin] at hslot
    cases hslot
  · have hone : 0 < t.slots.countP Option.isSome :=
      List.countP_pos_iff.mpr ⟨some old, List.mem_of_getElem? hslot, rfl⟩
    change t.count = (t.slots.set node.id.index.toNat (some node)).countP Option.isSome
    rw [List.countP_set hlt, hget, h.counted]
    simp only [Option.isSome_some, if_pos]
    omega

/-- Only the node that was written is another. -/
theorem lookup_setNode {t : UiTree F} {node old : UiNode F} (hold : t.lookup node.id = some old)
    (id : UiNodeId) :
    (t.setNode node).lookup id = if id = node.id then some node else t.lookup id := by
  refine lookup_set (takes_of_lookup hold) ?_ rfl id
  intro n hn
  rw [Option.some.inj hn]

/-! ## Writes that leave the slots -/

/-- What a write of nodes keeps, of the slots and of everything else. -/
structure Frame (t t' : UiTree F) : Prop where
  wf : t.Wf → t'.Wf
  slots : t'.slots.length = t.slots.length
  dead (i : Nat) : t'.slots[i]? = some none ↔ t.slots[i]? = some none
  generations : t'.generations = t.generations
  free : t'.free = t.free
  root : t'.root = t.root
  count : t'.count = t.count
  config : t'.config = t.config

theorem Frame.refl (t : UiTree F) : t.Frame t := ⟨id, rfl, fun _ => .rfl, rfl, rfl, rfl, rfl, rfl⟩

/-- One write after the other. -/
theorem Frame.trans {t u v : UiTree F} (h : t.Frame u) (h' : u.Frame v) : t.Frame v where
  wf := h'.wf ∘ h.wf
  slots := h'.slots.trans h.slots
  dead i := (h'.dead i).trans (h.dead i)
  generations := h'.generations.trans h.generations
  free := h'.free.trans h.free
  root := h'.root.trans h.root
  count := h'.count.trans h.count
  config := h'.config.trans h.config

/-- Overwriting a node keeps the bookkeeping. -/
theorem Frame.setNode {t : UiTree F} {node old : UiNode F}
    (hold : t.lookup node.id = some old) : t.Frame (t.setNode node) := by
  have hslot := (lookup_eq_some.mp hold).1
  have hlt := (List.getElem?_eq_some_iff.mp hslot).1
  constructor
  · exact fun h => h.setNode hold
  · exact List.length_set ..
  · intro i
    change (t.slots.set node.id.index.toNat (some node))[i]? = some none ↔ _
    rw [getElem?_set_of_lt hlt]
    split
    · next heq => simp [heq, hslot]
    · rfl
  all_goals rfl

/-- A write that leaves the links as well: of contents, rects or dirty flags. -/
structure Kept (t t' : UiTree F) : Prop extends Frame t t' where
  links : t'.links = t.links

theorem Kept.refl (t : UiTree F) : t.Kept t := ⟨.refl t, rfl⟩

theorem Kept.trans {t u v : UiTree F} (h : t.Kept u) (h' : u.Kept v) : t.Kept v :=
  ⟨h.toFrame.trans h'.toFrame, h'.links.trans h.links⟩

/-- And of the links changes one. -/
theorem links_setNode {t : UiTree F} {node old : UiNode F} (hold : t.lookup node.id = some old)
    (id : UiNodeId) :
    (t.setNode node).links id = if id = node.id then some node.link else t.links id := by
  rw [links, lookup_setNode hold]
  split <;> rfl

theorem Kept.setNode {t : UiTree F} {node old : UiNode F} (hold : t.lookup node.id = some old)
    (hlink : node.link = old.link) : t.Kept (t.setNode node) := by
  refine ⟨.setNode hold, ?_⟩
  funext id
  rw [links_setNode hold]
  split
  · next heq => rw [heq, hlink, UiTree.links, hold, Option.map_some]
  · rfl

/-- **A write through `node_mut`** refuses a dead id, and else writes its node. -/
theorem nodeMut_cases (t : UiTree F) (id : UiNodeId) (f : UiNode F → UiNode F) :
    (t.lookup id = none ∧ t.nodeMut id f = (.error (.err .invalidNode), t)) ∨
      ∃ node, t.lookup id = some node ∧ t.nodeMut id f = (.ok (), t.setNode (f node)) := by
  unfold nodeMut
  cases hnode : t.lookup id with
  | none => exact .inl ⟨rfl, by rw [node_eq_error hnode]⟩
  | some node => exact .inr ⟨node, rfl, by rw [node_eq_ok.mpr hnode]⟩

theorem lookup_id {t : UiTree F} {id : UiNodeId} {node : UiNode F}
    (h : t.lookup id = some node) : node.id = id := (lookup_eq_some.mp h).2

/-- A write that keeps the link keeps all links. -/
theorem Kept.nodeMut (t : UiTree F) (id : UiNodeId) {f : UiNode F → UiNode F}
    (hf : ∀ node, (f node).id = node.id ∧ (f node).link = node.link) :
    t.Kept (t.nodeMut id f).2 := by
  rcases t.nodeMut_cases id f with ⟨-, hcall⟩ | ⟨node, hnode, hcall⟩
  · rw [hcall]
    exact .refl t
  · rw [hcall]
    obtain ⟨hid, hlink⟩ := hf node
    have hold : t.lookup (f node).id = some node := by rw [hid, lookup_id hnode, hnode]
    exact .setNode hold hlink

/-- A write of a live node that changes its link by `g`. -/
theorem nodeMut_link {t : UiTree F} {id : UiNodeId} {node : UiNode F}
    (hnode : t.lookup id = some node) {f : UiNode F → UiNode F}
    {g : Link UiNodeId → Link UiNodeId}
    (hf : ∀ node, (f node).id = node.id ∧ (f node).link = g node.link) :
    ∃ t', t.nodeMut id f = (.ok (), t') ∧ t.Frame t' ∧
      ∀ x, t'.links x = (t.links x).map fun l => if x = id then g l else l := by
  obtain ⟨hid, hlink⟩ := hf node
  have hold : t.lookup (f node).id = some node := by rw [hid, lookup_id hnode, hnode]
  refine ⟨t.setNode (f node), by rw [nodeMut, node_eq_ok.mpr hnode], .setNode hold, ?_⟩
  intro x
  rw [links_setNode hold, hid, lookup_id hnode]
  by_cases hx : x = id
  · simp only [hx, UiTree.links, hnode, Option.map_some, hlink, if_true]
  · simp only [if_neg hx, Option.map_id_fun']
    rfl

/-- Flags are no links. -/
theorem Kept.markAncestorsDirty (fuel : Nat) (id : UiNodeId) (t : UiTree F) :
    t.Kept (markAncestorsDirty fuel id t).2 := by
  -- On the fuel: each round writes one flag and goes on at the parent.
  induction fuel generalizing id t with
  | zero => exact .refl t
  | succ fuel ih =>
    unfold UiTree.markAncestorsDirty
    cases hnode : t.lookup id with
    | none =>
      rw [node_eq_error hnode]
      exact .refl t
    | some node =>
      have hold : t.lookup node.id = some node := by rw [lookup_id hnode, hnode]
      have hmark : t.Kept (t.setNode { node with dirty := true }) := .setNode hold rfl
      rw [node_eq_ok.mpr hnode]
      simp only
      split
      · exact hmark.trans (ih _ _)
      · exact hmark

/-- Such a write keeps every node that was there. -/
theorem live_of_link {t u : UiTree F} {k x : UiNodeId} {g : Link UiNodeId → Link UiNodeId}
    {node : UiNode F} (hlinks : ∀ x, u.links x = (t.links x).map fun l => if x = k then g l else l)
    (hx : t.lookup x = some node) : ∃ node, u.lookup x = some node := by
  have hu : (u.links x).isSome := by rw [hlinks, UiTree.links, hx]; rfl
  rw [UiTree.links, Option.isSome_map] at hu
  exact Option.isSome_iff_exists.mp hu

end UiTree
end Ui
end EngineKit
