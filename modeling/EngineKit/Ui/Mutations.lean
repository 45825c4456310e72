import EngineKit.Ui.Shape

/-!
# The calls that change the tree

Each call refuses and leaves the tree as it was, or changes it in one of the library's three ways:
`reparent` moves a subtree, `create` adds a leaf, `destroy` cuts a subtree away. Inside a call
the links are changed one node at a time; the equations below say what comes of it.

A creation that runs out of memory after it took a slot does not give the slot back. The tree then
answers as before, with the slot set aside (`Reserved`).

There is one lemma `*_cases` for each call, and everything later that is about runs goes through
these three. They have the refusals and the success side by side, as every user needs both: what a
refusal leaves is the very same tree (or `Reserved`), so that whatever held of it holds on; what a
success leaves is one of the structures `Created` and `Destroyed`, or links that were moved.

These structures have two halves. One speaks of the links and of live nodes, and from it the laws of
the tree follow. The other speaks of the bookkeeping that no reader of the tree sees: which slots
are dead, which are on the free list, which generations have grown. It is there for the handles.
That a stale handle stays dead depends on generations that never go back and on slots that are
either live or free, and neither can be had from the links.
-/

set_option autoImplicit false

namespace EngineKit
namespace Ui

open Lib

variable {F : Type}

namespace UiTree

/-! ## Reparent -/

/-- **Reparent** refuses and changes nothing, or it moves the subtree. It refuses what its checks
    do, and what it finds no memory for. -/
theorem Shape.reparent_cases {t : UiTree F} (h : t.Shape) (room : Room)
    (id newParent : UiNodeId) :
    ((room.link = true → ∀ oldParent, t.reparentChecks id newParent ≠ .ok oldParent) ∧
        ∃ e, t.reparent room id newParent = (.error (.err e), t)) ∨
      ∃ oldParent t', room.link = true ∧ t.reparentChecks id newParent = .ok oldParent ∧
        t.reparent room id newParent = (.ok (), t') ∧ t.Frame t' ∧
        t'.links = moveBelow id newParent t.links := by
  unfold UiTree.reparent
  rcases (h.reparentChecks_returns id newParent).cases with ⟨oldParent, hchecks⟩ | ⟨e, hchecks⟩
  -- The checks pass: the node has a parent, the new one is live and not below it.
  · rw [hchecks]
    obtain ⟨hne, hparent, hout, d, hd, -⟩ := h.reparentChecks_iff.mp hchecks
    obtain ⟨node, hnode⟩ := live_iff.mp (IsTree.live_of_parent hparent)
    obtain ⟨new, hnew⟩ := h.live_of_climb hd
    obtain ⟨l, hl, hmem⟩ := h.tree.listed hparent
    obtain ⟨old, hold⟩ := live_iff.mp ⟨l, hl⟩
    rw [node_eq_ok.mpr hnew]
    cases hroom : room.link with
    -- Memory is reserved before the first of the three writes, so a refusal here finds nothing
    -- undone.
    | false => exact .inl ⟨fun hlink => absurd hlink (by simp), .allocationFailed, rfl⟩
    | true =>
      -- the three writes, each as a change of the links
      obtain ⟨t₁, hcall₁, hframe₁, hlinks₁⟩ := nodeMut_link hold
        (f := fun node => { node with children := node.children.filter (· ≠ id) })
        (g := fun l => ⟨l.parent, l.children.filter (· ≠ id)⟩) fun _ => ⟨rfl, rfl⟩
      obtain ⟨new₁, hnew₁⟩ := live_of_link hlinks₁ hnew
      obtain ⟨node₁, hnode₁⟩ := live_of_link hlinks₁ hnode
      obtain ⟨t₂, hcall₂, hframe₂, hlinks₂⟩ := nodeMut_link hnew₁
        (f := fun node => { node with children := node.children ++ [id] })
        (g := fun l => ⟨l.parent, l.children ++ [id]⟩) fun _ => ⟨rfl, rfl⟩
      obtain ⟨node₂, hnode₂⟩ := live_of_link hlinks₂ hnode₁
      obtain ⟨t₃, hcall₃, hframe₃, hlinks₃⟩ := nodeMut_link hnode₂
        (f := fun node => { node with parent := some newParent })
        (g := fun l => ⟨some newParent, l.children⟩) fun _ => ⟨rfl, rfl⟩
      have hframe := (hframe₁.trans hframe₂).trans hframe₃
      have hmoved : t₃.links = moveBelow id newParent t.links := by
        funext x
        rw [hlinks₃, hlinks₂, hlinks₁]
        exact h.tree.moveBelow_of_writes hparent (fun heq => hout 0 (heq ▸ .here newParent)) x
      -- That it is a tree again is needed within the call: marking the ancestors climbs the new
      -- links, with the number of slots for fuel.
      have hshape : t₃.Shape := by
        refine ⟨hframe.wf h.toWf, ?_, ?_⟩
        · rw [hframe.root, hmoved]
          exact h.tree.moveBelow hne (links_eq_some.mpr ⟨node, hnode, rfl⟩)
            (links_eq_some.mpr ⟨new, hnew, rfl⟩) hout
        · rw [hframe.count, hframe.config]
          exact h.bounded
      obtain ⟨node₃, hnode₃⟩ := live_of_link hlinks₃ hnode₂
      obtain ⟨e, hlt, he⟩ := hshape.depth_lt hnode₃
      have hkept := Kept.markAncestorsDirty t₃.slots.length id t₃
      refine .inr ⟨oldParent, (t₃.markAncestorsDirty t₃.slots.length id).2, rfl, rfl, ?_,
        hframe.trans hkept.toFrame, hkept.links.trans hmoved⟩
      simp only [hcall₁, hcall₂, hcall₃, andThen, not_true_eq_false, if_false]
      rw [← hshape.markAncestorsDirty he hlt]
  · rw [hchecks]
    exact .inl ⟨fun _ _ hok => absurd hok (by simp), e, rfl⟩

/-! ## Create -/

/-- A slot set aside for a new node: dead, at the id's generation, off the free list. The tree
    answers as before.

    It is also what a creation leaves behind that ran out of memory after it took the slot. Such a
    slot is dead and not free, for good. So `dead` can only say that a slot which is dead now was
    dead before, and the laws of the handles must not count on dead slots being free. -/
structure Reserved (t t' : UiTree F) (id : UiNodeId) : Prop where
  wf : t'.Wf
  lookup (x : UiNodeId) : t'.lookup x = t.lookup x
  slot : t'.slots[id.index.toNat]? = some none
  generation : t'.generations[id.index.toNat]? = some id.generation
  free (i : UInt32) : i ∈ t'.free ↔ i ∈ t.free ∧ i ≠ id.index
  dead (i : UInt32) : i ≠ id.index → t'.slots[i.toNat]? = some none → t.slots[i.toNat]? = some none
  grows {i : Nat} {g : UInt32} : t.generations[i]? = some g → t'.generations[i]? = some g
  root : t'.root = t.root
  count : t'.count = t.count
  config : t'.config = t.config

/-- The slot freed last. Its generation was raised when it was freed, so the handle is a new one. -/
theorem Wf.recycle {t : UiTree F} (h : t.Wf) {rest : List UInt32} {index generation : UInt32}
    (hfree : t.free = rest ++ [index])
    (hgen : t.generations[index.toNat]? = some generation) :
    t.Reserved { t with free := rest } ⟨index, generation⟩ := by
  have hnd : (rest ++ [index]).Nodup := hfree ▸ h.nodup
  have hnot : index ∉ rest := fun hin =>
    (List.nodup_append.mp hnd).2.2 index hin index (List.mem_singleton_self index) rfl
  have hsub (i : UInt32) (hi : i ∈ rest) : i ∈ t.free := by simp [hfree, hi]
  refine ⟨⟨h.lengths, h.small, h.named, h.counted, ?_, fun i hi => h.dead i (hsub i hi)⟩,
    fun _ => rfl, h.dead index (by simp [hfree]), hgen, ?_, fun _ _ hi => hi, id, rfl, rfl, rfl⟩
  · exact hnd.sublist (List.sublist_append_left rest [index])
  · intro i
    change i ∈ rest ↔ i ∈ t.free ∧ i ≠ index
    rw [hfree, List.mem_append, List.mem_singleton]
    constructor
    · intro hi
      exact ⟨.inl hi, fun heq => hnot (heq ▸ hi)⟩
    · rintro ⟨hi | hi, hne⟩
      · exact hi
      · exact absurd hi hne

/-- One slot more, at the first generation. The free list is empty, so every dead slot is one that
    was set aside. -/
theorem Wf.grow {t : UiTree F} (h : t.Wf) (hfree : t.free = []) {index : UInt32}
    (hindex : u32TryFrom t.slots.length = some index) :
    t.Reserved { t with slots := t.slots ++ [none], generations := t.generations ++ [1] }
      ⟨index, 1⟩ := by
  have hnat : index.toNat = t.slots.length := toNat_of_u32TryFrom hindex
  have hlt := index.toNat_lt
  have hold {i : Nat} {node : UiNode F} (hi : (t.slots ++ [none])[i]? = some (some node)) :
      t.slots[i]? = some (some node) := by
    rw [List.getElem?_append] at hi
    split at hi
    · exact hi
    · exact absurd (List.mem_of_getElem? hi) (by simp)
  have hgrows {i : Nat} {g : UInt32} (hi : t.generations[i]? = some g) :
      (t.generations ++ [1])[i]? = some g := by
    rw [List.getElem?_append_left (List.getElem?_eq_some_iff.mp hi).1, hi]
  constructor
  · constructor
    · rw [List.length_append, List.length_append, h.lengths]
      rfl
    · rw [List.length_append, List.length_singleton]
      omega
    · intro i node hi
      obtain ⟨hid, hgen⟩ := h.named (hold hi)
      exact ⟨hid, hgrows hgen⟩
    · rw [List.countP_append, h.counted]
      rfl
    · exact h.nodup
    · intro i hi
      change i ∈ t.free at hi
      rw [hfree] at hi
      cases hi
  · intro x
    refine Option.ext ?_
    intro node
    rw [lookup_eq_some, lookup_eq_some]
    refine and_congr_left fun _ => ⟨hold, ?_⟩
    intro hi
    exact (List.getElem?_append_left (List.getElem?_eq_some_iff.mp hi).1).trans hi
  · change (t.slots ++ [none])[index.toNat]? = some none
    rw [hnat, List.getElem?_concat_length]
  · change (t.generations ++ [1])[index.toNat]? = some 1
    rw [hnat, ← h.lengths, List.getElem?_concat_length]
  · intro i
    change i ∈ t.free ↔ i ∈ t.free ∧ i ≠ index
    rw [hfree]
    exact ⟨fun hi => absurd hi List.not_mem_nil, fun hi => hi.1⟩
  · intro i hne hi
    change (t.slots ++ [none])[i.toNat]? = some none at hi
    have hlen : i.toNat ≠ t.slots.length := fun heq =>
      hne (UInt32.toNat_inj.mp (heq.trans hnat.symm))
    have hlt := (List.getElem?_eq_some_iff.mp hi).1
    rw [List.length_append, List.length_singleton] at hlt
    rw [List.getElem?_append_left (by omega)] at hi
    exact hi
  · exact hgrows
  all_goals rfl

/-- A slot is taken from the free list, or there is one more, or the call refuses. -/
theorem Wf.takeSlot_cases {t : UiTree F} (h : t.Wf) (room : Room) :
    (∃ e, t.takeSlot room = (.error (.err e), t)) ∨
      ∃ id t', t.takeSlot room = (.ok id, t') ∧ t.Reserved t' id := by
  cases hlast : t.free.getLast? with
  | some index =>
    obtain ⟨rest, hfree⟩ := List.getLast?_eq_some_iff.mp hlast
    have hdrop : t.free.dropLast = rest := by rw [hfree, List.dropLast_concat]
    have hlt := (List.getElem?_eq_some_iff.mp (h.dead index (by simp [hfree]))).1
    obtain ⟨generation, hgen⟩ : ∃ g, t.generations[index.toNat]? = some g :=
      ⟨_, List.getElem?_eq_getElem (by rw [h.lengths]; exact hlt)⟩
    refine .inr ⟨⟨index, generation⟩, _, ?_, h.recycle hfree hgen⟩
    simp only [takeSlot, hlast, hgen, hdrop]
  | none =>
    have hfree : t.free = [] := List.getLast?_eq_none_iff.mp hlast
    cases hindex : u32TryFrom t.slots.length with
    | none => exact .inl ⟨.indexOverflow, by simp only [takeSlot, hlast, hindex]⟩
    | some index =>
      cases hroom : room.slots && room.generations with
      | false => exact .inl ⟨.allocationFailed, by simp [takeSlot, hlast, hindex, hroom]⟩
      | true =>
        refine .inr ⟨⟨index, 1⟩, _, ?_, h.grow hfree hindex⟩
        simp [takeSlot, hlast, hindex, hroom]

/-- A dead slot that gets a node. -/
theorem Wf.fillDead {t : UiTree F} (h : t.Wf) {node : UiNode F}
    (hslot : t.slots[node.id.index.toNat]? = some none)
    (hgen : t.generations[node.id.index.toNat]? = some node.id.generation)
    (hnot : node.id.index ∉ t.free) :
    ({ t.setNode node with count := t.count + 1 } : UiTree F).Wf := by
  have hlt := (List.getElem?_eq_some_iff.mp hslot).1
  have hget := (List.getElem?_eq_some_iff.mp hslot).2
  have htakes : t.Takes node.id := ⟨none, hslot, fun n hn => by cases hn⟩
  refine h.fill htakes hgen rfl rfl rfl hnot ?_
  change t.count + 1 = (t.slots.set node.id.index.toNat (some node)).countP Option.isSome
  rw [List.countP_set hlt, hget, h.counted]
  simp

/-- What a creation leaves. `u` is the tree its slot was set aside in. The slots are compared with
    those of `u`, as a creation that has to grow the table makes one slot more than `t` has; the
    links and the nodes are compared with those of `t`. -/
structure Created (t u t' : UiTree F) (id parent : UiNodeId) : Prop where
  reserved : t.Reserved u id
  fresh : t.lookup id = none
  wf : t'.Wf
  links : t'.links = insertLeaf id parent t.links
  dead (i : Nat) : t'.slots[i]? = some none ↔ i ≠ id.index.toNat ∧ u.slots[i]? = some none
  generations : t'.generations = u.generations
  free : t'.free = u.free
  root : t'.root = t.root
  count : t'.count = t.count + 1
  config : t'.config = t.config

/-- The two writes of a creation: the parent's child, then the node in its slot. -/
theorem Reserved.fill {t u : UiTree F} {id parent : UiNodeId} {node : UiNode F}
    (h : t.Reserved u id) (hparent : t.lookup parent = some node) (grown new : UiNode F)
    (hgrown : grown.id = parent)
    (hlink : grown.link = ⟨node.parent, node.children ++ [id]⟩) (hid : new.id = id)
    (hnew : new.link = ⟨some parent, []⟩) :
    t.Created u { (u.setNode grown).setNode new with count := (u.setNode grown).count + 1 } id
      parent := by
  have hold : u.lookup grown.id = some node := by rw [hgrown, h.lookup, hparent]
  have hnot : id.index ∉ u.free := fun hin => ((h.free id.index).mp hin).2 rfl
  have hframe := Frame.setNode hold
  have hslot := (hframe.dead id.index.toNat).mpr h.slot
  obtain rfl := hid
  have htakes : (u.setNode grown).Takes new.id := ⟨none, hslot, fun n hn => by cases hn⟩
  refine ⟨h, ?_, ?_, ?_, ?_, hframe.generations, hframe.free, hframe.root.trans h.root, ?_,
    hframe.config.trans h.config⟩
  · rw [← h.lookup, UiTree.lookup, h.slot]
    rfl
  · refine (hframe.wf h.wf).fillDead hslot ?_ ?_
    · rw [hframe.generations]
      exact h.generation
    · rw [hframe.free]
      exact hnot
  · funext x
    rw [links, lookup_set htakes (fun n hn => by rw [← Option.some.inj hn]) rfl, insertLeaf]
    split
    · exact congrArg some hnew
    · rw [lookup_setNode hold, hgrown, links, h.lookup]
      split
      · next heq =>
        rw [heq, hparent, Option.map_some, Option.map_some, hlink]
        rfl
      · rw [Option.map_id_fun']
        rfl
  · intro i
    change ((u.setNode grown).slots.set new.id.index.toNat (some new))[i]? = some none ↔ _
    rw [getElem?_set_of_lt htakes.lt]
    split
    · next heq => simp [heq]
    · next hne => simp [hne, hframe.dead]
  · change (u.setNode grown).count + 1 = t.count + 1
    rw [hframe.count, h.count]

variable [Coord F]

/-- With memory for the child and for the node the creation goes through to its end. -/
theorem Reserved.addNode {t u : UiTree F} {id parent : UiNodeId} {node : UiNode F} {room : Room}
    (h : t.Reserved u id) (hparent : t.lookup parent = some node) (content : UiNodeContent F)
    (hchildren : room.children = true) (hlink : room.link = true) :
    ∃ t', UiTree.addNode room parent content id u = (.ok id, t') ∧ t.Created u t' id parent := by
  have hold : u.lookup parent = some node := (h.lookup parent).trans hparent
  have hid : node.id = parent := lookup_id hparent
  refine ⟨_, ?_, h.fill hparent { node with children := node.children ++ [id] }
    ⟨id, some parent, [], content, .zero, true⟩ hid rfl rfl rfl⟩
  rw [UiTree.addNode, hchildren, hlink, node_eq_ok.mpr hold]
  rfl

/-- A creation is let through if the content is in order, a node is left in the budget, and the
    parent stands high enough. -/
theorem Shape.createChecks_iff {t : UiTree F} (h : t.Shape) {parent : UiNodeId}
    {content : UiNodeContent F} :
    t.createChecks parent content = .ok () ↔
      t.checkContent content = .ok () ∧ t.count < t.config.maxNodes ∧
        ∃ d, Climb (parentOf t.links) parent t.root d ∧ d + 1 < t.config.maxDepth := by
  constructor
  · intro hcall
    simp only [createChecks, bind_eq_ok, monadLift_eq_ok, failIf_eq_ok] at hcall
    obtain ⟨_, hvalid, _, hcontent, _, hdepth, hcount⟩ := hcall
    obtain ⟨node, hnode⟩ := h.validSlot_iff.mp (by simpa using hvalid)
    obtain ⟨d, -, hd⟩ := h.depth_lt hnode
    rw [h.checkDepth_eq hd] at hdepth
    split at hdepth
    · next hroom => exact ⟨hcontent, Nat.not_le.mp hcount, d, hd, hroom⟩
    · cases hdepth
  · intro hall
    obtain ⟨hcontent, hcount, d, hd, hroom⟩ := hall
    have hvalid : t.validSlot parent = true := h.validSlot_iff.mpr (h.live_of_climb hd)
    simp [createChecks, failIf, hvalid, hcontent, h.checkDepth_eq hd, hroom, Nat.not_le.mpr hcount]

theorem Shape.createChecks_returns {t : UiTree F} (h : t.Shape) (parent : UiNodeId)
    (content : UiNodeContent F) : Returns (t.createChecks parent content) := by
  refine (returns_lift _).bind ?_
  intro _ hvalid
  rw [monadLift_eq_ok, failIf_eq_ok] at hvalid
  obtain ⟨node, hnode⟩ := h.validSlot_iff.mp (by simpa using hvalid)
  exact (returns_lift _).bind fun _ _ =>
    (h.checkDepth_returns hnode).bind fun _ _ => returns_lift _

/-- **Create** refuses and changes nothing, or it adds a leaf; out of memory it may leave its slot
    set aside. -/
theorem Shape.create_cases {t : UiTree F} (h : t.Shape) (room : Room) (parent : UiNodeId)
    (content : UiNodeContent F) :
    (∃ e, t.create room parent content = (.error (.err e), t)) ∨
      (∃ id t', room ≠ .ample ∧
        t.create room parent content = (.error (.err .allocationFailed), t') ∧
        t.Reserved t' id) ∨
      ∃ id u t', t.createChecks parent content = .ok () ∧
        t.create room parent content = (.ok id, t') ∧ t.Created u t' id parent := by
  unfold UiTree.create
  rcases (h.createChecks_returns parent content).cases with ⟨_, hchecks⟩ | ⟨e, hchecks⟩
  · rw [hchecks]
    obtain ⟨-, -, d, hd, -⟩ := h.createChecks_iff.mp hchecks
    obtain ⟨node, hparent⟩ := h.live_of_climb hd
    rcases h.takeSlot_cases room with ⟨e, hslot⟩ | ⟨id, u, hslot, hreserved⟩
    · exact .inl ⟨e, by simp only [hslot, andThen]⟩
    · simp only [hslot, andThen]
      have hold : u.lookup parent = some node := (hreserved.lookup parent).trans hparent
      by_cases hroom : room.children = true ∧ room.link = true
      · obtain ⟨t', hcall, hcreated⟩ := hreserved.addNode hparent content hroom.1 hroom.2
        exact .inr (.inr ⟨id, u, t', trivial, hcall, hcreated⟩)
      · refine .inr (.inl ⟨id, u, ?_, ?_, hreserved⟩)
        · rintro rfl
          exact hroom ⟨rfl, rfl⟩
        · unfold UiTree.addNode
          rw [node_eq_ok.mpr hold]
          split
          · rfl
          · next hchildren =>
            have hlink : room.link = false := by
              simpa using fun hl => hroom ⟨by simpa using hchildren, hl⟩
            simp [hlink]
  · rw [hchecks]
    exact .inl ⟨e, rfl⟩

/-! ## Destroy -/

omit [Coord F]

theorem mapM_ok_of_some {ε α β : Type} {f : α → Option β} {g : α → Except ε β} {xs : List α}
    {ys : List β} (hfg : ∀ x y, f x = some y → g x = .ok y) (h : xs.mapM f = some ys) :
    xs.mapM g = .ok ys := by
  induction xs generalizing ys with
  | nil =>
    obtain rfl := Option.some.inj h
    rfl
  | cons x xs ih =>
    rw [List.mapM_cons] at h
    obtain ⟨y, hy, h⟩ := Option.bind_eq_some_iff.mp h
    obtain ⟨zs, hzs, h⟩ := Option.bind_eq_some_iff.mp h
    obtain rfl := Option.some.inj h
    rw [List.mapM_cons, hfg x y hy, ih hzs]
    rfl

theorem children_eq {t : UiTree F} {id : UiNodeId} {node : UiNode F}
    (h : t.lookup id = some node) : t.children id = .ok node.children := by
  rw [UiTree.children, node_eq_ok.mpr h]
  rfl

theorem collectSubtree_of_walk {t : UiTree F} {fuel : Nat} {id : UiNodeId}
    {order : List UiNodeId} (h : walk t.links fuel id = some order) :
    t.collectSubtree fuel id = .ok order := by
  induction fuel generalizing id order with
  | zero => cases h
  | succ fuel ih =>
    obtain ⟨l, hl, h⟩ := Option.bind_eq_some_iff.mp h
    obtain ⟨below, hbelow, h⟩ := Option.bind_eq_some_iff.mp h
    obtain rfl := Option.some.inj h
    obtain ⟨node, hnode, rfl⟩ := links_eq_some.mp hl
    have hrest : node.children.mapM (t.collectSubtree fuel) = .ok below :=
      mapM_ok_of_some (fun _ _ => ih) hbelow
    simp [UiTree.collectSubtree, children_eq hnode, hrest]

/-- **The walk below a live node** ends, and lists its subtree. -/
theorem Shape.collectSubtree {t : UiTree F} (h : t.Shape) {id : UiNodeId} {node : UiNode F}
    (hnode : t.lookup id = some node) :
    ∃ order, t.collectSubtree t.slots.length id = .ok order ∧ Preorder t.links id order := by
  obtain ⟨d, -, hd⟩ := h.depth_lt hnode
  have hlen := t.length_ids_le
  obtain ⟨order, hwalk, horder⟩ :=
    h.tree.walk_spec h.mem_ids_of_link hd (show t.ids.length ≤ t.slots.length + d by omega)
  exact ⟨order, collectSubtree_of_walk hwalk, horder⟩

/-- A node of the preorder is live, and its parent is before it. -/
theorem Shape.parent_before {t : UiTree F} (h : t.Shape) {order front back : List UiNodeId}
    {id : UiNodeId} (horder : Preorder t.links t.root order)
    (hsplit : order = front ++ id :: back) :
    ∃ node, t.lookup id = some node ∧ (node.parent = none → id = t.root) ∧
      ∀ p, node.parent = some p → p ∈ front := by
  obtain ⟨j, hj⟩ := (horder.mem id).mp (by simp [hsplit])
  obtain ⟨node, hnode⟩ := h.live_of_climb hj
  have hup := parentOf_links hnode
  obtain ⟨rest, rfl, hfirst⟩ := horder.head
  cases front with
  | nil =>
    obtain ⟨rfl, -⟩ := List.cons.inj hsplit
    refine ⟨node, hnode, fun _ => rfl, ?_⟩
    intro p hp
    exact absurd (h.tree.root_parent.symm.trans (hup.trans hp)) (by simp)
  | cons x front =>
    obtain ⟨rfl, rfl⟩ := List.cons.inj hsplit
    obtain ⟨q, hq, hmem⟩ := hfirst.parent_mem
    rw [hup] at hq
    have hfront : q ∈ t.root :: front := by
      cases hmem with
      | inl hseen => exact List.mem_singleton.mp hseen ▸ List.mem_cons_self
      | inr hfront => exact List.mem_cons_of_mem _ hfront
    refine ⟨node, hnode, fun hnone => ?_, fun p hp => ?_⟩
    · rw [hnone] at hq
      cases hq
    · obtain rfl := Option.some.inj (hq.symm.trans hp)
      exact hfront

theorem preorder_eq_ok {t : UiTree F} {room : Room} {order : List UiNodeId} :
    t.preorder room = .ok order ↔
      room.order = true ∧ t.collectSubtree t.slots.length t.root = .ok order := by
  simp [UiTree.preorder, bind_eq_ok]

theorem Shape.preorder_ok {t : UiTree F} (h : t.Shape) {room : Room} {order : List UiNodeId}
    (hcall : t.preorder room = .ok order) : Preorder t.links t.root order := by
  obtain ⟨l, hl, -⟩ := h.tree.top
  obtain ⟨root, hroot⟩ := live_iff.mp ⟨l, hl⟩
  obtain ⟨order', hwalk, horder⟩ := h.collectSubtree hroot
  obtain ⟨-, hsame⟩ := preorder_eq_ok.mp hcall
  exact Except.ok.inj (hwalk.symm.trans hsame) ▸ horder

/-- What removing some nodes leaves. The generation of each goes up by one at least, which is what
    makes every handle to it stale (`aged`), and the others keep theirs or grow (`grows`). Of the
    count no more is needed than that it does not go up. -/
structure Removed (t t' : UiTree F) (gone : List UiNodeId) : Prop where
  wf : t'.Wf
  lookup (x : UiNodeId) : t'.lookup x = if x ∈ gone then none else t.lookup x
  grows {i : Nat} {g : UInt32} : t.generations[i]? = some g →
    ∃ g', t'.generations[i]? = some g' ∧ g ≤ g'
  aged : ∀ x ∈ gone, ∃ g, t'.generations[x.index.toNat]? = some g ∧ x.generation < g
  free : t'.free = t.free ++ gone.map UiNodeId.index
  dead (i : UInt32) : t'.slots[i.toNat]? = some none →
    t.slots[i.toNat]? = some none ∨ i ∈ gone.map UiNodeId.index
  root : t'.root = t.root
  count : t'.count ≤ t.count
  config : t'.config = t.config

/-- Removals compose, and what the first removed stays removed. -/
theorem Removed.trans {t u v : UiTree F} {xs ys : List UiNodeId} (h : t.Removed u xs)
    (h' : u.Removed v ys) : t.Removed v (xs ++ ys) := by
  refine ⟨h'.wf, fun x => ?_, fun hi => ?_, fun x hx => ?_, ?_, fun i hi => ?_,
    h'.root.trans h.root, h'.count.trans h.count, h'.config.trans h.config⟩
  · rw [h'.lookup, h.lookup]
    by_cases hxs : x ∈ xs <;> by_cases hys : x ∈ ys <;> simp [hxs, hys]
  · obtain ⟨g', hg', hle⟩ := h.grows hi
    obtain ⟨g'', hg'', hle'⟩ := h'.grows hg'
    exact ⟨g'', hg'', UInt32.le_trans hle hle'⟩
  · cases List.mem_append.mp hx with
    | inl hxs =>
      obtain ⟨g, hg, hlt⟩ := h.aged x hxs
      obtain ⟨g', hg', hle⟩ := h'.grows hg
      exact ⟨g', hg', UInt32.lt_of_lt_of_le hlt hle⟩
    | inr hys => exact h'.aged x hys
  · rw [h'.free, h.free, List.map_append, List.append_assoc]
  · rw [List.map_append, List.mem_append]
    rcases h'.dead i hi with hu | hmem
    · rcases h.dead i hu with ht | hmem
      · exact .inl ht
      · exact .inr (.inl hmem)
    · exact .inr (.inr hmem)

section RemoveNode

variable {t : UiTree F} {id : UiNodeId} {node : UiNode F}

theorem slots_removeNode (hnode : t.lookup id = some node) (i : Nat) :
    (t.removeNode id).slots[i]? = if i = id.index.toNat then some none else t.slots[i]? := by
  obtain ⟨hslot, -⟩ := lookup_eq_some.mp hnode
  exact getElem?_set_of_lt (List.getElem?_eq_some_iff.mp hslot).1 none i

theorem Wf.generations_removeNode (h : t.Wf) (hnode : t.lookup id = some node) (i : Nat) :
    (t.removeNode id).generations[i]? =
      if i = id.index.toNat then some (id.generation + 1) else t.generations[i]? := by
  rw [UiTree.removeNode, List.getElem?_modify]
  by_cases hi : i = id.index.toNat
  · rw [if_pos hi, hi, h.lookup_generation hnode]
    simp
  · rw [if_neg hi]
    simp [Ne.symm hi]

theorem Wf.wf_removeNode (h : t.Wf) (hnode : t.lookup id = some node) : (t.removeNode id).Wf := by
  obtain ⟨hslot, -⟩ := lookup_eq_some.mp hnode
  obtain ⟨hlt, hget⟩ := List.getElem?_eq_some_iff.mp hslot
  have hnot : id.index ∉ t.free := by
    intro hin
    rw [h.dead _ hin] at hslot
    cases hslot
  constructor
  · change (t.generations.modify id.index.toNat (· + 1)).length = (t.slots.set _ _).length
    rw [List.length_modify, List.length_set, h.lengths]
  · change (t.slots.set _ _).length ≤ _
    rw [List.length_set]
    exact h.small
  · intro i n hi
    rw [slots_removeNode hnode] at hi
    split at hi
    · cases hi
    · next hne =>
      obtain ⟨hindex, hn⟩ := h.named hi
      refine ⟨hindex, ?_⟩
      rw [h.generations_removeNode hnode, if_neg hne, hn]
  · change t.count - 1 = (t.slots.set id.index.toNat none).countP Option.isSome
    rw [List.countP_set hlt, hget, h.counted]
    simp
  · change (t.free ++ [id.index]).Nodup
    rw [List.nodup_append]
    refine ⟨h.nodup, List.nodup_singleton _, fun a ha b hb heq => hnot ?_⟩
    rw [← List.mem_singleton.mp hb, ← heq]
    exact ha
  · intro i hi
    rw [slots_removeNode hnode]
    split
    · rfl
    · next hne =>
      refine h.dead i ?_
      cases List.mem_append.mp hi with
      | inl hold => exact hold
      | inr hnew => exact absurd (congrArg UInt32.toNat (List.mem_singleton.mp hnew)) hne

/-- One node. -/
theorem Wf.removeNode (h : t.Wf) (hnode : t.lookup id = some node)
    (hgen : id.generation.toNat + 1 < 2 ^ 32) : t.Removed (t.removeNode id) [id] := by
  have hsucc : (id.generation + 1).toNat = id.generation.toNat + 1 := by
    rw [UInt32.toNat_add]
    exact Nat.mod_eq_of_lt hgen
  constructor
  · exact h.wf_removeNode hnode
  · intro x
    rw [lookup_set (takes_of_lookup hnode) (fun n hn => by cases hn) rfl]
    simp only [List.mem_singleton]
  · intro i g hi
    rw [h.generations_removeNode hnode]
    split
    · next heq =>
      rw [heq, h.lookup_generation hnode] at hi
      obtain rfl := Option.some.inj hi
      refine ⟨_, rfl, UInt32.le_iff_toNat_le.mpr ?_⟩
      omega
    · exact ⟨g, hi, UInt32.le_refl g⟩
  · intro x hx
    obtain rfl := List.mem_singleton.mp hx
    refine ⟨x.generation + 1, ?_, UInt32.lt_iff_toNat_lt.mpr (by omega)⟩
    rw [h.generations_removeNode hnode, if_pos rfl]
  · rfl
  · intro i hi
    rw [slots_removeNode hnode] at hi
    split at hi
    · next heq => exact .inr (by simp [UInt32.toNat_inj.mp heq])
    · exact .inl hi
  · rfl
  · exact Nat.sub_le t.count 1
  · rfl

end RemoveNode

/-- **The loop of `destroy`.** -/
theorem Wf.removeAll {t : UiTree F} (h : t.Wf) {gone : List UiNodeId} (hnd : gone.Nodup)
    (hlive : ∀ x ∈ gone, (∃ node, t.lookup x = some node) ∧ x.generation.toNat + 1 < 2 ^ 32) :
    t.Removed (gone.foldl UiTree.removeNode t) gone := by
  induction gone generalizing t with
  | nil =>
    exact ⟨h, fun x => by simp, fun {i g} hi => ⟨g, hi, UInt32.le_refl g⟩, List.forall_mem_nil _,
      by simp, fun i hi => .inl hi, rfl, Nat.le_refl _, rfl⟩
  | cons id gone ih =>
    obtain ⟨hnot, hnd⟩ := List.nodup_cons.mp hnd
    obtain ⟨⟨node, hnode⟩, hgen⟩ := hlive id List.mem_cons_self
    have hone := h.removeNode hnode hgen
    refine hone.trans (ih hone.wf hnd fun x hx => ?_)
    obtain ⟨⟨n, hn⟩, hgen⟩ := hlive x (List.mem_cons_of_mem id hx)
    refine ⟨⟨n, ?_⟩, hgen⟩
    rw [hone.lookup, if_neg, hn]
    intro heq
    rw [List.mem_singleton.mp heq] at hx
    exact hnot hx

/-- A destruction is refused as a whole if one generation could not be raised. -/
theorem checkGeneration_eq {t : UiTree F} (h : t.Wf) {id : UiNodeId} {node : UiNode F}
    (hnode : t.lookup id = some node) :
    t.checkGeneration id =
      if id.generation.toNat + 1 < 2 ^ 32 then .ok () else .error (.err .indexOverflow) := by
  have hone : (1 : UInt32).toNat = 1 := rfl
  rw [checkGeneration, h.lookup_generation hnode]
  simp only [u32CheckedAdd, u32TryFrom, hone]
  split <;> rfl

/-- The checks of the generations pass when none is at its last. -/
theorem checkGenerations_spec {t : UiTree F} (h : t.Wf) {order : List UiNodeId}
    (hlive : ∀ x ∈ order, ∃ node, t.lookup x = some node) :
    Returns (t.checkGenerations order) ∧
      (t.checkGenerations order = .ok () →
        ∀ x ∈ order, x.generation.toNat + 1 < 2 ^ 32) := by
  induction order with
  | nil => exact ⟨by simp [Returns, checkGenerations], fun _ => List.forall_mem_nil _⟩
  | cons x order ih =>
    obtain ⟨node, hnode⟩ := hlive x List.mem_cons_self
    obtain ⟨hreturns, hfits⟩ := ih fun y hy => hlive y (List.mem_cons_of_mem x hy)
    rw [checkGenerations, checkGeneration_eq h hnode]
    split
    · next hx =>
      exact ⟨hreturns, fun hrest => List.forall_mem_cons.mpr ⟨hx, hfits hrest⟩⟩
    · exact ⟨by simp [Returns], fun hcall => by cases hcall⟩

/-- What a destruction leaves. It removes the subtree from its leaves up, in the reverse of the
    preorder, after it has taken the node off its parent; `u` is the tree in between. -/
structure Destroyed (t t' : UiTree F) (id : UiNodeId) (order : List UiNodeId) : Prop where
  live : ∃ node, t.lookup id = some node
  preorder : Preorder t.links id order
  removed : ∃ u, t.Frame u ∧ u.Removed t' order.reverse
  wf : t'.Wf
  links : t'.links = cutAway id order t.links

theorem Shape.destroyChecks_cases {t : UiTree F} (h : t.Shape) (room : Room) (id : UiNodeId) :
    (∃ e, t.destroyChecks room id = .error (.err e)) ∨
      ∃ order parent, t.destroyChecks room id = .ok (order, parent) ∧ id ≠ t.root ∧
        parentOf t.links id = some parent ∧ Preorder t.links id order ∧
        ∀ x ∈ order, (∃ node, t.lookup x = some node) ∧ x.generation.toNat + 1 < 2 ^ 32 := by
  have hslots : 0 < t.slots.length := by
    obtain ⟨l, hl, -⟩ := h.tree.top
    obtain ⟨node, hnode⟩ := live_iff.mp ⟨l, hl⟩
    obtain ⟨d, hlt, -⟩ := h.depth_lt hnode
    omega
  obtain ⟨n, hn⟩ := Nat.exists_eq_succ_of_ne_zero (Nat.ne_of_gt hslots)
  unfold UiTree.destroyChecks
  by_cases hne : id = t.root
  · exact .inl ⟨.invalidNode, by simp [failIf, hne]⟩
  cases hmemory : room.order with
  | false => exact .inl ⟨.allocationFailed, by simp [failIf, hne]⟩
  | true =>
    cases hnode : t.lookup id with
    | none =>
      refine .inl ⟨.invalidNode, ?_⟩
      have hwalk : t.collectSubtree t.slots.length id = .error (.err .invalidNode) := by
        rw [hn, UiTree.collectSubtree, UiTree.children, node_eq_error hnode]
        rfl
      simp [failIf, hne, hwalk]
    | some node =>
      obtain ⟨order, hwalk, horder⟩ := h.collectSubtree hnode
      have hlive (x : UiNodeId) (hx : x ∈ order) : ∃ node, t.lookup x = some node := by
        obtain ⟨j, hj⟩ := (horder.mem x).mp hx
        obtain ⟨d, -, hd⟩ := h.depth_lt hnode
        exact h.live_of_climb (hj.trans hd)
      obtain ⟨hreturns, hfits⟩ := checkGenerations_spec h.toWf hlive
      cases hroom : room.free with
      | false => exact .inl ⟨.allocationFailed, by simp [failIf, hne, hwalk]⟩
      | true =>
        rcases hreturns.cases with ⟨_, hgens⟩ | ⟨e, hgens⟩
        · have hparent := parentOf_links hnode
          cases hp : node.parent with
          | none =>
            refine .inl ⟨.invalidNode, ?_⟩
            simp [failIf, hne, hwalk, hgens, parent_eq hnode, hp]
          | some parent =>
            refine .inr ⟨order, parent, ?_, hne, hparent.trans hp, horder,
              fun x hx => ⟨hlive x hx, hfits hgens x hx⟩⟩
            simp [failIf, hne, hwalk, hgens, parent_eq hnode, hp]
        · exact .inl ⟨e, by simp [failIf, hne, hwalk, hgens]⟩

/-- **Destroy** refuses and changes nothing, or it takes the subtree away. -/
theorem Shape.destroy_cases {t : UiTree F} (h : t.Shape) (room : Room) (id : UiNodeId) :
    (∃ e, t.destroy room id = (.error (.err e), t)) ∨
      ∃ order t', id ≠ t.root ∧ t.destroy room id = (.ok (), t') ∧ t.Destroyed t' id order := by
  unfold UiTree.destroy
  rcases h.destroyChecks_cases room id with ⟨e, hchecks⟩ |
    ⟨order, parent, hchecks, hne, hparent, horder, hlive⟩
  · rw [hchecks]
    exact .inl ⟨e, rfl⟩
  · rw [hchecks]
    obtain ⟨l, hl, -⟩ := h.tree.listed hparent
    obtain ⟨node, hnode⟩ := live_iff.mp ⟨l, hl⟩
    obtain ⟨u, hcall, hframe, hlinks⟩ := nodeMut_link hnode
      (f := fun node => { node with children := node.children.filter (· ≠ id) })
      (g := fun l => ⟨l.parent, l.children.filter (· ≠ id)⟩) fun _ => ⟨rfl, rfl⟩
    have hremoved := (hframe.wf h.toWf).removeAll (List.nodup_reverse.mpr horder.nodup)
      fun x hx => by
        obtain ⟨⟨n, hn⟩, hgen⟩ := hlive x (List.mem_reverse.mp hx)
        exact ⟨live_of_link hlinks hn, hgen⟩
    refine .inr ⟨order, _, hne, by simp only [hcall, andThen],
      live_iff.mp (IsTree.live_of_parent hparent), horder, ⟨u, hframe, hremoved⟩, hremoved.wf, ?_⟩
    funext x
    rw [UiTree.links, hremoved.lookup, cutAway]
    by_cases hx : x ∈ order
    · rw [if_pos (List.mem_reverse.mpr hx), if_pos hx]
      rfl
    · rw [if_neg fun hin => hx (List.mem_reverse.mp hin), if_neg hx]
      refine (hlinks x).trans ?_
      cases hxl : t.links x with
      | none => rfl
      | some m =>
        rw [Option.map_some, Option.map_some]
        split
        · rfl
        · next hxp =>
          -- only its parent lists the node
          have hfilter : m.children.filter (· ≠ id) = m.children := by
            refine List.filter_eq_self.mpr fun c hc => decide_eq_true ?_
            rintro rfl
            exact hxp (Option.some.inj ((h.tree.child hxl hc).symm.trans hparent))
          rw [hfilter]

end UiTree
end Ui
end EngineKit
