import EngineKit.Lib.Topmost
import EngineKit.Ui.Painted
import EngineKit.Ui.TreeRuns

/-!
# Hit testing

`hit_test` walks the preorder and keeps the candidate of the highest z index, the last of them if
there are several. A node is a candidate if it is visible, enabled, takes hits and contains the
point, and nothing above it is hidden or clips the point away.

Painting decides the same question another way: it draws in preorder whatever the z index, it clips
every node to its parent whatever the overflow, and it paints a visible node below a hidden one.
`hit_agrees_iff` says at which points the two answers are the same.

Both answers are the topmost of the same list, the preorder, with a different test and a different
height (`Top`): hit testing ranks by z index and then by place, painting by place alone. So there is
no need to compare the two traversals with each other; each is shown to find its topmost node, and
`Aligned` says when the two are the same. It speaks of the last node that is shown, because of
several nodes shown at a point only that one is seen.
-/

set_option autoImplicit false

namespace EngineKit
namespace Ui

open Lib

variable {F : Type} [Coord F]

/-! ## The code -/

namespace UiTree

/-- `ancestors_allow_hit`, with its cursor. -/
def ancestorsAllowHit (t : UiTree F) (x y : F) : Nat → Option UiNodeId → Except Failure Bool
  | _, none => .ok true
  | 0, some _ => .error .noReturn
  | fuel + 1, some id =>
    match t.content id with
    | .error _ => .ok false
    | .ok content =>
      if content.visible = false then .ok false
      else if content.style.overflow = .visible then t.ancestorsAllowHit x y fuel (t.up id)
      else
        match t.rect id with
        | .error _ => .ok false
        | .ok rect =>
          if rect.contains x y = false then .ok false
          else t.ancestorsAllowHit x y fuel (t.up id)

end UiTree

/-- A candidate: its z index, its place in the preorder, and its node. -/
structure Candidate where
  zIndex : Int32
  order : Nat
  node : UiNodeId
deriving DecidableEq

/-- `(a.0, a.1) >= (b.0, b.1)`. -/
def Candidate.reaches (a b : Candidate) : Bool :=
  decide (b.zIndex < a.zIndex) || (a.zIndex == b.zIndex && decide (b.order ≤ a.order))

/-- One round of `hit_test`. -/
def hitNode (t : UiTree F) (x y : F) (order : Nat) (id : UiNodeId) (best : Option Candidate) :
    Except Failure (Option Candidate) :=
  match t.content id, t.rect id with
  | .ok content, .ok rect =>
    if content.visible = false ∨ content.interaction.hitTest = false ∨
        content.interaction.disabled = true ∨ rect.contains x y = false then .ok best
    else do
      let allowed ← t.ancestorsAllowHit x y t.slots.length (t.up id)
      let candidate : Candidate := ⟨content.zIndex, order, id⟩
      if allowed && best.all candidate.reaches then .ok (some candidate) else .ok best
  | _, _ => .ok best

def hitNodes (t : UiTree F) (x y : F) :
    Nat → List UiNodeId → Option Candidate → Except Failure (Option Candidate)
  | _, [], best => .ok best
  | order, id :: ids, best => do
    let best ← hitNode t x y order id best
    hitNodes t x y (order + 1) ids best

/-- `hit_test`. It is no target when the preorder finds no memory. -/
def hitTest (room : Room) (t : UiTree F) (x y : F) : Except Failure (Option UiNodeId) :=
  match t.preorder room with
  | .error .noReturn => .error .noReturn
  | .error (.err _) => .ok none
  | .ok order => (hitNodes t x y 0 order none).map fun best => best.map Candidate.node

/-! ## The answers -/

/-- The node takes hits: it is hit-testable and enabled. -/
def UiNode.reactive (node : UiNode F) : Bool :=
  node.content.interaction.hitTest && ! node.content.interaction.disabled

/-- The item is of a node that takes hits, and its clip contains the point. -/
def UiPaintList.takes (list : UiPaintList F) (t : UiTree F) (x y : F) (item : PaintItem F) : Bool :=
  (t.lookup item.node).any UiNode.reactive &&
    list.clips[item.clip.raw.toNat]?.any fun clip => clip.rect.contains x y

/-- What the user sees at the point: the node of the last item drawn there that takes hits. -/
def UiPaintList.shownAt (list : UiPaintList F) (t : UiTree F) (x y : F) : Option UiNodeId :=
  (list.items.filter (list.takes t x y)).getLast?.map PaintItem.node

/-- The node lets its descendants be hit: it is not hidden, and does not clip the point away. -/
def UiTree.Lets (t : UiTree F) (x y : F) (id : UiNodeId) : Prop :=
  ∃ node, t.lookup id = some node ∧ node.content.visible = true ∧
    (node.content.style.overflow = .visible ∨ node.rect.contains x y = true)

/-- Every node above lets it be hit. -/
def UiTree.Allows (t : UiTree F) (x y : F) (id : UiNodeId) : Prop :=
  ∀ a d, Climb t.up id a (d + 1) → t.Lets x y a

/-- The node passes the checks of `hit_test`. -/
def UiTree.Passes (t : UiTree F) (x y : F) (id : UiNodeId) : Prop :=
  t.Allows x y id ∧ ∃ node, t.lookup id = some node ∧
    node.content.visible = true ∧ node.reactive = true ∧ node.rect.contains x y = true

/-- Hit testing takes the node as a candidate. -/
def UiTree.Hittable (room : Room) (t : UiTree F) (x y : F) (id : UiNodeId) : Prop :=
  room.order = true ∧ t.Passes x y id

/-- The node takes hits and is painted at the point. -/
def UiTree.Shown (viewport : UiRect F) (t : UiTree F) (x y : F) (id : UiNodeId) : Prop :=
  (t.clipOf viewport id).contains x y = true ∧
    ∃ node, t.lookup id = some node ∧ node.reactive = true ∧ Paints viewport t id node

def UiTree.zOf (t : UiTree F) (id : UiNodeId) : Int :=
  ((t.lookup id).map fun node => node.content.zIndex.toInt).getD 0

/-- **Painting and hit testing agree** at a point. Where no node is painted, none passes the hit
    checks; and the last node painted there passes them, with a z index above that of every other
    node that does, or equal to it if the other comes before it in the preorder. -/
structure Aligned (viewport : UiRect F) (room : Room) (t : UiTree F) (x y : F)
    (order : List UiNodeId) : Prop where
  nothing : (∀ q ∈ order, ¬ t.Shown viewport x y q) → ∀ q ∈ order, ¬ t.Hittable room x y q
  last {front back : List UiNodeId} {p : UiNodeId} : order = front ++ p :: back →
    t.Shown viewport x y p → (∀ q ∈ back, ¬ t.Shown viewport x y q) →
      t.Hittable room x y p ∧ (∀ q ∈ front, t.Hittable room x y q → t.zOf q ≤ t.zOf p) ∧
        ∀ q ∈ back, t.Hittable room x y q → t.zOf q < t.zOf p

/-! ## One node -/

namespace UiTree

/-- Above the root there is nothing. -/
theorem allows_root {t : UiTree F} {x y : F} {id : UiNodeId} (h : t.up id = none) :
    t.Allows x y id := by
  intro a d hd
  cases hd with
  | up step _ => exact absurd (h.symm.trans step) (by simp)

/-- The node above, and what is above that. -/
theorem allows_iff {t : UiTree F} {x y : F} {id p : UiNodeId} (h : t.up id = some p) :
    t.Allows x y id ↔ t.Lets x y p ∧ t.Allows x y p := by
  constructor
  · intro hall
    exact ⟨hall p 0 (.up h (.here p)), fun a d hd => hall a (d + 1) (.up h hd)⟩
  · rintro ⟨hlets, hall⟩ a d hd
    cases hd with
    | up step rest =>
      obtain rfl := Option.some.inj (step.symm.trans h)
      cases d with
      | zero =>
        cases rest with
        | here => exact hlets
      | succ d => exact hall a d rest

/-- **The climb** ends, and says whether the node may be hit. -/
theorem Shape.ancestorsAllowHit {t : UiTree F} (h : t.Shape) (x y : F) {id : UiNodeId}
    {d fuel : Nat} (hd : Climb (parentOf t.links) id t.root d) (hfuel : d ≤ fuel) :
    ∃ allowed, t.ancestorsAllowHit x y fuel (t.up id) = .ok allowed ∧
      (allowed = true ↔ t.Allows x y id) := by
  -- On the fuel, which bounds the nodes above.
  induction fuel generalizing id d with
  | zero =>
    obtain rfl := Nat.le_zero.mp hfuel
    cases hd with
    | here =>
      have htop : t.up t.root = none := by rw [up_eq, h.tree.root_parent]
      exact ⟨true, by rw [htop]; rfl, by simp [allows_root htop]⟩
  | succ fuel ih =>
    cases hp : t.up id with
    | none => exact ⟨true, rfl, by simp [allows_root hp]⟩
    | some p =>
      have hparent : parentOf t.links id = some p := by rw [← up_eq, hp]
      -- The node above is the root or has one above it.
      cases hd with
      | here => exact absurd (h.tree.root_parent.symm.trans hparent) (by simp)
      | up step rest =>
        obtain rfl := Option.some.inj (hparent.symm.trans step)
        obtain ⟨node, hnode⟩ := h.live_of_climb rest
        obtain ⟨allowed, hcall, hallowed⟩ := ih rest (Nat.le_of_succ_le_succ hfuel)
        have hlets : t.Lets x y p ↔ node.content.visible = true ∧
            (node.content.style.overflow = .visible ∨ node.rect.contains x y = true) := by
          simp [Lets, hnode]
        rw [allows_iff hp, hlets]
        simp only [UiTree.ancestorsAllowHit, content_eq hnode, rect_eq hnode]
        split
        · next hhidden => exact ⟨false, rfl, by simp [hhidden]⟩
        · next hvisible =>
          split
          · next hoverflow =>
            rw [Bool.not_eq_false] at hvisible
            exact ⟨allowed, hcall, by simp [hallowed, hoverflow, hvisible]⟩
          · next hoverflow =>
            split
            · next hout => exact ⟨false, rfl, by simp [hout, hoverflow]⟩
            · next hin =>
              refine ⟨allowed, hcall, ?_⟩
              rw [Bool.not_eq_false] at hvisible hin
              simp [hallowed, hvisible, hin]

end UiTree

/-- What the loop of `hit_test` keeps: the topmost of the nodes it has seen. -/
structure Best (t : UiTree F) (x y : F) (seen : List UiNodeId) (best : Option Candidate) :
    Prop where
  top : Top (t.Passes x y) t.zOf seen (best.map Candidate.node)
  ranked (c : Candidate) : c ∈ best → c.zIndex.toInt = t.zOf c.node ∧ c.order < seen.length

/-- A later candidate replaces one that is not higher. -/
theorem Candidate.reaches_iff {a b : Candidate} (h : b.order ≤ a.order) :
    a.reaches b = true ↔ b.zIndex.toInt ≤ a.zIndex.toInt := by
  rw [← Int32.le_iff_toInt_le, Int32.le_iff_lt_or_eq]
  have hcomm : a.zIndex = b.zIndex ↔ b.zIndex = a.zIndex := eq_comm
  simp [Candidate.reaches, h, hcomm]

/-- A node that does not pass changes nothing. -/
theorem Best.skip {t : UiTree F} {x y : F} {seen : List UiNodeId} {best : Option Candidate}
    (h : Best t x y seen best) {id : UiNodeId} (hnot : ¬ t.Passes x y id) :
    Best t x y (seen ++ [id]) best := by
  refine ⟨h.top.snoc_unmarked hnot, ?_⟩
  intro c hc
  obtain ⟨hz, hlt⟩ := h.ranked c hc
  exact ⟨hz, by rw [List.length_append]; omega⟩

/-- A node that passes is the topmost so far, or is below it. -/
theorem Best.take {t : UiTree F} {x y : F} {seen : List UiNodeId} {best : Option Candidate}
    (h : Best t x y seen best) {id : UiNodeId} {node : UiNode F} (hnode : t.lookup id = some node)
    (hpasses : t.Passes x y id) :
    Best t x y (seen ++ [id])
      (if best.all (Candidate.reaches ⟨node.content.zIndex, seen.length, id⟩)
        then some ⟨node.content.zIndex, seen.length, id⟩ else best) := by
  have hz : t.zOf id = node.content.zIndex.toInt := by simp [UiTree.zOf, hnode]
  have hlen : (seen ++ [id]).length = seen.length + 1 := by simp
  have hlower {c : Candidate} (hc : c ∈ best) :
      Candidate.reaches ⟨node.content.zIndex, seen.length, id⟩ c = true ↔
        t.zOf c.node ≤ t.zOf id := by
    obtain ⟨hrank, hlt⟩ := h.ranked c hc
    rw [Candidate.reaches_iff (Nat.le_of_lt hlt), hz, hrank]
  -- The candidate that is kept is replaced, or it is higher.
  split
  · next hall =>
    refine ⟨h.top.snoc_higher hpasses fun top htop => ?_, fun c hc => ?_⟩
    · obtain ⟨c, hc, rfl⟩ := Option.map_eq_some_iff.mp htop
      exact (hlower hc).mp (by rw [hc] at hall; exact hall)
    · obtain rfl := Option.some.inj hc
      exact ⟨hz.symm, by rw [hlen]; exact Nat.lt_succ_self _⟩
  · next hnot =>
    cases best with
    | none => exact absurd rfl hnot
    | some c =>
      have hlow : t.zOf id < t.zOf c.node := by
        rw [← not_le, ← hlower rfl]
        exact hnot
      refine ⟨Topmost.snoc_lower h.top hlow, ?_⟩
      intro c hc
      obtain ⟨hrank, hlt⟩ := h.ranked c hc
      exact ⟨hrank, by omega⟩

/-- **A round of `hit_test`** sees one node more. -/
theorem Best.hitNode {t : UiTree F} (hs : t.Shape) {x y : F} {seen : List UiNodeId}
    {best : Option Candidate} (h : Best t x y seen best) {id : UiNodeId} {node : UiNode F}
    (hnode : t.lookup id = some node) :
    ∃ best', hitNode t x y seen.length id best = .ok best' ∧ Best t x y (seen ++ [id]) best' := by
  have hpasses : t.Passes x y id ↔ t.Allows x y id ∧ node.content.visible = true ∧
      node.reactive = true ∧ node.rect.contains x y = true := by
    simp [UiTree.Passes, hnode]
  obtain ⟨d, hlt, hd⟩ := hs.depth_lt hnode
  obtain ⟨allowed, hcall, hallowed⟩ := hs.ancestorsAllowHit x y hd (Nat.le_of_lt hlt)
  simp only [Ui.hitNode, UiTree.content_eq hnode, UiTree.rect_eq hnode]
  -- The node's own checks first, as in the source; only then the climb.
  split
  · next hskip =>
    refine ⟨best, rfl, h.skip ?_⟩
    intro hpass
    obtain ⟨-, hvisible, hreactive, hin⟩ := hpasses.mp hpass
    rw [UiNode.reactive, Bool.and_eq_true, Bool.not_eq_true'] at hreactive
    simp [hvisible, hreactive, hin] at hskip
  · next htry =>
    push Not at htry
    obtain ⟨hvisible, hhit, hdisabled, hin⟩ := htry
    rw [hcall]
    simp only [UiTree.ok_bind]
    cases allowed with
    | false =>
      refine ⟨best, rfl, h.skip ?_⟩
      intro hpass
      exact absurd (hallowed.mpr (hpasses.mp hpass).1) (by simp)
    | true =>
      have hpass : t.Passes x y id := by
        refine hpasses.mpr ⟨hallowed.mp rfl, by simpa using hvisible, ?_, by simpa using hin⟩
        simp only [ne_eq, Bool.not_eq_false, Bool.not_eq_true] at hhit hdisabled
        simp [UiNode.reactive, hhit, hdisabled]
      refine ⟨_, ?_, h.take hnode hpass⟩
      rw [Bool.true_and]
      split <;> rfl

/-- **The loop.** -/
theorem Best.hitNodes {t : UiTree F} (hs : t.Shape) {x y : F} {seen ids : List UiNodeId}
    {best : Option Candidate} (h : Best t x y seen best)
    (hlive : ∀ id ∈ ids, ∃ node, t.lookup id = some node) :
    ∃ best', hitNodes t x y seen.length ids best = .ok best' ∧ Best t x y (seen ++ ids) best' := by
  induction ids generalizing seen best with
  | nil => exact ⟨best, rfl, by rwa [List.append_nil]⟩
  | cons id ids ih =>
    obtain ⟨node, hnode⟩ := hlive id List.mem_cons_self
    obtain ⟨best', hcall, h'⟩ := h.hitNode hs hnode
    obtain ⟨last, hrest, hlast⟩ := ih h' fun q hq => hlive q (List.mem_cons_of_mem id hq)
    rw [List.length_append, List.length_singleton] at hrest
    rw [List.append_assoc, List.singleton_append] at hlast
    refine ⟨last, ?_, hlast⟩
    simp only [Ui.hitNodes, hcall, UiTree.ok_bind, hrest]

/-- **Hit testing** answers with the topmost of the nodes it may take. -/
theorem hitTest_top {t : UiTree F} (hs : t.Shape) (room : Room) (x y : F) {other : Room}
    {order : List UiNodeId} (horder : t.preorder other = .ok order) :
    ∃ hit, hitTest room t x y = .ok hit ∧ Top (t.Hittable room x y) t.zOf order hit := by
  have hpre := hs.preorder_ok horder
  obtain ⟨-, hwalk⟩ := UiTree.preorder_eq_ok.mp horder
  -- Without memory for the preorder nothing is hit, and nothing is `Hittable` either.
  cases hroom : room.order with
  | false =>
    refine ⟨none, ?_, fun q _ hhit => ?_⟩
    · simp [hitTest, UiTree.preorder, failIf, hroom]
    · rw [UiTree.Hittable, hroom] at hhit
      exact absurd hhit.1 (by simp)
  | true =>
    have hfound : t.preorder room = .ok order := UiTree.preorder_eq_ok.mpr ⟨hroom, hwalk⟩
    have hstart : Best t x y [] none :=
      ⟨fun q hq => absurd hq List.not_mem_nil, fun c hc => by cases hc⟩
    have hlive : ∀ id ∈ order, ∃ node, t.lookup id = some node := fun id hid => by
      obtain ⟨j, hj⟩ := (hpre.mem id).mp hid
      exact hs.live_of_climb hj
    obtain ⟨best, hcall, hbest⟩ := hstart.hitNodes hs hlive
    have hsame : t.Hittable room x y = t.Passes x y := by
      funext q
      simp [UiTree.Hittable, hroom]
    rw [hsame]
    refine ⟨best.map Candidate.node, ?_, hbest.top⟩
    rw [List.length_nil] at hcall
    simp only [hitTest, hfound, hcall]
    rfl

/-! ## What is shown -/

/-- What the user sees at a point is the last node of the preorder that is shown there. -/
theorem shownAt_top {scene : Scene F} {t : UiTree F} {order : List UiNodeId} {p : Painter F}
    (h : Walked scene t order p) {list : UiPaintList F} (hitems : list.items = p.items)
    (hclips : list.clips = p.clips) (x y : F) :
    Top (t.Shown scene.viewport x y) (fun _ => (0 : Nat)) order (list.shownAt t x y) := by
  rw [UiPaintList.shownAt, hitems, h.items]
  refine top_of_groups (List.forall₂_iff_get.mpr ⟨by rw [List.length_mapIdx], fun i hi hi' => ?_⟩)
  rw [List.get_eq_getElem, List.get_eq_getElem, List.getElem_mapIdx]
  have hid : order[i]? = some order[i] := List.getElem?_eq_getElem hi
  have hclip := h.clip_getElem? hid
  rw [← hclips] at hclip
  refine ⟨fun item hitem => (mem_itemsOf hitem).1, ?_⟩
  constructor
  · intro hex
    obtain ⟨item, hitem, htakes⟩ := hex
    obtain ⟨hnode, hsame, node, hlookup, hpaints⟩ := mem_itemsOf hitem
    rw [UiPaintList.takes, hnode, hsame, hlookup, hclip, Bool.and_eq_true] at htakes
    exact ⟨htakes.2, node, hlookup, htakes.1, hpaints⟩
  · intro hall
    obtain ⟨hin, node, hlookup, hreactive, hpaints⟩ := hall
    obtain ⟨kind, hkind⟩ := h.painted (List.mem_of_getElem? hid) hlookup hpaints
    refine ⟨nodeItem order[i] node.content node.rect (clipAt i) kind, ?_, ?_⟩
    · rw [itemsOf_eq hlookup hpaints hkind]
      exact List.mem_cons_self
    · simp [UiPaintList.takes, nodeItem, hlookup, hreactive, hclip, hin]

/-! ## Agreement -/

/-- What a condition on the two orders says of their topmost nodes. -/
theorem aligned_iff {viewport : UiRect F} {room : Room} {t : UiTree F} {x y : F}
    {order : List UiNodeId} (hnd : order.Nodup) {shown : Option UiNodeId}
    (h : Top (t.Shown viewport x y) (fun _ => (0 : Nat)) order shown) :
    Aligned viewport room t x y order ↔ Top (t.Hittable room x y) t.zOf order shown := by
  constructor
  · intro ha
    -- Nothing is shown at the point, or a last node is.
    cases shown with
    | none => exact ha.nothing h
    | some p =>
      obtain ⟨front, back, hsplit, hp, -, hback⟩ := h
      have hlast : ∀ q ∈ back, ¬ t.Shown viewport x y q := fun q hq hm =>
        absurd (hback q hq hm) (lt_irrefl _)
      obtain ⟨hhit, hfront, hback⟩ := ha.last hsplit hp hlast
      exact ⟨front, back, hsplit, hhit, hfront, hback⟩
  · intro htop
    refine ⟨fun hnone => ?_, fun {front back p} hsplit hp hlast => ?_⟩
    · have htop' : Top (t.Shown viewport x y) (fun _ => (0 : Nat)) order none := hnone
      obtain rfl := h.unique htop'
      exact htop
    · have hshown : Topmost (t.Shown viewport x y) (fun _ => (0 : Nat)) order p :=
        ⟨front, back, hsplit, hp, fun _ _ _ => le_refl _, fun q hq hm => absurd hm (hlast q hq)⟩
      obtain rfl : shown = some p := h.unique (show Top _ _ order (some p) from hshown)
      obtain ⟨front', back', hsplit', hhit, hfront, hback⟩ := htop
      rw [hsplit, List.nodup_append] at hnd
      obtain ⟨-, hcons, hdisjoint⟩ := hnd
      have hunique := (List.append_cons_inj_of_notMem (fun hp => hdisjoint p hp p (by simp) rfl)
        (List.nodup_cons.mp hcons).1).mp (hsplit.symm.trans hsplit')
      obtain ⟨rfl, -, rfl⟩ := hunique
      exact ⟨hhit, hfront, hback⟩

/-- **Where hit testing agrees with painting**, on every tree a run can leave and for every list
    built of it: exactly at the points where the two orders are aligned. -/
theorem hit_agrees_iff {room : Room} {config : TreeConfig} {t₀ : UiTree F}
    (h₀ : UiTree.tryNew room config = .ok t₀) (calls : List (TreeCall F)) {scene : Scene F}
    {list : UiPaintList F} {plan : UiUploadPlan}
    (hbuild : buildWithResources scene (runCalls t₀ calls) = .ok (list, plan)) (memory : Room)
    (x y : F) :
    ∃ order, (runCalls t₀ calls).preorder scene.room.tree = .ok order ∧
      (hitTest memory (runCalls t₀ calls) x y = .ok (list.shownAt (runCalls t₀ calls) x y) ↔
        Aligned scene.viewport memory (runCalls t₀ calls) x y order) := by
  have hs : (runCalls t₀ calls).Shape := runCalls_shape h₀ calls
  obtain ⟨order, p, horder, hpre, hwalked, hitems, hclips⟩ := build_walked hs hbuild
  obtain ⟨hit, hcall, hhit⟩ := hitTest_top hs memory x y horder
  have hshown := shownAt_top hwalked hitems hclips x y
  refine ⟨order, horder, ?_⟩
  rw [hcall, aligned_iff hpre.nodup hshown]
  constructor
  · intro hsame
    rwa [← Except.ok.inj hsame]
  · intro htop
    rw [hhit.unique htop]

/-- Two panels over each other, the first with the higher z index. -/
def overlapping : List (TreeCall Float32) :=
  [.create .ample ⟨0, 1⟩ { UiNodeContent.new .panel with zIndex := 1 },
    .create .ample ⟨0, 1⟩ (.new .panel), .setRect ⟨0, 1⟩ ⟨0, 0, 320, 200⟩,
    .setRect ⟨1, 1⟩ ⟨0, 0, 100, 100⟩, .setRect ⟨2, 1⟩ ⟨0, 0, 100, 100⟩]

/-- **Hit testing does not agree with painting**: of two panels over each other it answers with the
    one of the higher z index, and the other is drawn over it. -/
theorem hit_below_the_shown : ∃ (t₀ : UiTree Float32) (list : UiPaintList Float32)
    (plan : UiUploadPlan), UiTree.tryNew .ample ⟨4, 4, 16⟩ = .ok t₀ ∧
      (runCalls t₀ overlapping).sane = true ∧ smallScene.viewport.contains 10 10 = true ∧
      buildWithResources smallScene (runCalls t₀ overlapping) = .ok (list, plan) ∧
      list.shownAt (runCalls t₀ overlapping) 10 10 = some ⟨2, 1⟩ ∧
      hitTest .ample (runCalls t₀ overlapping) 10 10 = .ok (some ⟨1, 1⟩) := by
  obtain ⟨t₀, h₀⟩ : ∃ t₀ : UiTree Float32, UiTree.tryNew .ample ⟨4, 4, 16⟩ = .ok t₀ := ⟨_, rfl⟩
  have hrest : (runCalls t₀ overlapping).sane = true ∧
      (buildWithResources smallScene (runCalls t₀ overlapping)).toOption.any (fun built =>
        decide (built.1.shownAt (runCalls t₀ overlapping) 10 10 = some ⟨2, 1⟩)) = true ∧
      (hitTest .ample (runCalls t₀ overlapping) 10 10).toOption = some (some ⟨1, 1⟩) := by
    obtain rfl := Except.ok.inj h₀
    decide +kernel
  obtain ⟨hsane, hbuilt, hhit⟩ := hrest
  obtain ⟨⟨list, plan⟩, hbuild, hshown⟩ := ok_of_any hbuilt
  refine ⟨t₀, list, plan, h₀, hsane, by decide +kernel, hbuild, of_decide_eq_true hshown, ?_⟩
  cases h : hitTest .ample (runCalls t₀ overlapping) 10 10 with
  | error e => rw [h] at hhit; cases hhit
  | ok hit => rw [h] at hhit; rw [Option.some.inj hhit]

/-- The second panel is moved to the right by half. -/
def shifted : List (TreeCall Float32) := overlapping ++ [.setRect ⟨2, 1⟩ ⟨50, 0, 100, 100⟩]

/-- Where it is alone over the root it is shown and hit, and where both are the orders differ. -/
theorem hit_agrees_small : ∃ (t₀ : UiTree Float32) (list : UiPaintList Float32)
    (plan : UiUploadPlan), UiTree.tryNew .ample ⟨4, 4, 16⟩ = .ok t₀ ∧
      buildWithResources smallScene (runCalls t₀ shifted) = .ok (list, plan) ∧
      hitTest .ample (runCalls t₀ shifted) 120 10 = .ok (some ⟨2, 1⟩) ∧
      ∃ order, (runCalls t₀ shifted).preorder smallScene.room.tree = .ok order ∧
        Aligned smallScene.viewport .ample (runCalls t₀ shifted) 120 10 order ∧
        ¬ Aligned smallScene.viewport .ample (runCalls t₀ shifted) 60 10 order := by
  obtain ⟨t₀, h₀⟩ : ∃ t₀ : UiTree Float32, UiTree.tryNew .ample ⟨4, 4, 16⟩ = .ok t₀ := ⟨_, rfl⟩
  have hrest : (buildWithResources smallScene (runCalls t₀ shifted)).toOption.any (fun built =>
        decide (built.1.shownAt (runCalls t₀ shifted) 120 10 = some ⟨2, 1⟩ ∧
          built.1.shownAt (runCalls t₀ shifted) 60 10 = some ⟨2, 1⟩)) = true ∧
      (hitTest .ample (runCalls t₀ shifted) 120 10).toOption = some (some ⟨2, 1⟩) ∧
      (hitTest .ample (runCalls t₀ shifted) 60 10).toOption = some (some ⟨1, 1⟩) := by
    obtain rfl := Except.ok.inj h₀
    decide +kernel
  obtain ⟨hbuilt, hright, hboth⟩ := hrest
  obtain ⟨⟨list, plan⟩, hbuild, hshown⟩ := ok_of_any hbuilt
  obtain ⟨hshown, hover⟩ := of_decide_eq_true hshown
  have hok {x y : Float32} {hit : Option UiNodeId}
      (h : (hitTest .ample (runCalls t₀ shifted) x y).toOption = some hit) :
      hitTest .ample (runCalls t₀ shifted) x y = .ok hit := by
    cases hcall : hitTest .ample (runCalls t₀ shifted) x y with
    | error e => rw [hcall] at h; cases h
    | ok other => rw [hcall] at h; rw [Option.some.inj h]
  obtain ⟨order, horder, hagrees⟩ := hit_agrees_iff h₀ shifted hbuild .ample 120 10
  obtain ⟨order', horder', hdiffers⟩ := hit_agrees_iff h₀ shifted hbuild .ample 60 10
  obtain rfl := Except.ok.inj (horder.symm.trans horder')
  refine ⟨t₀, list, plan, h₀, hbuild, hok hright, order, horder, hagrees.mp ?_, ?_⟩
  · rw [hok hright, hshown]
  · intro haligned
    have hsame := hdiffers.mpr haligned
    rw [hok hboth, hover] at hsame
    exact absurd (Except.ok.inj hsame) (by decide)

end Ui
end EngineKit
