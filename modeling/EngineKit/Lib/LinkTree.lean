import Mathlib.Data.List.Perm.Subperm
import Mathlib.Data.List.Nodup

/-!
# Trees kept as links

A tree whose nodes are found by a key and name each other: every node has its parent's key and the
keys of its children, in order. `links` is the tree as a partial map, and `IsTree` is what makes
it a tree: the two directions agree, and climbing from any node comes to the root.

`Climb parent k a d` says that `d` steps up from `k` lead to `a`, so it is the ancestor relation
with its distance; a depth is the distance to the root. Three changes keep a tree: a new leaf, a
subtree that moves below a node outside it, and a subtree that is cut away. The walk in preorder
(`walk`) takes fuel, and as much of it as there are nodes is enough (`IsTree.walk_spec`).

Every law about such a tree goes by climbing and none by going down: a climb is a list of parents
and so an induction, and parents are single. The children are there for the walk alone. That the two
directions agree (`child`, `listed`) is what a change has to keep, and a change is described by its
effect on `parentOf` first; what the children become follows from the three writes
(`moveBelow_of_writes`).
-/

set_option autoImplicit false

namespace EngineKit
namespace Lib

variable {K : Type}

structure Link (K : Type) where
  parent : Option K
  children : List K

def parentOf (links : K → Option (Link K)) (k : K) : Option K := (links k).bind Link.parent

/-- Who has a parent is in the tree. -/
theorem parentOf_eq_some {links : K → Option (Link K)} {k p : K} :
    parentOf links k = some p ↔ ∃ l, links k = some l ∧ l.parent = some p :=
  Option.bind_eq_some_iff

/-! ## Climbing -/

/-- `d` steps up from the first key lead to the second. -/
inductive Climb (parent : K → Option K) : K → K → Nat → Prop where
  | here (k : K) : Climb parent k k 0
  | up {k p a : K} {d : Nat} (step : parent k = some p) (rest : Climb parent p a d) :
      Climb parent k a (d + 1)

section Climb

variable {parent parent' : K → Option K} {k p a b root : K} {d e : Nat}

theorem Climb.of_eq (h : k = a) : Climb parent k a 0 := h ▸ .here k

/-- Climbs go on one behind the other. -/
theorem Climb.trans (h : Climb parent k a d) (h' : Climb parent a b e) :
    Climb parent k b (d + e) := by
  induction h with
  | here k => rwa [Nat.zero_add]
  | up step _ ih =>
    rw [Nat.add_right_comm]
    exact .up step (ih h')

/-- A climb to a child goes on to its parent. -/
theorem Climb.snoc (h : Climb parent k a d) (hp : parent a = some p) :
    Climb parent k p (d + 1) :=
  h.trans (.up hp (.here p))

/-- From what has no parent, nothing is above. -/
theorem Climb.eq_of_top (h : Climb parent k a d) (htop : parent k = none) : a = k := by
  cases h with
  | here => rfl
  | up step _ => exact absurd (htop.symm.trans step) (by simp)

/-- **The way up is one**: the nearer of two ancestors is below the other. -/
theorem Climb.split (h : Climb parent k a d) (h' : Climb parent k b e) (hle : d ≤ e) :
    Climb parent a b (e - d) := by
  induction h generalizing e with
  | here k => exact h'
  | up step _ ih =>
    cases h' with
    | here => exact absurd hle (by omega)
    | up step' rest' =>
      obtain rfl := Option.some.inj (step.symm.trans step')
      rw [Nat.add_sub_add_right]
      exact ih rest' (by omega)

/-- So many steps up lead to one key. -/
theorem Climb.eq_of_same (h : Climb parent k a d) (h' : Climb parent k b d) : a = b := by
  have hclimb := h.split h' (Nat.le_refl d)
  rw [Nat.sub_self] at hclimb
  cases hclimb with
  | here => rfl

/-- A depth is one number. -/
theorem Climb.depth_unique (h : Climb parent k root d) (h' : Climb parent k root e)
    (htop : parent root = none) : d = e := by
  induction h generalizing e with
  | here k =>
    cases h' with
    | here => rfl
    | up step _ => exact absurd (htop.symm.trans step) (by simp)
  | up step _ ih =>
    cases h' with
    | here => exact absurd (htop.symm.trans step) (by simp)
    | up step' rest' =>
      obtain rfl := Option.some.inj (step.symm.trans step')
      rw [ih rest' htop]

/-- A climb through keys whose parents are as before is still one. `P` is what the keys on the
    way have in common. -/
theorem Climb.transfer {P : K → Prop} (h : Climb parent k a d) (hk : P k)
    (hP : ∀ x y, P x → parent x = some y → parent' x = some y ∧ P y) :
    Climb parent' k a d := by
  induction h with
  | here k => exact .here k
  | up step _ ih =>
    obtain ⟨hstep, hp⟩ := hP _ _ hk step
    exact .up hstep (ih hp)

/-- Where two parent maps agree on every key on the way, the climbs are the same. -/
theorem Climb.congr {P : K → Prop} (hk : P k)
    (hP : ∀ x, P x → parent' x = parent x ∧ ∀ y, parent x = some y → P y) :
    Climb parent' k a d ↔ Climb parent k a d := by
  constructor
  · intro h
    refine h.transfer hk ?_
    intro x y hx hxy
    rw [(hP x hx).1] at hxy
    exact ⟨hxy, (hP x hx).2 y hxy⟩
  · intro h
    refine h.transfer hk ?_
    intro x y hx hxy
    exact ⟨(hP x hx).1.trans hxy, (hP x hx).2 y hxy⟩

/-- The keys on the way to the root, each at its own depth. -/
theorem Climb.way (h : Climb parent k root d) (htop : parent root = none) :
    ∃ way : List K, way.length = d + 1 ∧ way.Nodup ∧
      ∀ x ∈ way, ∃ j ≤ d, Climb parent x root j := by
  induction h with
  | here k =>
    refine ⟨[k], rfl, List.nodup_singleton k, ?_⟩
    intro x hx
    rw [List.mem_singleton.mp hx]
    exact ⟨0, Nat.le_refl 0, .here k⟩
  | @up k p a d step rest ih =>
    obtain ⟨way, hlen, hnd, hway⟩ := ih htop
    refine ⟨k :: way, by rw [List.length_cons, hlen], List.nodup_cons.mpr ⟨?_, hnd⟩, ?_⟩
    · intro hmem
      obtain ⟨j, hj, hclimb⟩ := hway k hmem
      have := hclimb.depth_unique (.up step rest) htop
      omega
    · intro x hx
      cases List.mem_cons.mp hx with
      | inl hhead => exact hhead ▸ ⟨d + 1, Nat.le_refl _, .up step rest⟩
      | inr htail =>
        obtain ⟨j, hj, hclimb⟩ := hway x htail
        exact ⟨j, by omega, hclimb⟩

/-- No climb is as long as there are keys. -/
theorem Climb.lt_length {keys : List K} (h : Climb parent k root d) (htop : parent root = none)
    (hkeys : ∀ x j, Climb parent x root j → x ∈ keys) : d < keys.length := by
  obtain ⟨way, hlen, hnd, hway⟩ := h.way htop
  have hsub : way ⊆ keys := by
    intro x hx
    obtain ⟨j, -, hclimb⟩ := hway x hx
    exact hkeys x j hclimb
  have := (hnd.subperm hsub).length_le
  omega

end Climb

/-! ## Trees -/

structure IsTree (root : K) (links : K → Option (Link K)) : Prop where
  top : ∃ l, links root = some l ∧ l.parent = none
  child {k c : K} {l : Link K} : links k = some l → c ∈ l.children → parentOf links c = some k
  listed {k p : K} : parentOf links k = some p → ∃ l, links p = some l ∧ k ∈ l.children
  nodup {k : K} {l : Link K} : links k = some l → l.children.Nodup
  rooted {k : K} {l : Link K} : links k = some l → ∃ d, Climb (parentOf links) k root d

namespace IsTree

variable {root : K} {links : K → Option (Link K)}

/-- The root has none above it. -/
theorem root_parent (h : IsTree root links) : parentOf links root = none := by
  obtain ⟨l, hl, hparent⟩ := h.top
  rw [parentOf, hl]
  exact hparent

/-- Who has a parent is a node. -/
theorem live_of_parent {k p : K} (h : parentOf links k = some p) : ∃ l, links k = some l := by
  obtain ⟨l, hl, -⟩ := parentOf_eq_some.mp h
  exact ⟨l, hl⟩

/-- What climbs to the root is in the tree. -/
theorem live_of_rooted (h : IsTree root links) {k : K} {d : Nat}
    (hc : Climb (parentOf links) k root d) : ∃ l, links k = some l := by
  cases hc with
  | here =>
    obtain ⟨l, hl, -⟩ := h.top
    exact ⟨l, hl⟩
  | up step _ => exact live_of_parent step

/-- No node is above itself. -/
theorem acyclic (h : IsTree root links) {k : K} {l : Link K} {j : Nat} (hk : links k = some l)
    (hc : Climb (parentOf links) k k j) : j = 0 := by
  obtain ⟨d, hd⟩ := h.rooted hk
  have := (hc.trans hd).depth_unique hd h.root_parent
  omega

theorem root_not_below (h : IsTree root links) {k : K} (hk : k ≠ root) (j : Nat) :
    ¬ Climb (parentOf links) root k j := fun hc => hk (hc.eq_of_top h.root_parent)

end IsTree

/-! ## The walk -/

/-- The keys of a subtree, each before those below it. -/
def walk (links : K → Option (Link K)) : Nat → K → Option (List K)
  | 0, _ => none
  | fuel + 1, k => do
    let l ← links k
    let below ← l.children.mapM (walk links fuel)
    some (k :: below.flatten)

/-- Every key of the list comes after its parent, which is in the list or has been seen. -/
def ParentsFirst (parent : K → Option K) : List K → List K → Prop
  | _, [] => True
  | seen, k :: ks => (∃ p ∈ seen, parent k = some p) ∧ ParentsFirst parent (k :: seen) ks

section ParentsFirst

variable {parent : K → Option K}

theorem ParentsFirst.mono {seen seen' ks : List K} (h : ParentsFirst parent seen ks)
    (hsub : seen ⊆ seen') : ParentsFirst parent seen' ks := by
  induction ks generalizing seen seen' with
  | nil => trivial
  | cons k ks ih =>
    obtain ⟨⟨p, hp, hparent⟩, hrest⟩ := h
    exact ⟨⟨p, hsub hp, hparent⟩, ih hrest (List.cons_subset_cons k hsub)⟩

theorem ParentsFirst.append {seen ks ms : List K} (h : ParentsFirst parent seen ks)
    (h' : ParentsFirst parent seen ms) : ParentsFirst parent seen (ks ++ ms) := by
  induction ks generalizing seen with
  | nil => exact h'
  | cons k ks ih =>
    exact ⟨h.1, ih h.2 (h'.mono (List.subset_cons_self k seen))⟩

/-- Read off at any place of the list. -/
theorem ParentsFirst.parent_mem {seen front back : List K} {k : K}
    (h : ParentsFirst parent seen (front ++ k :: back)) :
    ∃ p, parent k = some p ∧ (p ∈ seen ∨ p ∈ front) := by
  induction front generalizing seen with
  | nil =>
    obtain ⟨⟨p, hp, hparent⟩, -⟩ := h
    exact ⟨p, hparent, .inl hp⟩
  | cons x front ih =>
    obtain ⟨p, hparent, hp⟩ := ih h.2
    refine ⟨p, hparent, ?_⟩
    cases hp with
    | inl hseen =>
      cases List.mem_cons.mp hseen with
      | inl hx => exact .inr (hx ▸ List.mem_cons_self)
      | inr hseen => exact .inl hseen
    | inr hfront => exact .inr (List.mem_cons_of_mem x hfront)

end ParentsFirst

/-- **A subtree in preorder**: its root, then everything below it, once each and after its
    parent. -/
structure Preorder (links : K → Option (Link K)) (k : K) (order : List K) : Prop where
  head : ∃ rest, order = k :: rest ∧ ParentsFirst (parentOf links) [k] rest
  nodup : order.Nodup
  mem (x : K) : x ∈ order ↔ ∃ j, Climb (parentOf links) x k j

/-- A partial map over a list has a value where each of its keys has one. -/
theorem exists_mapM {α β : Type} {f : α → Option β} {R : α → β → Prop} {xs : List α}
    (h : ∀ x ∈ xs, ∃ y, f x = some y ∧ R x y) :
    ∃ ys, xs.mapM f = some ys ∧ List.Forall₂ R xs ys := by
  induction xs with
  | nil => exact ⟨[], rfl, .nil⟩
  | cons x xs ih =>
    obtain ⟨y, hy, hR⟩ := h x List.mem_cons_self
    obtain ⟨ys, hys, hall⟩ := ih fun x hx => h x (List.mem_cons_of_mem _ hx)
    exact ⟨y :: ys, by rw [List.mapM_cons, hy, hys]; rfl, .cons hR hall⟩

namespace IsTree

variable {root : K} {links : K → Option (Link K)}

/-- Subtrees of two children of one node share nothing. -/
theorem eq_of_siblings (h : IsTree root links) {k c c' x : K} {i j : Nat}
    (hc : parentOf links c = some k) (hc' : parentOf links c' = some k)
    (hx : Climb (parentOf links) x c i) (hx' : Climb (parentOf links) x c' j) : c = c' := by
  obtain ⟨l, hl, -⟩ := h.listed hc
  obtain ⟨e, he⟩ := h.rooted hl
  have hsame := ((hx.snoc hc).trans he).depth_unique ((hx'.snoc hc').trans he) h.root_parent
  obtain rfl : i = j := by omega
  exact hx.eq_of_same hx'

/-- The walks of some children of a node, one after another. -/
theorem below_spec (h : IsTree root links) {k : K} {cs : List K} {orders : List (List K)}
    (hcs : ∀ c ∈ cs, parentOf links c = some k) (hnd : cs.Nodup)
    (horders : List.Forall₂ (Preorder links) cs orders) :
    orders.flatten.Nodup ∧
      (∀ x, x ∈ orders.flatten ↔ ∃ c ∈ cs, ∃ j, Climb (parentOf links) x c j) ∧
      ParentsFirst (parentOf links) [k] orders.flatten := by
  -- On the children: what is below the first is not below another.
  induction horders with
  | nil => exact ⟨List.nodup_nil, fun x => by simp, trivial⟩
  | @cons c order cs orders hc _ ih =>
    have hparent := hcs c List.mem_cons_self
    obtain ⟨hnot, hnd⟩ := List.nodup_cons.mp hnd
    have hrest (c' : K) (hc' : c' ∈ cs) := hcs c' (List.mem_cons_of_mem _ hc')
    obtain ⟨hnodup, hmem, hfirst⟩ := ih hrest hnd
    rw [List.flatten_cons]
    refine ⟨List.nodup_append.mpr ⟨hc.nodup, hnodup, ?_⟩, ?_, ?_⟩
    · intro x hx y hy heq
      subst heq
      obtain ⟨i, hi⟩ := (hc.mem x).mp hx
      obtain ⟨c', hc', j, hj⟩ := (hmem x).mp hy
      rw [h.eq_of_siblings hparent (hrest c' hc') hi hj] at hnot
      exact hnot hc'
    · intro x
      rw [List.mem_append, hc.mem, hmem, List.exists_mem_cons_iff]
    · obtain ⟨rest, rfl, hbelow⟩ := hc.head
      refine ParentsFirst.append ⟨⟨k, List.mem_singleton_self k, hparent⟩, ?_⟩ hfirst
      exact hbelow.mono (by simp)

/-- What is below a node is the node, or below one of its children. -/
theorem climb_iff (h : IsTree root links) {k x : K} {l : Link K} (hk : links k = some l) :
    (∃ j, Climb (parentOf links) x k j) ↔
      x = k ∨ ∃ c ∈ l.children, ∃ j, Climb (parentOf links) x c j := by
  constructor
  · intro hbelow
    obtain ⟨j, hj⟩ := hbelow
    -- On the climb: its last step comes through a child.
    induction hj with
    | here => exact .inl rfl
    | @up x p a j step rest ih =>
      refine .inr ?_
      cases ih hk with
      | inl heq =>
        obtain ⟨l', hl', hmem⟩ := h.listed step
        rw [heq, hk] at hl'
        obtain rfl := Option.some.inj hl'
        exact ⟨x, hmem, 0, .here x⟩
      | inr hbelow =>
        obtain ⟨c, hc, j, hj⟩ := hbelow
        exact ⟨c, hc, j + 1, .up step hj⟩
  · intro hbelow
    rcases hbelow with rfl | ⟨c, hc, j, hj⟩
    · exact ⟨0, .here x⟩
    · exact ⟨j + 1, hj.snoc (h.child hk hc)⟩

/-- **The walk is the preorder**, given fuel for as many levels as there are keys below. -/
theorem walk_spec (h : IsTree root links) {keys : List K}
    (hkeys : ∀ x l, links x = some l → x ∈ keys) {k : K} {d fuel : Nat}
    (hd : Climb (parentOf links) k root d) (hfuel : keys.length ≤ fuel + d) :
    ∃ order, walk links fuel k = some order ∧ Preorder links k order := by
  have hlt := hd.lt_length h.root_parent fun x j hx => by
    obtain ⟨l, hl⟩ := h.live_of_rooted hx
    exact hkeys x l hl
  -- On the fuel; each level below has one less to climb, and one more above.
  induction fuel generalizing k d with
  | zero => omega
  | succ fuel ih =>
    obtain ⟨l, hl⟩ := h.live_of_rooted hd
    have hchild (c : K) (hc : c ∈ l.children) :
        ∃ order, walk links fuel c = some order ∧ Preorder links c order := by
      have hclimb : Climb (parentOf links) c root (d + 1) := .up (h.child hl hc) hd
      refine ih hclimb (by omega) (hclimb.lt_length h.root_parent fun x j hx => ?_)
      obtain ⟨m, hm⟩ := h.live_of_rooted hx
      exact hkeys x m hm
    obtain ⟨orders, hwalk, horders⟩ := exists_mapM hchild
    obtain ⟨hnodup, hmem, hfirst⟩ :=
      h.below_spec (fun c hc => h.child hl hc) (h.nodup hl) horders
    have hin (x : K) :
        x ∈ k :: orders.flatten ↔ ∃ j, Climb (parentOf links) x k j := by
      rw [List.mem_cons, hmem, h.climb_iff hl]
    refine ⟨k :: orders.flatten, ?_, ⟨_, rfl, hfirst⟩, List.nodup_cons.mpr ⟨?_, hnodup⟩, hin⟩
    · simp only [walk, hl, hwalk, Option.bind_eq_bind, Option.bind_some]
    · -- a node below its own child would be above itself
      intro hself
      obtain ⟨c, hc, j, hj⟩ := (hmem k).mp hself
      exact absurd (h.acyclic hl (hj.snoc (h.child hl hc))) (by omega)

end IsTree

/-! ## Earlier siblings -/

/-- `front` has the parent of a key and the parent's children before it. -/
def Follows (links : K → Option (Link K)) (front : List K) (k : K) : Prop :=
  ∃ p l before after, links p = some l ∧ l.children = before ++ k :: after ∧ p :: before ⊆ front

/-- Every key of the list comes after its parent and its earlier siblings, which are in the list or
    have been seen. -/
def SiblingsFirst (links : K → Option (Link K)) : List K → List K → Prop
  | _, [] => True
  | seen, k :: ks => Follows links seen k ∧ SiblingsFirst links (seen ++ [k]) ks

section SiblingsFirst

variable {links : K → Option (Link K)}

/-- Two lists, the second with the first seen. -/
theorem SiblingsFirst.append {seen ks ms : List K} (h : SiblingsFirst links seen ks)
    (h' : SiblingsFirst links (seen ++ ks) ms) : SiblingsFirst links seen (ks ++ ms) := by
  induction ks generalizing seen with
  | nil => rwa [List.append_nil] at h'
  | cons k ks ih =>
    refine ⟨h.1, ih h.2 ?_⟩
    rwa [List.append_assoc]

/-- The walks of the children of `p`, from some child on. -/
theorem siblingsFirst_below {p : K} {l : Link K} {walkOf : K → Option (List K)}
    (hp : links p = some l)
    (hwalk : ∀ c ks, walkOf c = some ks →
      ∃ rest, ks = c :: rest ∧ ∀ seen, c ∈ seen → SiblingsFirst links seen rest)
    (done : List K) {cs seen : List K} {orders : List (List K)} (hcs : l.children = done ++ cs)
    (horders : List.Forall₂ (fun c ks => walkOf c = some ks) cs orders)
    (hseen : p :: done ⊆ seen) : SiblingsFirst links seen orders.flatten := by
  -- On the children that are left; those before are done.
  induction horders generalizing done seen with
  | nil => trivial
  | @cons c ks cs orders hc _ ih =>
    obtain ⟨rest, rfl, hrest⟩ := hwalk c ks hc
    have hhead : Follows links seen c := ⟨p, l, done, cs, hp, hcs, hseen⟩
    have hinner : SiblingsFirst links (seen ++ [c]) rest := hrest _ (by simp)
    refine SiblingsFirst.append ⟨hhead, hinner⟩ (ih (done ++ [c]) ?_ ?_)
    · rw [hcs, List.append_assoc]
      rfl
    · intro y hy
      rw [← List.cons_append] at hy
      rcases List.mem_append.mp hy with hy | hy
      · exact List.mem_append_left _ (hseen hy)
      · rw [List.mem_singleton.mp hy]
        exact List.mem_append_right seen List.mem_cons_self

theorem forall₂_of_mapM {α β : Type} {f : α → Option β} {xs : List α} {ys : List β}
    (h : xs.mapM f = some ys) : List.Forall₂ (fun x y => f x = some y) xs ys := by
  induction xs generalizing ys with
  | nil =>
    obtain rfl := Option.some.inj h
    exact .nil
  | cons x xs ih =>
    simp only [List.mapM_cons, Option.pure_def, Option.bind_eq_bind, Option.bind_eq_some_iff,
      Option.some.injEq] at h
    obtain ⟨y, hy, rest, hrest, rfl⟩ := h
    exact .cons hy (ih hrest)

/-- **A walk lists earlier siblings first**, and the parent before them. -/
theorem walk_siblingsFirst {fuel : Nat} {k : K} {order : List K}
    (h : walk links fuel k = some order) :
    ∃ rest, order = k :: rest ∧ ∀ seen, k ∈ seen → SiblingsFirst links seen rest := by
  induction fuel generalizing k order with
  | zero => cases h
  | succ fuel ih =>
    simp only [walk, Option.bind_eq_bind, Option.bind_eq_some_iff, Option.some.injEq] at h
    obtain ⟨l, hl, orders, horders, rfl⟩ := h
    refine ⟨orders.flatten, rfl, ?_⟩
    intro seen hseen
    refine siblingsFirst_below hl (fun c ks => ih) [] rfl (forall₂_of_mapM horders) ?_
    exact List.cons_subset.mpr ⟨hseen, List.nil_subset seen⟩

end SiblingsFirst

/-! ## A new leaf -/

section Change

variable [DecidableEq K]

def insertLeaf (new p : K) (links : K → Option (Link K)) (k : K) : Option (Link K) :=
  if k = new then some ⟨some p, []⟩
  else (links k).map fun l => if k = p then ⟨l.parent, l.children ++ [new]⟩ else l

/-- The subtree of `k` below `p`, at the end of its children. -/
def moveBelow (k p : K) (links : K → Option (Link K)) (x : K) : Option (Link K) :=
  (links x).map fun l =>
    ⟨if x = k then some p else l.parent,
      l.children.filter (· ≠ k) ++ if x = p then [k] else []⟩

/-- Without the keys of `gone`, the subtree of `k`. -/
def cutAway (k : K) (gone : List K) (links : K → Option (Link K)) (x : K) : Option (Link K) :=
  if x ∈ gone then none
  else (links x).map fun l => ⟨l.parent, l.children.filter (· ≠ k)⟩

variable {root : K} {links : K → Option (Link K)}

/-- The parents after a new leaf. -/
theorem parentOf_insertLeaf {new p : K} (x : K) :
    parentOf (insertLeaf new p links) x = if x = new then some p else parentOf links x := by
  unfold parentOf insertLeaf
  split
  · rfl
  · cases links x with
    | none => rfl
    | some l =>
      simp only [Option.map_some, Option.bind_some]
      split <;> rfl

/-- What a new leaf makes of the link of another node. -/
theorem insertLeaf_of_ne {new p k : K} {m : Link K} (hk : links k = some m) (hne : k ≠ new) :
    insertLeaf new p links k = some ⟨m.parent, m.children ++ if k = p then [new] else []⟩ := by
  rw [insertLeaf, if_neg hne, hk, Option.map_some]
  split
  · rfl
  · rw [List.append_nil]

theorem exists_of_insertLeaf {new p k : K} {m' : Link K}
    (hk : insertLeaf new p links k = some m') (hne : k ≠ new) :
    ∃ m, links k = some m ∧ m' = ⟨m.parent, m.children ++ if k = p then [new] else []⟩ := by
  have hk' := hk
  rw [insertLeaf, if_neg hne] at hk'
  obtain ⟨m, hm, -⟩ := Option.map_eq_some_iff.mp hk'
  exact ⟨m, hm, Option.some.inj (hk.symm.trans (insertLeaf_of_ne hm hne))⟩

/-- The parents after a move. -/
theorem parentOf_moveBelow {k p x : K} {l : Link K} (hx : links x = some l) :
    parentOf (moveBelow k p links) x = if x = k then some p else parentOf links x := by
  simp only [parentOf, moveBelow, hx, Option.map_some, Option.bind_some]

theorem parentOf_moveBelow_of_ne {k p x : K} (hx : x ≠ k) :
    parentOf (moveBelow k p links) x = parentOf links x := by
  cases h : links x with
  | none => simp only [parentOf, moveBelow, h, Option.map_none]
  | some l => rw [parentOf_moveBelow h, if_neg hx]

/-- The parents after a cut. -/
theorem parentOf_cutAway {k x : K} {gone : List K} :
    parentOf (cutAway k gone links) x = if x ∈ gone then none else parentOf links x := by
  unfold parentOf cutAway
  split
  · rfl
  · cases links x <;> rfl

namespace IsTree

/-- A root alone. -/
theorem single (root : K) :
    IsTree root fun k => if k = root then some (⟨none, []⟩ : Link K) else none := by
  have hparent (k : K) :
      parentOf (fun k => if k = root then some (⟨none, []⟩ : Link K) else none) k = none := by
    by_cases hk : k = root <;> simp [parentOf, hk]
  constructor
  · exact ⟨⟨none, []⟩, if_pos rfl, rfl⟩
  · intro k c l hk hc
    split at hk
    · rw [← Option.some.inj hk] at hc
      cases hc
    · cases hk
  · intro k p hp
    rw [hparent] at hp
    cases hp
  · intro k l hk
    split at hk
    · rw [← Option.some.inj hk]
      exact List.nodup_nil
    · cases hk
  · intro k l hk
    split at hk
    · next heq => exact ⟨0, heq ▸ .here k⟩
    · cases hk

/-- Every step up is one still when a new leaf is there. -/
theorem parentOf_insertLeaf_of_some {new p x y : K} (hnew : links new = none)
    (hxy : parentOf links x = some y) : parentOf (Lib.insertLeaf new p links) x = some y := by
  rw [parentOf_insertLeaf, if_neg, hxy]
  intro heq
  obtain ⟨m, hm⟩ := live_of_parent hxy
  rw [heq, hnew] at hm
  cases hm

/-- A new leaf is on nobody's way. -/
theorem climb_insertLeaf {new p x a : K} {d : Nat} (hnew : links new = none)
    (hc : Climb (parentOf links) x a d) :
    Climb (parentOf (Lib.insertLeaf new p links)) x a d :=
  hc.transfer (P := fun _ => True) trivial fun _ _ _ hxy =>
    ⟨parentOf_insertLeaf_of_some hnew hxy, trivial⟩

/-- **A new leaf** keeps the tree. -/
theorem insertLeaf (h : IsTree root links) {new p : K} {l : Link K} (hp : links p = some l)
    (hnew : links new = none) : IsTree root (insertLeaf new p links) := by
  have hne {k : K} {m : Link K} (hk : links k = some m) : k ≠ new := by
    intro heq
    rw [heq, hnew] at hk
    cases hk
  have hleaf : Lib.insertLeaf new p links new = some ⟨some p, []⟩ := if_pos rfl
  constructor
  · obtain ⟨m, hm, hnone⟩ := h.top
    exact ⟨_, insertLeaf_of_ne hm (hne hm), hnone⟩
  · intro k c m' hk hc
    -- The new leaf has no children, and no other node's parent changes.
    by_cases hkn : k = new
    · rw [hkn, hleaf] at hk
      obtain rfl := Option.some.inj hk
      cases hc
    · obtain ⟨m, hm, rfl⟩ := exists_of_insertLeaf hk hkn
      cases List.mem_append.mp hc with
      | inl hc => exact parentOf_insertLeaf_of_some hnew (h.child hm hc)
      | inr hc =>
        split at hc
        · next heq =>
          obtain rfl := List.mem_singleton.mp hc
          rw [parentOf_insertLeaf, if_pos rfl, heq]
        · cases hc
  · intro k q hq
    rw [parentOf_insertLeaf] at hq
    split at hq
    · next heq =>
      obtain rfl := Option.some.inj hq
      exact ⟨_, insertLeaf_of_ne hp (hne hp), by simp [heq]⟩
    · obtain ⟨m, hm, hk⟩ := h.listed hq
      exact ⟨_, insertLeaf_of_ne hm (hne hm), List.mem_append_left _ hk⟩
  · intro k m' hk
    by_cases hkn : k = new
    · rw [hkn, hleaf] at hk
      obtain rfl := Option.some.inj hk
      exact List.nodup_nil
    · obtain ⟨m, hm, rfl⟩ := exists_of_insertLeaf hk hkn
      refine List.nodup_append.mpr ⟨h.nodup hm, by split <;> simp, ?_⟩
      intro x hx y hy heq
      split at hy
      · obtain ⟨m₀, hm₀⟩ := live_of_parent (h.child hm hx)
        exact hne hm₀ (heq.trans (List.mem_singleton.mp hy))
      · cases hy
  · intro k m' hk
    by_cases hkn : k = new
    · obtain ⟨d, hd⟩ := h.rooted hp
      exact ⟨d + 1, .up (by rw [parentOf_insertLeaf, if_pos hkn]) (climb_insertLeaf hnew hd)⟩
    · obtain ⟨m, hm, -⟩ := exists_of_insertLeaf hk hkn
      obtain ⟨d, hd⟩ := h.rooted hm
      exact ⟨d, climb_insertLeaf hnew hd⟩

/-- The way from below a node up to it survives a move of that node. -/
theorem climb_moved (h : IsTree root links) {k p x : K} {l : Link K} {j : Nat}
    (hk : links k = some l) (hc : Climb (parentOf links) x k j) :
    Climb (parentOf (moveBelow k p links)) x k j := by
  induction hc with
  | here => exact .here _
  | @up x y k j step rest ih =>
    have hne : x ≠ k := by
      intro heq
      subst heq
      exact absurd (h.acyclic hk (.up step rest)) (by omega)
    obtain ⟨m, hm⟩ := live_of_parent step
    exact .up (by rw [parentOf_moveBelow hm, if_neg hne, step]) (ih hk)

omit [DecidableEq K] in
/-- Above what is outside a subtree all is outside. -/
theorem outside_up {k x y : K} (hx : ∀ j, ¬ Climb (parentOf links) x k j)
    (hstep : parentOf links x = some y) (j : Nat) : ¬ Climb (parentOf links) y k j :=
  fun hc => hx (j + 1) (.up hstep hc)

omit [DecidableEq K] in
/-- The top of a subtree is not outside of it. -/
theorem ne_of_outside {k x : K} (hx : ∀ j, ¬ Climb (parentOf links) x k j) : x ≠ k := by
  intro heq
  exact hx 0 (heq ▸ .here x)

/-- And so does every way outside the moved subtree. -/
theorem climb_outside {k p x a : K} {d : Nat} (hx : ∀ j, ¬ Climb (parentOf links) x k j)
    (hc : Climb (parentOf links) x a d) : Climb (parentOf (moveBelow k p links)) x a d := by
  refine hc.transfer (P := fun y => ∀ j, ¬ Climb (parentOf links) y k j) hx ?_
  intro y z hy hyz
  refine ⟨?_, outside_up hy hyz⟩
  rw [parentOf_moveBelow_of_ne (ne_of_outside hy), hyz]

/-- A subtree is moved by three writes: to the children of its parent, to those of the new one, and
    to its own parent. -/
theorem moveBelow_of_writes (h : IsTree root links) {k o p : K}
    (hparent : parentOf links k = some o) (hne : p ≠ k) (x : K) :
    (((links x).map fun l => if x = o then ⟨l.parent, l.children.filter (· ≠ k)⟩ else l).map
        fun l => if x = p then ⟨l.parent, l.children ++ [k]⟩ else l).map
        (fun l => if x = k then ⟨some p, l.children⟩ else l) =
      Lib.moveBelow k p links x := by
  rw [Lib.moveBelow]
  cases hx : links x with
  | none => rfl
  | some m =>
    -- only its parent lists the key
    have hfirst : (if x = o then (⟨m.parent, m.children.filter (· ≠ k)⟩ : Link K) else m) =
        ⟨m.parent, m.children.filter (· ≠ k)⟩ := by
      split
      · rfl
      · next hxo =>
        have hfilter : m.children.filter (· ≠ k) = m.children := by
          refine List.filter_eq_self.mpr fun c hc => decide_eq_true ?_
          intro heq
          subst heq
          exact hxo (Option.some.inj ((h.child hx hc).symm.trans hparent))
        rw [hfilter]
    simp only [Option.map_some, hfirst]
    by_cases hxp : x = p
    · have hxk : x ≠ k := fun hxk => hne (hxp.symm.trans hxk)
      simp only [if_pos hxp, if_neg hxk]
    · by_cases hxk : x = k
      · simp only [if_neg hxp, if_pos hxk, List.append_nil]
      · simp only [if_neg hxp, if_neg hxk, List.append_nil]

/-- **A subtree that moves** below a node outside it keeps the tree. -/
theorem moveBelow (h : IsTree root links) {k p : K} {l m : Link K} (hne : k ≠ root)
    (hk : links k = some l) (hp : links p = some m)
    (hout : ∀ j, ¬ Climb (parentOf links) p k j) : IsTree root (moveBelow k p links) := by
  have hup : parentOf (Lib.moveBelow k p links) k = some p := by
    rw [parentOf_moveBelow hk, if_pos rfl]
  have hkeep {x y : K} (hx : x ≠ k) (hxy : parentOf links x = some y) :
      parentOf (Lib.moveBelow k p links) x = some y := by
    obtain ⟨m, hm⟩ := live_of_parent hxy
    rw [parentOf_moveBelow hm, if_neg hx, hxy]
  constructor
  · obtain ⟨m, hm, hnone⟩ := h.top
    refine ⟨_, by rw [Lib.moveBelow, hm]; rfl, ?_⟩
    exact (if_neg (Ne.symm hne)).trans hnone
  · intro x c m' hx hc
    obtain ⟨m, hm, rfl⟩ := Option.map_eq_some_iff.mp hx
    cases List.mem_append.mp hc with
    | inl hc =>
      obtain ⟨hc, hck⟩ := List.mem_filter.mp hc
      exact hkeep (of_decide_eq_true hck) (h.child hm hc)
    | inr hc =>
      split at hc
      · next heq =>
        rw [List.mem_singleton.mp hc, hup, heq]
      · cases hc
  · intro x q hq
    by_cases hxk : x = k
    · rw [hxk, hup] at hq
      obtain rfl := Option.some.inj hq
      exact ⟨_, by rw [Lib.moveBelow, hp]; rfl, by simp [hxk]⟩
    · obtain ⟨m', hm'⟩ := live_of_parent hq
      obtain ⟨m, hm, -⟩ := Option.map_eq_some_iff.mp hm'
      rw [parentOf_moveBelow hm, if_neg hxk] at hq
      obtain ⟨n, hn, hmem⟩ := h.listed hq
      refine ⟨_, by rw [Lib.moveBelow, hn]; rfl, ?_⟩
      exact List.mem_append_left _ (List.mem_filter.mpr ⟨hmem, decide_eq_true hxk⟩)
  · intro x m' hx
    obtain ⟨m, hm, rfl⟩ := Option.map_eq_some_iff.mp hx
    refine List.nodup_append.mpr ⟨(h.nodup hm).filter _, by split <;> simp, ?_⟩
    intro y hy z hz heq
    have hyk := of_decide_eq_true (List.mem_filter.mp hy).2
    split at hz
    · exact hyk (heq.trans (List.mem_singleton.mp hz))
    · cases hz
  · intro x m' hx
    obtain ⟨m, hm, -⟩ := Option.map_eq_some_iff.mp hx
    by_cases hbelow : ∃ j, Climb (parentOf links) x k j
    · obtain ⟨j, hj⟩ := hbelow
      obtain ⟨d, hd⟩ := h.rooted hp
      exact ⟨_, (h.climb_moved hk hj).trans (.up hup (climb_outside hout hd))⟩
    · obtain ⟨d, hd⟩ := h.rooted hm
      exact ⟨d, climb_outside (fun j hj => hbelow ⟨j, hj⟩) hd⟩

/-- What is not cut away has all its way up. -/
theorem climb_cut {k x a : K} {gone : List K} {d : Nat}
    (hgone : ∀ y, y ∈ gone ↔ ∃ j, Climb (parentOf links) y k j) (hx : x ∉ gone)
    (hc : Climb (parentOf links) x a d) : Climb (parentOf (cutAway k gone links)) x a d := by
  refine hc.transfer (P := fun y => y ∉ gone) hx ?_
  intro y z hy hyz
  refine ⟨by rw [parentOf_cutAway, if_neg hy, hyz], ?_⟩
  intro hz
  obtain ⟨j, hj⟩ := (hgone z).mp hz
  exact hy ((hgone y).mpr ⟨j + 1, .up hyz hj⟩)

/-- **A subtree that is cut away** leaves a tree. -/
theorem cutAway (h : IsTree root links) {k : K} {gone : List K} (hne : k ≠ root)
    (hgone : ∀ y, y ∈ gone ↔ ∃ j, Climb (parentOf links) y k j) :
    IsTree root (cutAway k gone links) := by
  have hroot : root ∉ gone := by
    intro hmem
    obtain ⟨j, hj⟩ := (hgone root).mp hmem
    exact h.root_not_below hne j hj
  have hlink {x : K} {m' : Link K} (hx : Lib.cutAway k gone links x = some m') :
      x ∉ gone ∧ ∃ m, links x = some m ∧ m' = ⟨m.parent, m.children.filter (· ≠ k)⟩ := by
    unfold Lib.cutAway at hx
    split at hx
    · cases hx
    · next hx' =>
      obtain ⟨m, hm, rfl⟩ := Option.map_eq_some_iff.mp hx
      exact ⟨hx', m, hm, rfl⟩
  constructor
  · obtain ⟨m, hm, hnone⟩ := h.top
    refine ⟨⟨m.parent, m.children.filter (· ≠ k)⟩, ?_, hnone⟩
    rw [Lib.cutAway, if_neg hroot, hm]
    rfl
  · intro x c m' hx hc
    obtain ⟨hx', m, hm, rfl⟩ := hlink hx
    obtain ⟨hc, hck⟩ := List.mem_filter.mp hc
    have hparent := h.child hm hc
    have hc' : c ∉ gone := by
      intro hmem
      obtain ⟨j, hj⟩ := (hgone c).mp hmem
      cases hj with
      | here => exact of_decide_eq_true hck rfl
      | up step rest =>
        obtain rfl := Option.some.inj (step.symm.trans hparent)
        exact hx' ((hgone _).mpr ⟨_, rest⟩)
    rw [parentOf_cutAway, if_neg hc', hparent]
  · intro x q hq
    rw [parentOf_cutAway] at hq
    split at hq
    · cases hq
    · next hx =>
      obtain ⟨m, hm, hmem⟩ := h.listed hq
      have hq' : q ∉ gone := by
        intro hin
        obtain ⟨j, hj⟩ := (hgone q).mp hin
        exact hx ((hgone x).mpr ⟨j + 1, .up hq hj⟩)
      have hxk : x ≠ k := by
        intro heq
        exact hx ((hgone x).mpr ⟨0, heq ▸ .here x⟩)
      refine ⟨_, by rw [Lib.cutAway, if_neg hq', hm]; rfl, ?_⟩
      exact List.mem_filter.mpr ⟨hmem, decide_eq_true hxk⟩
  · intro x m' hx
    obtain ⟨-, m, hm, rfl⟩ := hlink hx
    exact (h.nodup hm).filter _
  · intro x m' hx
    obtain ⟨hx', m, hm, -⟩ := hlink hx
    obtain ⟨d, hd⟩ := h.rooted hm
    exact ⟨d, climb_cut hgone hx' hd⟩

end IsTree

end Change

end Lib
end EngineKit
