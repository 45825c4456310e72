import EngineKit.Ui.Commands

/-!
# Runs of a UI tree

A tree is only ever changed by calls (`TreeCall`), and a run is the calls made on a new tree, in
order. `Acts` is what there is to know of one call: it returns, it changes the tree in one of the
ways of `Change`, and if it fails with all its memory found it changes nothing. The laws of the
tree are read off the runs: its shape, the bound on its depth, the ids that stay dead, and the
atomicity of the calls.

`lossy` is whether memory may be missing. With it the same lemmas serve two kinds of laws: the
shape, which every run keeps, and those that hold only where no call leaves a slot set aside. A law
of the second kind asks for `false` and gets, in return, that a call that fails is the identity.

Calls are collected in one type, so that a run is a list. `apply`, which runs a whole buffer of
commands, is one call and several changes; this is why `Changes` is the closure of `Change` and not
`Change`.
-/

set_option autoImplicit false

namespace EngineKit
namespace Ui

open Lib

variable {F : Type}

/-! ## One call -/

/-- What a call on a tree of the right shape does. -/
structure Acts {α : Type} (lossy : Bool) (t : UiTree F) (call : Except Failure α × UiTree F) :
    Prop where
  returns : UiTree.Returns call.1
  change : t.Change lossy call.2
  refuses {e : Failure} : lossy = false → call.1 = .error e → call.2 = t

namespace Acts

variable {α : Type} {lossy : Bool} {t : UiTree F}

/-- A call that refuses changes nothing. -/
theorem refused (e : UiError) : Acts lossy t ((.error (.err e), t) : Except Failure α × _) :=
  ⟨by simp [UiTree.Returns], .kept (.refl t), fun _ _ => rfl⟩

/-- And one that succeeds has nothing to refuse. -/
theorem succeeds {t' : UiTree F} (a : α) (h : t.Change lossy t') :
    Acts lossy t ((.ok a, t') : Except Failure α × _) :=
  ⟨by simp [UiTree.Returns], h, fun _ he => by cases he⟩

/-- Its value does not matter. -/
theorem forget {call : Except Failure α × UiTree F} (h : Acts lossy t call) :
    Acts lossy t (andThen call fun _ t => (.ok (), t)) := by
  obtain ⟨result, t'⟩ := call
  cases result with
  | ok a => exact succeeds () h.change
  | error e =>
    have hreturns : e ≠ .noReturn := fun he => h.returns (congrArg Except.error he)
    exact ⟨fun he => hreturns (Except.error.inj he), h.change, fun hl _ => h.refuses hl rfl⟩

/-- A write that keeps the link of its node is no change of the tree. -/
theorem nodeMut (t : UiTree F) (id : UiNodeId) {f : UiNode F → UiNode F}
    (hf : ∀ node, (f node).id = node.id ∧ (f node).link = node.link) :
    Acts lossy t (t.nodeMut id f) := by
  have hkept := UiTree.Kept.nodeMut t id hf
  rcases t.nodeMut_cases id f with ⟨-, hcall⟩ | ⟨node, -, hcall⟩ <;> rw [hcall] at hkept ⊢
  · exact refused _
  · exact succeeds _ (.kept hkept)

theorem contentMut (t : UiTree F) (id : UiNodeId) (f : UiNodeContent F → UiNodeContent F) :
    Acts lossy t (t.contentMut id f) :=
  nodeMut t id fun _ => ⟨rfl, rfl⟩

/-- The three calls that do change it, from their cases. -/
theorem reparent (h : t.Shape) (room : Room) (id newParent : UiNodeId) :
    Acts lossy t (t.reparent room id newParent) := by
  rcases h.reparent_cases room id newParent with ⟨-, e, hcall⟩ |
    ⟨oldParent, t', -, hchecks, hcall, hframe, hlinks⟩ <;> rw [hcall]
  · exact refused e
  · exact succeeds () (.moved hchecks hframe hlinks)

theorem destroy (h : t.Shape) (room : Room) (id : UiNodeId) :
    Acts lossy t (t.destroy room id) := by
  rcases h.destroy_cases room id with ⟨e, hcall⟩ | ⟨order, t', hne, hcall, hdestroyed⟩ <;>
    rw [hcall]
  · exact refused e
  · exact succeeds () (.destroyed hne hdestroyed)

variable [Coord F]

theorem setRect (t : UiTree F) (id : UiNodeId) (rect : UiRect F) :
    Acts lossy t (t.setRect id rect) := by
  unfold UiTree.setRect
  split
  · exact refused _
  · exact nodeMut t id fun _ => ⟨rfl, rfl⟩

/-- The content is checked before the node is looked up. -/
theorem setContent (h : t.Shape) (id : UiNodeId) (content : UiNodeContent F) :
    Acts lossy t (t.setContent id content) := by
  unfold UiTree.setContent
  cases t.checkContent content with
  | error e => exact refused e
  | ok _ =>
    have hkept := UiTree.Kept.nodeMut t id (f := fun node => { node with content })
      fun _ => ⟨rfl, rfl⟩
    rcases t.nodeMut_cases id fun node => { node with content } with
      ⟨-, hcall⟩ | ⟨node, hnode, hcall⟩ <;> rw [hcall] at hkept ⊢
    · exact refused _
    · -- the write leaves the links, so marking ends
      obtain ⟨d, hlt, hd⟩ := h.depth_lt hnode
      have hd' : Climb (parentOf (t.setNode { node with content }).links) id
          (t.setNode { node with content }).root d := by
        rw [hkept.links, hkept.root]
        exact hd
      have hok := (hkept.shape h).markAncestorsDirty hd' (hlt.trans_eq hkept.slots.symm)
      have hmark := UiTree.Kept.markAncestorsDirty (t.setNode { node with content }).slots.length id
        (t.setNode { node with content })
      refine ⟨?_, .kept (hkept.trans hmark), fun _ he => ?_⟩
      · simp only [andThen]
        rw [hok]
        simp [UiTree.Returns]
      · simp only [andThen] at he
        rw [hok] at he
        cases he

theorem create (h : t.Shape) {room : Room} (hroom : lossy = false → room = .ample)
    (parent : UiNodeId) (content : UiNodeContent F) :
    Acts lossy t (t.create room parent content) := by
  rcases h.create_cases room parent content with ⟨e, hcall⟩ | ⟨id, t', hne, hcall, hreserved⟩ |
    ⟨id, u, t', hchecks, hcall, hcreated⟩ <;> rw [hcall]
  · exact refused e
  · cases hlossy : lossy with
    | false => exact absurd (hroom hlossy) hne
    | true =>
      refine ⟨by simp [UiTree.Returns], .reserved rfl hreserved, fun hfalse => by cases hfalse⟩
  · obtain ⟨-, hcount, d, hd, hdepth⟩ := h.createChecks_iff.mp hchecks
    exact succeeds id (.created hd hdepth hcount hcreated)

/-- **A command** is the call it stands for. -/
theorem command (h : t.Shape) {room : Room} (hroom : lossy = false → room = .ample)
    (command : UiCommand F) : Acts lossy t (command.run room t) := by
  -- Five of the commands write one content, and the others are calls of their own.
  cases command with
  | create parent content =>
    exact (create h hroom parent content).forget
  | destroy node => exact destroy h room node
  | reparent node parent => exact reparent h room node parent
  | setStyle node style =>
    change Acts lossy t (if style.sane then t.contentMut node _ else (.error _, t))
    split
    · exact contentMut t node _
    · exact refused _
  | setText node text =>
    change Acts lossy t (if text.byteLen ≤ t.config.maxTextBytes then t.contentMut node _
      else (.error _, t))
    split
    · exact contentMut t node _
    · exact refused _
  | setVisible node visible => exact contentMut t node fun content => { content with visible }
  | setZIndex node zIndex => exact contentMut t node fun content => { content with zIndex }
  | setAccessibility node accessibility =>
    exact contentMut t node fun content => { content with accessibility }

end Acts

/-- A call that may find no memory. -/
theorem UiCommand.run_shape [Coord F] {t : UiTree F} (h : t.Shape) (room : Room)
    (command : UiCommand F) : (command.run room t).2.Shape := by
  have hacts : Acts true t (command.run room t) :=
    .command h (fun hl => absurd hl (by simp)) command
  exact hacts.change.shape h

/-! ## Runs -/

/-- A call on a tree, with what it finds of memory. `contentMut` is any write through
    `content_mut`; `command` is one arm of `apply`. -/
inductive TreeCall (F : Type) where
  | create (room : Room) (parent : UiNodeId) (content : UiNodeContent F)
  | reparent (room : Room) (id newParent : UiNodeId)
  | destroy (room : Room) (id : UiNodeId)
  | setContent (id : UiNodeId) (content : UiNodeContent F)
  | setRect (id : UiNodeId) (rect : UiRect F)
  | contentMut (id : UiNodeId) (f : UiNodeContent F → UiNodeContent F)
  | command (room : Room) (command : UiCommand F)
  | apply (room : Nat → Room) (buffer : UiCommandBuffer F)

/-- Every reservation of the call finds memory. -/
def TreeCall.Ample : TreeCall F → Prop
  | .create room _ _ | .reparent room _ _ | .destroy room _ => room = .ample
  | .command room _ => room = .ample
  | .apply room _ => ∀ i, room i = .ample
  | .setContent _ _ | .setRect _ _ | .contentMut _ _ => True

section Run

variable [Coord F]

def TreeCall.run (t : UiTree F) : TreeCall F → Except Failure Unit × UiTree F
  | .create room parent content => andThen (t.create room parent content) fun _ t => (.ok (), t)
  | .reparent room id newParent => t.reparent room id newParent
  | .destroy room id => t.destroy room id
  | .setContent id content => t.setContent id content
  | .setRect id rect => t.setRect id rect
  | .contentMut id f => t.contentMut id f
  | .command room cmd => cmd.run room t
  | .apply room buffer =>
    let (applied, t, _) := buffer.apply room t
    (applied.map fun _ => (), t)

/-- The tree after a call. -/
def TreeCall.next (t : UiTree F) (call : TreeCall F) : UiTree F := (call.run t).2

/-- The tree after the calls of a run. -/
def runCalls (t : UiTree F) (calls : List (TreeCall F)) : UiTree F := calls.foldl TreeCall.next t

/-- Some changes of a tree, one after another. -/
abbrev Changes (lossy : Bool) : UiTree F → UiTree F → Prop :=
  Relation.ReflTransGen (UiTree.Change lossy)

omit [Coord F] in
/-- Every change keeps the shape. -/
theorem Changes.shape {lossy : Bool} {t t' : UiTree F} (h : Changes lossy t t') (hs : t.Shape) :
    t'.Shape := by
  induction h with
  | refl => exact hs
  | tail _ hstep ih => exact hstep.shape ih

/-- **A buffer** always comes back with a number. -/
theorem applyCommands_changes {lossy : Bool} (commands : List (UiCommand F)) {room : Nat → Room}
    (hroom : lossy = false → ∀ i, room i = .ample) {t : UiTree F} (h : t.Shape) (applied : Nat) :
    (∃ n, (applyCommands commands room applied t).1 = .ok n) ∧
      Changes lossy t (applyCommands commands room applied t).2 := by
  -- On the commands: one that fails is skipped, and the rest run on the tree it found.
  induction commands generalizing room t applied with
  | nil => exact ⟨⟨applied, rfl⟩, .refl⟩
  | cons command commands ih =>
    have hacts := Acts.command h (fun hl => hroom hl 0) command
    have hnext (applied : Nat) := ih (fun hl i => hroom hl (i + 1)) (hacts.change.shape h) applied
    have hreturns := hacts.returns
    unfold applyCommands
    rcases hcall : command.run (room 0) t with ⟨_ | _, t'⟩ <;> rw [hcall] at hacts hnext hreturns
    · next e =>
      cases e with
      | noReturn => exact absurd rfl hreturns
      | err e =>
        obtain ⟨hok, hchanges⟩ := hnext applied
        exact ⟨hok, .head hacts.change hchanges⟩
    · obtain ⟨hok, hchanges⟩ := hnext (usizeSaturatingAdd applied 1)
      exact ⟨hok, .head hacts.change hchanges⟩

/-- **One call of a run**: it returns, it changes the tree in the ways of `Change`, and if it fails
    with its memory found it does not change it. -/
theorem TreeCall.changes (lossy : Bool) {t : UiTree F} (h : t.Shape) {call : TreeCall F}
    (hroom : lossy = false → call.Ample) :
    UiTree.Returns (call.run t).1 ∧ Changes lossy t (call.next t) ∧
      ∀ e, lossy = false → (call.run t).1 = .error e → call.next t = t := by
  have hacts {α : Type} {r : Except Failure α × UiTree F} (h : Acts lossy t r) :
      UiTree.Returns r.1 ∧ Changes lossy t r.2 ∧
        ∀ e, lossy = false → r.1 = .error e → r.2 = t :=
    ⟨h.returns, .single h.change, fun _ => h.refuses⟩
  cases call with
  | create room parent content => exact hacts (Acts.create h hroom parent content).forget
  | reparent room id newParent => exact hacts (.reparent h room id newParent)
  | destroy room id => exact hacts (.destroy h room id)
  | setContent id content => exact hacts (.setContent h id content)
  | setRect id rect => exact hacts (.setRect t id rect)
  | contentMut id f => exact hacts (.contentMut t id f)
  | command room cmd => exact hacts (.command h hroom cmd)
  | apply room buffer =>
    obtain ⟨⟨n, hn⟩, hchanges⟩ := applyCommands_changes buffer.commands hroom h 0
    have hok : ((TreeCall.apply room buffer).run t).1 = .ok () := by
      change (applyCommands buffer.commands room 0 t).1.map (fun _ => ()) = _
      rw [hn]
      rfl
    refine ⟨by simp [UiTree.Returns, hok], hchanges, ?_⟩
    intro e _ he
    rw [hok] at he
    cases he

/-- **A run** is changes of the tree. -/
theorem runCalls_changes (lossy : Bool) {t : UiTree F} (h : t.Shape) {calls : List (TreeCall F)}
    (hroom : lossy = false → ∀ call ∈ calls, call.Ample) : Changes lossy t (runCalls t calls) := by
  induction calls generalizing t with
  | nil => exact .refl
  | cons call calls ih =>
    have hcall := (TreeCall.changes lossy h fun hl => hroom hl call List.mem_cons_self).2.1
    exact hcall.trans (ih (hcall.shape h) fun hl c hc => hroom hl c (List.mem_cons_of_mem _ hc))

/-- A new tree is its root. -/
theorem tryNew_shape {room : Room} {config : TreeConfig} {t : UiTree F}
    (h : UiTree.tryNew room config = .ok t) :
    t.Shape ∧ t.Tight ∧ 0 < t.config.maxDepth ∧ ∀ id, t.up id = none := by
  simp only [UiTree.tryNew, bind_eq_ok, failIf_eq_ok, Except.ok.injEq] at h
  obtain ⟨_, hconfig, _, _, _, _, rfl⟩ := h
  have hlinks : UiTree.links (F := F) ⟨[some ⟨⟨0, 1⟩, none, [], .new .root, .zero, true⟩], [1], [],
      ⟨0, 1⟩, 1, config⟩ = fun id => if id = ⟨0, 1⟩ then some ⟨none, []⟩ else none := by
    funext id
    by_cases hid : id = ⟨0, 1⟩
    · rw [if_pos hid, hid]
      rfl
    · rw [if_neg hid]
      refine Option.map_eq_none_iff.mpr (Option.eq_none_iff_forall_not_mem.mpr fun node hnode => ?_)
      obtain ⟨hslot, hname⟩ := UiTree.lookup_eq_some.mp hnode
      have hmem := List.mem_singleton.mp (List.mem_of_getElem? hslot)
      rw [Option.some.inj hmem] at hname
      exact hid hname.symm
  refine ⟨⟨⟨rfl, by simp, ?_, rfl, List.nodup_nil, List.forall_mem_nil _⟩, ?_, ?_⟩, ?_,
    Nat.pos_of_ne_zero fun hdepth => hconfig (.inr hdepth), fun id => ?_⟩
  · intro i node hi
    cases i with
    | zero =>
      obtain rfl := Option.some.inj (Option.some.inj hi)
      exact ⟨rfl, rfl⟩
    | succ i => exact absurd hi (by simp)
  · rw [hlinks]
    exact .single _
  · change 1 ≤ config.maxNodes
    omega
  · intro i hi
    exact absurd (List.mem_of_getElem? hi) (by simp)
  · rw [UiTree.up_eq, hlinks]
    by_cases hid : id = ⟨0, 1⟩ <;> simp [parentOf, hid]

/-- A run leaves the shape, whatever memory it finds. -/
theorem runCalls_shape {room : Room} {config : TreeConfig} {t₀ : UiTree F}
    (h₀ : UiTree.tryNew room config = .ok t₀) (calls : List (TreeCall F)) :
    (runCalls t₀ calls).Shape := by
  have hshape₀ := (tryNew_shape h₀).1
  exact (runCalls_changes true hshape₀ fun hl => absurd hl (by simp)).shape hshape₀

end Run

end Ui
end EngineKit
