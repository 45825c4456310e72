import EngineKit.Ui.Input
import EngineKit.Ui.TreeLaws

/-!
# Focus and capture

`UiFocusCapture` remembers two nodes by their ids: the one that has the focus, and the one that was
pressed and has every event until the button is let go. The tree changes between two events without
telling it, so every `route` first forgets what is gone (`clearStale`). An id that is gone does not
come back, since its slot moves on to a later generation; so what is forgotten was destroyed, and
what is still there was there all the time (`FocusLaw`).

The focus may be out of date at any time but right after an event, so the invariant over a run does
not say that its node is there: it is there, or was destroyed and its slot is on to a later
generation (`FocusState.Sound`). That is enough, since the next event forgets it before it uses it.
Whether the slot has a new owner makes no difference, as the owner has another id.
-/

set_option autoImplicit false

namespace EngineKit
namespace Ui

open Lib

variable {F : Type}

/-! ## The code -/

inductive UiInputEvent where
  | pointerMove (x y : Int32)
  | pointerButton (button : UInt8) (pressed : Bool) (x y : Int32)
  | key (key : UInt32) (pressed : Bool)
  | textByte (byte : UInt8)
deriving DecidableEq

namespace UiInputEvent

/-- Where the pointer is, for a pointer event. -/
def pointer : UiInputEvent → Option (Int32 × Int32)
  | .pointerMove x y | .pointerButton _ _ x y => some (x, y)
  | .key _ _ | .textByte _ => none

def presses : UiInputEvent → Bool
  | .pointerButton _ pressed _ _ => pressed
  | _ => false

def releases : UiInputEvent → Bool
  | .pointerButton _ pressed _ _ => !pressed
  | _ => false

end UiInputEvent

structure UiInputResult where
  target : Option UiNodeId
  focused : Option UiNodeId
  consumed : Bool
deriving DecidableEq

structure UiFocusCapture where
  focused : Option UiNodeId
  captured : Option UiNodeId
deriving DecidableEq

/-- The cast `x as f32`: the sign is put before the rounded value. -/
def ofInt32 [Coord F] (x : Int32) : F :=
  if x.toInt < 0 then Scalar.zero - Coord.ofNat (-x.toInt).toNat else Coord.ofNat x.toInt.toNat

/-- A node that takes the focus when it is pressed. -/
def UiTree.focusable (t : UiTree F) (id : UiNodeId) : Bool :=
  match t.content id with
  | .ok content => content.interaction.focusable
  | .error _ => false

namespace UiFocusCapture

/-- `UiFocusCapture::default`. -/
def initial : UiFocusCapture := ⟨none, none⟩

def clearStale (s : UiFocusCapture) (t : UiTree F) : UiFocusCapture where
  focused := if s.focused.any fun id => !t.contains id then none else s.focused
  captured := if s.captured.any fun id => !t.contains id then none else s.captured

/-- What an event goes to. -/
def targetOf [Coord F] (room : Room) (s : UiFocusCapture) (t : UiTree F) (event : UiInputEvent) :
    Except Failure (Option UiNodeId) :=
  match s.captured with
  | some id => .ok (some id)
  | none =>
    match event.pointer with
    | some (x, y) => hitTest room t (ofInt32 x) (ofInt32 y)
    | none => .ok none

/-- What is remembered behind an event. -/
def remember (s : UiFocusCapture) (t : UiTree F) (event : UiInputEvent)
    (target : Option UiNodeId) : UiFocusCapture :=
  let s := if event.presses && target.isSome then
      { captured := target, focused := target.filter t.focusable }
    else s
  if event.releases then { s with captured := none } else s

def route [Coord F] (room : Room) (s : UiFocusCapture) (t : UiTree F) (event : UiInputEvent) :
    Except Failure (UiInputResult × UiFocusCapture) := do
  let s := s.clearStale t
  let target ← s.targetOf room t event
  let s := s.remember t event target
  .ok (⟨target, s.focused, target.isSome || s.focused.isSome⟩, s)

end UiFocusCapture

/-! ## Runs -/

/-- A tree, and what is remembered of it. -/
structure FocusState (F : Type) where
  tree : UiTree F
  focus : UiFocusCapture

/-- What happens next: a call on the tree, `clear_stale`, or an event. -/
inductive FocusStep (F : Type) where
  | mutate (call : TreeCall F)
  | clearStale
  | route (room : Room) (event : UiInputEvent)

/-- The step is an event that lets a button go. -/
def FocusStep.releases : FocusStep F → Bool
  | .route _ event => event.releases
  | _ => false

namespace FocusState

variable [Coord F]

def next (s : FocusState F) : FocusStep F → FocusState F
  | .mutate call => { s with tree := call.next s.tree }
  | .clearStale => { s with focus := s.focus.clearStale s.tree }
  | .route room event =>
    match s.focus.route room s.tree event with
    | .ok (_, focus) => { s with focus }
    | .error _ => s

def run (s : FocusState F) (steps : List (FocusStep F)) : FocusState F := steps.foldl next s

end FocusState

/-- **Focus and capture**, in a state of a run. Every event is answered, with ids of nodes that are
    there. A press captures its target: as long as that is there, every event gets it, up to the
    next release. The focus goes to the target of a press, if that is focusable, and else it is
    lost; and it is lost when its node has been destroyed. -/
structure FocusLaw [Coord F] (s : FocusState F) : Prop where
  live (room : Room) (event : UiInputEvent) : ∃ result focus,
    s.focus.route room s.tree event = .ok (result, focus) ∧
      (∀ id, result.target = some id → s.tree.contains id = true) ∧
        ∀ id, result.focused = some id → s.tree.contains id = true
  captured {room : Room} {event : UiInputEvent} {result : UiInputResult} {focus : UiFocusCapture}
    {n : UiNodeId} (press : event.presses = true)
    (routed : s.focus.route room s.tree event = .ok (result, focus))
    (target : result.target = some n) (between : List (FocusStep F))
    (held : ∀ step ∈ between, step.releases = false)
    (there : (s.run (.route room event :: between)).tree.contains n = true) (room' : Room)
    (event' : UiInputEvent) : ∃ result' focus',
      (s.run (.route room event :: between)).focus.route room'
          (s.run (.route room event :: between)).tree event' = .ok (result', focus') ∧
        result'.target = some n
  focus (step : FocusStep F) : (s.next step).focus.focused ≠ s.focus.focused →
    (∃ room event result n, step = .route room event ∧ event.presses = true ∧
        s.focus.route room s.tree event = .ok (result, (s.next step).focus) ∧
        result.target = some n ∧
        (s.next step).focus.focused = if s.tree.focusable n then some n else none) ∨
      ∃ id, s.focus.focused = some id ∧ s.tree.Aged id ∧ (s.next step).focus.focused = none

/-! ## What is remembered -/

section Remember

variable {t : UiTree F}

theorem clear_eq_filter (remembered : Option UiNodeId) (t : UiTree F) :
    (if remembered.any fun id => !t.contains id then none else remembered) =
      remembered.filter t.contains := by
  cases remembered with
  | none => rfl
  | some id => cases hid : t.contains id <;> simp [Option.filter_some, hid]

theorem clearStale_eq (s : UiFocusCapture) (t : UiTree F) :
    s.clearStale t = ⟨s.focused.filter t.contains, s.captured.filter t.contains⟩ := by
  unfold UiFocusCapture.clearStale
  rw [clear_eq_filter, clear_eq_filter]

theorem contains_of_filter {remembered : Option UiNodeId} {id : UiNodeId}
    (h : remembered.filter t.contains = some id) : t.contains id = true :=
  (Option.filter_eq_some_iff.mp h).2

theorem not_releases_of_presses {event : UiInputEvent} (h : event.presses = true) :
    event.releases = false := by
  cases event with
  | pointerButton button pressed x y =>
    obtain rfl : pressed = true := h
    rfl
  | pointerMove x y => rfl
  | key key pressed => rfl
  | textByte byte => rfl

theorem remember_press {s : UiFocusCapture} {event : UiInputEvent} (h : event.presses = true)
    (n : UiNodeId) :
    s.remember t event (some n) = ⟨if t.focusable n then some n else none, some n⟩ := by
  unfold UiFocusCapture.remember
  simp only [h, not_releases_of_presses h, Option.isSome_some, Bool.and_self, if_true,
    Bool.false_eq_true, if_false, Option.filter_some]

/-- Without a press of a target the focus stays. -/
theorem remember_focused {s : UiFocusCapture} {event : UiInputEvent} {target : Option UiNodeId}
    (h : (event.presses && target.isSome) = false) :
    (s.remember t event target).focused = s.focused := by
  unfold UiFocusCapture.remember
  rw [h]
  cases event.releases <;> rfl

/-- Without a release a node that is captured stays so, as the target of its event. -/
theorem remember_captured {s : UiFocusCapture} {event : UiInputEvent} {n : UiNodeId}
    (hcaptured : s.captured = some n) (h : event.releases = false) :
    (s.remember t event (some n)).captured = some n := by
  unfold UiFocusCapture.remember
  rw [h]
  cases event.presses with
  | true => rfl
  | false => exact hcaptured

end Remember

/-! ## One event -/

section Event

variable [Coord F] {t : UiTree F}

/-- What is hit is there. -/
theorem hitTest_live (hs : t.Shape) (room : Room) (x y : F) :
    ∃ hit, hitTest room t x y = .ok hit ∧ ∀ id, hit = some id → t.contains id = true := by
  obtain ⟨root, hroot⟩ : ∃ node, t.lookup t.root = some node := by
    obtain ⟨l, hl, -⟩ := hs.tree.top
    exact UiTree.live_iff.mp ⟨l, hl⟩
  obtain ⟨order, hwalk, hpre⟩ := hs.collectSubtree hroot
  have horder : t.preorder .ample = .ok order := UiTree.preorder_eq_ok.mpr ⟨rfl, hwalk⟩
  obtain ⟨hit, hcall, htop⟩ := hitTest_top hs room x y horder
  refine ⟨hit, hcall, ?_⟩
  intro id hid
  rw [hid] at htop
  obtain ⟨j, hj⟩ := (hpre.mem id).mp (Topmost.mem htop)
  exact hs.validSlot_iff.mpr (hs.live_of_climb hj)

/-- **One event** is answered, and its target is there. -/
theorem route_spec (hs : t.Shape) (room : Room) (s : UiFocusCapture) (event : UiInputEvent) :
    ∃ target, (∀ id, target = some id → t.contains id = true) ∧
      (∀ n, s.captured = some n → t.contains n = true → target = some n) ∧
      s.route room t event = .ok (⟨target, ((s.clearStale t).remember t event target).focused,
        target.isSome || ((s.clearStale t).remember t event target).focused.isSome⟩,
        (s.clearStale t).remember t event target) := by
  have hcaptured : (s.clearStale t).captured = s.captured.filter t.contains := by
    rw [clearStale_eq]
  unfold UiFocusCapture.route
  -- A capture whose node is there has the event; else what is under the pointer, or the focus.
  cases hfilter : s.captured.filter t.contains with
  | some id =>
    rw [hfilter] at hcaptured
    refine ⟨some id, fun id' hid => ?_, fun n hn hlive => ?_, ?_⟩
    · obtain rfl := Option.some.inj hid
      exact contains_of_filter hfilter
    · rw [hn, Option.filter_some, if_pos hlive] at hfilter
      exact hfilter.symm
    · simp only [UiFocusCapture.targetOf, hcaptured, UiTree.ok_bind]
  | none =>
    rw [hfilter] at hcaptured
    have hnone (n : UiNodeId) (hn : s.captured = some n) (hlive : t.contains n = true) : False := by
      rw [hn, Option.filter_some, if_pos hlive] at hfilter
      cases hfilter
    cases hpointer : event.pointer with
    | none =>
      refine ⟨none, fun id hid => (by cases hid), fun n hn hlive => (hnone n hn hlive).elim, ?_⟩
      simp only [UiFocusCapture.targetOf, hcaptured, hpointer, UiTree.ok_bind]
    | some point =>
      obtain ⟨hit, hcall, hlive⟩ := hitTest_live hs room (ofInt32 point.1) (ofInt32 point.2)
      refine ⟨hit, hlive, fun n hn hlive => (hnone n hn hlive).elim, ?_⟩
      simp only [UiFocusCapture.targetOf, hcaptured, hpointer, hcall, UiTree.ok_bind]

end Event

/-! ## Runs -/

section Run

variable [Coord F]

/-- What holds of every state of a run: the focused node is there, or was destroyed. -/
structure FocusState.Sound (s : FocusState F) : Prop where
  shape : s.tree.Shape
  known (id : UiNodeId) : s.focus.focused = some id →
    (∃ node, s.tree.lookup id = some node) ∨ s.tree.Aged id

/-- A step changes the tree by a call or not at all. -/
theorem FocusState.next_changes {s : FocusState F} (h : s.tree.Shape) (step : FocusStep F) :
    Changes true s.tree (s.next step).tree := by
  cases step with
  | mutate call => exact (TreeCall.changes true h fun hl => absurd hl (by simp)).2.1
  | clearStale => exact .refl
  | route room event =>
    cases hcall : s.focus.route room s.tree event with
    | error e =>
      simp only [FocusState.next, hcall]
      exact .refl
    | ok answer =>
      simp only [FocusState.next, hcall]
      exact .refl

/-- And so does a run. -/
theorem FocusState.run_changes {s : FocusState F} (h : s.tree.Shape) (steps : List (FocusStep F)) :
    Changes true s.tree (s.run steps).tree := by
  induction steps generalizing s with
  | nil => exact .refl
  | cons step steps ih =>
    have hstep := FocusState.next_changes h step
    exact hstep.trans (ih (hstep.shape h))

theorem FocusState.next_route {s : FocusState F} {room : Room} {event : UiInputEvent}
    {result : UiInputResult} {focus : UiFocusCapture}
    (h : s.focus.route room s.tree event = .ok (result, focus)) :
    s.next (.route room event) = { s with focus } := by
  simp only [FocusState.next, h]

/-- **What one step does to the focus**: it stays, a press takes it, or it is forgotten. -/
theorem FocusState.next_focused {s : FocusState F} (h : s.Sound) (step : FocusStep F) :
    (s.next step).focus.focused = s.focus.focused ∨
      (∃ room event result n, step = .route room event ∧ event.presses = true ∧
        s.focus.route room s.tree event = .ok (result, (s.next step).focus) ∧
        result.target = some n ∧ s.tree.contains n = true ∧
        (s.next step).focus.focused = if s.tree.focusable n then some n else none) ∨
      ∃ id, s.focus.focused = some id ∧ s.tree.Aged id ∧ (s.next step).focus.focused = none := by
  -- what is forgotten is no longer there, so its slot has moved on
  have hforget : s.focus.focused.filter s.tree.contains = s.focus.focused ∨
      ∃ id, s.focus.focused = some id ∧ s.tree.Aged id ∧
        s.focus.focused.filter s.tree.contains = none := by
    cases hfocused : s.focus.focused with
    | none => exact .inl rfl
    | some id =>
      rw [Option.filter_some]
      rcases h.known id hfocused with hlive | haged
      · have hthere : s.tree.contains id = true := h.shape.validSlot_iff.mpr hlive
        rw [if_pos hthere]
        exact .inl rfl
      · have hdead : s.tree.contains id = false := h.shape.validSlot_dead (haged.lookup h.shape)
        rw [if_neg (by simp [hdead])]
        exact .inr ⟨id, rfl, haged, rfl⟩
  -- A call on the tree does not touch the focus.
  cases step with
  | mutate call => exact .inl rfl
  | clearStale =>
    have hnext : (s.next .clearStale).focus.focused = s.focus.focused.filter s.tree.contains := by
      simp only [FocusState.next, clearStale_eq]
    rw [hnext]
    exact hforget.imp_right .inr
  | route room event =>
    obtain ⟨target, hlive, -, hroute⟩ := route_spec h.shape room s.focus event
    have hnext := FocusState.next_route hroute
    rw [hnext]
    cases hpress : event.presses && target.isSome with
    | true =>
      obtain ⟨hpressed, hsome⟩ := Bool.and_eq_true_iff.mp hpress
      obtain ⟨n, rfl⟩ := Option.isSome_iff_exists.mp hsome
      refine .inr (.inl ⟨room, event, _, n, rfl, hpressed, hroute, rfl, hlive n rfl, ?_⟩)
      rw [remember_press hpressed]
    | false =>
      rw [remember_focused hpress, clearStale_eq]
      exact hforget.imp_right .inr

/-- **Any step** keeps the focus sound. -/
theorem FocusState.Sound.next {s : FocusState F} (h : s.Sound) (step : FocusStep F) :
    (s.next step).Sound := by
  have hchanges := FocusState.next_changes h.shape step
  have hshape := hchanges.shape h.shape
  refine ⟨hshape, ?_⟩
  intro id hid
  have hkeep (hlive : (∃ node, s.tree.lookup id = some node) ∨ s.tree.Aged id) :
      (∃ node, (s.next step).tree.lookup id = some node) ∨ (s.next step).tree.Aged id := by
    rcases hlive with hlive | haged
    · exact hchanges.live_or_aged hlive
    · exact .inr (hchanges.aged haged)
  rcases FocusState.next_focused h step with
    hsame | ⟨_, _, _, n, -, -, -, -, hlive, hfocused⟩ | ⟨_, -, -, hnone⟩
  · rw [hsame] at hid
    exact hkeep (h.known id hid)
  · rw [hfocused] at hid
    split at hid
    · obtain rfl := Option.some.inj hid
      exact hkeep (.inl (h.shape.validSlot_iff.mp hlive))
    · cases hid
  · rw [hnone] at hid
    cases hid

theorem FocusState.Sound.run {s : FocusState F} (h : s.Sound) (steps : List (FocusStep F)) :
    (s.run steps).Sound := by
  induction steps generalizing s with
  | nil => exact h
  | cons step steps ih => exact ih (h.next step)

/-- An id that is there at the end of a run was there in the middle of it. -/
theorem FocusState.contains_of_run {s : FocusState F} (h : s.tree.Shape) {n : UiNodeId}
    (hknown : (∃ node, s.tree.lookup n = some node) ∨ s.tree.Aged n) (steps : List (FocusStep F))
    (hthere : (s.run steps).tree.contains n = true) : s.tree.contains n = true := by
  rcases hknown with hlive | haged
  · exact h.validSlot_iff.mpr hlive
  · have hchanges := FocusState.run_changes h steps
    have hshape := hchanges.shape h
    have hdead := hshape.validSlot_dead ((hchanges.aged haged).lookup hshape)
    rw [UiTree.contains, hdead] at hthere
    cases hthere

/-- **A capture is kept** through every step but a release, as long as its node is there. -/
theorem FocusState.captured_run {s : FocusState F} (h : s.Sound) {n : UiNodeId}
    (hcaptured : s.focus.captured = some n)
    (hknown : (∃ node, s.tree.lookup n = some node) ∨ s.tree.Aged n) {steps : List (FocusStep F)}
    (hheld : ∀ step ∈ steps, step.releases = false)
    (hthere : (s.run steps).tree.contains n = true) :
    (s.run steps).focus.captured = some n := by
  -- On the steps: the tree changes under the capture, or an event goes to its node.
  induction steps generalizing s with
  | nil => exact hcaptured
  | cons step steps ih =>
    have hlive := FocusState.contains_of_run h.shape hknown (step :: steps) hthere
    have hchanges := FocusState.next_changes h.shape step
    have hcleared : (s.focus.clearStale s.tree).captured = some n := by
      rw [clearStale_eq, hcaptured, Option.filter_some, if_pos hlive]
    have hkept : (s.next step).focus.captured = some n := by
      cases step with
      | mutate call => exact hcaptured
      | clearStale => exact hcleared
      | route room event =>
        obtain ⟨target, -, htarget, hroute⟩ := route_spec h.shape room s.focus event
        obtain rfl := htarget n hcaptured hlive
        rw [FocusState.next_route hroute]
        exact remember_captured hcleared (hheld _ List.mem_cons_self)
    have hknown' := hchanges.live_or_aged (h.shape.validSlot_iff.mp hlive)
    exact ih (h.next step) hkept hknown' (fun c hc => hheld c (List.mem_cons_of_mem step hc)) hthere

/-- **A sound state** has the law. -/
theorem FocusState.Sound.law {s : FocusState F} (h : s.Sound) : FocusLaw s := by
  constructor
  · intro room event
    obtain ⟨target, hlive, -, hroute⟩ := route_spec h.shape room s.focus event
    refine ⟨_, _, hroute, hlive, ?_⟩
    intro id hid
    change ((s.focus.clearStale s.tree).remember s.tree event target).focused = some id at hid
    cases hpress : event.presses && target.isSome with
    | true =>
      obtain ⟨hpressed, hsome⟩ := Bool.and_eq_true_iff.mp hpress
      obtain ⟨n, rfl⟩ := Option.isSome_iff_exists.mp hsome
      rw [remember_press hpressed] at hid
      simp only at hid
      split at hid
      · exact Option.some.inj hid ▸ hlive n rfl
      · cases hid
    | false =>
      rw [remember_focused hpress, clearStale_eq] at hid
      exact contains_of_filter hid
  · intro room event result focus n hpress hrouted htarget between hheld hthere room' event'
    obtain ⟨target, hlive, -, hroute⟩ := route_spec h.shape room s.focus event
    obtain ⟨rfl, rfl⟩ := Prod.mk.inj (Except.ok.inj (hroute.symm.trans hrouted))
    obtain rfl : target = some n := htarget
    have hnext := FocusState.next_route hroute
    have hcaptured : (s.next (.route room event)).focus.captured = some n := by
      rw [hnext, remember_press hpress]
    have hchanges := FocusState.next_changes h.shape (.route room event)
    have hknown := hchanges.live_or_aged (h.shape.validSlot_iff.mp (hlive n rfl))
    have hkept := FocusState.captured_run (h.next _) hcaptured hknown hheld hthere
    have hsound := (h.next (.route room event)).run between
    obtain ⟨target', -, hsame, hroute'⟩ := route_spec hsound.shape room'
      (s.run (.route room event :: between)).focus event'
    exact ⟨_, _, hroute', hsame n hkept hthere⟩
  · intro step hchanged
    rcases FocusState.next_focused h step with
      hsame | ⟨room, event, result, n, hstep, hpress, hroute, htarget, -, hfocused⟩ | hgone
    · exact absurd hsame hchanged
    · exact .inl ⟨room, event, result, n, hstep, hpress, hroute, htarget, hfocused⟩
    · exact .inr hgone

/-- **Focus and capture hold in every run**: of events, `clear_stale` and calls on the tree, in any
    order. -/
theorem focus_law {room : Room} {config : TreeConfig} {t₀ : UiTree F}
    (h₀ : UiTree.tryNew room config = .ok t₀) (steps : List (FocusStep F)) :
    FocusLaw (FocusState.run ⟨t₀, .initial⟩ steps) := by
  have hstart : (⟨t₀, .initial⟩ : FocusState F).Sound :=
    ⟨(tryNew_shape h₀).1, fun id hid => by cases hid⟩
  exact (hstart.run steps).law

/-- A panel is pressed, and moved away from under the pointer. -/
theorem focus_law_small : ∃ t₀ : UiTree Float32, UiTree.tryNew .ample ⟨4, 4, 16⟩ = .ok t₀ ∧
    FocusLaw (FocusState.run ⟨t₀, .initial⟩
      [.mutate (.create .ample ⟨0, 1⟩ (.new .panel)), .mutate (.setRect ⟨1, 1⟩ ⟨0, 0, 8, 8⟩),
        .route .ample (.pointerButton 0 true 4 4), .mutate (.setRect ⟨1, 1⟩ ⟨50, 50, 8, 8⟩)]) :=
  ⟨_, rfl, focus_law (show UiTree.tryNew .ample ⟨4, 4, 16⟩ = .ok _ from rfl) _⟩

end Run

end Ui
end EngineKit
