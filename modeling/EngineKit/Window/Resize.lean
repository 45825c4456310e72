import EngineKit.Ui.Components
import EngineKit.Window.Headless

/-!
# Does a resize reach the UI?

The UI depends on the window, reads resizes from its inbox under topic 1, and divides the last one
by its scale into the viewport it lays out and paints in. The window sends its resizes to the
renderer only. A desk is the kernel with the two of them in it; its step is a frame, before which
events were pushed at the window, and in which every other subsystem runs a program of its own.

Nobody tells the UI of a resize unless one of the others does. So the viewport stays what it was
made (`Desk.step_calm`), whatever the window goes through, and it is the window's size only in
the frames that bring the window to the size the UI has always had (`resizes_reach_iff`).
-/

set_option autoImplicit false

namespace EngineKit
namespace Window

open Lib EngineKit.Core Bus Ui
open Schedule (SubscriberId)
open Render (Payload WindowResized)

variable {w : PointerWidth} {F : Type} [Coord F]

/-! ## The UI -/

/-- A UI subsystem with the part of it that resizes read and write. -/
structure UiScreen (F : Type) where
  ui : UiSubsystem F
  dpiScale : F
  viewport : UiRect F

def UiScreen.tryNew (config : UiConfig) (dpiScale : F) : Except UiError (UiScreen F) :=
  if Coord.isFinite dpiScale = false ∨ dpiScale ≤ Scalar.zero then .error .invalidValue
  else
    .ok ⟨.new config, dpiScale, ⟨Scalar.zero, Scalar.zero, Coord.ofNat 1280, Coord.ofNat 720⟩⟩

/-- `for envelope in ctx.receive()`: receives until the inbox is empty, and goes on with what it
    got. One round more than an inbox has places is enough. -/
def receiveAll {P : Type} (next : List (Envelope P) → Callback P) :
    Nat → List (Envelope P) → Callback P
  | 0, got => next got
  | rounds + 1, got =>
    .receive fun
      | none => next got
      | some envelope => receiveAll next rounds (got ++ [envelope])

/-- The last resize among the messages: only its topic is looked at before it is opened. -/
def resizedBy (messages : List (Envelope (Payload F))) : Option (UInt32 × UInt32) :=
  messages.foldl (fun resized envelope =>
    if envelope.topic = 1 then
      match envelope.payload with
      | .windowResized size => some (size.width, size.height)
      | _ => resized
    else resized) none

/-- `width as f32 / self.config.dpi_scale`, for both sides. -/
def UiScreen.resize (resized : Option (UInt32 × UInt32)) (s : UiScreen F) : UiScreen F :=
  match resized with
  | some (width, height) =>
    if 0 < width ∧ 0 < height then
      { s with
        viewport.width := Coord.ofNat width.toNat / s.dpiScale
        viewport.height := Coord.ofNat height.toNat / s.dpiScale }
    else s
  | none => s

/-- `UiSubsystem::tick` on the messages it received. What it paints is an input: the tree, and what
    the other messages do to it, act on the packet only through that. -/
def UiScreen.tick (messages : List (Envelope (Payload F))) (painted : UiFrame F)
    (s : UiScreen F) : UiScreen F × Option (UiFramePacket F) :=
  let s := s.resize (resizedBy messages)
  let (ui, packet) := s.ui.tick painted
  ({ s with ui }, packet)

/-- What it does on the bus when it has received the messages. `renderer` is what
    `ctx.resolve("renderer")` answers. -/
def UiScreen.send (renderer : Option SubscriberId) (painted : UiFrame F) (s : UiScreen F)
    (messages : List (Envelope (Payload F))) : Callback (Payload F) :=
  match renderer, (s.tick messages painted).2 with
  | some renderer, some packet => .publish renderer 2 (.uiFramePacket packet) fun _ => .done
  | _, _ => .done

def UiScreen.callback (renderer : Option SubscriberId) (painted : UiFrame F) (s : UiScreen F) :
    Callback (Payload F) :=
  receiveAll (s.send renderer painted) (DEFAULT_INBOX_CAPACITY + 1) []

/-! ## The desk -/

structure Desk (w : PointerWidth) (F : Type) where
  kernel : Kernel w (Payload F)
  window : WindowSubsystem
  ui : UiScreen F

/-- What happens to the window before a frame, and what the frame depends on besides. -/
structure DeskFrame (F : Type) where
  pushed : List (Bool × WindowEvent)
  painted : UiFrame F
  others : Nat → Callback (Payload F)

/-- The envelopes received by the subsystem at `idx`. -/
def receivedAt {P : Type} (idx : Nat) (events : List (Event P)) : List (Envelope P) :=
  events.filterMap fun
    | .received i envelope => if i = idx then some envelope else none
    | .called _ _ => none

/-- `KernelContext::resolve`. -/
def resolve (names : List String) (name : String) : Option SubscriberId :=
  (names.idxOf? name).map fun i => ⟨UInt32.ofNat i⟩

namespace Desk

/-- Who is called at `idx`. -/
def ticks (s : Desk w F) (i : DeskFrame F) (idx : Nat) : Callback (Payload F) :=
  let names := s.kernel.names
  let renderer := resolve names "renderer"
  if names.idxOf? "window" = some idx then (s.window.tick renderer).2
  else if names.idxOf? "ui" = some idx then s.ui.callback renderer i.painted
  else i.others idx

/-- A frame. Each of the two is called once in it, and the UI knows of it what it received. -/
def step (s : Desk w F) (i : DeskFrame F) : Desk w F :=
  let s := { s with window := s.window.pushAll i.pushed }
  let names := s.kernel.names
  let (kernel, events) := s.kernel.frame (s.ticks i) s.kernel.order
  let messages := (names.idxOf? "ui").elim [] fun idx => receivedAt idx events
  { kernel
    window := (s.window.tick (F := F) (resolve names "renderer")).1
    ui := (s.ui.tick messages i.painted).1 }

end Desk

/-! ## Messages -/

section Messages

variable {P : Type} {ok : SubscriberId → UInt16 → P → Prop} {next : List (Envelope P) → Callback P}

theorem receiveAll_sends (hnext : ∀ got, (next got).Sends ok) (rounds : Nat)
    (got : List (Envelope P)) : (receiveAll next rounds got).Sends ok := by
  induction rounds generalizing got with
  | zero => exact hnext got
  | succ rounds ih =>
    intro envelope
    cases envelope with
    | none => exact hnext got
    | some envelope => exact ih (got ++ [envelope])

/-- **The loop receives all there is**, if it has a round more than there are messages. -/
theorem receiveAll_run (idx : Nat) {rounds : Nat} {got : List (Envelope P)} {live : Live w P}
    (hwf : live.bus.Wf) (hrounds : (live.bus.mail.held ⟨UInt32.ofNat idx⟩).length < rounds) :
    ∃ bus : MessageBus w P, bus.Wf ∧ bus.mail.held ⟨UInt32.ofNat idx⟩ = [] ∧
      (receiveAll next rounds got).run idx live =
        (next (got ++ live.bus.mail.held ⟨UInt32.ofNat idx⟩)).run idx
          ⟨bus, live.events ++
            (live.bus.mail.held ⟨UInt32.ofNat idx⟩).map (Event.received idx)⟩ := by
  induction rounds generalizing got live with
  | zero => exact absurd hrounds (Nat.not_lt_zero _)
  | succ rounds ih =>
    obtain ⟨hanswer, hwf', hmail⟩ := hwf.popInbox ⟨UInt32.ofNat idx⟩
    obtain ⟨hhead, -, htail⟩ := live.bus.mail.popInbox_spec ⟨UInt32.ofNat idx⟩
    have hheld := htail ⟨UInt32.ofNat idx⟩
    rw [if_pos rfl, ← hmail] at hheld
    rw [hhead] at hanswer
    rw [receiveAll, Callback.run]
    generalize live.bus.popInbox ⟨UInt32.ofNat idx⟩ = popped at hanswer hwf' hheld
    obtain ⟨envelope, bus⟩ := popped
    cases hinbox : live.bus.mail.held ⟨UInt32.ofNat idx⟩ with
    | nil =>
      rw [hinbox] at hanswer hheld
      obtain rfl : envelope = none := hanswer
      refine ⟨bus, hwf', hheld, ?_⟩
      rw [List.append_nil, List.map_nil, List.append_nil]
    | cons first rest =>
      rw [hinbox] at hanswer hheld hrounds
      obtain rfl : envelope = some first := hanswer
      have hheld : bus.mail.held ⟨UInt32.ofNat idx⟩ = rest := hheld
      obtain ⟨bus', hwf'', hempty, hrun⟩ :=
        @ih (got ++ [first]) ⟨bus, live.events ++ [.received idx first]⟩ hwf'
          (by simp only [hheld]; exact Nat.lt_of_succ_lt_succ hrounds)
      simp only [hheld] at hrun
      refine ⟨bus', hwf'', hempty, hrun.trans ?_⟩
      rw [List.append_assoc, List.append_assoc, List.singleton_append, List.map_cons,
        List.singleton_append]

end Messages

/-- **The UI receives its whole inbox**, whatever is in it, before it sends. -/
theorem UiScreen.callback_run (renderer : Option SubscriberId) (painted : UiFrame F)
    (s : UiScreen F) (idx : Nat) {live : Live w (Payload F)} (hwf : live.bus.Wf) :
    ∃ bus : MessageBus w (Payload F), bus.Wf ∧ bus.mail.held ⟨UInt32.ofNat idx⟩ = [] ∧
      (s.callback renderer painted).run idx live =
        (s.send renderer painted (live.bus.mail.held ⟨UInt32.ofNat idx⟩)).run idx
          ⟨bus, live.events ++
            (live.bus.mail.held ⟨UInt32.ofNat idx⟩).map (Event.received idx)⟩ :=
  receiveAll_run idx hwf (Nat.lt_succ_of_le (hwf.length_held _))

omit [Coord F] in
theorem resizedBy_eq_none {messages : List (Envelope (Payload F))}
    (h : ∀ envelope ∈ messages, envelope.topic = 1 →
      ∀ resize, envelope.payload ≠ .windowResized resize) : resizedBy messages = none := by
  unfold resizedBy
  induction messages with
  | nil => rfl
  | cons envelope messages ih =>
    obtain ⟨hfirst, hrest⟩ := List.forall_mem_cons.mp h
    rw [List.foldl_cons]
    split
    · next htopic =>
      split
      · next resize hpayload => exact absurd hpayload (hfirst htopic resize)
      · exact ih hrest
    · exact ih hrest

/-- A frame without a resize leaves the viewport. -/
theorem UiScreen.tick_unresized {messages : List (Envelope (Payload F))}
    (h : resizedBy messages = none) (painted : UiFrame F) (s : UiScreen F) :
    (s.tick messages painted).1.viewport = s.viewport ∧
      (s.tick messages painted).1.dpiScale = s.dpiScale := by
  unfold UiScreen.tick
  rw [h]
  exact ⟨rfl, rfl⟩

/-! ## Addresses -/

theorem resolve_inj {names : List String} (hlen : names.length ≤ 2 ^ 32) {name name' : String}
    {id : SubscriberId} (h : resolve names name = some id) (h' : resolve names name' = some id) :
    name = name' := by
  obtain ⟨i, hi, rfl⟩ := Option.map_eq_some_iff.mp h
  obtain ⟨j, hj, heq⟩ := Option.map_eq_some_iff.mp h'
  obtain ⟨hilt, hname, -⟩ := List.idxOf?_eq_some_iff.mp hi
  obtain ⟨hjlt, hname', -⟩ := List.idxOf?_eq_some_iff.mp hj
  have hsame : UInt32.ofNat j = UInt32.ofNat i := congrArg SubscriberId.raw heq
  have hij : j = i := by
    have := congrArg UInt32.toNat hsame
    rw [UInt32.toNat_ofNat', UInt32.toNat_ofNat', Nat.mod_eq_of_lt (by omega),
      Nat.mod_eq_of_lt (by omega)] at this
    exact this
  subst hij
  rw [← hname, ← hname']

/-- The message is not a resize for the UI. -/
def NoResize (names : List String) (id : SubscriberId) (topic : UInt16) (payload : Payload F) :
    Prop :=
  resolve names "ui" = some id → topic = 1 → ∀ resize, payload ≠ .windowResized resize

omit [Coord F] in
/-- The window's resizes are for the renderer, which is not the UI. -/
theorem window_sends {names : List String} (hlen : names.length ≤ 2 ^ 32) (s : WindowSubsystem) :
    (s.tick (F := F) (resolve names "renderer")).2.Sends (NoResize names) := by
  refine WindowSubsystem.tick_sends ?_ s
  intro id hrenderer resize hui
  exact absurd (resolve_inj hlen hrenderer hui) (by decide)

/-- The UI's packets are no resizes. -/
theorem ui_sends (names : List String) (painted : UiFrame F) (s : UiScreen F) :
    (s.callback (resolve names "renderer") painted).Sends (NoResize names) := by
  refine receiveAll_sends ?_ _ _
  intro messages
  unfold UiScreen.send
  split
  · exact ⟨fun _ htopic => absurd htopic (by decide), fun _ => trivial⟩
  · exact trivial

/-! ## Frames -/

namespace Desk

/-- In this frame the other subsystems send the UI no resize. -/
def Spares (s : Desk w F) (i : DeskFrame F) : Prop :=
  ∀ idx, (i.others idx).Sends (NoResize s.kernel.names)

/-- No resize waits for the UI. -/
structure Calm (s : Desk w F) : Prop where
  addresses : s.kernel.names.length ≤ 2 ^ 32
  holds : Holds (NoResize s.kernel.names) s.kernel.bus

theorem Spares.ticks {s : Desk w F} {i : DeskFrame F} (h : s.Spares i)
    (hlen : s.kernel.names.length ≤ 2 ^ 32) (idx : Nat) :
    (s.ticks i idx).Sends (NoResize s.kernel.names) := by
  unfold Desk.ticks
  dsimp only
  split
  · exact window_sends hlen s.window
  · split
    · exact ui_sends s.kernel.names i.painted s.ui
    · exact h idx

/-- **A frame in which nobody else tells the UI of a resize** leaves its viewport as it is. -/
theorem step_calm {s : Desk w F} {i : DeskFrame F} (h : s.Calm) (hi : s.Spares i) :
    (s.step i).Calm ∧ (s.step i).kernel.names = s.kernel.names ∧
      (s.step i).window = (s.window.pushAll i.pushed).drain ∧
      (s.step i).ui.viewport = s.ui.viewport ∧ (s.step i).ui.dpiScale = s.ui.dpiScale := by
  have hspares : Desk.Spares { s with window := s.window.pushAll i.pushed } i := hi
  obtain ⟨hholds, hreceived⟩ :=
    Kernel.frame_holds (hspares.ticks h.addresses) s.kernel.order h.holds
  have hnone : resizedBy ((s.kernel.names.idxOf? "ui").elim [] fun idx =>
      receivedAt idx (s.kernel.frame (Desk.ticks { s with window := s.window.pushAll i.pushed } i)
        s.kernel.order).2) = none := by
    refine resizedBy_eq_none ?_
    intro envelope henvelope
    cases hui : s.kernel.names.idxOf? "ui" with
    | none =>
      rw [hui] at henvelope
      exact absurd henvelope List.not_mem_nil
    | some idx =>
      rw [hui] at henvelope
      obtain ⟨event, hevent, hmatch⟩ := List.mem_filterMap.mp henvelope
      cases event with
      | called phase at' => cases hmatch
      | received at' e =>
        dsimp only at hmatch
        split at hmatch
        · next hidx =>
          obtain rfl := Option.some.inj hmatch
          obtain rfl := hidx
          exact hreceived at' e hevent (by rw [resolve, hui]; rfl)
        · cases hmatch
  exact ⟨⟨h.addresses, hholds⟩, rfl, WindowSubsystem.tick_fst _ _,
    UiScreen.tick_unresized hnone i.painted s.ui⟩

/-! ## Runs -/

/-- What `window` and `ui` say of themselves. -/
def WINDOW : Core.Subsystem := ⟨"window", [], ⟨[], [], true⟩⟩

def UI : Core.Subsystem := ⟨"ui", ["window", "input"], ⟨[], [], true⟩⟩

/-- A kernel just built, in which the two and any others were registered and initialised. Neither
    of the two does anything at its init, and the others send the UI no resize. -/
structure Starts (s : Desk w F) : Prop where
  kernel : ∃ (memory : Bool) (bus : MessageBus w (Payload F)) (subsystems : List Core.Subsystem)
    (room : Core.Room) (programs : Nat → Callback (Payload F)),
    MessageBus.tryNew memory = .ok bus ∧
      let k := subsystems.foldl (fun k subsystem => (k.register subsystem).2) (Kernel.new bus)
      WINDOW ∈ k.registry.entries ∧ UI ∈ k.registry.entries ∧
        (k.init room programs).1 = some (.ok ()) ∧ s.kernel = (k.init room programs).2.1 ∧
        ∀ idx, (programs idx).Sends (NoResize s.kernel.names) ∧
          ∀ entry, k.registry.entries[idx]? = some entry → entry = WINDOW ∨ entry = UI →
            programs idx = .done
  window : ∃ id size, s.window = .new id size
  ui : ∃ config dpiScale, UiScreen.tryNew config dpiScale = .ok s.ui

/-- The viewport's size is the window's, divided by the scale. -/
def Sized (viewport : UiRect F) (size : WindowSize) (dpiScale : F) : Prop :=
  viewport.width = Coord.ofNat size.width.toNat / dpiScale ∧
    viewport.height = Coord.ofNat size.height.toNat / dpiScale

/-- What is expected of a frame: its resizes are in the viewport after it, and without any the
    viewport is what it was. -/
def Follows (s : Desk w F) (i : DeskFrame F) : Prop :=
  let t := s.step i
  if t.window.processedResize then Sized t.ui.viewport t.window.window.size t.ui.dpiScale
  else t.ui.viewport = s.ui.viewport

/-- And of a run, frame after frame. -/
def Lawful : Desk w F → List (DeskFrame F) → Prop
  | _, [] => True
  | s, i :: frames => s.Follows i ∧ (s.step i).Lawful frames

end Desk

/-- Whenever the window processes a resize it has the size of the viewport a UI starts with. -/
def AlwaysFits (dpiScale : F) : WindowSubsystem → List (List (Bool × WindowEvent)) → Prop
  | _, [] => True
  | s, pushed :: frames =>
    let s := (s.pushAll pushed).drain
    (s.processedResize = true →
      Coord.ofNat 1280 = Coord.ofNat s.window.size.width.toNat / dpiScale ∧
        Coord.ofNat 720 = Coord.ofNat s.window.size.height.toNat / dpiScale) ∧
      AlwaysFits dpiScale s frames

namespace Desk

omit [Coord F] in
theorem register_keeps (subsystems : List Core.Subsystem) (k : Kernel w (Payload F)) :
    (subsystems.foldl (fun k subsystem => (k.register subsystem).2) k).bus = k.bus ∧
      (subsystems.foldl (fun k subsystem => (k.register subsystem).2) k).initialized =
        k.initialized := by
  induction subsystems generalizing k with
  | nil => exact ⟨rfl, rfl⟩
  | cons subsystem subsystems ih => exact ih (k.register subsystem).2

theorem Starts.calm {s : Desk w F} (h : s.Starts) : s.Calm := by
  obtain ⟨memory, bus, subsystems, room, programs, hbus, -, -, hinit, hkernel, hprograms⟩ :=
    h.kernel
  obtain ⟨hkept, hfresh⟩ := register_keeps subsystems (Kernel.new bus)
  obtain ⟨hwf, hmail⟩ := MessageBus.tryNew_spec hbus
  obtain ⟨hholds, hnames, hlen⟩ := Kernel.init_holds (fun idx => (hprograms idx).1)
    (hkept ▸ hwf) (hkept ▸ hmail) hfresh hinit
  rw [← hkernel] at hholds hnames
  refine ⟨?_, hholds⟩
  rw [hnames, List.length_map]
  exact hlen

theorem Starts.viewport {s : Desk w F} (h : s.Starts) :
    s.ui.viewport.width = Coord.ofNat 1280 ∧ s.ui.viewport.height = Coord.ofNat 720 := by
  obtain ⟨config, dpiScale, hnew⟩ := h.ui
  unfold UiScreen.tryNew at hnew
  split at hnew
  · cases hnew
  · rw [← Except.ok.inj hnew]
    exact ⟨rfl, rfl⟩

/-- From then on. -/
theorem lawful_iff {s : Desk w F} (h : s.Calm) (hwidth : s.ui.viewport.width = Coord.ofNat 1280)
    (hheight : s.ui.viewport.height = Coord.ofNat 720) {frames : List (DeskFrame F)}
    (hothers : ∀ i ∈ frames, s.Spares i) :
    s.Lawful frames ↔ AlwaysFits s.ui.dpiScale s.window (frames.map DeskFrame.pushed) := by
  induction frames generalizing s with
  | nil => exact Iff.rfl
  | cons i frames ih =>
    obtain ⟨hfirst, hrest⟩ := List.forall_mem_cons.mp hothers
    obtain ⟨hcalm, hnames, hwindow, hviewport, hscale⟩ := step_calm h hfirst
    have hspares : ∀ j ∈ frames, (s.step i).Spares j := by
      intro j hj idx
      rw [hnames]
      exact hrest j hj idx
    have hnext := ih hcalm (hviewport ▸ hwidth) (hviewport ▸ hheight) hspares
    rw [Lawful, List.map_cons, AlwaysFits, hnext, hscale, hwindow]
    refine and_congr_left ?_
    intro _
    unfold Follows
    dsimp only
    rw [hwindow, hviewport, hscale]
    split
    · next hresized =>
      rw [Sized, hwidth, hheight]
      exact ⟨fun hsized _ => hsized, fun hfits => hfits hresized⟩
    · next hresized => exact iff_of_true rfl fun h => absurd h hresized

/-- **Resizes do not reach the UI.** In every run in which no other subsystem sends the UI a resize,
    what is expected of its frames holds exactly if every resize the window processes leaves it at
    the size of the viewport the UI started with. -/
theorem resizes_reach_iff {s : Desk w F} (hs : s.Starts) {frames : List (DeskFrame F)}
    (hothers : ∀ i ∈ frames, s.Spares i) :
    s.Lawful frames ↔ AlwaysFits s.ui.dpiScale s.window (frames.map DeskFrame.pushed) :=
  lawful_iff hs.calm hs.viewport.1 hs.viewport.2 hothers

/-- The two, and the two that go with them. -/
def crew : List Core.Subsystem :=
  [WINDOW, ⟨"input", ["window"], ⟨[], [], true⟩⟩, UI,
    ⟨"renderer", ["window", "ui"], ⟨[], [], true⟩⟩]

def wired : Kernel .sixtyFour (Payload Float32) :=
  crew.foldl (fun k subsystem => (k.register subsystem).2)
    (.new ⟨⟨⟨List.replicate 32 none, 31, 0, 0⟩⟩, [], [], 0, 0⟩)

def ample : Core.Room := ⟨fun _ => true, fun _ => true, true⟩

def freshDesk : Desk .sixtyFour Float32 :=
  ⟨(wired.init ample fun _ => .done).2.1, .new ⟨1⟩ ⟨1280, 720⟩,
    ⟨.new .defaults, 1, ⟨0, 0, Coord.ofNat 1280, Coord.ofNat 720⟩⟩⟩

theorem freshDesk_starts : freshDesk.Starts := by
  have hwired : WINDOW ∈ wired.registry.entries ∧ UI ∈ wired.registry.entries := by decide +kernel
  have hinit : (wired.init ample fun _ => .done).1 = some (.ok ()) := by decide +kernel
  refine ⟨⟨true, _, crew, ample, fun _ => .done, rfl, hwired.1, hwired.2, hinit, rfl, ?_⟩,
    ⟨_, _, rfl⟩, .defaults, 1, if_neg (by decide +kernel)⟩
  intro idx
  exact ⟨trivial, fun _ _ _ => rfl⟩

/-- A frame, with so many events before it, in which nobody else does anything. -/
def quietFrame (events : List WindowEvent) : DeskFrame Float32 :=
  ⟨events.map fun event => (true, event), ⟨1, .ok ([], [])⟩, fun _ => .done⟩

theorem quietFrames_spare (s : Desk .sixtyFour Float32) (frames : List (List WindowEvent)) :
    ∀ i ∈ frames.map quietFrame, s.Spares i := by
  intro i hi idx
  obtain ⟨events, -, rfl⟩ := List.mem_map.mp hi
  exact trivial

/-- **A resize the UI does not hear of**: the window is 1920 by 1080, the viewport 1280 by 720. -/
theorem resize_does_not_reach : freshDesk.Starts ∧
    (∀ i ∈ [[WindowEvent.resized ⟨1920, 1080⟩]].map quietFrame, freshDesk.Spares i) ∧
    ¬ freshDesk.Lawful ([[WindowEvent.resized ⟨1920, 1080⟩]].map quietFrame) := by
  have hspares := quietFrames_spare freshDesk [[.resized ⟨1920, 1080⟩]]
  refine ⟨freshDesk_starts, hspares, ?_⟩
  obtain ⟨-, -, hwindow, hviewport, hscale⟩ :=
    step_calm freshDesk_starts.calm (hspares _ List.mem_cons_self)
  intro hall
  obtain ⟨hfollows, -⟩ := hall
  unfold Follows at hfollows
  dsimp only at hfollows
  rw [hwindow, hviewport, hscale, if_pos (by decide)] at hfollows
  exact absurd hfollows.1 (by decide +kernel)

/-- A focus change, and a resize to the size that was there. -/
theorem resizes_reach_same : freshDesk.Lawful
    ([[WindowEvent.focused false], [.resized ⟨1280, 720⟩]].map quietFrame) :=
  (resizes_reach_iff freshDesk_starts (quietFrames_spare _ _)).mpr
    ⟨fun h => absurd h (by decide), fun _ => ⟨by decide +kernel, by decide +kernel⟩, trivial⟩

end Desk

end Window
end EngineKit
