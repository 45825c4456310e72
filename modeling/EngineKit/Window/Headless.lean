import EngineKit.Core.Contents
import EngineKit.Render.Renderer

/-!
# The window

A window keeps its size and a queue of what happened to it. Once a frame the subsystem drains the
queue, and if there is a resize in it, however many, tells the renderer the size the window has now.
-/

set_option autoImplicit false

namespace EngineKit
namespace Window

open EngineKit.Core
open Schedule (SubscriberId)
open Render (Payload WindowResized)

structure WindowId where
  raw : UInt32
deriving DecidableEq

structure WindowSize where
  width : UInt32
  height : UInt32
deriving DecidableEq

inductive WindowEvent where
  | resized (size : WindowSize)
  | closeRequested
  | focused (focused : Bool)
deriving DecidableEq

inductive WindowError where
  | allocationFailed
deriving DecidableEq

structure HeadlessWindow where
  id : WindowId
  size : WindowSize
  isOpen : Bool
  isFocused : Bool
  events : List WindowEvent
deriving DecidableEq

namespace HeadlessWindow

def new (id : WindowId) (size : WindowSize) : HeadlessWindow := ⟨id, size, true, true, []⟩

def tryPushEvent (room : Bool) (event : WindowEvent) (window : HeadlessWindow) :
    Except WindowError Unit × HeadlessWindow :=
  if ¬ room then (.error .allocationFailed, window)
  else
    let window :=
      match event with
      | .resized size => { window with size }
      | .closeRequested => { window with isOpen := false }
      | .focused isFocused => { window with isFocused }
    (.ok (), { window with events := window.events ++ [event] })

/-- What `out` is afterwards, and the window. -/
def drainEvents (window : HeadlessWindow) : List WindowEvent × HeadlessWindow :=
  (window.events, { window with events := [] })

end HeadlessWindow

def WindowEvent.isResized : WindowEvent → Bool
  | .resized _ => true
  | .closeRequested | .focused _ => false

structure WindowSubsystem where
  window : HeadlessWindow
  frameEvents : List WindowEvent
deriving DecidableEq

namespace WindowSubsystem

def new (id : WindowId) (size : WindowSize) : WindowSubsystem := ⟨.new id size, []⟩

/-- `window_mut().try_push_event(event)`, once for each event. -/
def pushAll (pushed : List (Bool × WindowEvent)) (s : WindowSubsystem) : WindowSubsystem :=
  { s with
    window := pushed.foldl (fun window push => (window.tryPushEvent push.1 push.2).2) s.window }

/-- The events of the frame are those in the queue. -/
def drain (s : WindowSubsystem) : WindowSubsystem :=
  let (frameEvents, window) := s.window.drainEvents
  { window, frameEvents }

/-- There is a resize among the events of the frame. -/
def processedResize (s : WindowSubsystem) : Bool := s.frameEvents.any WindowEvent.isResized

/-- `WindowSubsystem::tick`. `renderer` is what `ctx.resolve("renderer")` answers. -/
def tick {F : Type} (renderer : Option SubscriberId) (s : WindowSubsystem) :
    WindowSubsystem × Callback (Payload F) :=
  let s := s.drain
  if s.processedResize then
    match renderer with
    | some renderer =>
      let size := s.window.size
      (s, .publish renderer 1 (.windowResized ⟨size.width, size.height⟩) fun _ => .done)
    | none => (s, .done)
  else (s, .done)

theorem tick_fst {F : Type} (renderer : Option SubscriberId) (s : WindowSubsystem) :
    (s.tick (F := F) renderer).1 = s.drain := by
  unfold tick
  dsimp only
  split
  · cases renderer <;> rfl
  · rfl

/-- The window writes to nobody but the renderer. -/
theorem tick_sends {F : Type} {ok : SubscriberId → UInt16 → Payload F → Prop}
    {renderer : Option SubscriberId}
    (hrenderer : ∀ id, renderer = some id → ∀ resize, ok id 1 (.windowResized resize))
    (s : WindowSubsystem) : (s.tick renderer).2.Sends ok := by
  unfold tick
  dsimp only
  split
  · cases renderer with
    | none => exact trivial
    | some id => exact ⟨hrenderer id rfl _, fun _ => trivial⟩
  · exact trivial

end WindowSubsystem

end Window
end EngineKit
