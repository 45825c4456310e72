import EngineKit.Lib.Ascending

/-!
# Input events and the snapshot

`HeadlessInput` of `src/subsystems/input.rs`. Events queue up between frames and are applied at
the boundary of one; the snapshot is then stable until the next. The keys held down are a sorted
`Vec`, here an ascending list; the mouse buttons are a mask of sixteen bits.

An event may find no memory, when it is queued or when its key joins the others. The first is
reported to the caller, the second ends the frame, with the event still in the queue.
-/

set_option autoImplicit false

namespace EngineKit
namespace Input

open Lib

scoped instance instLinearOrderKey : LinearOrder UInt32 where
  le_refl := UInt32.le_refl
  le_trans _ _ _ := UInt32.le_trans
  le_antisymm _ _ := UInt32.le_antisymm
  le_total := UInt32.le_total
  lt_iff_le_not_ge a b := by
    rw [UInt32.not_le]
    exact ⟨fun h => ⟨UInt32.le_of_lt h, h⟩, fun h => h.2⟩
  toDecidableLE := inferInstance
  toDecidableLT := inferInstance
  toDecidableEq := inferInstance

inductive InputEvent where
  | key (key : UInt32) (pressed : Bool)
  | mouseButton (button : UInt8) (pressed : Bool)
  | mouseMoved (x y : Int32)
  | textByte (byte : UInt8)
deriving DecidableEq

inductive InputError where
  | allocationFailed
deriving DecidableEq

structure InputSnapshot where
  keys : Ascending UInt32
  mouseButtons : UInt16
  mousePosition : Int32 × Int32
  text : Vector UInt8 64
  textCount : UInt8

namespace InputSnapshot

def default : InputSnapshot := ⟨.empty, 0, (0, 0), Vector.replicate 64 0, 0⟩

def mouseButtonDown (s : InputSnapshot) (button : UInt8) : Bool :=
  decide (button < 16) && s.mouseButtons &&& ((1 : UInt16) <<< button.toUInt16) != 0

/-- The text of the frame. -/
def typed (s : InputSnapshot) : List UInt8 := s.text.toList.take s.textCount.toNat

/-- `try_apply`. `room` says whether the keys can grow by one. -/
def tryApply (room : Bool) (s : InputSnapshot) : InputEvent → Except InputError InputSnapshot
  | .key key true =>
    match s.keys.binarySearch key with
    | .gap index below above =>
      if room then .ok { s with keys := s.keys.insertAt key index below above }
      else .error .allocationFailed
    | .found _ _ => .ok s
  | .key key false =>
    match s.keys.binarySearch key with
    | .found index _ => .ok { s with keys := s.keys.removeAt index }
    | .gap _ _ _ => .ok s
  | .mouseButton button pressed =>
    if button < 16 then
      let mask := (1 : UInt16) <<< button.toUInt16
      if pressed then .ok { s with mouseButtons := s.mouseButtons ||| mask }
      else .ok { s with mouseButtons := s.mouseButtons &&& ~~~mask }
    else .ok s
  | .mouseMoved x y => .ok { s with mousePosition := (x, y) }
  | .textByte byte =>
    if h : s.textCount.toNat < 64 then
      .ok { s with text := s.text.set s.textCount.toNat byte h, textCount := s.textCount + 1 }
    else .ok s

end InputSnapshot

/-- `pending`, the front first, and `current`. -/
structure HeadlessInput where
  pending : List InputEvent
  current : InputSnapshot

namespace HeadlessInput

def default : HeadlessInput := ⟨[], .default⟩

/-- `try_push`. `room` says whether the queue can grow by one. -/
def tryPush (room : Bool) (event : InputEvent) (input : HeadlessInput) :
    Except InputError Unit × HeadlessInput :=
  if room then (.ok (), { input with pending := input.pending ++ [event] })
  else (.error .allocationFailed, input)

/-- The loop of `try_advance`. `rooms n` is the room that the `n`-th event finds. -/
def applyPending (rooms : Nat → Bool) :
    Nat → List InputEvent → InputSnapshot → Except InputError Unit × HeadlessInput
  | _, [], current => (.ok (), ⟨[], current⟩)
  | n, event :: pending, current =>
    match current.tryApply (rooms n) event with
    | .error error => (.error error, ⟨event :: pending, current⟩)
    | .ok current => applyPending rooms (n + 1) pending current

def tryAdvance (rooms : Nat → Bool) (input : HeadlessInput) :
    Except InputError Unit × HeadlessInput :=
  applyPending rooms 0 input.pending { input.current with textCount := 0 }

end HeadlessInput

/-! ## What is held -/

/-- The keys held after an event, given those before. -/
def heldStep (held : Finset UInt32) : InputEvent → Finset UInt32
  | .key key true => insert key held
  | .key key false => held.erase key
  | .mouseButton _ _ | .mouseMoved _ _ | .textByte _ => held

def InputSnapshot.held (s : InputSnapshot) : Finset UInt32 := s.keys.toFinset

namespace InputSnapshot

variable {room : Bool} {s s' : InputSnapshot}

theorem held_press {key : UInt32} (h : s.tryApply room (.key key true) = .ok s') :
    s'.held = insert key s.held := by
  simp only [tryApply] at h
  cases hs : s.keys.binarySearch key with
  | gap index below above =>
    rw [hs] at h
    cases room with
    | false => exact absurd h (by simp)
    | true =>
      cases Except.ok.inj h
      exact s.keys.toFinset_insertAt key index below above
  | found index get =>
    rw [hs] at h
    cases Except.ok.inj h
    refine (Finset.insert_eq_of_mem ?_).symm
    rw [held, Ascending.mem_toFinset]
    exact Ascending.mem_of_found get

theorem held_release {key : UInt32} (h : s.tryApply room (.key key false) = .ok s') :
    s'.held = s.held.erase key := by
  simp only [tryApply] at h
  cases hs : s.keys.binarySearch key with
  | gap index below above =>
    rw [hs] at h
    cases Except.ok.inj h
    refine (Finset.erase_eq_of_notMem ?_).symm
    rw [held, Ascending.mem_toFinset]
    exact Ascending.not_mem_of_gap below above
  | found index get =>
    rw [hs] at h
    cases Except.ok.inj h
    exact Ascending.toFinset_removeAt get

/-- Events of other kinds leave the keys alone. -/
theorem keys_tryApply {event : InputEvent} (hother : ∀ key pressed, event ≠ .key key pressed)
    (h : s.tryApply room event = .ok s') : s'.keys = s.keys := by
  cases event with
  | key key pressed => exact absurd rfl (hother key pressed)
  | mouseButton button pressed =>
    simp only [tryApply] at h
    by_cases hb : button < 16
    · rw [if_pos hb] at h
      cases pressed with
      | true =>
        cases Except.ok.inj h
        rfl
      | false =>
        cases Except.ok.inj h
        rfl
    · rw [if_neg hb] at h
      cases Except.ok.inj h
      rfl
  | mouseMoved x y =>
    cases Except.ok.inj h
    rfl
  | textByte byte =>
    simp only [tryApply] at h
    by_cases hb : s.textCount.toNat < 64
    · rw [dif_pos hb] at h
      cases Except.ok.inj h
      rfl
    · rw [dif_neg hb] at h
      cases Except.ok.inj h
      rfl

/-- **The sorted keys are the set of keys that were pressed and not released.** -/
theorem held_tryApply {event : InputEvent} (h : s.tryApply room event = .ok s') :
    s'.held = heldStep s.held event := by
  cases event with
  | key key pressed =>
    cases pressed with
    | true => exact held_press h
    | false => exact held_release h
  | _ => exact congrArg Ascending.toFinset (keys_tryApply (by simp) h)

end InputSnapshot

theorem HeadlessInput.held_applyPending {rooms : Nat → Bool} {n : Nat} {pending : List InputEvent}
    {current : InputSnapshot} {input : HeadlessInput}
    (h : applyPending rooms n pending current = (.ok (), input)) :
    input.pending = [] ∧ input.current.held = pending.foldl heldStep current.held := by
  induction pending generalizing n current with
  | nil =>
    cases h
    exact ⟨rfl, rfl⟩
  | cons event pending ih =>
    rw [applyPending] at h
    cases ha : current.tryApply (rooms n) event with
    | error error =>
      rw [ha] at h
      exact absurd (congrArg Prod.fst h) (by simp)
    | ok next =>
      rw [ha] at h
      obtain ⟨hempty, hheld⟩ := ih h
      refine ⟨hempty, ?_⟩
      rw [hheld, InputSnapshot.held_tryApply ha]
      rfl

/-- **A frame boundary.** Every queued event is applied, in order. -/
theorem HeadlessInput.held_tryAdvance {rooms : Nat → Bool} {input input' : HeadlessInput}
    (h : input.tryAdvance rooms = (.ok (), input')) :
    input'.pending = [] ∧
      input'.current.held = input.pending.foldl heldStep input.current.held := by
  unfold tryAdvance at h
  obtain ⟨hempty, hheld⟩ := held_applyPending h
  exact ⟨hempty, hheld⟩

end Input
end EngineKit
