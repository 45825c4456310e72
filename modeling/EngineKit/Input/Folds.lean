import EngineKit.Input.Edges
import EngineKit.Lib.LastAnswer
import Mathlib.Data.List.DropRight
import Mathlib.Data.List.Sort

/-!
# What a snapshot says of the events

A run of `HeadlessInput` of `src/subsystems/input.rs`: events are pushed and now and then the
frame boundary applies those that queue. A held key, a button and the place of the mouse are
registers of the snapshot, each with its own kind of event, so that they show the last event of
that kind, and where the boundaries were cannot be seen of them. Only the text starts anew at
each.

Memory is there for every push and every key.

What makes a part of the snapshot a register is that an event either sets it to a value which does
not depend on what it was, or leaves it alone. The value it has is then that of the last event that
sets it, and a frame boundary, which applies what is queued in order and clears only the text,
cannot move an event past another. The general fact is `Register` of the library; here it is shown
of keys, buttons and the mouse, one lemma each.
-/

set_option autoImplicit false

namespace EngineKit
namespace Input

open Lib

/-! ## What an event tells -/

namespace InputEvent

/-- What an event says of one key: nothing, or whether it is down now. -/
def keyPressed (key : UInt32) : InputEvent → Option Bool
  | .key other pressed => if other = key then some pressed else none
  | .mouseButton _ _ | .mouseMoved _ _ | .textByte _ => none

def buttonPressed (button : UInt8) : InputEvent → Option Bool
  | .mouseButton other pressed => if other = button then some pressed else none
  | .key _ _ | .mouseMoved _ _ | .textByte _ => none

def movedTo : InputEvent → Option (Int32 × Int32)
  | .mouseMoved x y => some (x, y)
  | .key _ _ | .mouseButton _ _ | .textByte _ => none

def byte? : InputEvent → Option UInt8
  | .textByte byte => some byte
  | .key _ _ | .mouseButton _ _ | .mouseMoved _ _ => none

end InputEvent

/-! ## One event -/

namespace InputSnapshot

/-- `try_apply`, with memory for the key. -/
def apply (s : InputSnapshot) (event : InputEvent) : InputSnapshot :=
  match s.tryApply true event with
  | .ok s => s
  | .error _ => s

/-- A key event changes the keys only. -/
theorem tryApply_key (s : InputSnapshot) (key : UInt32) (pressed : Bool) :
    ∃ keys, s.tryApply true (.key key pressed) = .ok { s with keys } := by
  cases pressed with
  | true =>
    simp only [tryApply]
    cases s.keys.binarySearch key with
    | gap index below above => exact ⟨s.keys.insertAt key index below above, by simp⟩
    | found index get => exact ⟨s.keys, rfl⟩
  | false =>
    simp only [tryApply]
    cases s.keys.binarySearch key with
    | gap index below above => exact ⟨s.keys, rfl⟩
    | found index get => exact ⟨s.keys.removeAt index, rfl⟩

/-- And a button event the mask, one bit of it. -/
theorem tryApply_mouseButton (s : InputSnapshot) (button : UInt8) (pressed : Bool) :
    s.tryApply true (.mouseButton button pressed) =
      .ok { s with
        mouseButtons :=
          if button < 16 then
            if pressed then s.mouseButtons ||| ((1 : UInt16) <<< button.toUInt16)
            else s.mouseButtons &&& ~~~((1 : UInt16) <<< button.toUInt16)
          else s.mouseButtons } := by
  simp only [tryApply]
  by_cases h : button < 16
  · cases pressed with
    | true => simp [h]
    | false => simp [h]
  · simp [h]

/-- The text so far, in its array. -/
def buffer (s : InputSnapshot) : Vector UInt8 64 × Nat := (s.text, s.textCount.toNat)

/-- A byte is put behind the others as long as there is room. -/
theorem tryApply_textByte (s : InputSnapshot) (byte : UInt8) :
    ∃ text textCount, s.tryApply true (.textByte byte) = .ok { s with text, textCount } ∧
      (text, textCount.toNat) = collect (fun _ => true) s.buffer byte := by
  simp only [tryApply]
  by_cases h : s.textCount.toNat < 64
  · have hcount : (s.textCount + 1).toNat = s.textCount.toNat + 1 := by
      rw [UInt8.toNat_add, UInt8.toNat_one]
      omega
    refine ⟨s.text.set s.textCount.toNat byte h, s.textCount + 1, dif_pos h, ?_⟩
    have hroom : true = true ∧ s.buffer.2 < 64 := ⟨rfl, h⟩
    rw [hcount, collect, dif_pos hroom]
    rfl
  · refine ⟨s.text, s.textCount, dif_neg h, ?_⟩
    have hfull : ¬ (true = true ∧ s.buffer.2 < 64) := fun hroom => h hroom.2
    rw [collect, dif_neg hfull]
    rfl

/-- With memory every event is applied. -/
theorem tryApply_true (s : InputSnapshot) (event : InputEvent) :
    s.tryApply true event = .ok (s.apply event) := by
  have hok : ∃ next, s.tryApply true event = .ok next := by
    cases event with
    | key key pressed =>
      obtain ⟨keys, hkeys⟩ := s.tryApply_key key pressed
      exact ⟨_, hkeys⟩
    | mouseButton button pressed => exact ⟨_, s.tryApply_mouseButton button pressed⟩
    | mouseMoved x y => exact ⟨{ s with mousePosition := (x, y) }, rfl⟩
    | textByte byte =>
      obtain ⟨text, textCount, htext, -⟩ := s.tryApply_textByte byte
      exact ⟨_, htext⟩
  obtain ⟨next, hnext⟩ := hok
  rw [apply, hnext]

theorem apply_eq {s next : InputSnapshot} {event : InputEvent}
    (h : s.tryApply true event = .ok next) : s.apply event = next := by
  rw [apply, h]

/-- With memory the keys held are those of the fold. -/
theorem held_apply (s : InputSnapshot) (event : InputEvent) :
    (s.apply event).held = heldStep s.held event := held_tryApply (tryApply_true s event)

/-! ## The registers -/

/-- **A key is held when it was pressed last.** -/
theorem register_key (key : UInt32) :
    Register apply (fun s => decide (key ∈ s.keys.items)) (InputEvent.keyPressed key) := by
  intro s event
  have hheld := s.held_apply event
  have hmem : ∀ s : InputSnapshot, key ∈ s.keys.items ↔ key ∈ s.held := by
    intro s
    exact Ascending.mem_toFinset.symm
  simp only [hmem, hheld]
  -- A key event of another key leaves this one as it is.
  cases event with
  | key other pressed =>
    by_cases hkey : other = key
    · subst hkey
      cases pressed with
      | true => simp [heldStep, InputEvent.keyPressed]
      | false => simp [heldStep, InputEvent.keyPressed]
    · have hother : key ≠ other := fun heq => hkey heq.symm
      cases pressed with
      | true => simp [heldStep, InputEvent.keyPressed, hkey, hother]
      | false => simp [heldStep, InputEvent.keyPressed, hkey, hother]
  | mouseButton button pressed => rfl
  | mouseMoved x y => rfl
  | textByte byte => rfl

theorem exists_ofNat_eq {button : UInt8} (h : button < 16) :
    ∃ n, n < 16 ∧ UInt8.ofNat n = button :=
  ⟨button.toNat, UInt8.lt_iff_toNat_lt.mp h, UInt8.ofNat_toNat⟩

theorem ofNat_eq_iff {m n : Nat} (hm : m < 16) (hn : n < 16) :
    UInt8.ofNat m = UInt8.ofNat n ↔ m = n := by
  rw [← UInt8.toNat_inj, UInt8.toNat_ofNat', UInt8.toNat_ofNat']
  omega

/-- A bit of a mask of which one bit was set or cleared. -/
theorem getLsbD_masked (mask : UInt16) (pressed : Bool) {other button : Nat} (hother : other < 16)
    (hbutton : button < 16) :
    (if pressed then mask ||| ((1 : UInt16) <<< (UInt8.ofNat other).toUInt16)
      else mask &&& ~~~((1 : UInt16) <<< (UInt8.ofNat other).toUInt16)).toBitVec.getLsbD button =
      if other = button then pressed else mask.toBitVec.getLsbD button := by
  have hbit : ((1 : UInt16) <<< (UInt8.ofNat other).toUInt16).toBitVec.getLsbD button =
      decide (other = button) := by
    rw [(toBitVec_shift hother).1, BitVec.getLsbD_twoPow]
    simp only [decide_eq_true hother, Bool.true_and]
  cases pressed with
  | true =>
    rw [if_pos rfl, UInt16.toBitVec_or, BitVec.getLsbD_or, hbit]
    by_cases h : other = button
    · simp [h]
    · simp [h]
  | false =>
    rw [if_neg Bool.false_ne_true, UInt16.toBitVec_and, BitVec.getLsbD_and, UInt16.toBitVec_not,
      BitVec.getLsbD_not, hbit]
    by_cases h : other = button
    · simp [h]
    · simp [h, hbutton]

/-- **So is a button.** -/
theorem register_button {button : UInt8} (h : button < 16) :
    Register apply (fun s => s.mouseButtonDown button) (InputEvent.buttonPressed button) := by
  obtain ⟨n, hn, rfl⟩ := exists_ofNat_eq h
  intro s event
  simp only [mouseButtonDown_eq _ hn]
  -- Buttons from 16 on are not in the mask, and an event of one of them changes nothing.
  cases event with
  | key key pressed =>
    obtain ⟨keys, hkeys⟩ := s.tryApply_key key pressed
    rw [apply_eq hkeys]
    rfl
  | mouseButton other pressed =>
    rw [apply_eq (s.tryApply_mouseButton other pressed), InputEvent.buttonPressed]
    by_cases hother : other < 16
    · obtain ⟨m, hm, rfl⟩ := exists_ofNat_eq hother
      simp only [if_pos hother, getLsbD_masked _ _ hm hn, ofNat_eq_iff hm hn]
      by_cases hsame : m = n
      · simp [hsame]
      · simp [hsame]
    · -- Out of range, and so not the button.
      have hne : other ≠ UInt8.ofNat n := by
        intro heq
        rw [heq] at hother
        exact hother h
      simp only [if_neg hother, if_neg hne]
      rfl
  | mouseMoved x y => rfl
  | textByte byte =>
    obtain ⟨text, textCount, htext, -⟩ := s.tryApply_textByte byte
    rw [apply_eq htext]
    rfl

/-- And where the mouse is. -/
theorem register_mousePosition : Register apply mousePosition InputEvent.movedTo := by
  intro s event
  cases event with
  | key key pressed =>
    obtain ⟨keys, hkeys⟩ := s.tryApply_key key pressed
    rw [apply_eq hkeys]
    rfl
  | mouseButton button pressed =>
    rw [apply_eq (s.tryApply_mouseButton button pressed)]
    rfl
  | mouseMoved x y => rfl
  | textByte byte =>
    obtain ⟨text, textCount, htext, -⟩ := s.tryApply_textByte byte
    rw [apply_eq htext]
    rfl

/-! ## The text -/

/-- The text goes through the array with its count, a byte at a time. -/
theorem buffer_apply (s : InputSnapshot) (event : InputEvent) :
    (s.apply event).buffer = event.byte?.toList.foldl (collect fun _ => true) s.buffer := by
  cases event with
  | key key pressed =>
    obtain ⟨keys, hkeys⟩ := s.tryApply_key key pressed
    rw [apply_eq hkeys]
    rfl
  | mouseButton button pressed =>
    rw [apply_eq (s.tryApply_mouseButton button pressed)]
    rfl
  | mouseMoved x y => rfl
  | textByte byte =>
    obtain ⟨text, textCount, htext, hbuffer⟩ := s.tryApply_textByte byte
    rw [apply_eq htext]
    exact hbuffer

theorem buffer_foldl (s : InputSnapshot) (events : List InputEvent) :
    (events.foldl apply s).buffer =
      (events.filterMap InputEvent.byte?).foldl (collect fun _ => true) s.buffer := by
  induction events generalizing s with
  | nil => rfl
  | cons event events ih =>
    rw [List.foldl_cons, ih, buffer_apply]
    cases hbyte : event.byte? with
    | none => rw [List.filterMap_cons_none hbyte]; rfl
    | some byte => rw [List.filterMap_cons_some hbyte]; rfl

/-- **Text from an empty buffer.** -/
theorem typed_foldl {s : InputSnapshot} (h : s.textCount = 0) (events : List InputEvent) :
    (events.foldl apply s).typed = (events.filterMap InputEvent.byte?).take 64 := by
  have hzero : s.buffer.2 = 0 := by
    rw [buffer, h]
    rfl
  obtain ⟨-, hcollected⟩ := @collected_foldl UInt8 64 (fun _ => true) s.buffer (by omega)
    (events.filterMap InputEvent.byte?)
  have hempty : collected s.buffer = [] := by
    rw [collected, hzero, List.take_zero]
  rw [← buffer_foldl, hempty, List.nil_append, List.filter_true] at hcollected
  exact hcollected

end InputSnapshot

/-! ## Runs -/

inductive InputOp where
  | push (event : InputEvent)
  | advance
deriving DecidableEq

namespace InputOp

def event? : InputOp → Option InputEvent
  | .push event => some event
  | .advance => none

end InputOp

/-- The events that a run pushes, wherever it advances. -/
def pushed (ops : List InputOp) : List InputEvent := ops.filterMap InputOp.event?

/-- Those it pushes after the last advance. -/
def sinceAdvance (ops : List InputOp) : List InputEvent :=
  pushed (ops.rtakeWhile fun op => decide (op ≠ .advance))

theorem sinceAdvance_push (ops : List InputOp) (event : InputEvent) :
    sinceAdvance (ops ++ [.push event]) = sinceAdvance ops ++ [event] := by
  simp [sinceAdvance, pushed, InputOp.event?]

theorem sinceAdvance_advance (ops : List InputOp) : sinceAdvance (ops ++ [.advance]) = [] := by
  simp [sinceAdvance, pushed]

namespace HeadlessInput

def step (input : HeadlessInput) : InputOp → HeadlessInput
  | .push event => (input.tryPush true event).2
  | .advance => (input.tryAdvance fun _ => true).2

def run (ops : List InputOp) : HeadlessInput := ops.foldl step .default

/-- What the next advance makes of the snapshot. -/
def settled (input : HeadlessInput) : InputSnapshot :=
  input.pending.foldl InputSnapshot.apply { input.current with textCount := 0 }

/-- With memory the loop applies the whole queue. -/
theorem applyPending_true (n : Nat) (pending : List InputEvent) (current : InputSnapshot) :
    applyPending (fun _ => true) n pending current =
      (.ok (), ⟨[], pending.foldl InputSnapshot.apply current⟩) := by
  induction pending generalizing n current with
  | nil => rfl
  | cons event pending ih =>
    rw [applyPending, InputSnapshot.tryApply_true]
    exact ih (n + 1) (current.apply event)

theorem tryAdvance_true (input : HeadlessInput) :
    input.tryAdvance (fun _ => true) = (.ok (), ⟨[], input.settled⟩) :=
  applyPending_true 0 input.pending { input.current with textCount := 0 }

/-- What is pushed is applied in the end. -/
theorem settled_push (input : HeadlessInput) (event : InputEvent) :
    (input.step (.push event)).settled = input.settled.apply event := by
  show (input.pending ++ [event]).foldl InputSnapshot.apply _ = _
  rw [List.foldl_append]
  rfl

/-- And what was applied stays, but for the text. -/
theorem settled_advance (input : HeadlessInput) :
    (input.step .advance).settled = { input.settled with textCount := 0 } := by
  rw [step, tryAdvance_true]
  rfl

/-- A register of the snapshot that the start of a frame leaves alone is one of the run. -/
theorem register_settled {β : Type} {read : InputSnapshot → β} {tells : InputEvent → Option β}
    (h : Register InputSnapshot.apply read tells)
    (hframe : ∀ s : InputSnapshot, read { s with textCount := 0 } = read s) :
    Register step (fun input => read input.settled) fun op => op.event?.bind tells := by
  intro input op
  cases op with
  | push event =>
    show read (input.step (.push event)).settled = _
    rw [settled_push]
    exact h input.settled event
  | advance =>
    show read (input.step .advance).settled = _
    rw [settled_advance]
    exact hframe input.settled

/-- **A run, cut into frames anyhow.** -/
theorem read_run {β : Type} {read : InputSnapshot → β} {tells : InputEvent → Option β}
    (h : Register InputSnapshot.apply read tells)
    (hframe : ∀ s : InputSnapshot, read { s with textCount := 0 } = read s)
    (ops : List InputOp) :
    read (run ops).settled = (lastSome tells (pushed ops)).getD (read .default) := by
  rw [pushed, lastSome_filterMap]
  exact (register_settled h hframe).foldl .default ops

/-- The queue holds what was pushed since the last advance. -/
theorem pending_run (ops : List InputOp) : (run ops).pending = sinceAdvance ops := by
  induction ops using List.reverseRecOn with
  | nil => rfl
  | append_singleton ops op ih =>
    rw [run, List.foldl_append, List.foldl_cons, List.foldl_nil]
    cases op with
    | push event =>
      rw [sinceAdvance_push]
      exact congrArg (· ++ [event]) ih
    | advance => rw [sinceAdvance_advance, step, tryAdvance_true]

end HeadlessInput

/-- What a snapshot has to say of the events so far, and of those of its frame. -/
structure Folds (events frame : List InputEvent) (s : InputSnapshot) : Prop where
  ascending : s.keys.items.Pairwise (· < ·)
  keys : ∀ key, key ∈ s.keys.items ↔ lastSome (InputEvent.keyPressed key) events = some true
  buttons : ∀ button < 16,
    s.mouseButtonDown button = true ↔
      lastSome (InputEvent.buttonPressed button) events = some true
  mousePosition : s.mousePosition = (lastSome InputEvent.movedTo events).getD (0, 0)
  text : s.typed = (frame.filterMap InputEvent.byte?).take 64

/-- Two snapshots that differ in nothing but their text. -/
structure SameButText (s t : InputSnapshot) : Prop where
  keys : s.keys.items = t.keys.items
  mouseButtons : s.mouseButtons = t.mouseButtons
  mousePosition : s.mousePosition = t.mousePosition

/-- Two snapshots of the same events agree in all that is a register. -/
theorem Folds.sameButText {events frame frame' : List InputEvent} {s t : InputSnapshot}
    (h : Folds events frame s) (h' : Folds events frame' t) : SameButText s t where
  keys := by
    refine h.ascending.eq_of_mem_iff h'.ascending ?_
    intro key
    rw [h.keys, h'.keys]
  mouseButtons := by
    refine UInt16.toBitVec_inj.mp (BitVec.eq_of_getLsbD_eq ?_)
    intro i hi
    have hbutton : UInt8.ofNat i < 16 := by
      have hsixteen : (16 : UInt8).toNat = 16 := rfl
      rw [UInt8.lt_iff_toNat_lt, UInt8.toNat_ofNat', hsixteen]
      omega
    rw [← mouseButtonDown_eq s hi, ← mouseButtonDown_eq t hi, Bool.eq_iff_iff,
      h.buttons _ hbutton, h'.buttons _ hbutton]
  mousePosition := by rw [h.mousePosition, h'.mousePosition]

namespace HeadlessInput

/-- **What the next advance shows**, after any run. -/
theorem folds_settled (ops : List InputOp) :
    Folds (pushed ops) (sinceAdvance ops) (run ops).settled where
  ascending := (run ops).settled.keys.sorted
  keys := by
    intro key
    have hread : decide (key ∈ (run ops).settled.keys.items) = _ :=
      read_run (InputSnapshot.register_key key) (fun _ => rfl) ops
    rw [← decide_eq_true_iff (p := key ∈ _), hread]
    -- `none` is a key that was never touched, and it is not held at the start.
    cases lastSome (InputEvent.keyPressed key) (pushed ops) with
    | none => simp [InputSnapshot.default, Ascending.empty]
    | some pressed => simp
  buttons := by
    intro button hbutton
    rw [read_run (InputSnapshot.register_button hbutton) (fun _ => rfl) ops]
    cases lastSome (InputEvent.buttonPressed button) (pushed ops) with
    | none => simp [InputSnapshot.mouseButtonDown, InputSnapshot.default]
    | some pressed => simp
  mousePosition := read_run InputSnapshot.register_mousePosition (fun _ => rfl) ops
  text := by
    rw [← pending_run]
    exact InputSnapshot.typed_foldl rfl (run ops).pending

/-- **The snapshot folds the events.** -/
theorem advance_folds :
    (∀ ops, (run ops).tryAdvance (fun _ => true) = (.ok (), run (ops ++ [.advance])) ∧
      Folds (pushed ops) (sinceAdvance ops) (run (ops ++ [.advance])).current) ∧
    ∀ ops ops', pushed ops = pushed ops' →
      SameButText (run (ops ++ [.advance])).current (run (ops' ++ [.advance])).current := by
  have hcurrent : ∀ ops, run (ops ++ [.advance]) = ⟨[], (run ops).settled⟩ := by
    intro ops
    rw [run, List.foldl_append, List.foldl_cons, List.foldl_nil, step, tryAdvance_true]
    rfl
  refine ⟨?_, ?_⟩
  · intro ops
    rw [hcurrent, tryAdvance_true]
    exact ⟨rfl, folds_settled ops⟩
  · intro ops ops' hpushed
    have hfolds := folds_settled ops
    rw [hpushed] at hfolds
    rw [hcurrent, hcurrent]
    exact hfolds.sameButText (folds_settled ops')

end HeadlessInput

/-- A key pressed twice, a button and a byte, in one frame and in two. -/
def inOneFrame : List InputOp :=
  [.push (.key 7 true), .push (.mouseButton 1 true), .push (.textByte 65), .push (.key 7 true)]

def inTwoFrames : List InputOp :=
  [.push (.key 7 true), .push (.mouseButton 1 true), .advance, .push (.textByte 65),
    .push (.key 7 true)]

/-- The frame boundary in between is not seen in what is held, only in the text, which a frame
    starts anew. -/
theorem sameButText_of_cuts :
    pushed inOneFrame = pushed inTwoFrames ∧
      SameButText (HeadlessInput.run (inOneFrame ++ [.advance])).current
        (HeadlessInput.run (inTwoFrames ++ [.advance])).current :=
  ⟨rfl, HeadlessInput.advance_folds.2 inOneFrame inTwoFrames rfl⟩

end Input
end EngineKit
