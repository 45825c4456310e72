import EngineKit.Core.Contents
import EngineKit.Input.Snapshot
import EngineKit.Lib.Collect

/-!
# Input frames and their edges

`InputSubsystem` of `src/subsystems/input.rs`. Each tick applies the queued events and publishes
an `InputFrame`: the snapshot, and the edges, what was pressed and what was released since the
frame before.

The mouse edges are masks and say everything. The key edges are arrays of 32, filled from the
front in ascending order, while the keys the next frame is compared with are all of the snapshot's.
So a frame says which keys came and went if there were at most 32 of each, and of a larger burst
it names the first 32 and drops the others (`edges_of_run`).

`EdgesOf` compares a frame with two snapshots, and not with the events between them: keys that came
and went within one frame leave no trace in it. The invariant over a run is only what the next frame
is compared with (`Follows`), since all else of the subsystem is the queue's business. The reader of
a run is then a fold over the frames, which follows the snapshots from one to the next as long as
each frame leads on.
-/

set_option autoImplicit false

namespace EngineKit
namespace Input

open Lib
open EngineKit.Core
open Schedule (SubscriberId)

structure InputFrame where
  mouseX : Int32
  mouseY : Int32
  mouseButtons : UInt16
  pressedButtons : UInt16
  releasedButtons : UInt16
  keyCount : UInt8
  keys : Vector UInt32 32
  pressedKeyCount : UInt8
  pressedKeys : Vector UInt32 32
  releasedKeyCount : UInt8
  releasedKeys : Vector UInt32 32
  textCount : UInt8
  text : Vector UInt8 64

namespace InputFrame

/-- The first `pressed_key_count` of `pressed_keys`, as its readers take them. -/
def pressed (frame : InputFrame) : List UInt32 :=
  frame.pressedKeys.toList.take frame.pressedKeyCount.toNat

def released (frame : InputFrame) : List UInt32 :=
  frame.releasedKeys.toList.take frame.releasedKeyCount.toNat

end InputFrame

/-- A message in the inbox: its topic, and the event if it carries one. -/
structure InputEnvelope where
  topic : UInt16
  message : Option InputEvent

structure InputSubsystem where
  input : HeadlessInput
  previousMouseButtons : UInt16
  previousKeys : Ascending UInt32

/-- `u8::try_from(count).unwrap_or(otherwise)` -/
def u8OrElse (count : Nat) (otherwise : UInt8) : UInt8 :=
  if count < 256 then UInt8.ofNat count else otherwise

/-- `[zero; n]` with the items copied over its front. -/
def copied {α : Type} (n : Nat) (zero : α) (items : List α) : Vector α n :=
  Vector.ofFn fun i => items.getD i zero

/-- The buttons of the snapshot, asked for one by one. -/
def buttonMask (s : InputSnapshot) : UInt16 :=
  (List.range 16).foldl
    (fun buttons button =>
      if s.mouseButtonDown (UInt8.ofNat button) then
        buttons ||| ((1 : UInt16) <<< UInt16.ofNat button)
      else buttons) 0

/-- The keys of one list that are not in the other, as far as the array goes. -/
def keyEdges (keys others : Ascending UInt32) : Vector UInt32 32 × Nat :=
  keys.items.foldl (collect fun key => ! others.items.contains key) (Vector.replicate 32 0, 0)

/-- The frame that a tick builds. -/
def InputSnapshot.frame (snapshot : InputSnapshot) (previousMouseButtons : UInt16)
    (previousKeys : Ascending UInt32) : InputFrame :=
  let buttons := buttonMask snapshot
  let keyCount := min snapshot.keys.items.length 32
  let (pressedKeys, pressedKeyCount) := keyEdges snapshot.keys previousKeys
  let (releasedKeys, releasedKeyCount) := keyEdges previousKeys snapshot.keys
  { mouseX := snapshot.mousePosition.1
    mouseY := snapshot.mousePosition.2
    mouseButtons := buttons
    pressedButtons := buttons &&& ~~~previousMouseButtons
    releasedButtons := previousMouseButtons &&& ~~~buttons
    keyCount := u8OrElse keyCount 32
    keys := copied 32 0 (snapshot.keys.items.take keyCount)
    pressedKeyCount := u8OrElse pressedKeyCount 32
    pressedKeys := pressedKeys
    releasedKeyCount := u8OrElse releasedKeyCount 32
    releasedKeys := releasedKeys
    textCount := u8OrElse snapshot.typed.length 64
    text := copied 64 0 snapshot.typed }

namespace InputSubsystem

def default : InputSubsystem := ⟨.default, 0, .empty⟩

/-- The messages of the inbox, each with the room there is in the queue. One that finds none is
    lost. -/
def receive (envelopes : List (Bool × InputEnvelope)) (input : HeadlessInput) : HeadlessInput :=
  envelopes.foldl
    (fun input envelope =>
      if envelope.2.topic = 4 then
        match envelope.2.message with
        | some event => (input.tryPush envelope.1 event).2
        | none => input
      else input) input

/-- `tick`, up to the frame it publishes. Without memory for a key `advance` panics, and there is
    no frame. -/
def tick (envelopes : List (Bool × InputEnvelope)) (rooms : Nat → Bool) (s : InputSubsystem) :
    Option InputFrame × InputSubsystem :=
  match (receive envelopes s.input).tryAdvance rooms with
  | (.error _, input) => (none, { s with input })
  | (.ok (), input) =>
    let frame := input.current.frame s.previousMouseButtons s.previousKeys
    (some frame,
      { input, previousMouseButtons := frame.mouseButtons, previousKeys := input.current.keys })

/-- The rest of `tick`: the frame goes to each of four subsystems that is there, whatever the bus
    answers. -/
def publish (resolve : String → Option SubscriberId) (frame : InputFrame) : Callback InputFrame :=
  (["ui", "physics", "sudoku-game", "rubik-driver"].filterMap resolve).foldr
    (fun id next => .publish id 2 frame fun _ => next) .done

end InputSubsystem

/-- Nobody is sent anything but the frame. -/
theorem InputSubsystem.publish_sends (resolve : String → Option SubscriberId)
    (frame : InputFrame) :
    (publish resolve frame).Sends fun id topic payload =>
      topic = 2 ∧ payload = frame ∧ ∃ name, resolve name = some id := by
  unfold publish
  generalize hids : ["ui", "physics", "sudoku-game", "rubik-driver"].filterMap resolve = ids
  have hresolved : ∀ id ∈ ids, ∃ name, resolve name = some id := by
    intro id hid
    rw [← hids] at hid
    obtain ⟨name, -, hname⟩ := List.mem_filterMap.mp hid
    exact ⟨name, hname⟩
  clear hids
  induction ids with
  | nil => exact trivial
  | cons id ids ih =>
    refine ⟨⟨rfl, rfl, hresolved id List.mem_cons_self⟩, ?_⟩
    intro _
    exact ih fun q hq => hresolved q (List.mem_cons_of_mem _ hq)

/-! ## The masks -/

/-- The bit that the snapshot's code shifts into place, and the one the frame's code does. -/
theorem toBitVec_shift {button : Nat} (h : button < 16) :
    ((1 : UInt16) <<< (UInt8.ofNat button).toUInt16).toBitVec = BitVec.twoPow 16 button ∧
      ((1 : UInt16) <<< UInt16.ofNat button).toBitVec = BitVec.twoPow 16 button := by
  have hall : ∀ b < 16,
      ((1 : UInt16) <<< (UInt8.ofNat b).toUInt16).toBitVec = BitVec.twoPow 16 b ∧
        ((1 : UInt16) <<< UInt16.ofNat b).toBitVec = BitVec.twoPow 16 b := by decide
  exact hall button h

/-- A button of the snapshot is a bit of its mask. -/
theorem mouseButtonDown_eq (s : InputSnapshot) {button : Nat} (h : button < 16) :
    s.mouseButtonDown (UInt8.ofNat button) = s.mouseButtons.toBitVec.getLsbD button := by
  have hlt : UInt8.ofNat button < 16 := by
    have hall : ∀ b < 16, UInt8.ofNat b < 16 := by decide
    exact hall button h
  have hne : BitVec.twoPow 16 button ≠ 0#16 := by
    intro hzero
    have hbit : (BitVec.twoPow 16 button).getLsbD button = true := by simp [h]
    rw [hzero] at hbit
    exact absurd hbit (by simp)
  rw [InputSnapshot.mouseButtonDown, decide_eq_true hlt, Bool.true_and, Bool.eq_iff_iff, bne_iff_ne,
    ne_eq, ← UInt16.toBitVec_inj, UInt16.toBitVec_and, (toBitVec_shift h).1, BitVec.and_twoPow]
  cases hbit : s.mouseButtons.toBitVec.getLsbD button with
  | false => simp
  | true => simpa using hne

/-- Those of the buttons asked for that are down. -/
theorem getLsbD_buttons (s : InputSnapshot) {buttons : List Nat} (h : ∀ b ∈ buttons, b < 16)
    (mask : UInt16) (i : Nat) :
    (buttons.foldl
      (fun buttons button =>
        if s.mouseButtonDown (UInt8.ofNat button) then
          buttons ||| ((1 : UInt16) <<< UInt16.ofNat button)
        else buttons) mask).toBitVec.getLsbD i =
      (mask.toBitVec.getLsbD i || (decide (i ∈ buttons) && s.mouseButtons.toBitVec.getLsbD i)) := by
  -- On the buttons that are asked for; each sets its own bit.
  induction buttons generalizing mask with
  | nil => simp
  | cons b buttons ih =>
    have hb : b < 16 := h b List.mem_cons_self
    have hstep : (if s.mouseButtonDown (UInt8.ofNat b) then
          mask ||| ((1 : UInt16) <<< UInt16.ofNat b) else mask).toBitVec.getLsbD i =
        (mask.toBitVec.getLsbD i || (decide (i = b) && s.mouseButtons.toBitVec.getLsbD i)) := by
      rw [mouseButtonDown_eq s hb]
      by_cases hi : i = b
      · subst hi
        cases hbit : s.mouseButtons.toBitVec.getLsbD i with
        | false => simp
        | true => simp [(toBitVec_shift hb).2, hb]
      · cases s.mouseButtons.toBitVec.getLsbD b with
        | false => simp [hi]
        | true =>
          have hother : b ≠ i := fun heq => hi heq.symm
          simp [(toBitVec_shift hb).2, hi, hother]
    rw [List.foldl_cons, ih fun q hq => h q (List.mem_cons_of_mem _ hq), hstep]
    simp only [List.mem_cons, Bool.decide_or, Bool.or_assoc, Bool.and_or_distrib_right]

/-- Asked one by one, the buttons give the mask again. -/
theorem buttonMask_eq (s : InputSnapshot) : buttonMask s = s.mouseButtons := by
  refine UInt16.toBitVec_inj.mp (BitVec.eq_of_getLsbD_eq ?_)
  intro i hi
  rw [buttonMask, getLsbD_buttons s (fun b hb => List.mem_range.mp hb)]
  simp [hi]

/-- **The mask edges are complete.** -/
theorem mask_edges (before now : UInt16) :
    (before ||| (now &&& ~~~before)) &&& ~~~(before &&& ~~~now) = now := by
  refine UInt16.toBitVec_inj.mp (BitVec.eq_of_getLsbD_eq ?_)
  intro i hi
  simp only [UInt16.toBitVec_and, UInt16.toBitVec_or, UInt16.toBitVec_not, BitVec.getLsbD_and,
    BitVec.getLsbD_or, BitVec.getLsbD_not, hi, decide_true, Bool.true_and]
  cases before.toBitVec.getLsbD i with
  | false => simp
  | true => simp

/-! ## The key edges

An array that is too short is filled with the first keys and says nothing of the others. That the
edges do not lead to the new set is then not a matter of bad luck: `patched_eq_iff` says that
nothing but all that came and all that went does.
-/

/-- A count of at most 32 fits in a byte. -/
theorem u8OrElse_toNat {count : Nat} (h : count ≤ 32) (otherwise : UInt8) :
    (u8OrElse count otherwise).toNat = count := by
  have hlt : count < 256 := by omega
  rw [u8OrElse, if_pos hlt]
  exact Nat.mod_eq_of_lt hlt

/-- The first 32 keys of one list that are not in the other. -/
theorem collected_keyEdges (keys others : Ascending UInt32) :
    (keyEdges keys others).2 ≤ 32 ∧
      collected (keyEdges keys others) =
        (keys.items.filter fun key => ! others.items.contains key).take 32 := by
  obtain ⟨hle, hlist⟩ := @collected_foldl UInt32 32 (fun key => ! others.items.contains key)
    (Vector.replicate 32 0, 0) (Nat.zero_le _) keys.items
  exact ⟨hle, hlist⟩

/-- **What a frame says of the edges** between the snapshot before and its own. -/
structure EdgesOf (before : InputSnapshot) (frame : InputFrame) (now : InputSnapshot) : Prop where
  pressed : frame.pressed =
    (now.keys.items.filter fun key => ! before.keys.items.contains key).take 32
  released : frame.released =
    (before.keys.items.filter fun key => ! now.keys.items.contains key).take 32
  mouseButtons : frame.mouseButtons = now.mouseButtons
  pressedButtons : frame.pressedButtons = now.mouseButtons &&& ~~~before.mouseButtons
  releasedButtons : frame.releasedButtons = before.mouseButtons &&& ~~~now.mouseButtons

/-- **The frame that is built** has the edges. -/
theorem edgesOf_frame (before now : InputSnapshot) :
    EdgesOf before (now.frame before.mouseButtons before.keys) now := by
  obtain ⟨hple, hpressed⟩ := collected_keyEdges now.keys before.keys
  obtain ⟨hrle, hreleased⟩ := collected_keyEdges before.keys now.keys
  refine ⟨?_, ?_, buttonMask_eq now, ?_, ?_⟩
  · rw [← hpressed, collected, ← u8OrElse_toNat hple 32]
    rfl
  · rw [← hreleased, collected, ← u8OrElse_toNat hrle 32]
    rfl
  · show buttonMask now &&& ~~~before.mouseButtons = _
    rw [buttonMask_eq]
  · show before.mouseButtons &&& ~~~buttonMask now = _
    rw [buttonMask_eq]

/-- At most 32 keys come and at most 32 go. -/
def Calm (before now : Finset UInt32) : Prop :=
  (now \ before).card ≤ 32 ∧ (before \ now).card ≤ 32

instance (before now : Finset UInt32) : Decidable (Calm before now) :=
  inferInstanceAs (Decidable (_ ∧ _))

theorem toFinset_take_subset (xs : List UInt32) (n : Nat) : (xs.take n).toFinset ⊆ xs.toFinset := by
  intro key hkey
  rw [List.mem_toFinset] at hkey ⊢
  exact List.mem_of_mem_take hkey

/-- The first of distinct keys are all of them only if they are few enough. -/
theorem toFinset_take_eq_iff {xs : List UInt32} (h : xs.Nodup) (n : Nat) :
    (xs.take n).toFinset = xs.toFinset ↔ xs.toFinset.card ≤ n := by
  have htake : (xs.take n).Nodup := h.sublist (List.take_sublist _ _)
  rw [List.toFinset_card_of_nodup h]
  constructor
  · intro heq
    have hcard := congrArg Finset.card heq
    rw [List.toFinset_card_of_nodup h, List.toFinset_card_of_nodup htake, List.length_take] at hcard
    omega
  · intro hle
    rw [List.take_of_length_le hle]

/-- What came and what went, applied in part, is only the new set when all of it was. -/
theorem patched_eq_iff {before now came gone : Finset UInt32} (hcame : came ⊆ now \ before)
    (hgone : gone ⊆ before \ now) :
    (before ∪ came) \ gone = now ↔ came = now \ before ∧ gone = before \ now := by
  constructor
  · intro h
    refine ⟨Finset.Subset.antisymm hcame ?_, Finset.Subset.antisymm hgone ?_⟩
    · intro key hkey
      obtain ⟨hnow, hbefore⟩ := Finset.mem_sdiff.mp hkey
      rw [← h] at hnow
      exact (Finset.mem_union.mp (Finset.mem_sdiff.mp hnow).1).resolve_left hbefore
    · intro key hkey
      obtain ⟨hbefore, hnow⟩ := Finset.mem_sdiff.mp hkey
      by_contra hkept
      refine hnow ?_
      rw [← h]
      exact Finset.mem_sdiff.mpr ⟨Finset.mem_union_left _ hbefore, hkept⟩
  · intro h
    obtain ⟨rfl, rfl⟩ := h
    ext key
    simp only [Finset.mem_sdiff, Finset.mem_union]
    -- A key that was down is in the new set unless it went; one that was not, only if it came.
    by_cases hbefore : key ∈ before
    · simp [hbefore]
    · simp [hbefore]

theorem toFinset_edges (keys others : Ascending UInt32) :
    (keys.items.filter fun key => ! others.items.contains key).toFinset =
      keys.toFinset \ others.toFinset := by
  ext key
  simp

/-- **When the key edges of a frame are complete.** -/
theorem EdgesOf.complete_iff {before now : InputSnapshot} {frame : InputFrame}
    (h : EdgesOf before frame now) :
    (before.held ∪ frame.pressed.toFinset) \ frame.released.toFinset = now.held ↔
      Calm before.held now.held := by
  have hcame := toFinset_edges now.keys before.keys
  have hgone := toFinset_edges before.keys now.keys
  have hpressed := toFinset_take_eq_iff
    (now.keys.nodup.filter fun key => ! before.keys.items.contains key) 32
  have hreleased := toFinset_take_eq_iff
    (before.keys.nodup.filter fun key => ! now.keys.items.contains key) 32
  rw [← h.pressed, hcame] at hpressed
  rw [← h.released, hgone] at hreleased
  have hsub : frame.pressed.toFinset ⊆ now.held \ before.held := by
    rw [h.pressed]
    exact Finset.Subset.trans (toFinset_take_subset _ _) (Finset.subset_of_eq hcame)
  have hsub' : frame.released.toFinset ⊆ before.held \ now.held := by
    rw [h.released]
    exact Finset.Subset.trans (toFinset_take_subset _ _) (Finset.subset_of_eq hgone)
  rw [patched_eq_iff hsub hsub']
  exact and_congr hpressed hreleased

/-- The masks lead from the one set of buttons to the other. -/
theorem EdgesOf.buttons {before now : InputSnapshot} {frame : InputFrame}
    (h : EdgesOf before frame now) :
    (before.mouseButtons ||| frame.pressedButtons) &&& ~~~frame.releasedButtons =
      now.mouseButtons := by
  rw [h.pressedButtons, h.releasedButtons, mask_edges]

/-! ## Runs -/

/-- The subsystem is ticked, and between two ticks others reach its `HeadlessInput` through
    `input_mut`. -/
inductive InputStep where
  | push (room : Bool) (event : InputEvent)
  | advance (rooms : Nat → Bool)
  | tick (envelopes : List (Bool × InputEnvelope)) (rooms : Nat → Bool)

def InputSubsystem.step (s : InputSubsystem) : InputStep → Option InputFrame × InputSubsystem
  | .push room event => (none, { s with input := (s.input.tryPush room event).2 })
  | .advance rooms => (none, { s with input := (s.input.tryAdvance rooms).2 })
  | .tick envelopes rooms => s.tick envelopes rooms

/-- The frames of a run, each with its snapshot. -/
def InputSubsystem.emitted (s : InputSubsystem) :
    List InputStep → List (InputFrame × InputSnapshot)
  | [] => []
  | step :: steps =>
    match s.step step with
    | (none, s) => s.emitted steps
    | (some frame, s) => (frame, s.input.current) :: s.emitted steps

/-- The snapshot of the last of these frames, or the one before them all. -/
def lastShown (before : InputSnapshot) (shown : List (InputFrame × InputSnapshot)) :
    InputSnapshot :=
  shown.foldl (fun _ frame => frame.2) before

/-- Each frame has the edges since the one before. -/
def Linked : InputSnapshot → List (InputFrame × InputSnapshot) → Prop
  | _, [] => True
  | before, (frame, now) :: shown => EdgesOf before frame now ∧ Linked now shown

/-- Each is calm. -/
def CalmRun : InputSnapshot → List (InputFrame × InputSnapshot) → Prop
  | _, [] => True
  | before, (_, now) :: shown => Calm before.held now.held ∧ CalmRun now shown

/-- What the next frame is compared with. -/
def InputSubsystem.Follows (s : InputSubsystem) (before : InputSnapshot) : Prop :=
  s.previousKeys = before.keys ∧ s.previousMouseButtons = before.mouseButtons

/-- **A step.** A frame has the edges since the last one, and the next is compared with it. -/
theorem InputSubsystem.Follows.step {s : InputSubsystem} {before : InputSnapshot}
    (h : s.Follows before) (step : InputStep) :
    match s.step step with
    | (none, s') => s'.Follows before
    | (some frame, s') => EdgesOf before frame s'.input.current ∧ s'.Follows s'.input.current := by
  -- Nothing but a tick that succeeds publishes or remembers anything.
  cases step with
  | push room event => exact h
  | advance rooms => exact h
  | tick envelopes rooms =>
    simp only [InputSubsystem.step, InputSubsystem.tick]
    cases hadvance : (receive envelopes s.input).tryAdvance rooms with
    | mk result input =>
      cases result with
      | error error => exact h
      | ok _ =>
        obtain ⟨hkeys, hbuttons⟩ := h
        have hedges := edgesOf_frame before input.current
        rw [← hkeys, ← hbuttons] at hedges
        exact ⟨hedges, rfl, hedges.mouseButtons⟩

/-- **A run.** -/
theorem InputSubsystem.Follows.linked {s : InputSubsystem} {before : InputSnapshot}
    (h : s.Follows before) (steps : List InputStep) : Linked before (s.emitted steps) := by
  induction steps generalizing s before with
  | nil => exact trivial
  | cons step steps ih =>
    have hstep := h.step step
    rw [InputSubsystem.emitted]
    cases hs : s.step step with
    | mk frame s' =>
      rw [hs] at hstep
      cases frame with
      | none => exact ih hstep
      | some frame => exact ⟨hstep.1, ih hstep.2⟩

/-- Any frame of the run, with the snapshot shown before it. -/
theorem Linked.edgesOf {before : InputSnapshot} {front back : List (InputFrame × InputSnapshot)}
    {frame : InputFrame} {now : InputSnapshot} (h : Linked before (front ++ (frame, now) :: back)) :
    EdgesOf (lastShown before front) frame now := by
  induction front generalizing before with
  | nil => exact h.1
  | cons shown front ih => exact ih h.2

/-- The frames up to some frame. -/
theorem Linked.front {before : InputSnapshot} {front back : List (InputFrame × InputSnapshot)}
    (h : Linked before (front ++ back)) : Linked before front := by
  induction front generalizing before with
  | nil => exact trivial
  | cons shown front ih => exact ⟨h.1, ih h.2⟩

/-- Who reads nothing but the edges. -/
structure EdgeReader where
  keys : Finset UInt32
  buttons : UInt16

def EdgeReader.read (reader : EdgeReader) (frame : InputFrame) : EdgeReader where
  keys := (reader.keys ∪ frame.pressed.toFinset) \ frame.released.toFinset
  buttons := (reader.buttons ||| frame.pressedButtons) &&& ~~~frame.releasedButtons

/-- The masks are all a reader needs for the buttons. -/
theorem Linked.read_buttons {before : InputSnapshot} {shown : List (InputFrame × InputSnapshot)}
    (h : Linked before shown) (keys : Finset UInt32) :
    ((shown.map Prod.fst).foldl EdgeReader.read ⟨keys, before.mouseButtons⟩).buttons =
      (lastShown before shown).mouseButtons := by
  induction shown generalizing before keys with
  | nil => rfl
  | cons first shown ih =>
    obtain ⟨frame, now⟩ := first
    obtain ⟨hedges, hrest⟩ := h
    rw [List.map_cons, List.foldl_cons, EdgeReader.read, hedges.buttons]
    exact ih hrest _

/-- **In a calm run the edges are all a reader needs.** -/
theorem Linked.read_eq {before : InputSnapshot} {shown : List (InputFrame × InputSnapshot)}
    (h : Linked before shown) (hcalm : CalmRun before shown) :
    (shown.map Prod.fst).foldl EdgeReader.read ⟨before.held, before.mouseButtons⟩ =
      ⟨(lastShown before shown).held, (lastShown before shown).mouseButtons⟩ := by
  induction shown generalizing before with
  | nil => rfl
  | cons first shown ih =>
    obtain ⟨frame, now⟩ := first
    obtain ⟨hedges, hrest⟩ := h
    obtain ⟨hfirst, hcalm⟩ := hcalm
    have hread : EdgeReader.read ⟨before.held, before.mouseButtons⟩ frame =
        ⟨now.held, now.mouseButtons⟩ := by
      rw [EdgeReader.read, hedges.complete_iff.mpr hfirst, hedges.buttons]
    rw [List.map_cons, List.foldl_cons, hread]
    exact ih hrest hcalm

/-- **The edges of a run.** A frame names, in ascending order, the first 32 keys that came since
    the frame before and the first 32 that went; so these lead from the one set of keys to the
    other exactly if no more came and no more went, and as long as this was so in every frame a
    reader of the edges knows the keys that are down. The mouse masks always do. -/
theorem InputSubsystem.edges_of_run {steps : List InputStep}
    {front back : List (InputFrame × InputSnapshot)} {frame : InputFrame} {now : InputSnapshot}
    (h : InputSubsystem.default.emitted steps = front ++ (frame, now) :: back) :
    EdgesOf (lastShown .default front) frame now ∧
    ((lastShown .default front).mouseButtons ||| frame.pressedButtons) &&&
        ~~~frame.releasedButtons = now.mouseButtons ∧
    (((lastShown .default front).held ∪ frame.pressed.toFinset) \ frame.released.toFinset =
        now.held ↔ Calm (lastShown .default front).held now.held) ∧
    (((front ++ [(frame, now)]).map Prod.fst).foldl EdgeReader.read ⟨∅, 0⟩).buttons =
        now.mouseButtons ∧
    (CalmRun .default (front ++ [(frame, now)]) →
      ((front ++ [(frame, now)]).map Prod.fst).foldl EdgeReader.read ⟨∅, 0⟩ =
        ⟨now.held, now.mouseButtons⟩) := by
  have hstart : InputSubsystem.default.Follows .default := ⟨rfl, rfl⟩
  have hlinked := hstart.linked steps
  rw [h] at hlinked
  have hedges := hlinked.edgesOf
  have hsplit : front ++ (frame, now) :: back = (front ++ [(frame, now)]) ++ back := by simp
  rw [hsplit] at hlinked
  have hlast : lastShown .default (front ++ [(frame, now)]) = now := by
    rw [lastShown, List.foldl_append]
    rfl
  have hbuttons := hlinked.front.read_buttons ∅
  rw [hlast] at hbuttons
  refine ⟨hedges, hedges.buttons, hedges.complete_iff, hbuttons, ?_⟩
  intro hcalm
  have hread := hlinked.front.read_eq hcalm
  rw [hlast] at hread
  exact hread

/-- One key is down. -/
def oneKey (key : UInt32) : InputSnapshot :=
  { InputSnapshot.default with keys := ⟨[key], List.pairwise_singleton _ _⟩ }

/-- A key is pressed in the first frame; in the second it is released, and another one pressed. -/
theorem InputSubsystem.edges_of_one_key :
    ∃ steps, InputSubsystem.default.emitted steps =
        [((oneKey 7).frame 0 .empty, oneKey 7), ((oneKey 9).frame 0 (oneKey 7).keys, oneKey 9)] ∧
      ((oneKey 9).frame 0 (oneKey 7).keys).pressed = [9] ∧
      ((oneKey 9).frame 0 (oneKey 7).keys).released = [7] ∧
      [(oneKey 7).frame 0 .empty, (oneKey 9).frame 0 (oneKey 7).keys].foldl EdgeReader.read ⟨∅, 0⟩ =
        ⟨{9}, 0⟩ := by
  let steps : List InputStep :=
    [.tick [(true, ⟨4, some (.key 7 true)⟩)] fun _ => true,
      .tick [(true, ⟨4, some (.key 7 false)⟩), (true, ⟨4, some (.key 9 true)⟩)] fun _ => true]
  have hemitted : InputSubsystem.default.emitted steps =
      [((oneKey 7).frame 0 .empty, oneKey 7)] ++
        ((oneKey 9).frame 0 (oneKey 7).keys, oneKey 9) :: [] := rfl
  obtain ⟨-, -, -, -, hread⟩ := InputSubsystem.edges_of_run hemitted
  exact ⟨steps, hemitted, by decide, by decide, hread ⟨by decide, by decide, trivial⟩⟩

/-- Keys 0 to 32, pressed in one frame. -/
def burst : List (Bool × InputEnvelope) :=
  (List.range 33).map fun key => (true, ⟨4, some (.key (UInt32.ofNat key) true)⟩)

/-- The edges of its one frame do not lead to the keys that are down. -/
theorem InputSubsystem.burst_incomplete :
    ((InputSubsystem.default.emitted [.tick burst fun _ => true]).map fun shown =>
      decide ((∅ ∪ shown.1.pressed.toFinset) \ shown.1.released.toFinset = shown.2.held)) =
        [false] := by
  decide +kernel

end Input
end EngineKit
