import EngineKit.Bus.Spsc
import Mathlib.Data.List.ReduceOption

/-!
# The end of a ring

What is left in a ring when it is dropped. The slots are `MaybeUninit`, whose own drop does
nothing, so a value that was pushed and not popped is dropped only by a `Drop` of the ring.

That of `SpscRing` goes through the indices from head to tail. The counters wrap, and from the
moment the tail has wrapped and the head has not there are no such indices. `MpscRing` has no
`Drop` at all. So the one releases what it holds exactly if its head is not past its tail, and the
other only if it holds nothing (`drop_released_iff`).
-/

set_option autoImplicit false

namespace EngineKit
namespace Bus

open Lib

variable {w : PointerWidth} {T : Type}

namespace SpscRing

/-- The loop of `drop` over the indices that are left: what it drops, slot by slot. `none` is a slot
    without a live value. -/
def dropSlots (r : SpscRing w T) : List w.Usize → List (Option T)
  | [] => []
  | i :: indices =>
    r.buf[r.slot i]?.join :: dropSlots { r with buf := r.buf.set (r.slot i) none } indices

/-- `drop`, over `head..tail`. -/
def drop (r : SpscRing w T) : List (Option T) :=
  r.dropSlots
    ((List.range' r.head.toNat (r.tail.toNat - r.head.toNat)).map (BitVec.ofNat w.bits))

end SpscRing

/-- There is no `Drop`: the box of slots goes, and what is in them with it. -/
def MpscRing.drop (_ : MpscRing w T) : List (Option T) := []

/-- Each value pushed was popped or dropped, and no other, and no slot without a value was
    dropped. -/
structure Released (pushed popped : List T) (dropped : List (Option T)) : Prop where
  live : ∀ cell ∈ dropped, cell.isSome = true
  each : (popped ++ dropped.reduceOption).Perm pushed

/-- What is not in the ring any more is not dropped, what still is has to be. -/
theorem Released.of_left {pushed popped left : List T} (h : pushed = popped ++ left) :
    Released pushed popped (left.map some) where
  live := by simp
  each := by
    have hleft : (left.map some).reduceOption = left := by
      simp [List.reduceOption, List.filterMap_map]
    rw [hleft, h]

theorem not_released_of_left {pushed popped left : List T} (h : pushed = popped ++ left)
    (hleft : left ≠ []) : ¬ Released pushed popped [] := by
  intro hreleased
  have hlen := hreleased.each.length_eq
  rw [h, List.length_append, List.length_append] at hlen
  exact hleft (List.length_eq_zero_iff.mp (Nat.add_left_cancel hlen).symm)

/-! ## The inbox ring -/

namespace SpscRing

variable {r : SpscRing w T} {taken : Nat} {xs : List T}

/-- Slot by slot, what the cells hold. -/
theorem Sized.dropSlots_eq (h : r.Sized) (hcells : Cells r.buf taken xs) :
    r.dropSlots ((List.range' taken xs.length).map (BitVec.ofNat w.bits)) = xs.map some := by
  induction xs generalizing r taken with
  | nil => rfl
  | cons x xs ih =>
    -- The slot of the first index has the oldest value; emptied, it leaves the others in order.
    have hfront := hcells.front
    have hrest := hcells.take
    rw [← h.slot_eq] at hfront hrest
    have hsized : Sized { r with buf := r.buf.set (r.slot (BitVec.ofNat w.bits taken)) none } :=
      h.congr List.length_set rfl
    rw [List.length_cons, List.range'_succ, List.map_cons, dropSlots, hfront, Option.join_some,
      ih hsized hrest, List.map_cons]

/-- **A ring whose head is not past its tail** drops what it holds. -/
theorem Holds.drop_eq (h : r.Holds taken xs) (hle : r.head ≤ r.tail) :
    r.drop = xs.map some := by
  have hlen : r.tail.toNat - r.head.toNat = xs.length := by
    rw [← h.toNat_len, len, BitVec.toNat_sub_of_le hle]
  have hcount : (List.range' r.head.toNat xs.length).map (BitVec.ofNat w.bits) =
      (List.range' taken xs.length).map (BitVec.ofNat w.bits) := by
    rw [List.range'_eq_map_range, List.range'_eq_map_range, List.map_map, List.map_map]
    refine List.map_congr_left ?_
    intro j _
    show BitVec.ofNat w.bits (r.head.toNat + j) = BitVec.ofNat w.bits (taken + j)
    rw [BitVec.ofNat_add, BitVec.ofNat_add, BitVec.ofNat_toNat, BitVec.setWidth_eq, h.head]
  rw [drop, hlen, hcount]
  exact h.sized.dropSlots_eq h.cells

/-- **A ring whose tail has wrapped** and whose head has not drops nothing, and holds something. -/
theorem Holds.drop_wrapped (h : r.Holds taken xs) (hlt : ¬ r.head ≤ r.tail) :
    r.drop = [] ∧ xs ≠ [] := by
  rw [BitVec.not_le, BitVec.lt_def] at hlt
  constructor
  · -- `head..tail` is empty if it runs backwards.
    rw [drop, Nat.sub_eq_zero_of_le hlt.le]
    rfl
  · intro hempty
    have heq : r.head = r.tail := by
      rw [h.head, h.tail, hempty]
      rfl
    rw [heq] at hlt
    exact Nat.lt_irrefl _ hlt

theorem Holds.released_iff (h : r.Holds taken xs) {pushed popped : List T}
    (hleft : pushed = popped ++ xs) : Released pushed popped r.drop ↔ r.head ≤ r.tail := by
  by_cases hle : r.head ≤ r.tail
  · rw [h.drop_eq hle]
    exact iff_of_true (.of_left hleft) hle
  · obtain ⟨hdrop, hne⟩ := h.drop_wrapped hle
    rw [hdrop]
    exact iff_of_false (not_released_of_left hleft hne) hle

end SpscRing

/-- What is in the ring between the calls of either thread. -/
theorem Spsc.Ok.holds {s : Spsc w T} (h : s.Ok) (hproducer : s.producer = .idle)
    (hconsumer : s.consumer = .idle) :
    ∃ xs, s.ring.Holds s.popped.length xs ∧ s.pushed = s.popped ++ xs := by
  have hcount : s.headCount = s.popped.length := by
    rw [headCount, hconsumer]
    rfl
  have hhead := h.head
  have hcells := h.cells
  rw [hproducer, hconsumer, hcount] at hcells
  rw [hcount] at hhead
  obtain ⟨xs, hxs⟩ := h.inOrder
  refine ⟨xs, ⟨h.sized, hhead, ?_, ?_⟩, hxs.symm⟩
  · rw [h.tail, ← hxs, List.length_append]
  · rw [← hxs] at hcells
    simpa [Consumer.moved, Producer.pending] using hcells

theorem Spsc.Ok.reached {room : Bool} {capacity : w.Usize} {ring : SpscRing w T} {s : Spsc w T}
    (hring : SpscRing.tryWithCapacity room capacity = .ok ring)
    (hr : Reaches Spsc.steps (Spsc.start ring) s) : s.Ok :=
  hr.invariant Spsc.Ok (.start (SpscRing.tryWithCapacity_spec hring).1) fun _ _ _ h hstep =>
    h.step hstep

/-! ## The outbox ring -/

inductive RingCall (T : Type) where
  | push (value : T)
  | pop

/-- The ring and its history. -/
structure Mpsc (w : PointerWidth) (T : Type) where
  ring : MpscRing w T
  pushed : List T
  popped : List T

namespace Mpsc

def start (ring : MpscRing w T) : Mpsc w T := ⟨ring, [], []⟩

/-- The calls of any threads follow each other: the lock is held through each. -/
def call (s : Mpsc w T) : RingCall T → Mpsc w T
  | .push value =>
    match s.ring.push value with
    | (.ok (), ring) => { s with ring, pushed := s.pushed ++ [value] }
    | (.error _, ring) => { s with ring }
  | .pop =>
    match s.ring.pop with
    | (some value, ring) => { s with ring, popped := s.popped ++ [value] }
    | (none, ring) => { s with ring }

def run (ring : MpscRing w T) (calls : List (RingCall T)) : Mpsc w T :=
  calls.foldl call (start ring)

def Ok (s : Mpsc w T) : Prop :=
  ∃ xs, s.ring.cells.Holds s.popped.length xs ∧ s.pushed = s.popped ++ xs

theorem Ok.push {s : Mpsc w T} (h : s.Ok) (value : T) : (s.call (.push value)).Ok := by
  obtain ⟨xs, hholds, hpushed⟩ := h
  by_cases hroom : xs.length < s.ring.cells.buf.length
  · obtain ⟨r', hpush, h', -⟩ := hholds.push_room hroom value
    have hcall : s.call (.push value) =
        { s with ring := ⟨r'⟩, pushed := s.pushed ++ [value] } := by
      simp [Mpsc.call, MpscRing.push, hpush]
    rw [hcall]
    refine ⟨xs ++ [value], h', ?_⟩
    show s.pushed ++ [value] = _
    rw [hpushed, List.append_assoc]
  · have hfull : xs.length = s.ring.cells.buf.length :=
      Nat.le_antisymm hholds.cells.fits (Nat.not_lt.mp hroom)
    have hcall : s.call (.push value) = s := by
      simp [Mpsc.call, MpscRing.push, hholds.push_full hfull value]
    rw [hcall]
    exact ⟨xs, hholds, hpushed⟩

theorem Ok.pop {s : Mpsc w T} (h : s.Ok) : (s.call .pop).Ok := by
  obtain ⟨xs, hholds, hpushed⟩ := h
  cases xs with
  | nil =>
    have hcall : s.call .pop = s := by
      simp [Mpsc.call, MpscRing.pop, hholds.pop_nil]
    rw [hcall]
    exact ⟨[], hholds, hpushed⟩
  | cons x xs =>
    obtain ⟨r', hpop, h', -⟩ := hholds.pop_cons
    have hcall : s.call .pop = { s with ring := ⟨r'⟩, popped := s.popped ++ [x] } := by
      simp [Mpsc.call, MpscRing.pop, hpop]
    rw [hcall]
    refine ⟨xs, ?_, ?_⟩
    · show r'.Holds (s.popped ++ [x]).length xs
      rw [List.length_append]
      exact h'
    · show s.pushed = s.popped ++ [x] ++ xs
      rw [hpushed, List.append_assoc]
      rfl

theorem Ok.run {room : Bool} {capacity : w.Usize} {ring : MpscRing w T}
    (h : MpscRing.tryWithCapacity room capacity = .ok ring) (calls : List (RingCall T)) :
    (Mpsc.run ring calls).Ok := by
  have hstart : (Mpsc.start ring).Ok := ⟨[], (MpscRing.tryWithCapacity_spec h).1, rfl⟩
  induction calls using List.reverseRecOn with
  | nil => exact hstart
  | append_singleton calls c ih =>
    rw [Mpsc.run, List.foldl_append, List.foldl_cons, List.foldl_nil]
    cases c with
    | push value => exact Ok.push ih value
    | pop => exact Ok.pop ih

theorem Ok.released_iff {s : Mpsc w T} (h : s.Ok) :
    Released s.pushed s.popped s.ring.drop ↔ s.ring.cells.head = s.ring.cells.tail := by
  obtain ⟨xs, hholds, hpushed⟩ := h
  have hempty : s.ring.cells.head = s.ring.cells.tail ↔ xs = [] := by
    rw [← hholds.isEmpty_iff, SpscRing.isEmpty, beq_iff_eq]
  rw [hempty]
  constructor
  · intro hreleased
    by_contra hne
    exact not_released_of_left hpushed hne hreleased
  · intro hxs
    rw [hxs] at hpushed
    exact .of_left hpushed

end Mpsc

/-- **When a ring releases what it holds.** After any steps of the two threads of an `SpscRing` that
    end between their calls, if its head is not past its tail; after any calls on an `MpscRing`, if
    there is nothing left in it. -/
theorem drop_released_iff (w : PointerWidth) (T : Type) :
    (∀ (room : Bool) (capacity : w.Usize) (ring : SpscRing w T) (s : Spsc w T),
      SpscRing.tryWithCapacity room capacity = .ok ring → Reaches Spsc.steps (.start ring) s →
        s.producer = .idle → s.consumer = .idle →
          (Released s.pushed s.popped s.ring.drop ↔ s.ring.head ≤ s.ring.tail)) ∧
      ∀ (room : Bool) (capacity : w.Usize) (ring : MpscRing w T) (calls : List (RingCall T)),
        MpscRing.tryWithCapacity room capacity = .ok ring →
          (Released (Mpsc.run ring calls).pushed (Mpsc.run ring calls).popped
              (Mpsc.run ring calls).ring.drop ↔
            (Mpsc.run ring calls).ring.cells.head = (Mpsc.run ring calls).ring.cells.tail) := by
  constructor
  · intro room capacity ring s hring hr hproducer hconsumer
    obtain ⟨xs, hholds, hpushed⟩ := (Spsc.Ok.reached hring hr).holds hproducer hconsumer
    exact hholds.released_iff hpushed
  · intro room capacity ring calls hring
    exact (Mpsc.Ok.run hring calls).released_iff

/-- Two values pushed into an inbox ring and one of them popped: the other is dropped with it. And
    an outbox ring that was emptied again has nothing to drop. -/
theorem drop_released_last :
    (∃ (ring : SpscRing ⟨16, by decide⟩ Nat) (s : Spsc ⟨16, by decide⟩ Nat),
      SpscRing.tryWithCapacity true 2 = .ok ring ∧ Reaches Spsc.steps (.start ring) s ∧
        (s.pushed, s.popped) = ([7, 8], [7]) ∧ Released s.pushed s.popped s.ring.drop) ∧
      ∃ outbox : MpscRing ⟨16, by decide⟩ Nat, MpscRing.tryWithCapacity true 2 = .ok outbox ∧
        Released (Mpsc.run outbox [.push 7, .pop]).pushed (Mpsc.run outbox [.push 7, .pop]).popped
          (Mpsc.run outbox [.push 7, .pop]).ring.drop := by
  let ring : SpscRing ⟨16, by decide⟩ Nat := ⟨[none, none], 1, 0, 0⟩
  have hring : SpscRing.tryWithCapacity true 2 = .ok ring := rfl
  let push (value : Nat) (s : Spsc ⟨16, by decide⟩ Nat) : Spsc ⟨16, by decide⟩ Nat :=
    (fun s => s.produce.observe)^[5] (Spsc.observe
      { s with producer := .called value, fullSeen := false })
  let pop (s : Spsc ⟨16, by decide⟩ Nat) : Spsc ⟨16, by decide⟩ Nat :=
    (fun s => s.consume.observe)^[5] (Spsc.observe
      { s with consumer := .called, emptySeen := false })
  have hpush {s : Spsc ⟨16, by decide⟩ Nat} (hs : s.producer = .idle) (value : Nat) :
      Reaches Spsc.steps s (push value s) :=
    .head ⟨.push value, hs, rfl⟩ (Spsc.reaches_iterate (a := .producer) (fun _ => rfl) _ 5)
  have hpop {s : Spsc ⟨16, by decide⟩ Nat} (hs : s.consumer = .idle) :
      Reaches Spsc.steps s (pop s) :=
    .head ⟨.pop, hs, rfl⟩ (Spsc.reaches_iterate (a := .consumer) (fun _ => rfl) _ 5)
  have hr : Reaches Spsc.steps (.start ring) (pop (push 8 (push 7 (.start ring)))) :=
    ((hpush rfl 7).trans (hpush (by decide) 8)).trans (hpop (by decide))
  have hspsc := (drop_released_iff ⟨16, by decide⟩ Nat).1 true 2 ring _ hring hr (by decide)
    (by decide)
  have hmpsc := (drop_released_iff ⟨16, by decide⟩ Nat).2 true 2 ⟨ring⟩ [.push 7, .pop] rfl
  exact ⟨⟨ring, _, hring, hr, by decide, hspsc.mpr (by decide)⟩,
    ⟨_, rfl, hmpsc.mpr (by decide +kernel)⟩⟩

/-- **One value pushed into the outbox ring, and the ring dropped.** The value is not. -/
theorem drop_leaks :
    ∃ ring : MpscRing .sixtyFour Nat, MpscRing.tryWithCapacity true 2 = .ok ring ∧
      (Mpsc.run ring [.push 7]).pushed = [7] ∧ (Mpsc.run ring [.push 7]).popped = [] ∧
        ¬ Released [7] [] (Mpsc.run ring [.push 7]).ring.drop := by
  refine ⟨_, rfl, ?_, ?_, not_released_of_left (List.nil_append [7]).symm ?_⟩
  · decide +kernel
  · decide +kernel
  · simp

end Bus
end EngineKit
