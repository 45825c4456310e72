import EngineKit.Bus.Ring
import EngineKit.Lib.SpinLock

/-!
# The outbox on many threads

`MpscRing::push`, `pop` and `is_empty` called by any threads, each load, slot access and store of a
counter a step of its own, behind the spin lock. Whatever the schedule, the ring is a queue of its
capacity (`outbox_linear`): there is an order of the calls, the one they return in, in which each
answers as a queue does. So nothing is lost, doubled or taken out of turn, a push is refused only
when the queue is full, and a pop comes back without a value only when it is empty.

Two arguments meet here, and neither knows of the other. That the sections between `acquire` and the
drop of the guard may be read as if each ran alone is the lock's (`Critical.Follows`, of the
library), and is true of any data; that a section which runs alone is a call on a queue is the
ring's (`call_queue`), and needs no threads.
-/

set_option autoImplicit false

namespace EngineKit
namespace Bus

open Lib

variable {w : PointerWidth} {V T : Type}

inductive OutboxOp (V : Type) where
  | push (value : V)
  | pop
  | isEmpty

inductive OutboxAnswer (V : Type) where
  | pushed (result : Except V Unit)
  | popped (value : Option V)
  | empty (empty : Bool)

/-- The places between `acquire` and the drop of the guard. -/
inductive OutboxPlace (w : PointerWidth) (V : Type) where
  | push (value : V)
  | tailRead (value : V) (tail : w.Usize)
  | headRead (value : V) (tail head : w.Usize)
  | written (value : V) (tail : w.Usize)
  | pop
  | popHead (head : w.Usize)
  | popBoth (head tail : w.Usize)
  | taken (cell : Option V) (head : w.Usize)
  | isEmpty
  | emptyHead (head : w.Usize)

/-- The sections that the lock guards. -/
def outbox (w : PointerWidth) (V : Type) :
    Critical (MpscRing w V) (OutboxOp V) (OutboxPlace w V) (OutboxAnswer V) where
  enter
    | .push value => .push value
    | .pop => .pop
    | .isEmpty => .isEmpty
  step
    | .push value, r => (r, .inl (.tailRead value r.cells.tail))
    | .tailRead value tail, r => (r, .inl (.headRead value tail r.cells.head))
    | .headRead value tail head, r =>
      if r.cells.capacity ≤ tail - head then (r, .inr (.pushed (.error value)))
      else
        (⟨{ r.cells with buf := r.cells.buf.set (r.cells.slot tail) (some value) }⟩,
          .inl (.written value tail))
    | .written _ tail, r => (⟨{ r.cells with tail := tail + 1 }⟩, .inr (.pushed (.ok ())))
    | .pop, r => (r, .inl (.popHead r.cells.head))
    | .popHead head, r => (r, .inl (.popBoth head r.cells.tail))
    | .popBoth head tail, r =>
      if head = tail then (r, .inr (.popped none))
      else
        (⟨{ r.cells with buf := r.cells.buf.set (r.cells.slot head) none }⟩,
          .inl (.taken r.cells.buf[r.cells.slot head]?.join head))
    | .taken cell head, r => (⟨{ r.cells with head := head + 1 }⟩, .inr (.popped cell))
    | .isEmpty, r => (r, .inl (.emptyHead r.cells.head))
    | .emptyHead head, r => (r, .inr (.empty (head == r.cells.tail)))

/-- A call made at once. -/
def MpscRing.call (r : MpscRing w V) : OutboxOp V → OutboxAnswer V × MpscRing w V
  | .push value => (.pushed (r.push value).1, (r.push value).2)
  | .pop => (.popped r.pop.1, r.pop.2)
  | .isEmpty => (.empty r.cells.isEmpty, r)

/-- A section that runs alone is the call. -/
theorem call_of_runs {op : OutboxOp V} {r r' : MpscRing w V} {a : OutboxAnswer V}
    (h : (outbox w V).Runs ((outbox w V).enter op) r a r') : r.call op = (a, r') := by
  -- Each section from its first step to its last; where it branches on the counters so does the
  -- call.
  cases op with
  | push value =>
    have hread : (outbox w V).Runs (.headRead value r.cells.tail r.cells.head) r a r' :=
      (Critical.Runs.more_iff rfl).mp ((Critical.Runs.more_iff rfl).mp h)
    rw [MpscRing.call, MpscRing.push, SpscRing.push]
    by_cases hfull : r.cells.capacity ≤ r.cells.tail - r.cells.head
    · obtain ⟨rfl, rfl⟩ := (Critical.Runs.last_iff (if_pos hfull)).mp hread
      simp only [if_pos hfull]
    · have hwritten := (Critical.Runs.more_iff (if_neg hfull)).mp hread
      obtain ⟨rfl, rfl⟩ := (Critical.Runs.last_iff rfl).mp hwritten
      simp only [if_neg hfull]
  | pop =>
    have hread : (outbox w V).Runs (.popBoth r.cells.head r.cells.tail) r a r' :=
      (Critical.Runs.more_iff rfl).mp ((Critical.Runs.more_iff rfl).mp h)
    rw [MpscRing.call, MpscRing.pop, SpscRing.pop]
    by_cases hempty : r.cells.head = r.cells.tail
    · obtain ⟨rfl, rfl⟩ := (Critical.Runs.last_iff (if_pos hempty)).mp hread
      simp only [if_pos hempty]
    · have htaken := (Critical.Runs.more_iff (if_neg hempty)).mp hread
      obtain ⟨rfl, rfl⟩ := (Critical.Runs.last_iff rfl).mp htaken
      simp only [if_neg hempty]
  | isEmpty =>
    have hread : (outbox w V).Runs (.emptyHead r.cells.head) r a r' :=
      (Critical.Runs.more_iff rfl).mp h
    obtain ⟨rfl, rfl⟩ := (Critical.Runs.last_iff rfl).mp hread
    rfl

/-! ## A queue -/

/-- A queue of at most `size` values. -/
def queueCall (size : Nat) (xs : List V) : OutboxOp V → OutboxAnswer V × List V
  | .push value =>
    if xs.length < size then (.pushed (.ok ()), xs ++ [value]) else (.pushed (.error value), xs)
  | .pop => (.popped xs.head?, xs.tail)
  | .isEmpty => (.empty xs.isEmpty, xs)

/-- Calls on a queue with the answers it gives, and what they leave in it. -/
inductive QueueLog (size : Nat) : List (T × OutboxOp V × OutboxAnswer V) → List V → Prop where
  | start : QueueLog size [] []
  | call {log : List (T × OutboxOp V × OutboxAnswer V)} {xs : List V}
      (before : QueueLog size log xs) (thread : T) (op : OutboxOp V) :
      QueueLog size (log ++ [(thread, op, (queueCall size xs op).1)]) (queueCall size xs op).2

/-- A ring answers as a queue. -/
theorem call_queue {r : MpscRing w V} {size : Nat} (hwf : r.cells.Wf)
    (hsize : r.cells.buf.length = size) (op : OutboxOp V) :
    ∃ r', r.call op = ((queueCall size r.cells.contents op).1, r') ∧ r'.cells.Wf ∧
      r'.cells.buf.length = size ∧ r'.cells.contents = (queueCall size r.cells.contents op).2 := by
  -- The call on the ring and the call on the queue, by what the ring holds.
  cases op with
  | push value =>
    rw [MpscRing.call, MpscRing.push, queueCall, ← hsize]
    by_cases hroom : r.cells.contents.length < r.cells.buf.length
    · obtain ⟨cells, hpush, hwf', hsize', hcontents⟩ := hwf.push_room hroom value
      rw [hpush, if_pos hroom]
      exact ⟨⟨cells⟩, rfl, hwf', hsize', hcontents⟩
    · rw [hwf.push_full hroom value, if_neg hroom]
      exact ⟨r, rfl, hwf, rfl, rfl⟩
  | pop =>
    obtain ⟨cells, hpop, hwf', hsize', hcontents⟩ := hwf.pop_spec
    rw [MpscRing.call, MpscRing.pop, hpop]
    exact ⟨⟨cells⟩, rfl, hwf', hsize'.trans hsize, hcontents⟩
  | isEmpty =>
    have hempty : r.cells.isEmpty = r.cells.contents.isEmpty := by
      obtain ⟨taken, hholds⟩ := hwf
      rw [Bool.eq_iff_iff, hholds.isEmpty_iff, List.isEmpty_iff]
    rw [MpscRing.call, hempty]
    exact ⟨r, rfl, hwf, hsize, rfl⟩

/-- Calls one after the other, on a ring that holds what the queue does. -/
theorem queueLog_of_follows {ring r : MpscRing w V} {size : Nat}
    {log : List (T × OutboxOp V × OutboxAnswer V)} (hstart : ring.cells.Holds 0 [])
    (hsize : ring.cells.buf.length = size) (h : (outbox w V).Follows ring log r) :
    r.cells.Wf ∧ r.cells.buf.length = size ∧ QueueLog size log r.cells.contents := by
  induction h with
  | start =>
    refine ⟨hstart.wf, hsize, ?_⟩
    rw [hstart.contents_eq]
    exact .start
  | @call log d d' op a before thread hruns ih =>
    obtain ⟨hwf, hlength, hlog⟩ := ih
    obtain ⟨r', hcall, hwf', hlength', hcontents⟩ := call_queue hwf hlength op
    obtain ⟨rfl, rfl⟩ := Prod.mk.inj (hcall.symm.trans (call_of_runs hruns))
    refine ⟨hwf', hlength', ?_⟩
    rw [hcontents]
    exact hlog.call thread op

/-- **The outbox is a queue to all its threads.** No two of them are ever between its steps; there
    is one order of the calls, that of their returns with at most one call more, in which all
    answers are those of a queue; and the ring holds what the queue does whenever nobody has the
    lock. -/
theorem outbox_linear [DecidableEq T] {room : Bool} {capacity : w.Usize} {ring : MpscRing w V}
    (hnew : MpscRing.tryWithCapacity room capacity = .ok ring)
    {s : Critical.System T (MpscRing w V) (OutboxOp V) (OutboxPlace w V) (OutboxAnswer V)}
    (hrun : Reaches (outbox w V).steps (Critical.start ring) s) :
    (∀ i j, (s.places i).holds = true → (s.places j).holds = true → i = j) ∧
      (s.log = s.returned ∨ ∃ call, s.log = s.returned ++ [call]) ∧
      ∃ xs, QueueLog (max (nextPowerOfTwo capacity.toNat) 2) s.log xs ∧
        (s.lock = none → s.data.cells.contents = xs) := by
  obtain ⟨hstart, hsize⟩ := MpscRing.tryWithCapacity_spec hnew
  have hlinear := Critical.linear ring hrun
  refine ⟨fun i j hi hj => hlinear.held.unique hi hj, ?_⟩
  -- Nobody has the lock; or a thread has it, which is inside its section or has answered already.
  cases hlock : s.lock with
  | none =>
    obtain ⟨hlog, hfollows⟩ := hlinear.free hlock
    obtain ⟨-, -, hqueue⟩ := queueLog_of_follows hstart hsize hfollows
    exact ⟨.inl hlog, _, hqueue, fun _ => rfl⟩
  | some i =>
    have htaken := hlinear.taken i hlock
    cases hplace : s.places i with
    | inside op l =>
      rw [hplace] at htaken
      obtain ⟨hlog, d, hfollows, -⟩ := htaken
      obtain ⟨-, -, hqueue⟩ := queueLog_of_follows hstart hsize hfollows
      exact ⟨.inl hlog, _, hqueue, nofun⟩
    | done op a =>
      rw [hplace] at htaken
      obtain ⟨hlog, hfollows⟩ := htaken
      obtain ⟨-, -, hqueue⟩ := queueLog_of_follows hstart hsize hfollows
      exact ⟨.inr ⟨_, hlog⟩, _, hqueue, nofun⟩
    | idle | spinning op =>
      rw [hplace] at htaken
      exact htaken.elim

/-- Two producers at once: the second spins until the first is through. -/
theorem outbox_linear_two :
    ∃ (ring : MpscRing .sixtyFour Nat) (s : Critical.System (Fin 2) (MpscRing .sixtyFour Nat)
        (OutboxOp Nat) (OutboxPlace .sixtyFour Nat) (OutboxAnswer Nat)),
      MpscRing.tryWithCapacity true 2 = .ok ring ∧
        Reaches (outbox .sixtyFour Nat).steps (Critical.start ring) s ∧
        QueueLog 2 s.log s.data.cells.contents ∧ s.data.cells.contents = [7, 8] := by
  let acts : List (Critical.LockAct (Fin 2) (OutboxOp Nat)) :=
    [.call 0 (.push 7), .call 1 (.push 8), .go 0, .go 1] ++ List.replicate 5 (.go 0) ++
      List.replicate 6 (.go 1)
  obtain ⟨ring, hnew, s, hs, hlock, hcontents⟩ :
      ∃ ring : MpscRing .sixtyFour Nat, MpscRing.tryWithCapacity true 2 = .ok ring ∧
        ∃ s, acts.foldlM (outbox .sixtyFour Nat).next (Critical.start ring) = some s ∧
          s.lock = none ∧ s.data.cells.contents = [7, 8] := ⟨_, rfl, _, rfl, rfl, rfl⟩
  have hrun : Reaches (outbox .sixtyFour Nat).steps (Critical.start ring) s :=
    Reaches.foldlM (fun _ _ _ _ hstep => Critical.next_steps hstep) hs
  obtain ⟨-, -, xs, hqueue, hxs⟩ := outbox_linear hnew hrun
  rw [← hxs hlock] at hqueue
  exact ⟨ring, s, hnew, hrun, hqueue, hcontents⟩

end Bus
end EngineKit
