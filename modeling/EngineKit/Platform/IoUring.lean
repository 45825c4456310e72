import EngineKit.Lib.FirstMatch
import EngineKit.Lib.LittleEndian
import EngineKit.Lib.Reach

/-!
# Reads through `io_uring`

The ring keeps the buffer of a read from its submission until `take_completed` hands it out, first
among the pending reads, then among the completed ones. The kernel has only the buffer's address.
It takes the submissions it is told of, completes them in any order, and posts what became of each
under the tag the caller chose.

Here a buffer is named by its read. An entry of the submission queue carries that name as its
address, and a completion says which read it is of and what it wrote (`Completion`); of these the
ring sees the address it put there itself and the entry posted, and no more. The two queues are
lists: what is between head and tail.

`try_complete` goes by the tag, and takes the first pending read that bears it.
-/

set_option autoImplicit false

namespace EngineKit
namespace Platform

open Lib

/-- The allocation given to a read. -/
structure Buffer where
  read : Nat
  bytes : List UInt8
deriving DecidableEq

structure SubmissionEntry where
  fd : Int32
  off : UInt64
  addr : Nat
  len : UInt32
  userData : UInt64
deriving DecidableEq

structure CompletionEntry where
  userData : UInt64
  result : Int32
deriving DecidableEq

/-- A completion posted, with the read it is of and the bytes that read wrote. -/
structure Completion where
  entry : CompletionEntry
  read : Nat
  written : List UInt8
deriving DecidableEq

/-- What was read: as much as the result says, nothing after a failure. -/
def Completion.bytes (completion : Completion) : List UInt8 :=
  if 0 ≤ completion.entry.result then completion.written else []

structure PendingRead where
  userData : UInt64
  buffer : Buffer
deriving DecidableEq

inductive IoUringError where
  | invalidRead
  | readTooLarge
  | queueFull
  | completionUnknown
deriving DecidableEq

structure IoUring where
  sqEntries : UInt32
  cqEntries : UInt32
  pending : List PendingRead
  completed : List (Completion × Buffer)
deriving DecidableEq

/-- The ring, the kernel's side of it, and what has been handed out. -/
structure RingSystem where
  ring : IoUring
  sq : List SubmissionEntry
  inFlight : List SubmissionEntry
  cq : List Completion
  reads : Nat
  released : List (Completion × Buffer)
deriving DecidableEq

namespace RingSystem

def new (sqEntries cqEntries : UInt32) : RingSystem :=
  ⟨⟨sqEntries, cqEntries, [], []⟩, [], [], [], 0, []⟩

/-! ## The ring's calls -/

def submitRead (s : RingSystem) (fd : Int32) (buffer : List UInt8) (offset userData : UInt64) :
    RingSystem × Except IoUringError UInt64 :=
  if fd < 0 ∨ buffer.isEmpty then (s, .error .invalidRead)
  else
    match u32TryFrom buffer.length with
    | none => (s, .error .readTooLarge)
    | some len =>
      if s.ring.cqEntries.toNat ≤ s.ring.pending.length + s.ring.completed.length then
        (s, .error .queueFull)
      else if s.ring.sqEntries.toNat ≤ s.sq.length then (s, .error .queueFull)
      else
        ({ s with
            sq := s.sq ++ [⟨fd, offset, s.reads, len, userData⟩]
            reads := s.reads + 1
            ring := { s.ring with
              pending := s.ring.pending ++ [⟨userData, ⟨s.reads, buffer⟩⟩] } }, .ok userData)

/-- `request.buffer.truncate(entry.result as usize)`, or `clear` after a failure. -/
def settle (entry : CompletionEntry) (buffer : Buffer) : Buffer :=
  if 0 ≤ entry.result then { buffer with bytes := buffer.bytes.take entry.result.toInt.toNat }
  else { buffer with bytes := [] }

def tryComplete (s : RingSystem) : RingSystem × Option CompletionEntry :=
  match s.cq with
  | [] => (s, none)
  | completion :: cq =>
    let s := { s with cq }
    match swapTakeFirst (fun request => request.userData == completion.entry.userData)
        s.ring.pending with
    | none => (s, some completion.entry)
    | some (request, pending) =>
      ({ s with ring := { s.ring with
          pending
          completed := s.ring.completed ++
            [(completion, settle completion.entry request.buffer)] } },
        some completion.entry)

def takeCompleted (s : RingSystem) (userData : UInt64) :
    RingSystem × Except IoUringError (List UInt8) :=
  match swapTakeFirst (fun x => x.1.entry.userData == userData) s.ring.completed with
  | none => (s, .error .completionUnknown)
  | some (x, completed) =>
    ({ s with ring := { s.ring with completed }, released := s.released ++ [x] }, .ok x.2.bytes)

/-! ## The kernel -/

/-- What a read writes lands in its buffer, wherever that is. -/
def land (read : Nat) (written : List UInt8) (buffer : Buffer) : Buffer :=
  if buffer.read = read then
    { buffer with bytes := (overwrite buffer.bytes 0 written).take buffer.bytes.length }
  else buffer

/-- The kernel takes the first submissions. -/
def enter (s : RingSystem) (submit : Nat) : RingSystem :=
  { s with sq := s.sq.drop submit, inFlight := s.inFlight ++ s.sq.take submit }

/-- The kernel is done with a read: its bytes are written and its completion is posted. -/
def complete (s : RingSystem) (k : Nat) (result : Int32) (written : List UInt8) : RingSystem :=
  match s.inFlight[k]? with
  | none => s
  | some entry =>
    { s with
      inFlight := s.inFlight.eraseIdx k
      cq := s.cq ++ [⟨⟨entry.userData, result⟩, entry.addr, written⟩]
      ring := { s.ring with
        pending := s.ring.pending.map fun request =>
          { request with buffer := land entry.addr written request.buffer }
        completed := s.ring.completed.map fun x => (x.1, land entry.addr written x.2) }
      released := s.released.map fun x => (x.1, land entry.addr written x.2) }

/-! ## Runs -/

inductive RingCall where
  | submitRead (fd : Int32) (buffer : List UInt8) (offset userData : UInt64)
  | tryComplete
  | takeCompleted (userData : UInt64)
  | enter (submit : Nat)
  | complete (k : Nat) (result : Int32) (written : List UInt8)

def run (s : RingSystem) : RingCall → RingSystem
  | .submitRead fd buffer offset userData => (s.submitRead fd buffer offset userData).1
  | .tryComplete => s.tryComplete.1
  | .takeCompleted userData => (s.takeCompleted userData).1
  | .enter submit => s.enter submit
  | .complete k result written => s.complete k result written

/-- A read writes no more than it was asked to, and its result says how much. -/
def Allowed (s : RingSystem) : RingCall → Prop
  | .complete k result written => ∀ entry, s.inFlight[k]? = some entry →
      written.length ≤ entry.len.toNat ∧ (0 ≤ result → result.toInt = written.length)
  | _ => True

/-- The steps of a run. -/
def runs (s : RingSystem) (call : RingCall) (t : RingSystem) : Prop :=
  s.Allowed call ∧ t = s.run call

/-! ## What the calls do -/

theorem submitRead_cases (s : RingSystem) (fd : Int32) (buffer : List UInt8)
    (offset userData : UInt64) :
    s.run (.submitRead fd buffer offset userData) = s ∨
      ∃ len, len.toNat = buffer.length ∧ s.run (.submitRead fd buffer offset userData) =
        { s with
          sq := s.sq ++ [⟨fd, offset, s.reads, len, userData⟩]
          reads := s.reads + 1
          ring := { s.ring with
            pending := s.ring.pending ++ [⟨userData, ⟨s.reads, buffer⟩⟩] } } := by
  simp only [run, submitRead]
  split
  · exact .inl rfl
  split
  · exact .inl rfl
  next len hlen =>
  split
  · exact .inl rfl
  split
  · exact .inl rfl
  exact .inr ⟨len, toNat_of_u32TryFrom hlen, rfl⟩

theorem takeCompleted_cases (s : RingSystem) (userData : UInt64) :
    s.run (.takeCompleted userData) = s ∨
      ∃ x completed, (x :: completed).Perm s.ring.completed ∧
        s.run (.takeCompleted userData) =
          { s with ring := { s.ring with completed }, released := s.released ++ [x] } := by
  rcases swapTakeFirst_cases (fun x : Completion × Buffer => x.1.entry.userData == userData)
    s.ring.completed with ⟨hnone, -⟩ | ⟨x, completed, hsome, -, hperm⟩
  · exact .inl (by simp only [run, takeCompleted, hnone])
  · exact .inr ⟨x, completed, hperm, by simp only [run, takeCompleted, hsome]⟩

/-- `try_complete` with something posted, and a pending read that bears its tag. -/
theorem tryComplete_of_pending {s : RingSystem} {completion : Completion} {cq : List Completion}
    (hcq : s.cq = completion :: cq) {request : PendingRead}
    (hfind : s.ring.pending.find? (fun request => request.userData == completion.entry.userData)
      = some request) :
    ∃ pending, (request :: pending).Perm s.ring.pending ∧ s.run .tryComplete =
      { s with
        cq
        ring := { s.ring with
          pending
          completed := s.ring.completed ++
            [(completion, settle completion.entry request.buffer)] } } := by
  rcases swapTakeFirst_cases (fun request => request.userData == completion.entry.userData)
    s.ring.pending with ⟨-, hnone⟩ | ⟨x, pending, hsome, hfound, hperm⟩
  · rw [hfind] at hnone
    cases hnone
  · obtain rfl : request = x := Option.some.inj (hfind.symm.trans hfound)
    exact ⟨pending, hperm, by simp only [run, tryComplete, hcq, hsome]⟩

end RingSystem

end Platform
end EngineKit
