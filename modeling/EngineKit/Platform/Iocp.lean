import Mathlib.Data.Nat.ModEq
import Mathlib.Logic.Function.Basic
import EngineKit.Lib.Patch
import EngineKit.Lib.Reach

/-!
# Reads through a completion port

The port keeps a `PendingRead` for every read it has submitted: the `OVERLAPPED` block and the
buffer, which the operating system writes to until the read is finished. They are kept by the
block's address, which is the caller's token.

`complete_read` takes the request out of the map and then asks for its status, without waiting.
For a read that is not finished the answer is an error, and the request is dropped with it while
the system still has its address (`Early`). `requests_lawful_iff`: this is the only way a request
is lost. A caller that comes with tokens `poll` has given it, once each, never takes it.

What the operating system keeps is the list of the reads submitted, each with what became of it.
A pending read is named by its place there.
-/

set_option autoImplicit false

namespace EngineKit
namespace Platform
namespace Iocp

open Lib

def ERROR_IO_INCOMPLETE : UInt32 := 996
def ERROR_IO_PENDING : UInt32 := 997

inductive IocpError where
  | readFailed (code : UInt32)
  | completionFailed (code : UInt32)
deriving DecidableEq

structure Completion where
  bytes : UInt32
  key : UInt64
  overlapped : UInt64
deriving DecidableEq

/-- A request the port owns. -/
structure PendingRead where
  read : Nat
  key : UInt64
  buffer : List UInt8
  offset : UInt64
deriving DecidableEq

/-- How a read ends. -/
inductive ReadOutcome where
  | success (bytes : List UInt8)
  | failure (code : UInt32)
deriving DecidableEq

/-- A read the system has been asked for. -/
structure OverlappedRead where
  address : UInt64
  key : UInt64
  length : Nat
  outcome : Option ReadOutcome
deriving DecidableEq

structure CompletionPort where
  pending : UInt64 → Option PendingRead

structure PortSystem where
  port : CompletionPort
  reads : List OverlappedRead
  /-- The packets queued: those of failed reads are not given to `poll`'s caller. -/
  packets : List (Bool × Completion)
  /-- What `complete_read` has returned, with the read it was. -/
  consumed : List (Nat × List UInt8)

namespace PortSystem

def new : PortSystem := ⟨⟨fun _ => none⟩, [], [], []⟩

/-! ## The port's calls -/

/-- `AsyncFile::prepare_read`. -/
def prepareRead (read : Nat) (offset : UInt64) (length : Nat) (key : UInt64) :
    Except IocpError PendingRead :=
  if 2 ^ 32 - 1 < length then .error (.readFailed 87)
  else .ok ⟨read, key, .replicate length 0, offset⟩

/-- `read_at`, with the address the request is given and the code of `GetLastError` when `ReadFile`
    answers zero. -/
def readAt (s : PortSystem) (offset : UInt64) (length : Nat) (key address : UInt64)
    (failed : Option UInt32) : PortSystem × Except IocpError UInt64 :=
  match prepareRead s.reads.length offset length key with
  | .error e => (s, .error e)
  | .ok pending =>
    let submitted : PortSystem :=
      { s with
        reads := s.reads ++ [⟨address, key, length, none⟩]
        port := ⟨Function.update s.port.pending address (some pending)⟩ }
    match failed with
    | none => (submitted, .ok address)
    | some code =>
      if code ≠ ERROR_IO_PENDING then (s, .error (.readFailed code))
      else (submitted, .ok address)

def poll (s : PortSystem) : PortSystem × Option Completion :=
  match s.packets with
  | [] => (s, none)
  | (ok, completion) :: packets => ({ s with packets }, if ok then some completion else none)

/-- `GetOverlappedResult` without waiting: the bytes transferred, or the code of the error. -/
def getOverlappedResult (s : PortSystem) (read : Nat) : Except UInt32 Nat :=
  match s.reads[read]?.bind OverlappedRead.outcome with
  | none => .error ERROR_IO_INCOMPLETE
  | some (.failure code) => .error code
  | some (.success bytes) => .ok bytes.length

/-- `PendingRead::finish(0)`. -/
def finish (s : PortSystem) (pending : PendingRead) : Except IocpError (List UInt8) :=
  match s.getOverlappedResult pending.read with
  | .error code => .error (.completionFailed code)
  | .ok transferred => .ok (pending.buffer.take transferred)

/-- `complete_read`. Whatever `finish` answers, the request is gone. -/
def completeRead (s : PortSystem) (overlapped : UInt64) :
    PortSystem × Except IocpError (List UInt8) :=
  match s.port.pending overlapped with
  | none => (s, .error (.completionFailed 6))
  | some pending =>
    let taken : PortSystem := { s with port := ⟨Function.update s.port.pending overlapped none⟩ }
    match s.finish pending with
    | .error e => (taken, .error e)
    | .ok bytes => ({ taken with consumed := (pending.read, bytes) :: s.consumed }, .ok bytes)

/-! ## The system -/

/-- The packet of a read that is finished. -/
def packet (read : OverlappedRead) : ReadOutcome → Bool × Completion
  | .success bytes => (true, ⟨.ofNat bytes.length, read.key, read.address⟩)
  | .failure _ => (false, ⟨0, read.key, read.address⟩)

/-- What a finished read leaves in its buffer. -/
def land (outcome : ReadOutcome) (buffer : List UInt8) : List UInt8 :=
  match outcome with
  | .success bytes => overwrite buffer 0 bytes
  | .failure _ => buffer

/-- A read is finished: its bytes go to its buffer, if it is still there, and a packet is
    queued. -/
def finishRead (s : PortSystem) (n : Nat) (outcome : ReadOutcome) : PortSystem :=
  match s.reads[n]? with
  | none => s
  | some read =>
    { s with
      reads := s.reads.set n { read with outcome := some outcome }
      packets := s.packets ++ [packet read outcome]
      port := ⟨fun address => (s.port.pending address).map fun pending =>
        if pending.read = n then { pending with buffer := land outcome pending.buffer }
        else pending⟩ }

/-! ## Runs -/

inductive PortCall where
  | readAt (offset : UInt64) (length : Nat) (key address : UInt64) (failed : Option UInt32)
  | poll
  | completeRead (overlapped : UInt64)
  | finishRead (n : Nat) (outcome : ReadOutcome)

def run (s : PortSystem) : PortCall → PortSystem
  | .readAt offset length key address failed => (s.readAt offset length key address failed).1
  | .poll => s.poll.1
  | .completeRead overlapped => (s.completeRead overlapped).1
  | .finishRead n outcome => s.finishRead n outcome

/-- A request is allocated where no other one is, and a read is finished once, with no more bytes
    than were asked for. -/
def Allowed (s : PortSystem) : PortCall → Prop
  | .readAt _ _ _ address _ => s.port.pending address = none
  | .finishRead n outcome => ∃ read, s.reads[n]? = some read ∧ read.outcome = none ∧
      ∀ bytes, outcome = .success bytes → bytes.length ≤ read.length
  | _ => True

/-- The steps of a run. -/
def runs (s : PortSystem) (call : PortCall) (t : PortSystem) : Prop :=
  s.Allowed call ∧ t = s.run call

/-! ## The law -/

/-- **No request is dropped early**, and what a read has brought can be consumed, or has been. -/
structure Lawful (s : PortSystem) : Prop where
  owned : ∀ n read, s.reads[n]? = some read → read.outcome = none →
    ∃ pending, s.port.pending read.address = some pending ∧ pending.read = n
  kept : ∀ n read bytes, s.reads[n]? = some read → read.outcome = some (.success bytes) →
    (∃ pending, s.port.pending read.address = some pending ∧ pending.read = n ∧
      (s.completeRead read.address).2 = .ok bytes) ∨ (n, bytes) ∈ s.consumed

/-- The call takes a request whose read is not finished. -/
def Early (s : PortSystem) : PortCall → Prop
  | .completeRead overlapped => ∃ pending read, s.port.pending overlapped = some pending ∧
      s.reads[pending.read]? = some read ∧ read.outcome = none
  | _ => False

/-- **The invariant.** -/
structure Inv (s : PortSystem) : Prop where
  owned : ∀ n read, s.reads[n]? = some read → read.outcome = none →
    ∃ pending, s.port.pending read.address = some pending ∧ pending.read = n
  kept : ∀ n read bytes, s.reads[n]? = some read → read.outcome = some (.success bytes) →
    (∃ pending, s.port.pending read.address = some pending ∧ pending.read = n) ∨
      (n, bytes) ∈ s.consumed
  request : ∀ address pending, s.port.pending address = some pending →
    ∃ read, s.reads[pending.read]? = some read ∧ read.address = address ∧
      pending.buffer.length = read.length ∧
      ∀ bytes, read.outcome = some (.success bytes) → bytes <+: pending.buffer

variable {s t : PortSystem}

theorem finish_of_success {pending : PendingRead} {read : OverlappedRead} {bytes : List UInt8}
    (hread : s.reads[pending.read]? = some read) (houtcome : read.outcome = some (.success bytes))
    (hstart : bytes <+: pending.buffer) : s.finish pending = .ok bytes := by
  have hresult : s.getOverlappedResult pending.read = .ok bytes.length := by
    simp only [getOverlappedResult, hread, Option.bind_some, houtcome]
  simp only [finish, hresult]
  rw [← List.prefix_iff_eq_take.mp hstart]

theorem Inv.lawful (h : s.Inv) : s.Lawful := by
  refine ⟨h.owned, ?_⟩
  intro n read bytes hread houtcome
  rcases h.kept n read bytes hread houtcome with ⟨pending, hpending, rfl⟩ | hconsumed
  · refine .inl ⟨pending, hpending, rfl, ?_⟩
    obtain ⟨read', hread', -, -, hstart⟩ := h.request read.address pending hpending
    obtain rfl := Option.some.inj (hread.symm.trans hread')
    simp only [completeRead, hpending, finish_of_success hread houtcome (hstart bytes houtcome)]
  · exact .inr hconsumed

theorem Inv.new : PortSystem.new.Inv := by
  refine ⟨fun n read hread => ?_, fun n read bytes hread => ?_, fun address pending hpending => ?_⟩
  · cases hread
  · cases hread
  · cases hpending

/-! ## Steps -/

/-- A read is refused, or submitted with a buffer of its length. -/
theorem readAt_cases (s : PortSystem) (offset : UInt64) (length : Nat) (key address : UInt64)
    (failed : Option UInt32) :
    s.run (.readAt offset length key address failed) = s ∨
      s.run (.readAt offset length key address failed) =
        { s with
          reads := s.reads ++ [⟨address, key, length, none⟩]
          port := ⟨Function.update s.port.pending address
            (some ⟨s.reads.length, key, .replicate length 0, offset⟩)⟩ } := by
  simp only [run, readAt, prepareRead]
  split
  · next hprepare => exact .inl rfl
  · next pending hprepare =>
    split at hprepare
    · cases hprepare
    · obtain rfl := Except.ok.inj hprepare
      split
      · exact .inr rfl
      · split
        · exact .inl rfl
        · exact .inr rfl

theorem Inv.readAt (h : s.Inv) {offset : UInt64} {length : Nat} {key address : UInt64}
    {failed : Option UInt32} (hfresh : s.port.pending address = none) :
    (s.run (.readAt offset length key address failed)).Inv := by
  rcases s.readAt_cases offset length key address failed with heq | heq
  · rw [heq]
    exact h
  rw [heq]
  have hold {n : Nat} {read : OverlappedRead}
      (hread : (s.reads ++ [⟨address, key, length, none⟩])[n]? = some read) :
      s.reads[n]? = some read ∨ n = s.reads.length ∧ read = ⟨address, key, length, none⟩ := by
    rw [List.getElem?_append] at hread
    split at hread
    · exact .inl hread
    · next hge =>
      obtain ⟨hzero, hread⟩ := List.getElem?_eq_some_iff.mp hread
      rw [List.length_singleton] at hzero
      exact .inr ⟨by omega, by simpa using hread.symm⟩
  -- a request that is still there is elsewhere
  have hkeep {other : UInt64} {pending : PendingRead} (hp : s.port.pending other = some pending) :
      Function.update s.port.pending address
        (some ⟨s.reads.length, key, .replicate length 0, offset⟩) other = some pending := by
    rw [Function.update_of_ne fun heq => by rw [heq, hfresh] at hp; cases hp]
    exact hp
  refine ⟨?_, ?_, ?_⟩
  · intro n read hread houtcome
    rcases hold hread with hread | ⟨rfl, rfl⟩
    · obtain ⟨pending, hpending, hn⟩ := h.owned n read hread houtcome
      exact ⟨pending, hkeep hpending, hn⟩
    · exact ⟨_, Function.update_self .., rfl⟩
  · intro n read bytes hread houtcome
    rcases hold hread with hread | ⟨rfl, rfl⟩
    · rcases h.kept n read bytes hread houtcome with ⟨pending, hpending, hn⟩ | hconsumed
      · exact .inl ⟨pending, hkeep hpending, hn⟩
      · exact .inr hconsumed
    · cases houtcome
  · intro other pending hpending
    by_cases heq : other = address
    · subst heq
      have hnew : pending = ⟨s.reads.length, key, .replicate length 0, offset⟩ := by
        have hvalue : Function.update s.port.pending other
          (some ⟨s.reads.length, key, .replicate length 0, offset⟩) other = some pending := hpending
        rw [Function.update_self] at hvalue
        exact (Option.some.inj hvalue).symm
      subst hnew
      refine ⟨⟨other, key, length, none⟩, ?_, rfl, List.length_replicate, ?_⟩
      · exact List.getElem?_concat_length ..
      · intro bytes hbytes
        cases hbytes
    · have hpending' : s.port.pending other = some pending := by
        rw [← hpending]
        exact (Function.update_of_ne heq _ _).symm
      obtain ⟨read, hread, hrest⟩ := h.request other pending hpending'
      exact ⟨read, List.getElem?_append_left (List.getElem?_eq_some_iff.mp hread).1 ▸ hread, hrest⟩

theorem length_land {outcome : ReadOutcome} {buffer : List UInt8}
    (hfits : ∀ bytes, outcome = .success bytes → bytes.length ≤ buffer.length) :
    (land outcome buffer).length = buffer.length := by
  cases outcome with
  | success bytes =>
    have hend : 0 + bytes.length ≤ buffer.length := (Nat.zero_add _).trans_le (hfits bytes rfl)
    exact length_overwrite hend
  | failure code => rfl

theorem prefix_land (bytes buffer : List UInt8) : bytes <+: land (.success bytes) buffer := by
  show bytes <+: overwrite buffer 0 bytes
  rw [overwrite, List.take_zero, List.nil_append]
  exact List.prefix_append _ _

/-- What finishing the read `n` leaves of a request: it may be the one whose bytes come. -/
def landed (n : Nat) (outcome : ReadOutcome) (pending : PendingRead) : PendingRead :=
  if pending.read = n then { pending with buffer := land outcome pending.buffer } else pending

theorem landed_of_eq {n : Nat} {pending : PendingRead} (h : pending.read = n)
    (outcome : ReadOutcome) :
    landed n outcome pending = { pending with buffer := land outcome pending.buffer } :=
  if_pos h

theorem landed_of_ne {n : Nat} {pending : PendingRead} (h : pending.read ≠ n)
    (outcome : ReadOutcome) : landed n outcome pending = pending :=
  if_neg h

theorem read_landed (n : Nat) (outcome : ReadOutcome) (pending : PendingRead) :
    (landed n outcome pending).read = pending.read := by
  by_cases h : pending.read = n
  · rw [landed_of_eq h]
  · rw [landed_of_ne h]

theorem finishRead_eq {n : Nat} {mine : OverlappedRead} (hmine : s.reads[n]? = some mine)
    (outcome : ReadOutcome) :
    s.run (.finishRead n outcome) =
      { s with
        reads := s.reads.set n { mine with outcome := some outcome }
        packets := s.packets ++ [packet mine outcome]
        port := ⟨fun address => (s.port.pending address).map (landed n outcome)⟩ } := by
  simp only [run, PortSystem.finishRead, hmine]
  rfl

/-- **A read finishes** with its request still there to take its bytes. -/
theorem Inv.finishRead (h : s.Inv) {n : Nat} {outcome : ReadOutcome} {mine : OverlappedRead}
    (hmine : s.reads[n]? = some mine)
    (hlen : ∀ bytes, outcome = .success bytes → bytes.length ≤ mine.length)
    (hunfinished : mine.outcome = none) : (s.run (.finishRead n outcome)).Inv := by
  have hlt := (List.getElem?_eq_some_iff.mp hmine).1
  rw [finishRead_eq hmine]
  have hmapped {address : UInt64} {pending : PendingRead}
      (hp : s.port.pending address = some pending) :
      (s.port.pending address).map (landed n outcome) = some (landed n outcome pending) := by
    rw [hp, Option.map_some]
  have hother {m : Nat} {read : OverlappedRead} (hne : n ≠ m)
      (hread : (s.reads.set n { mine with outcome := some outcome })[m]? = some read) :
      s.reads[m]? = some read := (List.getElem?_set_ne hne).symm.trans hread
  have hself {read : OverlappedRead}
      (hread : (s.reads.set n { mine with outcome := some outcome })[n]? = some read) :
      read = { mine with outcome := some outcome } :=
    (Option.some.inj ((List.getElem?_set_self hlt).symm.trans hread)).symm
  refine ⟨?_, ?_, ?_⟩
  · intro m read hread houtcome
    by_cases hne : n = m
    · subst hne
      rw [hself hread] at houtcome
      cases houtcome
    · obtain ⟨pending, hpending, hm⟩ := h.owned m read (hother hne hread) houtcome
      exact ⟨_, hmapped hpending, (read_landed n outcome pending).trans hm⟩
  · intro m read bytes hread houtcome
    by_cases hne : n = m
    · subst hne
      obtain ⟨pending, hpending, hn⟩ := h.owned n mine hmine hunfinished
      rw [hself hread]
      exact .inl ⟨_, hmapped hpending, (read_landed n outcome pending).trans hn⟩
    · rcases h.kept m read bytes (hother hne hread) houtcome with
        ⟨pending, hpending, hm⟩ | hconsumed
      · exact .inl ⟨_, hmapped hpending, (read_landed n outcome pending).trans hm⟩
      · exact .inr hconsumed
  · intro address pending' hpending'
    obtain ⟨pending, hpending, rfl⟩ := Option.map_eq_some_iff.mp hpending'
    obtain ⟨read, hread, haddress, hlength, hstart⟩ := h.request address pending hpending
    rw [read_landed]
    by_cases hn : pending.read = n
    · have hlanded := landed_of_eq hn outcome
      rw [hn] at hread
      obtain rfl := Option.some.inj (hmine.symm.trans hread)
      rw [hlanded, hn]
      refine ⟨_, List.getElem?_set_self hlt, haddress, ?_, ?_⟩
      · have hfits := length_land fun bytes hbytes => hlength ▸ hlen bytes hbytes
        exact hfits.trans hlength
      · intro bytes hbytes
        obtain rfl : outcome = .success bytes := Option.some.inj hbytes
        exact prefix_land bytes pending.buffer
    · rw [landed_of_ne hn]
      exact ⟨read, (List.getElem?_set_ne fun heq => hn heq.symm).trans hread, haddress, hlength,
        hstart⟩

theorem completeRead_of_pending {overlapped : UInt64} {pending : PendingRead}
    (hpending : s.port.pending overlapped = some pending) :
    s.run (.completeRead overlapped) =
      { s with
        port := ⟨Function.update s.port.pending overlapped none⟩
        consumed := match s.finish pending with
          | .error _ => s.consumed
          | .ok bytes => (pending.read, bytes) :: s.consumed } := by
  simp only [run, completeRead, hpending]
  split <;> rfl

/-- A request may go once its read is finished, if what it brought is consumed. -/
theorem Inv.taken (h : s.Inv) {overlapped : UInt64} {pending : PendingRead} {mine : OverlappedRead}
    (hpending : s.port.pending overlapped = some pending)
    (hmine : s.reads[pending.read]? = some mine) (hfinished : mine.outcome ≠ none)
    {consumed : List (Nat × List UInt8)} (hconsumed : s.consumed ⊆ consumed)
    (hown : ∀ bytes, mine.outcome = some (.success bytes) → (pending.read, bytes) ∈ consumed) :
    ({ s with
        port := ⟨Function.update s.port.pending overlapped none⟩
        consumed } : PortSystem).Inv := by
  have hstays {address : UInt64} {other : PendingRead} (hother : other.read ≠ pending.read)
      (hp : s.port.pending address = some other) :
      Function.update s.port.pending overlapped none address = some other := by
    rw [Function.update_of_ne fun heq => hother ?_]
    · exact hp
    · rw [heq, hpending] at hp
      rw [Option.some.inj hp]
  refine ⟨?_, ?_, ?_⟩
  · intro n read hread houtcome
    obtain ⟨other, hother, rfl⟩ := h.owned n read hread houtcome
    refine ⟨other, hstays (fun heq => ?_) hother, rfl⟩
    obtain rfl := Option.some.inj (hmine.symm.trans (heq ▸ hread))
    exact hfinished houtcome
  · intro n read bytes hread houtcome
    by_cases hn : n = pending.read
    · subst hn
      obtain rfl := Option.some.inj (hmine.symm.trans hread)
      exact .inr (hown bytes houtcome)
    · rcases h.kept n read bytes hread houtcome with ⟨other, hother, rfl⟩ | hold
      · exact .inl ⟨other, hstays hn hother, rfl⟩
      · exact .inr (hconsumed hold)
  · intro address other hother
    have hstill : s.port.pending address = some other := by
      by_cases heq : address = overlapped
      · subst heq
        cases (Function.update_self ..).symm.trans hother
      · exact (Function.update_of_ne heq _ _).symm.trans hother
    exact h.request address other hstill

/-- **A request taken when its read is finished** is consumed with what the read brought. -/
theorem Inv.completeRead (h : s.Inv) {overlapped : UInt64}
    (hlate : ¬s.Early (.completeRead overlapped)) : (s.run (.completeRead overlapped)).Inv := by
  cases hpending : s.port.pending overlapped with
  | none =>
    have hrun : s.run (.completeRead overlapped) = s := by
      simp only [run, PortSystem.completeRead, hpending]
    rw [hrun]
    exact h
  | some pending =>
    obtain ⟨mine, hmine, -, -, hstart⟩ := h.request overlapped pending hpending
    rw [completeRead_of_pending hpending]
    refine h.taken hpending hmine ?_ ?_ fun bytes houtcome => ?_
    · exact fun hnone => hlate ⟨pending, mine, hpending, hmine, hnone⟩
    · split
      · exact List.Subset.refl _
      · exact List.subset_cons_self _ _
    · rw [finish_of_success hmine houtcome (hstart bytes houtcome)]
      exact List.mem_cons_self

theorem not_lawful_of_early {overlapped : UInt64} (h : s.Inv)
    (hearly : s.Early (.completeRead overlapped)) :
    ¬(s.run (.completeRead overlapped)).Lawful := by
  obtain ⟨pending, read, hpending, hread, houtcome⟩ := hearly
  obtain ⟨mine, hmine, haddress, -⟩ := h.request overlapped pending hpending
  obtain rfl := Option.some.inj (hmine.symm.trans hread)
  rw [completeRead_of_pending hpending]
  intro hlawful
  obtain ⟨other, hother, -⟩ := hlawful.owned pending.read mine hread houtcome
  rw [haddress] at hother
  cases (Function.update_self ..).symm.trans hother

/-! ## Runs -/

theorem Inv.run (h : s.Inv) {call : PortCall} (hallowed : s.Allowed call) (hlate : ¬s.Early call) :
    (s.run call).Inv := by
  cases call with
  | readAt offset length key address failed => exact h.readAt hallowed
  | poll =>
    simp only [PortSystem.run, poll]
    split
    · exact h
    · exact ⟨h.owned, h.kept, h.request⟩
  | completeRead overlapped => exact h.completeRead hlate
  | finishRead n outcome =>
    obtain ⟨read, hread, hunfinished, hlen⟩ := hallowed
    exact h.finishRead hread hlen hunfinished

/-- **Requests outlive their reads.** In any run in which `complete_read` never takes the request of
    a read that is not finished, the law holds in every state; and the next call keeps it just when
    it does not. -/
theorem requests_lawful_iff (hrun : Reaches (Guarded (fun s call => ¬s.Early call) runs) new s) :
    s.Lawful ∧ ∀ call, s.Allowed call → ((s.run call).Lawful ↔ ¬s.Early call) := by
  have hinv : s.Inv := by
    refine hrun.invariant Inv Inv.new ?_
    rintro s call t hinv ⟨hlate, hallowed, rfl⟩
    exact hinv.run hallowed hlate
  refine ⟨hinv.lawful, fun call hallowed => ⟨fun hlawful hearly => ?_, fun hlate => ?_⟩⟩
  · cases call with
    | completeRead overlapped => exact not_lawful_of_early hinv hearly hlawful
    | _ => exact hearly
  · exact (hinv.run hallowed hlate).lawful

/-! ## One read -/

/-- A read of two bytes submitted. -/
def submitted : PortSystem := new.run (.readAt 0 2 5 4096 (some ERROR_IO_PENDING))

theorem reaches_submitted : Reaches (Guarded (fun s call => ¬s.Early call) runs) new submitted :=
  .single ⟨.readAt 0 2 5 4096 (some ERROR_IO_PENDING), id, rfl, rfl⟩

/-- Finished and then taken. -/
theorem requests_lawful_one :
    let s := (submitted.run (.finishRead 0 (.success [7, 8]))).run (.completeRead 4096)
    s.Lawful ∧ s.consumed = [(0, [7, 8])] := by
  refine ⟨(requests_lawful_iff ((reaches_submitted.tail
    ⟨.finishRead 0 (.success [7, 8]), id, ⟨_, rfl, rfl, ?_⟩, rfl⟩).tail
    ⟨.completeRead 4096, ?_, trivial, rfl⟩)).1, rfl⟩
  · intro bytes hbytes
    cases hbytes
    exact Nat.le_refl 2
  · intro hex
    obtain ⟨pending, read, hpending, hread, houtcome⟩ := hex
    cases hpending
    cases hread
    cases houtcome

/-- Taken at once: the answer is an error, the request is gone, and the read goes on. -/
theorem early_complete_drops_request :
    let s := submitted.run (.completeRead 4096)
    Reaches runs new s ∧
      (submitted.completeRead 4096).2 = .error (.completionFailed ERROR_IO_INCOMPLETE) ∧
      s.port.pending 4096 = none ∧ s.reads = [⟨4096, 5, 2, none⟩] ∧ ¬s.Lawful := by
  refine ⟨reaches_submitted.unguarded.tail ⟨.completeRead 4096, trivial, rfl⟩, rfl, rfl, rfl,
    fun hlawful => ?_⟩
  obtain ⟨pending, hpending, -⟩ := hlawful.owned 0 ⟨4096, 5, 2, none⟩ rfl rfl
  cases hpending

end PortSystem

end Iocp
end Platform
end EngineKit
