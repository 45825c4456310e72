import EngineKit.Bus.MessageBus
import EngineKit.Core.Registry

/-!
# The kernel's lifecycle

`init` fixes an order and calls every subsystem in it, `run_until` calls them frame by frame and
`shutdown` calls them backwards. A callback has the bus, under its own address, and what else the
kernel lends it (the world, the arena) does not come back into scheduling or routing; so a
callback here is any program over the bus, which each call supplies (`Callback`).

Each operation gives what it observably did, in order: the callbacks it made and the envelopes
they received (`Event`). Adding inboxes and installing the routes may panic, for want of memory or
of addresses; `Room` decides the memory.

For what is proved about the lifecycle three lemmas are enough, one for each operation that does
something: `init_cases`, `runUntil_spec` and `shutdown_eq`. They say which callbacks were made and
what became of the schedule, and leave open what the callbacks did. `init_cases` says of a refused
`init` what it may have left behind all the same: inboxes.
-/

set_option autoImplicit false

namespace EngineKit
namespace Core

open Lib Schedule Bus

/-! ## Callbacks -/

inductive Phase where
  | init
  | tick
  | shutdown
deriving DecidableEq

/-- A program over `KernelContext`: what it does next depends on every answer. -/
inductive Callback (P : Type) where
  | done
  | publish (recipient : SubscriberId) (topic : UInt16) (payload : P)
      (next : Except BusError Unit → Callback P)
  | receive (next : Option (Envelope P) → Callback P)

inductive Event (P : Type) where
  | called (phase : Phase) (idx : Nat)
  | received (idx : Nat) (envelope : Envelope P)
deriving DecidableEq

/-- The bus and the events so far, as callbacks run. -/
structure Live (w : PointerWidth) (P : Type) where
  bus : MessageBus w P
  events : List (Event P)

variable {w : PointerWidth} {P : Type}

/-- The callback of the subsystem at `idx`. -/
def Callback.run (idx : Nat) : Callback P → Live w P → Live w P
  | .done, live => live
  | .publish recipient topic payload next, live =>
    let (envelope, bus) := live.bus.envelope ⟨UInt32.ofNat idx⟩ recipient topic payload
    let (answer, bus) := bus.publish envelope
    (next answer).run idx { live with bus }
  | .receive next, live =>
    match live.bus.popInbox ⟨UInt32.ofNat idx⟩ with
    | (none, bus) => (next none).run idx { live with bus }
    | (some envelope, bus) =>
      (next (some envelope)).run idx ⟨bus, live.events ++ [.received idx envelope]⟩

def Live.call (phase : Phase) (programs : Nat → Callback P) (live : Live w P) (idx : Nat) :
    Live w P :=
  (programs idx).run idx { live with events := live.events ++ [.called phase idx] }

/-- One callback after another. -/
def callAll (phase : Phase) (programs : Nat → Callback P) (order : List Nat)
    (bus : MessageBus w P) : Live w P :=
  order.foldl (Live.call phase programs) ⟨bus, []⟩

/-! ## Operations -/

structure Kernel (w : PointerWidth) (P : Type) where
  registry : Registry
  bus : MessageBus w P
  names : List String
  order : List Nat
  waves : List (List Nat)
  initialized : Bool
  frameIndex : UInt64

/-- What an `init` can allocate: the table and the ring of each inbox, and the routes. -/
structure Room where
  table : Nat → Bool
  ring : Nat → Bool
  edges : Bool

namespace Kernel

def new (bus : MessageBus w P) : Kernel w P := ⟨⟨[]⟩, bus, [], [], [], false, 0⟩

def register (k : Kernel w P) (subsystem : Subsystem) : Except KernelError Unit × Kernel w P :=
  let (answer, registry) := k.registry.register subsystem
  (answer.map fun _ => (), { k with registry })

/-- So many new inboxes; `false` is a panic. -/
def addSubscribers (room : Room) : Nat → MessageBus w P → Bool × MessageBus w P
  | 0, bus => (true, bus)
  | n + 1, bus =>
    match bus.tryAddSubscriber (room.table n) (room.ring n) with
    | (.ok _, bus) => addSubscribers room n bus
    | (.error _, bus) => (false, bus)

/-- An answer of `none` is a panic. -/
def init (room : Room) (programs : Nat → Callback P) (k : Kernel w P) :
    Option (Except KernelError Unit) × Kernel w P × List (Event P) :=
  if k.initialized then (some (.ok ()), k, [])
  else
    match k.registry.resolveDependencies with
    | .error error => (some (.error error), k, [])
    | .ok deps =>
      let k := { k with names := k.registry.entries.map Subsystem.name }
      match k.registry.plan deps with
      | .error error => (some (.error error), k, [])
      | .ok plan =>
        match addSubscribers room k.registry.entries.length k.bus with
        | (false, bus) => (none, { k with bus }, [])
        | (true, bus) =>
          match bus.trySetDebugEdges room.edges (deps.map fun list => list.map Fin.val) with
          | (.error _, bus) => (none, { k with bus }, [])
          | (.ok (), bus) =>
            let order := plan.order.map Fin.val
            let live := callAll .init programs order bus
            (some (.ok ()),
              { k with
                bus := live.bus
                order
                waves := plan.waves.map fun wave => wave.map Fin.val
                initialized := true },
              live.events)

/-- A frame of `run_until`. -/
def frame (ticks : Nat → Callback P) (exec : List Nat) (k : Kernel w P) :
    Kernel w P × List (Event P) :=
  let live := callAll .tick ticks exec k.bus.flush
  ({ k with bus := live.bus, frameIndex := k.frameIndex + 1 }, live.events)

/-- The loop of `run_until`: at most so many frames, from the one numbered `i` on. -/
def frames (keepRunning : Nat → Bool) (ticks : Nat → Nat → Callback P) (exec : List Nat) :
    Nat → Nat → Kernel w P → Kernel w P × List (Event P)
  | 0, _, k => (k, [])
  | left + 1, i, k =>
    if keepRunning i then
      let (k, events) := k.frame (ticks i) exec
      let (k, more) := frames keepRunning ticks exec left (i + 1) k
      (k, events ++ more)
    else (k, [])

def runUntil (count : UInt64) (keepRunning : Nat → Bool) (ticks : Nat → Nat → Callback P)
    (k : Kernel w P) : Except KernelError Unit × Kernel w P × List (Event P) :=
  if ¬ k.initialized then (.error .notInitialized, k, [])
  else if count = 0 then (.ok (), k, [])
  else
    let (k, events) := frames keepRunning ticks k.order count.toNat 0 k
    (.ok (), k, events)

def shutdown (programs : Nat → Callback P) (k : Kernel w P) : Kernel w P × List (Event P) :=
  if ¬ k.initialized then (k, [])
  else
    let live := callAll .shutdown programs k.order.reverse k.bus
    ({ k with bus := live.bus, initialized := false, order := [], waves := [] }, live.events)

end Kernel

/-- A call of the lifecycle, with what its environment decides: the memory, how long to keep
    running, and what every callback does. `run` is `runUntil` with a predicate that says yes. -/
inductive Op (P : Type) where
  | register (subsystem : Subsystem)
  | init (room : Room) (programs : Nat → Callback P)
  | runUntil (count : UInt64) (keepRunning : Nat → Bool) (ticks : Nat → Nat → Callback P)
  | shutdown (programs : Nat → Callback P)

namespace Kernel

def apply (k : Kernel w P) : Op P → Kernel w P × List (Event P)
  | .register subsystem => ((k.register subsystem).2, [])
  | .init room programs => (k.init room programs).2
  | .runUntil count keepRunning ticks => (k.runUntil count keepRunning ticks).2
  | .shutdown programs => k.shutdown programs

end Kernel

/-! ## What the callbacks were -/

def Event.call? : Event P → Option (Phase × Nat)
  | .called phase idx => some (phase, idx)
  | .received _ _ => none

/-- The callbacks among the events. -/
def calls (events : List (Event P)) : List (Phase × Nat) := events.filterMap Event.call?

theorem calls_append (events more : List (Event P)) :
    calls (events ++ more) = calls events ++ calls more := List.filterMap_append

/-- A callback calls no other. -/
theorem Callback.calls_run (idx : Nat) (program : Callback P) (live : Live w P) :
    calls (program.run idx live).events = calls live.events := by
  induction program generalizing live with
  | done => rfl
  | publish recipient topic payload next ih => exact ih _ _
  | receive next ih =>
    rw [Callback.run]
    split
    · exact ih _ _
    · refine (ih _ _).trans ?_
      rw [calls_append]
      exact List.append_nil _

/-- **A sweep** calls each once, in its order. -/
theorem calls_callAll (phase : Phase) (programs : Nat → Callback P) (order : List Nat)
    (bus : MessageBus w P) :
    calls (callAll phase programs order bus).events = order.map fun idx => (phase, idx) := by
  have hfold (live : Live w P) : calls (order.foldl (Live.call phase programs) live).events =
      calls live.events ++ order.map fun idx => (phase, idx) := by
    induction order generalizing live with
    | nil => exact (List.append_nil _).symm
    | cons idx order ih =>
      rw [List.foldl_cons, ih, Live.call, Callback.calls_run, calls_append, List.map_cons,
        List.append_assoc]
      rfl
  exact hfold ⟨bus, []⟩

namespace Kernel

/-- New inboxes are empty and behind the others; with no panic there are as many as were asked
    for, and there was room for them. -/
theorem addSubscribers_spec {bus : MessageBus w P} (h : bus.Wf) (room : Room) (n : Nat) :
    (addSubscribers room n bus).2.Wf ∧
      ∃ added ≤ n,
        (addSubscribers room n bus).2.mail =
            { bus.mail with inboxes := bus.mail.inboxes ++ List.replicate added [] } ∧
          ((addSubscribers room n bus).1 = true → added = n ∧
            (∀ i < n, room.table i = true ∧ room.ring i = true) ∧
              (0 < n → bus.mail.inboxes.length + n ≤ 2 ^ 32)) := by
  -- On the number of inboxes: the first of them, and then the rest behind it.
  induction n generalizing bus with
  | zero =>
    refine ⟨h, 0, Nat.le_refl _, by simp [addSubscribers], ?_⟩
    intro _
    exact ⟨rfl, nofun, fun hpos => absurd hpos (Nat.lt_irrefl 0)⟩
  | succ n ih =>
    obtain ⟨hwf, hcases⟩ := h.tryAddSubscriber (room.table n) (room.ring n)
    have hroom (id : SubscriberId)
        (hid : (bus.tryAddSubscriber (room.table n) (room.ring n)).1 = .ok id) :=
      MessageBus.room_of_tryAddSubscriber hid
    rw [addSubscribers]
    generalize bus.tryAddSubscriber (room.table n) (room.ring n) = call at hwf hcases hroom
    obtain ⟨answer, bus'⟩ := call
    -- No inbox was added and it panics; or one was, and its address is behind those there were.
    rcases hcases with ⟨hsame, error, herror⟩ | ⟨⟨id, hid⟩, hmail⟩
    · obtain rfl : bus' = bus := hsame
      obtain rfl : answer = .error error := herror
      exact ⟨h, 0, Nat.zero_le _, by simp, by rintro ⟨⟩⟩
    · obtain rfl : answer = .ok id := hid
      have hmail : bus'.mail = { bus.mail with inboxes := bus.mail.inboxes ++ [[]] } := hmail
      obtain ⟨htable, hring, haddress⟩ := hroom id rfl
      obtain ⟨hwf', added, hle, hadded, hall⟩ := ih hwf
      refine ⟨hwf', added + 1, Nat.succ_le_succ hle, ?_, ?_⟩
      · rw [hadded, hmail, List.replicate_succ, List.append_assoc]
        rfl
      · intro htrue
        obtain ⟨rfl, hrooms, hbound⟩ := hall htrue
        refine ⟨rfl, ?_, ?_⟩
        · intro i hi
          cases Nat.lt_succ_iff_lt_or_eq.mp hi with
          | inl hlt => exact hrooms i hlt
          | inr heq => exact heq ▸ ⟨htable, hring⟩
        · intro _
          have hlen : bus.mail.inboxes.length = bus.inboxes.length := List.length_map _
          rw [hmail, List.length_append, List.length_singleton] at hbound
          by_cases hpos : 0 < added
          · have := hbound hpos
            omega
          · omega

section Cases

variable {k : Kernel w P}

/-- What stays of a kernel that is not initialised by a call. -/
structure Unscheduled (k k' : Kernel w P) : Prop where
  registry : k'.registry = k.registry
  order : k'.order = k.order
  initialized : k'.initialized = k.initialized

/-- **An init** leaves the schedule alone and calls nobody, or it plans: it adds an inbox for
    every subsystem, installs the routes and calls them all in order. -/
theorem init_cases (k : Kernel w P) (room : Room) (programs : Nat → Callback P) :
    (Unscheduled k (k.init room programs).2.1 ∧ (k.init room programs).2.2 = [] ∧
        ((k.init room programs).2.1.bus = k.bus ∨ k.initialized = false ∧
          (k.init room programs).2.1.bus =
            (addSubscribers room k.registry.entries.length k.bus).2)) ∨
      k.initialized = false ∧ room.edges = true ∧ ∃ deps plan edges,
        k.registry.resolveDependencies = .ok deps ∧ k.registry.plan deps = .ok plan ∧
        (addSubscribers room k.registry.entries.length k.bus).1 = true ∧
        let bus := { (addSubscribers room k.registry.entries.length k.bus).2 with edges }
        let live := callAll .init programs (plan.order.map Fin.val) bus
        (k.init room programs).1 = some (.ok ()) ∧
          (k.init room programs).2.1.registry = k.registry ∧
          (k.init room programs).2.1.bus = live.bus ∧
          (k.init room programs).2.1.order = plan.order.map Fin.val ∧
          (k.init room programs).2.1.initialized = true ∧
          (k.init room programs).2.2 = live.events := by
  unfold init
  -- The exits of the source in their order. Up to the routes the schedule is not written.
  split
  · exact .inl ⟨⟨rfl, rfl, rfl⟩, rfl, .inl rfl⟩
  · next hfresh =>
    have hfresh : k.initialized = false := Bool.eq_false_iff.mpr hfresh
    cases hdeps : k.registry.resolveDependencies with
    | error error => exact .inl ⟨⟨rfl, rfl, rfl⟩, rfl, .inl rfl⟩
    | ok deps =>
      simp only
      cases hplan : k.registry.plan deps with
      | error error => exact .inl ⟨⟨rfl, rfl, rfl⟩, rfl, .inl rfl⟩
      | ok plan =>
        simp only
        cases hadd : addSubscribers room k.registry.entries.length k.bus with
        | mk added bus =>
          cases added with
          | false => exact .inl ⟨⟨rfl, rfl, rfl⟩, rfl, .inr ⟨hfresh, rfl⟩⟩
          | true =>
            simp only
            rcases bus.trySetDebugEdges_cases room.edges (deps.map fun list => list.map Fin.val)
              with ⟨error, hsame⟩ | ⟨hedges, edges, hset⟩
            · rw [hsame]
              exact .inl ⟨⟨rfl, rfl, rfl⟩, rfl, .inr ⟨hfresh, rfl⟩⟩
            · rw [hset]
              exact .inr ⟨hfresh, hedges, deps, plan, edges, rfl, hplan, trivial, rfl, rfl, rfl,
                rfl, rfl, rfl⟩

/-- A frame is the callbacks of the order, and a run of frames so many of these. -/
theorem frames_spec (keepRunning : Nat → Bool) (ticks : Nat → Nat → Callback P) (exec : List Nat)
    (left i : Nat) (k : Kernel w P) :
    Unscheduled k (frames keepRunning ticks exec left i k).1 ∧
      ∃ count, calls (frames keepRunning ticks exec left i k).2 =
        (List.replicate count (exec.map fun idx => (Phase.tick, idx))).flatten := by
  induction left generalizing i k with
  | zero => exact ⟨⟨rfl, rfl, rfl⟩, 0, rfl⟩
  | succ left ih =>
    rw [frames]
    split
    · obtain ⟨⟨hregistry, horder, hinit⟩, count, hcount⟩ := ih (i + 1) (k.frame (ticks i) exec).1
      refine ⟨⟨hregistry, horder, hinit⟩, count + 1, ?_⟩
      rw [List.replicate_succ, List.flatten_cons, ← hcount]
      exact (calls_append _ _).trans (congrArg (· ++ _) (calls_callAll _ _ _ _))
    · exact ⟨⟨rfl, rfl, rfl⟩, 0, rfl⟩

/-- **A run** calls the order some number of times, if there is one. -/
theorem runUntil_spec (k : Kernel w P) (count : UInt64) (keepRunning : Nat → Bool)
    (ticks : Nat → Nat → Callback P) :
    Unscheduled k (k.runUntil count keepRunning ticks).2.1 ∧
      (k.initialized = false ∧ (k.runUntil count keepRunning ticks).2.2 = [] ∨
        k.initialized = true ∧ ∃ n, calls (k.runUntil count keepRunning ticks).2.2 =
          (List.replicate n (k.order.map fun idx => (Phase.tick, idx))).flatten) := by
  unfold runUntil
  split
  · next hfresh => exact ⟨⟨rfl, rfl, rfl⟩, .inl ⟨by simpa using hfresh, rfl⟩⟩
  · next hinit =>
    have hinit : k.initialized = true := by simpa using hinit
    split
    · exact ⟨⟨rfl, rfl, rfl⟩, .inr ⟨hinit, 0, rfl⟩⟩
    · obtain ⟨hsame, hframes⟩ := frames_spec keepRunning ticks k.order count.toNat 0 k
      exact ⟨hsame, .inr ⟨hinit, hframes⟩⟩

/-- **A shutdown** sweeps backwards. -/
theorem shutdown_eq (k : Kernel w P) (hinit : k.initialized = true)
    (programs : Nat → Callback P) :
    k.shutdown programs =
      ({ k with
          bus := (callAll .shutdown programs k.order.reverse k.bus).bus
          initialized := false
          order := []
          waves := [] },
        (callAll .shutdown programs k.order.reverse k.bus).events) := by
  rw [shutdown, if_neg (by simpa using hinit)]

end Cases

end Kernel

end Core
end EngineKit
