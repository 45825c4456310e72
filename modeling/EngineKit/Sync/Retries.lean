import EngineKit.Sync.Attach
import Mathlib.Data.List.Chain
import Mathlib.Data.List.Perm.Lattice

/-!
# The history of every packet

Of a packet in flight the replicator knows when it was last sent and how many retries it took,
and of one that is gone it knows nothing. The law of retries is about whole histories, so here a
replicator is run with a logbook: each packet that leaves the queue is a `Flight`, with the frames
in which the transport took it, and keeps it when it leaves `in_flight`.

The two sending loops of `pump` are written again for flights (`launch`, `relaunch`) and are the
same loops: what they forget is all that tells them apart (`launch_erases`, `relaunch_erases`).
What a flight says it sent is what the transport took, packet by packet and frame by frame
(`launch_log`, `relaunch_log`). A flight is lawful when its history and the two numbers the code
keeps agree, and its frames are far enough apart; every event keeps them lawful, and a flight that
ends was acknowledged or had no retry left (`retry_law`).
-/

set_option autoImplicit false

namespace EngineKit
namespace Sync

open Lib Replicator

/-! ## Flights -/

structure Flight where
  item : InFlight
  /-- The frames in which the transport took the packet, the first one first. -/
  taken : List UInt64

def Flight.packet (f : Flight) : SyncPacket := f.item.packet

/-- What these flights say the transport took. -/
def sendsOf (flights : List Flight) : List (SyncPacket × UInt64) :=
  flights.flatMap fun f => f.taken.map (f.packet, ·)

theorem sendsOf_cons (f : Flight) (fs : List Flight) :
    sendsOf (f :: fs) = f.taken.map (f.packet, ·) ++ sendsOf fs :=
  List.flatMap_cons

/-- What the transport took in a frame, of what it was handed. -/
def takenIn (frame : UInt64) (handed : List (SyncPacket × Bool)) : List (SyncPacket × UInt64) :=
  (handed.filter Prod.snd).map fun h => (h.1, frame)

section Loops

variable {T : Type} [SyncTransport T]

/-- `sendPending`, with flights. -/
def launch (maxInFlight : Nat) (frame : UInt64) :
    List SyncPacket → List Flight → T → List Flight × T
  | [], flights, transport => (flights, transport)
  | packet :: pending, flights, transport =>
    if flights.length < maxInFlight then
      match SyncTransport.send transport packet with
      | (.ok (), transport) =>
        launch maxInFlight frame pending
          (flights ++ [⟨{ packet, lastSent := frame, retries := 0 }, [frame]⟩]) transport
      | (.error _, transport) => (flights, transport)
    else (flights, transport)

/-- `resendDue`, with flights. -/
def relaunch (config : SyncConfig) (frame : UInt64) : List Flight → T → List Flight × T
  | [], transport => ([], transport)
  | f :: flights, transport =>
    if saturatingSub frame f.item.lastSent < config.resendAfterFrames ∨
        config.maxRetries ≤ f.item.retries then
      let (flights, transport) := relaunch config frame flights transport
      (f :: flights, transport)
    else
      match SyncTransport.send transport f.item.packet with
      | (.ok (), transport) =>
        let (flights, transport) := relaunch config frame flights transport
        (⟨{ f.item with lastSent := frame, retries := f.item.retries + 1 }, f.taken ++ [frame]⟩ ::
          flights, transport)
      | (.error _, transport) =>
        let (flights, transport) := relaunch config frame flights transport
        (f :: flights, transport)

/-- **One round of the first loop.** It stops for want of room or at a refusal, or a flight
    begins. -/
theorem launch_cons (maxInFlight : Nat) (frame : UInt64) (packet : SyncPacket)
    (pending : List SyncPacket) (flights : List Flight) (transport : T) :
    launch maxInFlight frame (packet :: pending) flights transport = (flights, transport) ∨
    (∃ error transport', SyncTransport.send transport packet = (.error error, transport') ∧
      launch maxInFlight frame (packet :: pending) flights transport = (flights, transport')) ∨
    ∃ transport', SyncTransport.send transport packet = (.ok (), transport') ∧
      launch maxInFlight frame (packet :: pending) flights transport =
        launch maxInFlight frame pending
          (flights ++ [⟨{ packet, lastSent := frame, retries := 0 }, [frame]⟩]) transport' := by
  rw [launch]
  by_cases hroom : flights.length < maxInFlight
  · rw [if_pos hroom]
    cases SyncTransport.send transport packet with
    | mk answer transport' =>
      cases answer with
      | error error => exact Or.inr (Or.inl ⟨error, transport', rfl, rfl⟩)
      | ok _ => exact Or.inr (Or.inr ⟨transport', rfl, rfl⟩)
  · rw [if_neg hroom]
    exact Or.inl rfl

/-- **One round of the second loop.** The flight is left as it is, because it is not due or has no
    retry left, or the transport refuses it; or it is one transmission longer. -/
theorem relaunch_cons (config : SyncConfig) (frame : UInt64) (f : Flight) (flights : List Flight)
    (transport : T) :
    relaunch config frame (f :: flights) transport =
      (f :: (relaunch config frame flights transport).1,
        (relaunch config frame flights transport).2) ∨
    (∃ error transport', SyncTransport.send transport f.item.packet = (.error error, transport') ∧
      relaunch config frame (f :: flights) transport =
        (f :: (relaunch config frame flights transport').1,
          (relaunch config frame flights transport').2)) ∨
    (config.resendAfterFrames ≤ saturatingSub frame f.item.lastSent ∧
      f.item.retries < config.maxRetries ∧
      ∃ transport', SyncTransport.send transport f.item.packet = (.ok (), transport') ∧
        relaunch config frame (f :: flights) transport =
          (⟨{ f.item with lastSent := frame, retries := f.item.retries + 1 },
            f.taken ++ [frame]⟩ :: (relaunch config frame flights transport').1,
            (relaunch config frame flights transport').2)) := by
  rw [relaunch]
  by_cases hskip : saturatingSub frame f.item.lastSent < config.resendAfterFrames ∨
      config.maxRetries ≤ f.item.retries
  · rw [if_pos hskip]
    exact Or.inl rfl
  · rw [if_neg hskip]
    obtain ⟨hdue, hleft⟩ := not_or.mp hskip
    cases SyncTransport.send transport f.item.packet with
    | mk answer transport' =>
      cases answer with
      | error error => exact Or.inr (Or.inl ⟨error, transport', rfl, rfl⟩)
      | ok _ =>
        exact Or.inr (Or.inr ⟨UInt64.not_lt.mp hdue, UInt8.not_le.mp hleft, transport', rfl, rfl⟩)

theorem launch_erases (maxInFlight : Nat) (frame : UInt64) (pending : List SyncPacket)
    (flights : List Flight) (transport : T) :
    ((launch maxInFlight frame pending flights transport).1.map Flight.item,
        (launch maxInFlight frame pending flights transport).2) =
      ((sendPending maxInFlight frame pending (flights.map Flight.item) transport).2.1,
        (sendPending maxInFlight frame pending (flights.map Flight.item) transport).2.2.1) := by
  induction pending generalizing flights transport with
  | nil => rfl
  | cons packet pending ih =>
    unfold launch sendPending
    rw [List.length_map]
    by_cases hroom : flights.length < maxInFlight
    · rw [if_pos hroom, if_pos hroom]
      cases SyncTransport.send transport packet with
      | mk answer transport₁ =>
        cases answer with
        | error error => rfl
        | ok _ =>
          have hrest := ih (flights ++ [⟨{ packet, lastSent := frame, retries := 0 }, [frame]⟩])
            transport₁
          rw [List.map_append] at hrest
          exact hrest
    · rw [if_neg hroom, if_neg hroom]

theorem relaunch_erases (config : SyncConfig) (frame : UInt64) (flights : List Flight)
    (transport : T) :
    ((relaunch config frame flights transport).1.map Flight.item,
        (relaunch config frame flights transport).2) =
      ((resendDue config frame (flights.map Flight.item) transport).1,
        (resendDue config frame (flights.map Flight.item) transport).2.1) := by
  induction flights generalizing transport with
  | nil => rfl
  | cons f flights ih =>
    rw [List.map_cons]
    unfold relaunch resendDue
    by_cases hskip : saturatingSub frame f.item.lastSent < config.resendAfterFrames ∨
        config.maxRetries ≤ f.item.retries
    · obtain ⟨hitems, htransport⟩ := Prod.ext_iff.mp (ih transport)
      rw [if_pos hskip, if_pos hskip]
      exact Prod.ext (congrArg (f.item :: ·) hitems) htransport
    · rw [if_neg hskip, if_neg hskip]
      cases SyncTransport.send transport f.item.packet with
      | mk answer transport₁ =>
        obtain ⟨hitems, htransport⟩ := Prod.ext_iff.mp (ih transport₁)
        cases answer with
        | error error => exact Prod.ext (congrArg (f.item :: ·) hitems) htransport
        | ok _ => exact Prod.ext (congrArg (_ :: ·) hitems) htransport

/-! ## Lawful flights -/

/-- The history of a flight and the two numbers the code keeps of it agree; its frames are as far
    apart as the configuration asks, in saturating distance, and no more than it allows. -/
structure Flight.Lawful (config : SyncConfig) (f : Flight) : Prop where
  last : f.taken.getLast? = some f.item.lastSent
  count : f.taken.length = f.item.retries.toNat + 1
  limit : f.item.retries ≤ config.maxRetries
  spaced : f.taken.IsChain fun before frame =>
    config.resendAfterFrames ≤ saturatingSub frame before

/-- A packet's first transmission. -/
theorem lawful_first (config : SyncConfig) (packet : SyncPacket) (frame : UInt64) :
    Flight.Lawful config ⟨{ packet, lastSent := frame, retries := 0 }, [frame]⟩ where
  last := rfl
  count := rfl
  limit := UInt8.zero_le
  spaced := List.isChain_singleton _

/-- Another one, of a flight that is due and has a retry left. -/
theorem Flight.Lawful.again {config : SyncConfig} {f : Flight} (h : f.Lawful config)
    {frame : UInt64} (hdue : config.resendAfterFrames ≤ saturatingSub frame f.item.lastSent)
    (hleft : f.item.retries < config.maxRetries) :
    Flight.Lawful config
      ⟨{ f.item with lastSent := frame, retries := f.item.retries + 1 }, f.taken ++ [frame]⟩ := by
  have hlt : f.item.retries.toNat < config.maxRetries.toNat := UInt8.lt_iff_toNat_lt.mp hleft
  have hmax := config.maxRetries.toNat_lt
  have hnext : (f.item.retries + 1).toNat = f.item.retries.toNat + 1 := by
    have hone : (1 : UInt8).toNat = 1 := rfl
    rw [UInt8.toNat_add, hone]
    exact Nat.mod_eq_of_lt (by omega)
  refine ⟨?_, ?_, ?_, ?_⟩
  · exact List.getLast?_concat
  · show (f.taken ++ [frame]).length = (f.item.retries + 1).toNat + 1
    rw [List.length_append, List.length_singleton, h.count, hnext]
  · show f.item.retries + 1 ≤ config.maxRetries
    rw [UInt8.le_iff_toNat_le, hnext]
    exact hlt
  · refine h.spaced.append (List.isChain_singleton _) ?_
    intro before hbefore next hnext
    rw [h.last] at hbefore
    cases Option.mem_some_iff.mp hbefore
    cases Option.mem_some_iff.mp hnext
    exact hdue

theorem launch_lawful {config : SyncConfig} {flights : List Flight}
    (h : ∀ f ∈ flights, f.Lawful config) (maxInFlight : Nat) (frame : UInt64)
    (pending : List SyncPacket) (transport : T) :
    ∀ f ∈ (launch maxInFlight frame pending flights transport).1, f.Lawful config := by
  induction pending generalizing flights transport with
  | nil => exact h
  | cons packet pending ih =>
    rcases launch_cons maxInFlight frame packet pending flights transport with
      hround | ⟨error, transport', -, hround⟩ | ⟨transport', -, hround⟩
    · rw [hround]
      exact h
    · rw [hround]
      exact h
    · rw [hround]
      refine ih ?_ transport'
      intro f hf
      rcases List.mem_append.mp hf with hf | hf
      · exact h f hf
      · rw [List.mem_singleton.mp hf]
        exact lawful_first config packet frame

theorem relaunch_lawful {config : SyncConfig} {flights : List Flight}
    (h : ∀ f ∈ flights, f.Lawful config) (frame : UInt64) (transport : T) :
    ∀ f ∈ (relaunch config frame flights transport).1, f.Lawful config := by
  induction flights generalizing transport with
  | nil => exact h
  | cons f flights ih =>
    obtain ⟨hf, hrest⟩ := List.forall_mem_cons.mp h
    rcases relaunch_cons config frame f flights transport with
      hround | ⟨error, transport', -, hround⟩ | ⟨hdue, hleft, transport', -, hround⟩
    · rw [hround]
      exact List.forall_mem_cons.mpr ⟨hf, ih hrest transport⟩
    · -- A failed send leaves the flight as it is, with its retries.
      rw [hround]
      exact List.forall_mem_cons.mpr ⟨hf, ih hrest transport'⟩
    · rw [hround]
      exact List.forall_mem_cons.mpr ⟨hf.again hdue hleft, ih hrest transport'⟩

end Loops

/-! ## What the transport saw -/

theorem Script.handed_send {script script' : Script} {packet : SyncPacket}
    {answer : Except TransportError Unit}
    (h : SyncTransport.send script packet = (answer, script')) :
    script'.handed = script.handed ++ [(packet, answer.isOk)] := by
  obtain ⟨hanswer, hscript⟩ := Prod.ext_iff.mp h
  dsimp only at hanswer hscript
  rw [← hscript, ← hanswer]
  simp only [SyncTransport.send, Script.send]
  cases script.answers <;> rfl

theorem launch_log (maxInFlight : Nat) (frame : UInt64) (pending : List SyncPacket)
    (flights : List Flight) (script : Script) :
    ∃ handed, (launch maxInFlight frame pending flights script).2.handed =
        script.handed ++ handed ∧
      sendsOf (launch maxInFlight frame pending flights script).1 =
        sendsOf flights ++ takenIn frame handed := by
  induction pending generalizing flights script with
  | nil => exact ⟨[], by simp [launch], by simp [launch, takenIn]⟩
  | cons packet pending ih =>
    rcases launch_cons maxInFlight frame packet pending flights script with
      hround | ⟨error, script', hsend, hround⟩ | ⟨script', hsend, hround⟩
    · rw [hround]
      exact ⟨[], by simp, by simp [takenIn]⟩
    · rw [hround]
      exact ⟨[(packet, false)], Script.handed_send hsend, by simp [takenIn]⟩
    · obtain ⟨handed, hhanded, hlog⟩ :=
        ih (flights ++ [⟨{ packet, lastSent := frame, retries := 0 }, [frame]⟩]) script'
      refine ⟨(packet, true) :: handed, ?_, ?_⟩
      · rw [hround, hhanded, Script.handed_send hsend, List.append_assoc]
        rfl
      · rw [hround, hlog]
        simp [sendsOf, takenIn, Flight.packet]

theorem relaunch_log (config : SyncConfig) (frame : UInt64) (flights : List Flight)
    (script : Script) :
    ∃ handed, (relaunch config frame flights script).2.handed = script.handed ++ handed ∧
      (sendsOf (relaunch config frame flights script).1).Perm
        (sendsOf flights ++ takenIn frame handed) := by
  induction flights generalizing script with
  | nil => exact ⟨[], by simp [relaunch], by simp [relaunch, sendsOf, takenIn]⟩
  | cons f flights ih =>
    rcases relaunch_cons config frame f flights script with
      hround | ⟨error, script', hsend, hround⟩ | ⟨-, -, script', hsend, hround⟩
    · obtain ⟨handed, hhanded, hlog⟩ := ih script
      refine ⟨handed, ?_, ?_⟩
      · rw [hround]
        exact hhanded
      · rw [hround, sendsOf_cons, sendsOf_cons, List.append_assoc]
        exact hlog.append_left _
    · obtain ⟨handed, hhanded, hlog⟩ := ih script'
      refine ⟨(f.item.packet, false) :: handed, ?_, ?_⟩
      · rw [hround, hhanded, Script.handed_send hsend, List.append_assoc]
        rfl
      · rw [hround, sendsOf_cons, sendsOf_cons, List.append_assoc]
        exact hlog.append_left _
    · obtain ⟨handed, hhanded, hlog⟩ := ih script'
      refine ⟨(f.item.packet, true) :: handed, ?_, ?_⟩
      · rw [hround, hhanded, Script.handed_send hsend, List.append_assoc]
        rfl
      · have htaken : takenIn frame ((f.item.packet, true) :: handed) =
            (f.packet, frame) :: takenIn frame handed := rfl
        rw [hround, sendsOf_cons, sendsOf_cons, htaken]
        -- The new transmission is at the end of its flight, and before those of the others.
        simp only [List.map_append, List.append_assoc]
        refine List.Perm.append_left _ ?_
        exact (hlog.cons (f.packet, frame)).trans List.perm_middle.symm

/-- **The first loop**, with flights and without. -/
theorem launch_script {config : SyncConfig} {flights : List Flight}
    (h : ∀ f ∈ flights, f.Lawful config) (maxInFlight : Nat) (frame : UInt64)
    (pending : List SyncPacket) (script : Script) :
    ∃ moved left flights' script' blocked handed,
      launch maxInFlight frame pending flights script = (flights', script') ∧
      sendPending maxInFlight frame pending (flights.map Flight.item) script =
        (left, flights'.map Flight.item, script', moved.length, blocked) ∧
      pending = moved ++ left ∧
      flights'.map Flight.packet = flights.map Flight.packet ++ moved ∧
      script'.handed = script.handed ++ handed ∧
      sendsOf flights' = sendsOf flights ++ takenIn frame handed ∧
      ∀ f ∈ flights', f.Lawful config := by
  obtain ⟨moved, left, refused, script', blocked, hpending, -, -, hsend⟩ :=
    sendPending_script maxInFlight frame pending (flights.map Flight.item) script
  obtain ⟨handed, hhanded, hlog⟩ := launch_log maxInFlight frame pending flights script
  have herases := launch_erases maxInFlight frame pending flights script
  rw [hsend, Prod.mk.injEq] at herases
  obtain ⟨hitems, hscript⟩ := herases
  refine ⟨moved, left, _, _, blocked, handed, rfl, ?_, hpending, ?_, hhanded, hlog,
    launch_lawful h maxInFlight frame pending script⟩
  · rw [hsend, hitems, hscript]
  · have hpackets := congrArg (List.map InFlight.packet) hitems
    rw [List.map_append, List.map_map, List.map_map, List.map_map] at hpackets
    exact hpackets.trans (congrArg (_ ++ ·) (List.map_id moved))

/-- **The second loop.** -/
theorem relaunch_script {config : SyncConfig} {flights : List Flight}
    (h : ∀ f ∈ flights, f.Lawful config) (frame : UInt64) (script : Script) :
    ∃ flights' script' resent blocked handed,
      relaunch config frame flights script = (flights', script') ∧
      resendDue config frame (flights.map Flight.item) script =
        (flights'.map Flight.item, script', resent, blocked) ∧
      flights'.map Flight.packet = flights.map Flight.packet ∧
      script'.handed = script.handed ++ handed ∧
      (sendsOf flights').Perm (sendsOf flights ++ takenIn frame handed) ∧
      ∀ f ∈ flights', f.Lawful config := by
  obtain ⟨items, script', resent, blocked, -, hresend, hpackets, -, -⟩ :=
    resendDue_script config frame (flights.map Flight.item) script
  obtain ⟨handed, hhanded, hlog⟩ := relaunch_log config frame flights script
  have herases := relaunch_erases config frame flights script
  rw [hresend, Prod.mk.injEq] at herases
  obtain ⟨hitems, hscript⟩ := herases
  refine ⟨_, _, resent, blocked, handed, rfl, ?_, ?_, hhanded, hlog,
    relaunch_lawful h frame script⟩
  · rw [hresend, hitems, hscript]
  · have hsame : ((relaunch config frame flights script).1.map Flight.item).map InFlight.packet =
        (flights.map Flight.item).map InFlight.packet := by
      rw [hitems]
      exact hpackets
    rw [List.map_map, List.map_map] at hsame
    exact hsame

/-! ## The logbook -/

/-- The event acknowledges everything up to `sequence`: by a call, or by a packet it returns. -/
def Acknowledges (e : Event) (output : Output) (sequence : UInt64) : Prop :=
  (∃ disk, e = .call (.acknowledge disk sequence)) ∨
    ∃ p, output.received = some p ∧ p.ack = sequence

/-- Why a flight may end, in an event with this output. -/
inductive Flight.Ends (config : SyncConfig) (f : Flight) (e : Event) (output : Output) : Prop
  | acknowledged {sequence : UInt64} (hack : Acknowledges e output sequence)
      (hle : f.packet.sequence ≤ sequence)
  /-- All retries are used up, and the last of them was long enough ago. -/
  | exhausted {answers : List (Except TransportError Unit)} {frame last : UInt64}
      (hpump : e = .call (.pump answers frame))
      (hcount : f.taken.length = config.maxRetries.toNat + 1)
      (hlast : f.taken.getLast? = some last)
      (hdue : config.resendAfterFrames ≤ saturatingSub frame last)

/-- A replicator, and what it forgets. -/
structure Logbook where
  replicator : Replicator
  /-- The flights of the packets in flight. -/
  flights : List Flight
  /-- Those that ended, each with the event it ended in. -/
  gone : List (Flight × Event × Output)
  /-- The packets that left the queue. -/
  moved : List SyncPacket
  /-- What the transport took, and in which frame. -/
  log : List (SyncPacket × UInt64)

namespace Logbook

def new (r : Replicator) : Logbook := ⟨r, [], [], [], []⟩

/-- The flights once an event has sent what it sends. -/
def transmitted (s : Logbook) : Event → List Flight
  | .call (.pump answers frame) =>
    if s.replicator.mode ≠ .online then s.flights
    else
      let (flights, script) := launch s.replicator.config.maxInFlight frame s.replicator.pending
        s.flights (Script.mk answers [])
      (relaunch s.replicator.config frame flights script).1
  | _ => s.flights

def logged : Event → Output → List (SyncPacket × UInt64)
  | .call (.pump _ frame), output => takenIn frame output.handed
  | _, _ => []

/-- A flight whose packet is not in flight afterwards has ended. -/
def step (s : Logbook) (e : Event) : Logbook :=
  let (output, r) := s.replicator.react e
  let flights := s.transmitted e
  { replicator := r
    flights := flights.filter fun f => decide (f.item ∈ r.inFlight)
    gone := s.gone ++
      (flights.filter fun f => ! decide (f.item ∈ r.inFlight)).map fun f => (f, e, output)
    moved := s.moved ++ output.fresh
    log := s.log ++ logged e output }

/-- Every packet that ever left the queue. -/
def all (s : Logbook) : List Flight := s.flights ++ s.gone.map Prod.fst

/-! ## One event -/

/-- What an event does to the flights: it sends, and then some of them end. -/
structure Transmits (config : SyncConfig) (s : Logbook) (e : Event) : Prop where
  config_eq : (s.replicator.react e).2.config = config
  ends : ∃ keep : InFlight → Bool,
    (s.replicator.react e).2.inFlight = ((s.transmitted e).map Flight.item).filter keep ∧
      ∀ f ∈ s.transmitted e, keep f.item = false → f.Ends config e (s.replicator.react e).1
  sends : (sendsOf (s.transmitted e)).Perm
    (sendsOf s.flights ++ logged e (s.replicator.react e).1)
  packets : (s.transmitted e).map Flight.packet =
    s.flights.map Flight.packet ++ (s.replicator.react e).1.fresh
  lawful : ∀ f ∈ s.transmitted e, f.Lawful config

/-- The logbook is true of the replicator. -/
structure Keeps (config : SyncConfig) (s : Logbook) : Prop where
  config_eq : s.replicator.config = config
  inFlight : s.flights.map Flight.item = s.replicator.inFlight
  log : s.log.Perm (sendsOf s.all)
  moved : s.moved.Perm (s.all.map Flight.packet)
  lawful : ∀ f ∈ s.all, f.Lawful config
  ended : ∀ g ∈ s.gone, g.1.Ends config g.2.1 g.2.2

theorem filter_keep_all {items : List InFlight} : items.filter (fun _ => true) = items :=
  List.filter_eq_self.mpr fun _ _ => rfl

/-- An effect other than a pump's leaves what is in flight, or releases what is acknowledged. -/
theorem effect_inFlight {r r' : Replicator} {c : Call} {o : Output} (h : Effect r c o r') :
    (∃ answers frame, c = .pump answers frame) ∨
      (o.fresh = [] ∧ r'.config = r.config ∧
        (r'.inFlight = r.inFlight ∨
          ∃ sequence, ((∃ disk, c = .acknowledge disk sequence) ∨
              ∃ p, o.received = some p ∧ p.ack = sequence) ∧
            r'.inFlight = r.inFlight.filter fun item => sequence < item.packet.sequence)) := by
  cases h with
  | idle mode stats hc => exact Or.inr ⟨rfl, rfl, Or.inl rfl⟩
  | burned htakes hspoils => exact Or.inr ⟨rfl, rfl, Or.inl rfl⟩
  | enqueued stats htakes hlogs => exact Or.inr ⟨rfl, rfl, Or.inl rfl⟩
  | spoiled hc hspoils => exact Or.inr ⟨rfl, rfl, Or.inl rfl⟩
  | coalesced stats hpending hpre hold hlogs => exact Or.inr ⟨rfl, rfl, Or.inl rfl⟩
  | pumped stats hpending hinFlight hrest => exact Or.inl ⟨_, _, rfl⟩
  | acknowledged stats hlogs =>
    exact Or.inr ⟨rfl, rfl, Or.inr ⟨_, Or.inl ⟨_, rfl⟩, rfl⟩⟩
  | received hc haccepts hack => exact Or.inr ⟨rfl, rfl, Or.inl rfl⟩
  | receivedAck stats hc haccepts hack hlogs =>
    exact Or.inr ⟨rfl, rfl, Or.inr ⟨_, Or.inr ⟨_, rfl, rfl⟩, rfl⟩⟩
  | receivedSpoiled hc haccepts hack hspoils => exact Or.inr ⟨rfl, rfl, Or.inl rfl⟩
  | session sessionNonce hc => exact Or.inr ⟨rfl, rfl, Or.inl rfl⟩

theorem reaction_inFlight (r : Replicator) {e : Event}
    (hpump : ∀ answers frame, e ≠ .call (.pump answers frame)) :
    (r.react e).1.fresh = [] ∧ (r.react e).2.config = r.config ∧
      ((r.react e).2.inFlight = r.inFlight ∨
        ∃ sequence, Acknowledges e (r.react e).1 sequence ∧
          (r.react e).2.inFlight = r.inFlight.filter fun item =>
            sequence < item.packet.sequence) := by
  have hreact := r.reaction_react e
  revert hreact
  generalize (r.react e).1 = o
  generalize r.recoveredBy e = recovered
  generalize (r.react e).2 = r'
  intro hreact
  cases hreact with
  | call c =>
    rcases effect_inFlight (r.effect_call c) with ⟨answers, frame, rfl⟩ |
      ⟨hfresh, hconfig, hsame | ⟨sequence, hack, hfilter⟩⟩
    · exact absurd rfl (hpump answers frame)
    · exact ⟨hfresh, hconfig, Or.inl hsame⟩
    · refine ⟨hfresh, hconfig, Or.inr ⟨sequence, ?_, hfilter⟩⟩
      rcases hack with ⟨disk, rfl⟩ | hack
      · exact Or.inl ⟨disk, rfl⟩
      · exact Or.inr hack
  | received disk bytes p =>
    rcases effect_inFlight (r.effect_call (.receive disk p)) with ⟨answers, frame, h⟩ |
      ⟨hfresh, hconfig, hsame | ⟨sequence, hack, hfilter⟩⟩
    · exact absurd h (by simp)
    · exact ⟨hfresh, hconfig, Or.inl hsame⟩
    · refine ⟨hfresh, hconfig, Or.inr ⟨sequence, ?_, hfilter⟩⟩
      rcases hack with ⟨disk, h⟩ | hack
      · exact absurd h (by simp)
      · exact Or.inr hack
  | rejected disk bytes => exact ⟨rfl, rfl, Or.inl rfl⟩
  | refused wal => exact ⟨rfl, rfl, Or.inl rfl⟩
  | attached h => exact ⟨rfl, rfl, Or.inl rfl⟩

theorem transmitted_of_not_pump (s : Logbook) {e : Event}
    (hpump : ∀ answers frame, e ≠ .call (.pump answers frame)) (o : Output) :
    s.transmitted e = s.flights ∧ logged e o = [] := by
  cases e with
  | call c =>
    cases c with
    | pump answers frame => exact absurd rfl (hpump answers frame)
    | _ => exact ⟨rfl, rfl⟩
  | _ => exact ⟨rfl, rfl⟩

theorem Keeps.lawful_flights {config : SyncConfig} {s : Logbook} (h : Keeps config s) :
    ∀ f ∈ s.flights, f.Lawful config :=
  fun f hf => h.lawful f (List.mem_append_left _ hf)

/-- **An event that is no pump** sends nothing. -/
theorem transmits_of_not_pump {config : SyncConfig} {s : Logbook} (h : Keeps config s)
    {e : Event} (hpump : ∀ answers frame, e ≠ .call (.pump answers frame)) :
    Transmits config s e := by
  obtain ⟨hflights, hlogged⟩ := s.transmitted_of_not_pump hpump (s.replicator.react e).1
  obtain ⟨hfresh, hconfig, hinFlight⟩ := reaction_inFlight s.replicator hpump
  refine ⟨hconfig.trans h.config_eq, ?_, ?_, ?_, ?_⟩
  · rw [hflights, h.inFlight]
    rcases hinFlight with hsame | ⟨sequence, hack, hfilter⟩
    · exact ⟨fun _ => true, hsame.trans filter_keep_all.symm,
        fun f hf hkeep => absurd hkeep (by simp)⟩
    · refine ⟨_, hfilter, ?_⟩
      intro f hf hkeep
      refine .acknowledged hack ?_
      simpa [Flight.packet] using hkeep
  · rw [hflights, hlogged, List.append_nil]
  · rw [hflights, hfresh, List.append_nil]
  · rw [hflights]
    exact h.lawful_flights

/-- What a pump gives up on has used up its retries, the last of them long enough ago. -/
theorem ends_of_exhausted {config : SyncConfig} {f : Flight} (h : f.Lawful config)
    {answers : List (Except TransportError Unit)} {frame : UInt64} (o : Output)
    (hexhausted : exhausted config frame f.item = true) :
    f.Ends config (.call (.pump answers frame)) o := by
  obtain ⟨hretries, hdue⟩ := of_decide_eq_true hexhausted
  have heq : f.item.retries = config.maxRetries := UInt8.le_antisymm h.limit hretries
  exact .exhausted rfl (heq ▸ h.count) h.last hdue

/-- A pump sends nothing while the replicator is not online. -/
theorem transmits_offline {config : SyncConfig} {s : Logbook} (h : Keeps config s)
    (hmode : s.replicator.mode ≠ .online) (answers : List (Except TransportError Unit))
    (frame : UInt64) :
    Transmits config s (.call (.pump answers frame)) := by
  have hflights : s.transmitted (.call (.pump answers frame)) = s.flights := if_pos hmode
  have hreact : s.replicator.react (.call (.pump answers frame)) =
      ({ fresh := [], handed := [] }, s.replicator) := by
    simp only [react, call, pump, if_pos hmode, List.take_zero]
  refine ⟨?_, ⟨fun _ => true, ?_, fun f hf hkeep => absurd hkeep (by simp)⟩, ?_, ?_, ?_⟩
  · rw [hreact]
    exact h.config_eq
  · rw [hreact, hflights, h.inFlight]
    exact filter_keep_all.symm
  · rw [hreact, hflights]
    exact List.Perm.of_eq (List.append_nil _).symm
  · rw [hreact, hflights]
    exact (List.append_nil _).symm
  · rw [hflights]
    exact h.lawful_flights

/-- **A pump.** Its two loops send, and the third pass ends the exhausted flights. -/
theorem transmits_online {config : SyncConfig} {s : Logbook} (h : Keeps config s)
    (hmode : ¬ s.replicator.mode ≠ .online) (answers : List (Except TransportError Unit))
    (frame : UInt64) :
    Transmits config s (.call (.pump answers frame)) := by
  have hlawful := h.lawful_flights
  obtain rfl := h.config_eq
  obtain ⟨moved, left, flights₁, script₁, blocked, handed, hlaunch, hsend, hpending, hpackets,
    hhanded, hlog, hlawful₁⟩ := launch_script hlawful s.replicator.config.maxInFlight frame
      s.replicator.pending (Script.mk answers [])
  obtain ⟨flights₂, script₂, resent, blocked', handed', hrelaunch, hresend, hpackets', hhanded',
    hlog', hlawful₂⟩ := relaunch_script hlawful₁ frame script₁
  have hflights : s.transmitted (.call (.pump answers frame)) = flights₂ := by
    simp only [transmitted, if_neg hmode, hlaunch, hrelaunch]
  rw [h.inFlight] at hsend
  have houtput : (s.replicator.react (.call (.pump answers frame))).1 =
      { fresh := moved, handed := script₂.handed } := by
    simp only [react, call, pump, if_neg hmode, hsend, hresend]
    rw [hpending, List.take_left]
  have hinFlight : (s.replicator.react (.call (.pump answers frame))).2.inFlight =
      (flights₂.map Flight.item).filter
        fun item => ! exhausted s.replicator.config frame item := by
    simp only [react, call, pump, if_neg hmode, hsend, hresend]
  have hconfig : (s.replicator.react (.call (.pump answers frame))).2.config =
      s.replicator.config := by
    simp only [react, call, pump, if_neg hmode, hsend, hresend]
  refine ⟨hconfig, ⟨_, hflights ▸ hinFlight, ?_⟩, ?_, ?_, ?_⟩
  · intro f hf hkeep
    rw [hflights] at hf
    exact ends_of_exhausted (hlawful₂ f hf) _ (by simpa using hkeep)
  · have hall : script₂.handed = handed ++ handed' := by
      rw [hhanded', hhanded]
      rfl
    have htaken : logged (.call (.pump answers frame))
        (s.replicator.react (.call (.pump answers frame))).1 =
          takenIn frame handed ++ takenIn frame handed' := by
      rw [houtput, logged, hall, takenIn, List.filter_append, List.map_append]
      rfl
    rw [hflights, htaken, ← List.append_assoc, ← hlog]
    exact hlog'
  · rw [hflights, houtput, hpackets', hpackets]
  · rw [hflights]
    exact hlawful₂

theorem transmits {config : SyncConfig} {s : Logbook} (h : Keeps config s) (e : Event) :
    Transmits config s e := by
  by_cases hpump : ∃ answers frame, e = .call (.pump answers frame)
  · obtain ⟨answers, frame, rfl⟩ := hpump
    by_cases hmode : s.replicator.mode ≠ .online
    · exact transmits_offline h hmode answers frame
    · exact transmits_online h hmode answers frame
  · refine transmits_of_not_pump h ?_
    intro answers frame he
    exact hpump ⟨answers, frame, he⟩

/-! ## Runs -/

theorem append_right_comm {α : Type} (xs ys zs : List α) :
    (xs ++ ys ++ zs).Perm (xs ++ zs ++ ys) := by
  rw [List.append_assoc, List.append_assoc]
  exact List.perm_append_comm.append_left xs

theorem sendsOf_append (fs gs : List Flight) : sendsOf (fs ++ gs) = sendsOf fs ++ sendsOf gs :=
  List.flatMap_append

/-- No flight is lost in a step, and none is in two places. -/
theorem all_step (s : Logbook) (e : Event) :
    (s.step e).all.Perm (s.transmitted e ++ s.gone.map Prod.fst) := by
  have hsplit := List.filter_append_perm
    (fun f : Flight => decide (f.item ∈ (s.replicator.react e).2.inFlight)) (s.transmitted e)
  have hall : (s.step e).all =
      (s.transmitted e).filter
          (fun f => decide (f.item ∈ (s.replicator.react e).2.inFlight)) ++
        (s.gone.map Prod.fst ++ (s.transmitted e).filter
          fun f => ! decide (f.item ∈ (s.replicator.react e).2.inFlight)) := by
    simp [all, step, Function.comp_def]
  rw [hall, ← List.append_assoc]
  exact (append_right_comm _ _ _).trans (hsplit.append_right _)

/-- When the packets in flight are those of the flights that some test keeps, the flights are
    these, and the others are gone. -/
theorem step_of_keep {s : Logbook} {e : Event} {keep : InFlight → Bool}
    (hinFlight : (s.replicator.react e).2.inFlight =
      ((s.transmitted e).map Flight.item).filter keep) :
    (s.step e).flights = (s.transmitted e).filter (fun f => keep f.item) ∧
      (s.step e).gone = s.gone ++
        ((s.transmitted e).filter fun f => ! keep f.item).map
          fun f => (f, e, (s.replicator.react e).1) := by
  have hmem : ∀ f ∈ s.transmitted e,
      decide (f.item ∈ (s.replicator.react e).2.inFlight) = keep f.item := by
    intro f hf
    have hitem : f.item ∈ (s.transmitted e).map Flight.item := List.mem_map_of_mem hf
    rw [hinFlight, Bool.eq_iff_iff, decide_eq_true_iff, List.mem_filter]
    exact ⟨fun h => h.2, fun h => ⟨hitem, h⟩⟩
  have hdropped : ((s.transmitted e).filter
      fun f => ! decide (f.item ∈ (s.replicator.react e).2.inFlight)) =
        (s.transmitted e).filter fun f => ! keep f.item :=
    List.filter_congr fun f hf => congrArg not (hmem f hf)
  refine ⟨List.filter_congr hmem, ?_⟩
  rw [← hdropped]
  rfl

/-- **One event keeps the logbook.** -/
theorem Keeps.step {config : SyncConfig} {s : Logbook} (h : Keeps config s) (e : Event) :
    Keeps config (s.step e) := by
  have ht := transmits h e
  obtain ⟨keep, hinFlight, hends⟩ := ht.ends
  have hall := s.all_step e
  obtain ⟨hflights, hgone⟩ := step_of_keep hinFlight
  refine ⟨ht.config_eq, ?_, ?_, ?_, ?_, ?_⟩
  · have hreplicator : (s.step e).replicator = (s.replicator.react e).2 := rfl
    rw [hflights, hreplicator, hinFlight, List.filter_map]
    rfl
  · have hlog : (s.step e).log = s.log ++ logged e (s.replicator.react e).1 := rfl
    have hsends : (sendsOf (s.step e).all).Perm
        (sendsOf (s.transmitted e) ++ sendsOf (s.gone.map Prod.fst)) := by
      rw [← sendsOf_append]
      exact hall.flatMap_right _
    have hbefore := h.log
    rw [all, sendsOf_append] at hbefore
    rw [hlog]
    exact (hbefore.append_right _).trans ((append_right_comm _ _ _).trans
      ((ht.sends.symm.append_right _).trans hsends.symm))
  · have hmoved : (s.step e).moved = s.moved ++ (s.replicator.react e).1.fresh := rfl
    have hpackets := hall.map Flight.packet
    rw [List.map_append, ht.packets] at hpackets
    have hbefore := h.moved
    rw [all, List.map_append] at hbefore
    rw [hmoved]
    exact (hbefore.append_right _).trans ((append_right_comm _ _ _).trans hpackets.symm)
  · intro f hf
    rcases List.mem_append.mp (hall.mem_iff.mp hf) with hf | hf
    · exact ht.lawful f hf
    · exact h.lawful f (List.mem_append_right _ hf)
  · intro g hg
    rw [hgone] at hg
    rcases List.mem_append.mp hg with hg | hg
    · exact h.ended g hg
    · obtain ⟨f, hf, rfl⟩ := List.mem_map.mp hg
      obtain ⟨hf, hkeep⟩ := List.mem_filter.mp hf
      exact hends f hf (by simpa using hkeep)

theorem keeps_new (config : SyncConfig) : Keeps config (new (blank config)) where
  config_eq := rfl
  inFlight := rfl
  log := List.Perm.refl _
  moved := List.Perm.refl _
  lawful := fun f hf => absurd hf (by simp [new, all])
  ended := fun g hg => absurd hg (by simp [new])

/-- A replicator as `try_new` builds it, after these events. -/
def run (config : SyncConfig) (events : List Event) : Logbook :=
  events.foldl step (new (blank config))

/-- **A run keeps the logbook.** -/
theorem keeps_run (config : SyncConfig) (events : List Event) :
    Keeps config (run config events) := by
  have hrun : ∀ s, Keeps config s → Keeps config (events.foldl step s) := by
    induction events with
    | nil => exact fun s h => h
    | cons e events ih => exact fun s h => ih (s.step e) (h.step e)
  exact hrun _ (keeps_new config)

/-- The logbook only watches. -/
theorem replicator_foldl_step (events : List Event) (s : Logbook) :
    (events.foldl step s).replicator =
      events.foldl (fun r e => (r.react e).2) s.replicator := by
  induction events generalizing s with
  | nil => rfl
  | cons e events ih => exact ih (s.step e)

/-- **The law of retries.** Under any configuration, after any events: every packet that left the
    queue has a flight, and what the transport took is what the flights sent. A packet was taken
    once and then once for each retry it is charged with, at most `1 + max_retries` times in all;
    each of these frames is as far from the one before it as the configuration asks; and a flight
    ends when an acknowledgement covers it, or when all its retries are used up and the last of
    them is long enough ago. -/
theorem retry_law (config : SyncConfig) (events : List Event) :
    (run config events).replicator =
        events.foldl (fun r e => (r.react e).2) (blank config) ∧
    (run config events).flights.map Flight.item = (run config events).replicator.inFlight ∧
    (run config events).moved.Perm ((run config events).all.map Flight.packet) ∧
    (run config events).log.Perm (sendsOf (run config events).all) ∧
    (∀ f ∈ (run config events).all,
      f.taken.length = f.item.retries.toNat + 1 ∧
        f.taken.length ≤ 1 + config.maxRetries.toNat ∧
        f.taken.getLast? = some f.item.lastSent ∧
        f.taken.IsChain fun before frame =>
          config.resendAfterFrames ≤ saturatingSub frame before) ∧
    ∀ g ∈ (run config events).gone, g.1.Ends config g.2.1 g.2.2 := by
  have hkeeps := keeps_run config events
  refine ⟨replicator_foldl_step events _, hkeeps.inFlight, hkeeps.moved, hkeeps.log, ?_,
    hkeeps.ended⟩
  intro f hf
  have hlawful := hkeeps.lawful f hf
  have hlimit : f.item.retries.toNat ≤ config.maxRetries.toNat :=
    UInt8.le_iff_toNat_le.mp hlawful.limit
  refine ⟨hlawful.count, ?_, hlawful.last, hlawful.spaced⟩
  rw [hlawful.count]
  omega

end Logbook

end Sync
end EngineKit
