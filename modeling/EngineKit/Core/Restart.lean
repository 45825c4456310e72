import EngineKit.Bus.Delivery
import EngineKit.Core.Kernel

/-!
# The bus across restarts

`init` registers an inbox for every subsystem, "index == registry index", each time it initialises,
and `shutdown` leaves the bus as it is. So a second round runs on the inboxes of the first, with
whatever they still hold, and as many again that nobody reads.

Every payload carries the number of shutdowns before it was published, which no callback sees
(`Callback.stamp`): an envelope of an earlier round is one with a lower stamp. `restart_clean` is
the law for runs in which whatever initialises finds a bus without inboxes, which in effect is the
first round only.

Stamps are how an envelope of an earlier round is told from one of this round: the code has no such
thing, and a payload has no say in where its envelope goes, so stamping what callbacks publish
changes nothing else. The invariant is about the inboxes of the round in progress (`Carries`).
Between rounds it says nothing of them: what they hold then is what the guard is there for.
-/

set_option autoImplicit false

namespace EngineKit
namespace Core

open Lib Schedule Bus

variable {w : PointerWidth} {P : Type}

/-! ## Stamps -/

def unstamp (envelope : Envelope (Nat × P)) : Envelope P :=
  { envelope with payload := envelope.payload.2 }

/-- The callback, with everything it publishes stamped. -/
def Callback.stamp (epoch : Nat) : Callback P → Callback (Nat × P)
  | .done => .done
  | .publish recipient topic payload next =>
    .publish recipient topic (epoch, payload) fun answer => (next answer).stamp epoch
  | .receive next => .receive fun envelope => (next (envelope.map unstamp)).stamp epoch

def Op.stamp (epoch : Nat) : Op P → Op (Nat × P)
  | .register subsystem => .register subsystem
  | .init room programs => .init room fun idx => (programs idx).stamp epoch
  | .runUntil count keepRunning ticks =>
    .runUntil count keepRunning fun frame idx => (ticks frame idx).stamp epoch
  | .shutdown programs => .shutdown fun idx => (programs idx).stamp epoch

def Event.received? : Event P → Option (Envelope P)
  | .called _ _ => none
  | .received _ envelope => some envelope

/-- The envelopes received. -/
def receipts (events : List (Event P)) : List (Envelope P) := events.filterMap Event.received?

/-! ## A kernel and its restarts -/

/-- A kernel, how often it was shut down, how many inboxes and subsystems there were after each
    `init` that initialised, and what was received after how many shutdowns. -/
structure Restarts (w : PointerWidth) (P : Type) where
  kernel : Kernel w (Nat × P)
  epoch : Nat
  opened : List (Nat × Nat)
  received : List (Nat × Envelope (Nat × P))

namespace Restarts

def Starts (s : Restarts w P) : Prop :=
  ∃ room bus, MessageBus.tryNew room = .ok bus ∧ s = ⟨Kernel.new bus, 0, [], []⟩

def step (s : Restarts w P) (op : Op P) : Restarts w P :=
  let (kernel, events) := s.kernel.apply (op.stamp s.epoch)
  { kernel
    epoch := if s.kernel.initialized && ! kernel.initialized then s.epoch + 1 else s.epoch
    opened :=
      if kernel.initialized && ! s.kernel.initialized then
        s.opened ++ [(kernel.bus.inboxes.length, kernel.registry.entries.length)]
      else s.opened
    received := s.received ++ (receipts events).map fun envelope => (s.epoch, envelope) }

def steps : Restarts w P → Op P → Restarts w P → Prop := fun s op t => t = s.step op

/-- One inbox for every subsystem, and nothing received from before a shutdown. -/
structure Clean (s : Restarts w P) : Prop where
  opened (inboxes entries : Nat) : (inboxes, entries) ∈ s.opened → inboxes = entries
  received (epoch : Nat) (envelope : Envelope (Nat × P)) :
    (epoch, envelope) ∈ s.received → envelope.payload.1 = epoch

/-- The kernel is about to initialise. -/
structure Initialises (k : Kernel w (Nat × P)) (room : Room) : Prop where
  fresh : k.initialized = false
  schedulable : k.registry.Schedulable
  inboxes (i : Nat) : i < k.registry.entries.length → room.table i = true ∧ room.ring i = true
  edges : room.edges = true
  addresses : 0 < k.registry.entries.length →
    k.bus.inboxes.length + k.registry.entries.length ≤ 2 ^ 32

/-- Whatever initialises finds a bus without inboxes. -/
def freshBus (s : Restarts w P) : Op P → Prop
  | .init room _ => Initialises s.kernel room → s.kernel.bus.inboxes = []
  | _ => True

end Restarts

/-! ## What callbacks do to the bus -/

/-- The bus is in order, with an empty outbox and so many inboxes, and what they hold has the
    stamp. -/
structure Carries (bus : MessageBus w (Nat × P)) (inboxes epoch : Nat) : Prop where
  wf : bus.Wf
  outbox : bus.mail.outbox = []
  length : bus.mail.inboxes.length = inboxes
  stamped (inbox : List (Envelope (Nat × P))) : inbox ∈ bus.mail.inboxes →
    ∀ envelope ∈ inbox, envelope.payload.1 = epoch

section Carries

variable {bus : MessageBus w (Nat × P)} {inboxes epoch : Nat}

/-- A delivery leaves the inboxes, or appends to one. -/
theorem mem_deliver {Q : Type} {mail : Mail Q} {queued : Envelope Q} {inbox : List (Envelope Q)}
    (h : inbox ∈ (mail.deliver queued).2.inboxes) :
    inbox ∈ mail.inboxes ∨ ∃ old ∈ mail.inboxes, inbox = old ++ [queued] := by
  unfold Mail.deliver at h
  split at h
  · exact .inl h
  · next old hold =>
    split at h
    · cases List.mem_or_eq_of_mem_set h with
      | inl hsame => exact .inl hsame
      | inr hnew => exact .inr ⟨old, List.mem_of_getElem? hold, hnew⟩
    · exact .inl h

/-- Deliveries add no inbox. -/
theorem length_deliver {Q : Type} (mail : Mail Q) (queued : Envelope Q) :
    (mail.deliver queued).2.inboxes.length = mail.inboxes.length := by
  unfold Mail.deliver
  split
  · rfl
  · split
    · exact List.length_set
    · rfl

/-- **Publishing** puts stamped envelopes in. -/
theorem Carries.publish (h : Carries bus inboxes epoch) {envelope : Envelope (Nat × P)}
    (hstamp : envelope.payload.1 = epoch) : Carries (bus.publish envelope).2 inboxes epoch := by
  obtain ⟨-, hwf, hmail⟩ := h.wf.publish envelope
  rw [Mail.publish_eq_deliver h.outbox] at hmail
  refine ⟨hwf, ?_, ?_, ?_⟩
  · rw [hmail, Mail.outbox_deliver, h.outbox]
  · rw [hmail, length_deliver, h.length]
  · intro inbox hinbox
    rw [hmail] at hinbox
    rcases mem_deliver hinbox with hold | ⟨old, hold, rfl⟩
    · exact h.stamped inbox hold
    · intro e he
      cases List.mem_append.mp he with
      | inl he => exact h.stamped old hold e he
      | inr he => exact (List.mem_singleton.mp he) ▸ hstamp

/-- **Popping** takes stamped envelopes out. -/
theorem Carries.popInbox (h : Carries bus inboxes epoch) (id : SubscriberId) :
    Carries (bus.popInbox id).2 inboxes epoch ∧
      ∀ envelope, (bus.popInbox id).1 = some envelope → envelope.payload.1 = epoch := by
  obtain ⟨hanswer, hwf, hmail⟩ := h.wf.popInbox id
  rw [hanswer]
  unfold Mail.popInbox at hmail ⊢
  cases hbox : bus.mail.inboxes[id.raw.toNat]? with
  | none =>
    simp only [hbox] at hmail ⊢
    exact ⟨⟨hwf, hmail ▸ h.outbox, hmail ▸ h.length, hmail ▸ h.stamped⟩, nofun⟩
  | some inbox =>
    simp only [hbox] at hmail ⊢
    have hinbox := h.stamped inbox (List.mem_of_getElem? hbox)
    refine ⟨⟨hwf, ?_, ?_, ?_⟩, ?_⟩
    · rw [hmail]
      exact h.outbox
    · rw [hmail]
      exact List.length_set.trans h.length
    · intro inbox' hin
      rw [hmail] at hin
      cases List.mem_or_eq_of_mem_set hin with
      | inl hold => exact h.stamped inbox' hold
      | inr hnew => exact hnew ▸ fun e he => hinbox e (List.mem_of_mem_tail he)
    · intro envelope hhead
      exact hinbox envelope (List.mem_of_mem_head? hhead)

theorem Carries.aside (h : Carries bus inboxes epoch) {bus' : MessageBus w (Nat × P)}
    (houtbox : bus'.outbox = bus.outbox) (hinboxes : bus'.inboxes = bus.inboxes) :
    Carries bus' inboxes epoch := by
  obtain ⟨hwf, hmail⟩ := h.wf.congr houtbox hinboxes
  exact ⟨hwf, hmail ▸ h.outbox, hmail ▸ h.length, hmail ▸ h.stamped⟩

/-- A flush has nothing to move. -/
theorem Carries.flush (h : Carries bus inboxes epoch) : Carries bus.flush inboxes epoch := by
  obtain ⟨hwf, hmail⟩ := h.wf.flush
  rw [Mail.flush_eq_self h.outbox] at hmail
  exact ⟨hwf, hmail ▸ h.outbox, hmail ▸ h.length, hmail ▸ h.stamped⟩

/-- Callbacks so far: what they left on the bus and what they received has the stamp. -/
structure Live.Stamped (live : Live w (Nat × P)) (inboxes epoch : Nat) : Prop where
  carries : Carries live.bus inboxes epoch
  receipts (envelope : Envelope (Nat × P)) :
    envelope ∈ receipts live.events → envelope.payload.1 = epoch

theorem receipts_append {Q : Type} (events more : List (Event Q)) :
    receipts (events ++ more) = receipts events ++ receipts more := List.filterMap_append

/-- **Any callback.** -/
theorem Callback.run_stamped (program : Callback P) (idx : Nat) {live : Live w (Nat × P)}
    (h : live.Stamped inboxes epoch) :
    ((program.stamp epoch).run idx live).Stamped inboxes epoch := by
  -- On the callback: what it publishes has the stamp of now, and what it receives was held.
  induction program generalizing live with
  | done => exact h
  | publish recipient topic payload next ih =>
    have hcounted : Carries { live.bus with nextSeq := live.bus.nextSeq + 1 } inboxes epoch :=
      h.carries.aside rfl rfl
    exact ih _ ⟨hcounted.publish rfl, h.receipts⟩
  | receive next ih =>
    obtain ⟨hcarries, hpopped⟩ := h.carries.popInbox ⟨UInt32.ofNat idx⟩
    rw [Callback.stamp, Callback.run]
    split
    · next hpop =>
      rw [hpop] at hcarries
      exact ih _ ⟨hcarries, h.receipts⟩
    · next envelope bus hpop =>
      rw [hpop] at hcarries hpopped
      refine ih _ ⟨hcarries, ?_⟩
      intro e he
      rw [receipts_append] at he
      cases List.mem_append.mp he with
      | inl hold => exact h.receipts e hold
      | inr hlast =>
        obtain rfl : e = envelope := by simpa [Core.receipts, Event.received?] using hlast
        exact hpopped e rfl

/-- A sweep of them. -/
theorem callAll_stamped (phase : Phase) (programs : Nat → Callback P) (order : List Nat)
    (h : Carries bus inboxes epoch) :
    (callAll phase (fun idx => (programs idx).stamp epoch) order bus).Stamped inboxes epoch := by
  have hfold (live : Live w (Nat × P)) (hlive : live.Stamped inboxes epoch) :
      (order.foldl (Live.call phase fun idx => (programs idx).stamp epoch) live).Stamped
        inboxes epoch := by
    induction order generalizing live with
    | nil => exact hlive
    | cons idx order ih =>
      refine ih _ ((programs idx).run_stamped idx ⟨hlive.carries, ?_⟩)
      intro e he
      rw [receipts_append] at he
      exact hlive.receipts e (by simpa [Core.receipts, Event.received?] using he)
  exact hfold ⟨bus, []⟩ ⟨h, nofun⟩

/-- And frames of sweeps. -/
theorem frames_stamped (keepRunning : Nat → Bool) (ticks : Nat → Nat → Callback P)
    (exec : List Nat) (left i : Nat) {k : Kernel w (Nat × P)}
    (h : Carries k.bus inboxes epoch) :
    let ran := Kernel.frames keepRunning (fun frame idx => (ticks frame idx).stamp epoch) exec
      left i k
    Carries ran.1.bus inboxes epoch ∧ ∀ envelope ∈ receipts ran.2, envelope.payload.1 = epoch := by
  -- On the frames that are left.
  induction left generalizing i k with
  | zero => exact ⟨h, List.forall_mem_nil _⟩
  | succ left ih =>
    rw [Kernel.frames]
    split
    · obtain ⟨hcarries, hreceipts⟩ := callAll_stamped .tick (ticks i) exec h.flush
      obtain ⟨hcarries', hmore⟩ := ih (i + 1)
        (k := (k.frame (fun idx => (ticks i idx).stamp epoch) exec).1) hcarries
      refine ⟨hcarries', ?_⟩
      intro e he
      rw [receipts_append] at he
      cases List.mem_append.mp he with
      | inl hfirst => exact hreceipts e hfirst
      | inr hrest => exact hmore e hrest
    · exact ⟨h, List.forall_mem_nil _⟩

/-- On a bus without inboxes those that are added are all it has, and empty. -/
theorem init_stamped (hwf : bus.Wf) (houtbox : bus.mail.outbox = []) (hempty : bus.inboxes = [])
    {room : Room} {n : Nat} (hroom : (Kernel.addSubscribers room n bus).1 = true)
    (edges : List (List Bool)) (programs : Nat → Callback P) (order : List Nat) :
    (callAll .init (fun idx => (programs idx).stamp epoch) order
      { (Kernel.addSubscribers room n bus).2 with edges }).Stamped n epoch := by
  obtain ⟨hwfAdded, added, -, hadded, hall⟩ := Kernel.addSubscribers_spec hwf room n
  have hbare : bus.mail.inboxes = [] := by
    rw [MessageBus.mail, hempty]
    rfl
  rw [hbare, List.nil_append, (hall hroom).1] at hadded
  have hinboxes : Carries (Kernel.addSubscribers room n bus).2 n epoch := by
    refine ⟨hwfAdded, ?_, ?_, ?_⟩
    · rw [hadded]
      exact houtbox
    · rw [hadded]
      exact List.length_replicate
    · intro inbox hinbox
      rw [hadded] at hinbox
      rw [List.eq_of_mem_replicate hinbox]
      exact List.forall_mem_nil _
  exact callAll_stamped .init programs order (hinboxes.aside rfl rfl)

theorem runUntil_stamped (count : UInt64) (keepRunning : Nat → Bool)
    (ticks : Nat → Nat → Callback P) {k : Kernel w (Nat × P)} (h : Carries k.bus inboxes epoch) :
    let ran := k.runUntil count keepRunning fun frame idx => (ticks frame idx).stamp epoch
    Carries ran.2.1.bus inboxes epoch ∧
      ∀ envelope ∈ receipts ran.2.2, envelope.payload.1 = epoch := by
  unfold Kernel.runUntil
  split
  · exact ⟨h, nofun⟩
  · split
    · exact ⟨h, nofun⟩
    · exact frames_stamped keepRunning ticks k.order count.toNat 0 h

end Carries

/-! ## The law -/

namespace Restarts

/-- What a run keeps whose `init`s find a fresh bus. -/
structure Fresh (s : Restarts w P) : Prop where
  distinct : s.kernel.registry.Distinct
  wf : s.kernel.bus.Wf
  outbox : s.kernel.bus.mail.outbox = []
  carries : s.kernel.initialized = true → ∃ inboxes, Carries s.kernel.bus inboxes s.epoch
  clean : s.Clean

section Steps

variable {s : Restarts w P}

/-- A kernel just built has no inbox. -/
theorem Fresh.start (h : s.Starts) : s.Fresh := by
  obtain ⟨room, bus, hnew, rfl⟩ := h
  obtain ⟨hwf, hmail⟩ := MessageBus.tryNew_spec hnew
  exact ⟨List.nodup_nil, hwf, congrArg Mail.outbox hmail, nofun, nofun, nofun⟩

/-- What initialises nothing opens nothing. -/
theorem opened_step {op : Op P}
    (h : (s.step op).kernel.initialized = true → s.kernel.initialized = true) :
    (s.step op).opened = s.opened := by
  refine if_neg ?_
  rw [Bool.and_eq_true, Bool.not_eq_true']
  intro hall
  obtain ⟨hnow, hbefore⟩ := hall
  exact Bool.false_ne_true (hbefore.symm.trans (h hnow))

/-- And what shuts nothing down begins no epoch. -/
theorem epoch_step {op : Op P}
    (h : s.kernel.initialized = true → (s.step op).kernel.initialized = true) :
    (s.step op).epoch = s.epoch := by
  refine if_neg ?_
  rw [Bool.and_eq_true, Bool.not_eq_true']
  intro hall
  obtain ⟨hbefore, hnow⟩ := hall
  exact Bool.false_ne_true (hnow.symm.trans (h hbefore))

/-- Receiving what has the stamp of now is clean. -/
theorem Clean.receive (h : s.Clean) (envelopes : List (Envelope (Nat × P)))
    (hnow : ∀ envelope ∈ envelopes, envelope.payload.1 = s.epoch) (epoch : Nat)
    (envelope : Envelope (Nat × P))
    (hmem : (epoch, envelope) ∈ s.received ++ envelopes.map fun e => (s.epoch, e)) :
    envelope.payload.1 = epoch := by
  cases List.mem_append.mp hmem with
  | inl hold => exact h.received epoch envelope hold
  | inr hnew =>
    obtain ⟨e, he, heq⟩ := List.mem_map.mp hnew
    obtain ⟨rfl, rfl⟩ := Prod.mk.inj heq
    exact hnow e he

theorem Fresh.register (h : s.Fresh) (subsystem : Subsystem) :
    (s.step (.register subsystem)).Fresh := by
  obtain ⟨hdistinct, hwf, houtbox, hcarries, hclean⟩ := h
  have hopened : (s.step (.register subsystem)).opened = s.opened := opened_step id
  have hepoch : (s.step (.register subsystem)).epoch = s.epoch := epoch_step id
  refine ⟨hdistinct.register subsystem, hwf, houtbox, ?_, ?_, ?_⟩
  · intro hinit
    rw [hepoch]
    exact hcarries hinit
  · rw [hopened]
    exact hclean.opened
  · exact hclean.receive [] (List.forall_mem_nil _)

/-- **An `init` on a fresh bus** opens as many inboxes as there are subsystems. -/
theorem Fresh.init (h : s.Fresh) (room : Room) (programs : Nat → Callback P)
    (hfresh : s.freshBus (.init room programs)) : (s.step (.init room programs)).Fresh := by
  obtain ⟨hdistinct, hwf, houtbox, hcarries, hclean⟩ := h
  obtain ⟨hwfAdded, added, -, hadded, hall⟩ :=
    Kernel.addSubscribers_spec hwf room s.kernel.registry.entries.length
  -- Nothing was initialised, and at most inboxes were added; or a round begins on the inboxes that
  -- were added.
  rcases s.kernel.init_cases room (fun idx => (programs idx).stamp s.epoch) with
    ⟨⟨hregistry, -, hstays⟩, hnone, hbus⟩ |
    ⟨hclosed, hedges, deps, plan, edges, hdeps, hplan, hroom, -, hregistry, hbus, -, hinit, hevents⟩
  · -- nothing is scheduled: the bus is as it was, or has inboxes more that are empty
    have hepoch : (s.step (.init room programs)).epoch = s.epoch := epoch_step hstays.trans
    have hopened : (s.step (.init room programs)).opened = s.opened := opened_step hstays.symm.trans
    have hreceived : (s.step (.init room programs)).received = s.received := by
      simp [step, Op.stamp, Kernel.apply, hnone, receipts]
    refine ⟨hregistry ▸ hdistinct, ?_, ?_, ?_, hopened ▸ hclean.opened, ?_⟩
    · show (s.kernel.init room fun idx => (programs idx).stamp s.epoch).2.1.bus.Wf
      rcases hbus with hsame | ⟨-, hmore⟩
      · exact hsame ▸ hwf
      · exact hmore ▸ hwfAdded
    · show (s.kernel.init room fun idx => (programs idx).stamp s.epoch).2.1.bus.mail.outbox = []
      rcases hbus with hsame | ⟨-, hmore⟩
      · exact hsame ▸ houtbox
      · rw [hmore, hadded]
        exact houtbox
    · intro hinit
      have hinit : s.kernel.initialized = true := hstays ▸ hinit
      rw [hepoch]
      show ∃ inboxes, Carries (s.kernel.init room _).2.1.bus inboxes s.epoch
      rcases hbus with hsame | ⟨hnot, -⟩
      · exact hsame ▸ hcarries hinit
      · rw [hnot] at hinit
        exact absurd hinit (by simp)
    · rw [hreceived]
      exact hclean.received
  · obtain ⟨hcount, hrooms, haddresses⟩ := hall hroom
    have hlen : s.kernel.bus.mail.inboxes.length = s.kernel.bus.inboxes.length := List.length_map _
    have hempty : s.kernel.bus.inboxes = [] := hfresh ⟨hclosed,
      hdistinct.schedulable_iff.mpr ⟨deps, plan, hdeps, hplan⟩, hrooms, hedges, hlen ▸ haddresses⟩
    obtain ⟨hlive, hnow⟩ := init_stamped hwf houtbox hempty hroom edges programs
      (plan.order.map Fin.val)
    rw [← hbus] at hlive
    rw [← hevents] at hnow
    have hepoch : (s.step (.init room programs)).epoch = s.epoch := epoch_step fun _ => hinit
    refine ⟨hregistry ▸ hdistinct, hlive.wf, hlive.outbox, ?_, ?_, ?_⟩
    · intro _
      rw [hepoch]
      exact ⟨_, hlive⟩
    · intro inboxes entries hmem
      simp only [step, Op.stamp, Kernel.apply, hclosed, hinit, Bool.not_false, Bool.and_self,
        if_true] at hmem
      cases List.mem_append.mp hmem with
      | inl hold => exact hclean.opened inboxes entries hold
      | inr hlast =>
        obtain ⟨rfl, rfl⟩ := Prod.mk.inj (List.mem_singleton.mp hlast)
        rw [hregistry, ← hlive.length]
        exact (List.length_map _).symm
    · exact hclean.receive _ hnow

theorem Fresh.runUntil (h : s.Fresh) (count : UInt64) (keepRunning : Nat → Bool)
    (ticks : Nat → Nat → Callback P) : (s.step (.runUntil count keepRunning ticks)).Fresh := by
  obtain ⟨hdistinct, hwf, houtbox, hcarries, hclean⟩ := h
  obtain ⟨⟨hregistry, -, hstays⟩, -⟩ := s.kernel.runUntil_spec count keepRunning
    fun frame idx => (ticks frame idx).stamp s.epoch
  have hepoch : (s.step (.runUntil count keepRunning ticks)).epoch = s.epoch :=
    epoch_step hstays.trans
  have hopened : (s.step (.runUntil count keepRunning ticks)).opened = s.opened :=
    opened_step hstays.symm.trans
  -- Only a kernel that is initialised runs anything.
  by_cases hinit : s.kernel.initialized = true
  · obtain ⟨inboxes, hnow⟩ := hcarries hinit
    obtain ⟨hafter, hreceived⟩ := runUntil_stamped count keepRunning ticks hnow
    refine ⟨hregistry ▸ hdistinct, hafter.wf, hafter.outbox, ?_, hopened ▸ hclean.opened,
      hclean.receive _ hreceived⟩
    intro _
    rw [hepoch]
    exact ⟨inboxes, hafter⟩
  · have hnot : s.kernel.runUntil count keepRunning
          (fun frame idx => (ticks frame idx).stamp s.epoch) =
        (.error .notInitialized, s.kernel, []) := if_pos (by simpa using hinit)
    have hstep : s.step (.runUntil count keepRunning ticks) = s := by
      simp [step, Op.stamp, Kernel.apply, hnot, receipts]
    rw [hstep]
    exact ⟨hdistinct, hwf, houtbox, hcarries, hclean⟩

/-- **A shutdown** ends the epoch after its last callback. -/
theorem Fresh.shutdown (h : s.Fresh) (programs : Nat → Callback P) :
    (s.step (.shutdown programs)).Fresh := by
  obtain ⟨hdistinct, hwf, houtbox, hcarries, hclean⟩ := h
  -- With the shutdown the epoch ends, and the inboxes are no one's.
  by_cases hinit : s.kernel.initialized = true
  · obtain ⟨inboxes, hnow⟩ := hcarries hinit
    obtain ⟨hafter, hreceived⟩ := callAll_stamped .shutdown programs s.kernel.order.reverse hnow
    have hdown := s.kernel.shutdown_eq hinit fun idx => (programs idx).stamp s.epoch
    have hkernel : (s.step (.shutdown programs)).kernel = (s.kernel.shutdown fun idx =>
      (programs idx).stamp s.epoch).1 := rfl
    have hopened : (s.step (.shutdown programs)).opened = s.opened := opened_step fun _ => hinit
    have hevents : (s.kernel.shutdown fun idx => (programs idx).stamp s.epoch).2 =
        (callAll .shutdown (fun idx => (programs idx).stamp s.epoch) s.kernel.order.reverse
          s.kernel.bus).events := by rw [hdown]
    rw [← hevents] at hreceived
    refine ⟨?_, ?_, ?_, ?_, hopened ▸ hclean.opened, hclean.receive _ hreceived⟩
    · rw [hkernel, hdown]
      exact hdistinct
    · rw [hkernel, hdown]
      exact hafter.wf
    · rw [hkernel, hdown]
      exact hafter.outbox
    · rw [hkernel, hdown]
      intro hopen
      exact absurd hopen Bool.false_ne_true
  · have hnot : s.kernel.shutdown (fun idx => (programs idx).stamp s.epoch) = (s.kernel, []) :=
      if_pos (by simpa using hinit)
    have hstep : s.step (.shutdown programs) = s := by
      simp [step, Op.stamp, Kernel.apply, hnot, receipts]
    rw [hstep]
    exact ⟨hdistinct, hwf, houtbox, hcarries, hclean⟩

/-- Any step of a guarded run. -/
theorem Fresh.step (h : s.Fresh) {op : Op P} (hfresh : s.freshBus op) : (s.step op).Fresh := by
  cases op with
  | register subsystem => exact h.register subsystem
  | init room programs => exact h.init room programs hfresh
  | runUntil count keepRunning ticks => exact h.runUntil count keepRunning ticks
  | shutdown programs => exact h.shutdown programs

/-- **Restarts.** In a run in which whatever initialises finds a bus without inboxes, every `init`
    leaves one inbox for each subsystem, and nothing from before a shutdown is ever received. -/
theorem restart_clean {t : Restarts w P} (hstart : s.Starts)
    (hr : Reaches (Guarded freshBus steps) s t) : t.Clean := by
  refine (hr.invariant Fresh (.start hstart) ?_).clean
  rintro s op _ h ⟨hfresh, rfl⟩
  exact h.step hfresh

end Steps

def born : Restarts .sixtyFour Nat :=
  ⟨Kernel.new ⟨⟨⟨List.replicate 32 none, 31, 0, 0⟩⟩, [], [], 0, 0⟩, 0, [], []⟩

def enlist : Op Nat := .register ⟨"game", [], ⟨[], [], true⟩⟩

def boot : Op Nat := .init ⟨fun _ => true, fun _ => true, true⟩ fun _ => .done

/-- A frame in which it writes to itself, and one in which it reads its inbox. -/
def write : Op Nat := .runUntil 1 (fun _ => true) fun _ _ => .publish ⟨0⟩ 0 7 fun _ => .done

def read : Op Nat := .runUntil 1 (fun _ => true) fun _ _ => .receive fun _ => .done

def sameRound : List (Op Nat) := [enlist, boot, write, read]

/-- The guard asks nothing of `boot`, as there is nothing to take over; the message is read in the
    round it was written in. -/
theorem restart_clean_sameRound :
    (sameRound.foldl step born).received.length = 1 ∧ (sameRound.foldl step born).Clean := by
  have hstart : born.Starts := ⟨true, _, rfl, rfl⟩
  have hrun : Reaches (Guarded freshBus steps) born (sameRound.foldl step born) :=
    .head ⟨enlist, trivial, rfl⟩ (.head ⟨boot, fun _ => rfl, rfl⟩ (.head ⟨write, trivial, rfl⟩
      (.head ⟨read, trivial, rfl⟩ .refl)))
  exact ⟨by decide +kernel, restart_clean hstart hrun⟩

/-- It reads only after a restart. -/
def nextRound : List (Op Nat) := [enlist, boot, write, .shutdown fun _ => .done, boot, read]

/-- The second `init` leaves two inboxes for one subsystem, and the envelope of the first round is
    received in the second. -/
theorem nextRound_not_clean :
    ∃ t : Restarts .sixtyFour Nat, Reaches steps born t ∧ born.Starts ∧
      ¬ (∀ inboxes entries, (inboxes, entries) ∈ t.opened → inboxes = entries) ∧
      ¬ ∀ epoch envelope, (epoch, envelope) ∈ t.received → envelope.payload.1 = epoch := by
  refine ⟨nextRound.foldl step born, Reaches.run step born nextRound, ⟨true, _, rfl, rfl⟩, ?_, ?_⟩
  · intro hopened
    have hmem : (2, 1) ∈ (nextRound.foldl step born).opened := by decide +kernel
    exact absurd (hopened 2 1 hmem) (by decide)
  · intro hreceived
    have hmem : (1, ⟨⟨0⟩, ⟨0⟩, 0, 0, (0, 7)⟩) ∈ (nextRound.foldl step born).received := by
      decide +kernel
    exact absurd (hreceived 1 _ hmem) (by decide)

end Restarts

end Core
end EngineKit
