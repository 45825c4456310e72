import EngineKit.Bus.Ring
import EngineKit.Schedule.Toposort

/-!
# The message bus

A published envelope goes through the outbox ring into the inbox ring of its recipient, in one
call: the outbox is there for a router that does not exist yet. Either ring can turn it away, and
so can a recipient that was never registered; what becomes of the envelope then is read off the
definitions here, and drawn out in `Bus/Refused.lean`.

`Mail` is a bus as queues, and `MessageBus.mail` the queues a bus stands for. On a bus in order
(`MessageBus.Wf`) every operation is the operation of the same name on them. `P` is the type of
payloads; the code's are boxed values of any type.

This is the release build. A debug build panics in `publish` where this one counts a send that no
dependency declares; the sends that are declared are the same in both.

The capacities are constants of the code and the rings take them as an argument, so that a bus is in
order only if its rings have these sizes; this is a part of `Wf` because a bus could be built of
other rings. Answer, order and queues of each call are one structure (`Follows`), and a user
rewrites with the last two fields and does not look at a ring again.
-/

set_option autoImplicit false

namespace EngineKit
namespace Bus

open Lib
open Schedule (SubscriberId BusError)

/-- `sender` and `recipient` are the code's `from` and `to`. -/
structure Envelope (P : Type) where
  sender : SubscriberId
  recipient : SubscriberId
  topic : UInt16
  seq : UInt64
  payload : P
deriving DecidableEq

structure MessageBus (w : PointerWidth) (P : Type) where
  outbox : MpscRing w (Envelope P)
  inboxes : List (SpscRing w (Envelope P))
  edges : List (List Bool)
  nextSeq : UInt64
  undeclaredSends : UInt64

def DEFAULT_INBOX_CAPACITY : Nat := 64

def OUTBOX_CAPACITY : Nat := 32

namespace MessageBus

variable {w : PointerWidth} {P : Type}

def tryNew (room : Bool) : Except BusError (MessageBus w P) :=
  match MpscRing.tryWithCapacity room (BitVec.ofNat w.bits OUTBOX_CAPACITY) with
  | .error _ => .error .allocationFailed
  | .ok outbox => .ok { outbox, inboxes := [], edges := [], nextSeq := 0, undeclaredSends := 0 }

/-- `table` and `ring` are whether the inbox table and the new inbox can be allocated. -/
def tryAddSubscriber (table ring : Bool) (bus : MessageBus w P) :
    Except BusError SubscriberId × MessageBus w P :=
  if 2 ^ 32 - 1 < bus.inboxes.length then (.error .invalidTopology, bus)
  else if ¬ table then (.error .allocationFailed, bus)
  else
    match SpscRing.tryWithCapacity ring (BitVec.ofNat w.bits DEFAULT_INBOX_CAPACITY) with
    | .error _ => (.error .allocationFailed, bus)
    | .ok inbox =>
      (.ok ⟨UInt32.ofNat bus.inboxes.length⟩, { bus with inboxes := bus.inboxes ++ [inbox] })

/-- Row `recipient` of `edges` is set where `deps[recipient]` has the sender. -/
def trySetDebugEdges (room : Bool) (bus : MessageBus w P) (deps : List (List Nat)) :
    Except BusError Unit × MessageBus w P :=
  let n := deps.length
  if ¬ room then (.error .allocationFailed, bus)
  else if deps.any fun list => list.any fun sender => n ≤ sender then (.error .invalidTopology, bus)
  else (.ok (), { bus with edges := deps.map fun list => (List.range n).map list.contains })

def routingOk (bus : MessageBus w P) (sender recipient : SubscriberId) : Bool :=
  sender == recipient ||
    ((bus.edges[recipient.raw.toNat]?.bind fun row => row[sender.raw.toNat]?).getD false)

def setInbox (bus : MessageBus w P) (recipient : SubscriberId) (mailbox : SpscRing w (Envelope P)) :
    MessageBus w P :=
  { bus with inboxes := bus.inboxes.set recipient.raw.toNat mailbox }

/-- The end of `publish`. An envelope its inbox turns away goes no further: the error keeps the
    address only. -/
def deliver (bus : MessageBus w P) (queued : Envelope P) :
    Except BusError Unit × MessageBus w P :=
  match bus.inboxes[queued.recipient.raw.toNat]? with
  | none => (.error (.unknownRecipient queued.recipient), bus)
  | some mailbox =>
    match mailbox.push queued with
    | (.ok (), mailbox) => (.ok (), bus.setInbox queued.recipient mailbox)
    | (.error envelope, mailbox) =>
      (.error (.inboxFull envelope.recipient), bus.setInbox queued.recipient mailbox)

/-- The check `publish` starts with: a send that no dependency declares is counted. -/
def policed (bus : MessageBus w P) (envelope : Envelope P) : MessageBus w P :=
  if bus.routingOk envelope.sender envelope.recipient then bus
  else { bus with undeclaredSends := bus.undeclaredSends + 1 }

def publish (bus : MessageBus w P) (envelope : Envelope P) :
    Except BusError Unit × MessageBus w P :=
  let bus := bus.policed envelope
  match bus.outbox.push envelope with
  | (.error _, outbox) => (.error .outboxFull, { bus with outbox })
  | (.ok (), outbox) =>
    match outbox.pop with
    | (none, outbox) => (.error .outboxFull, { bus with outbox })
    | (some queued, outbox) => deliver { bus with outbox } queued

/-- The loop of `flush`, for at most so many rounds. -/
def flushLoop : Nat → MessageBus w P → MessageBus w P
  | 0, bus => bus
  | rounds + 1, bus =>
    match bus.outbox.pop with
    | (none, outbox) => { bus with outbox }
    | (some queued, outbox) =>
      let bus := { bus with outbox }
      match bus.inboxes[queued.recipient.raw.toNat]? with
      | none => bus
      | some mailbox =>
        match mailbox.push queued with
        | (.error _, mailbox) => bus.setInbox queued.recipient mailbox
        | (.ok (), mailbox) => flushLoop rounds (bus.setInbox queued.recipient mailbox)

/-- Every round takes one envelope from the outbox, and the last finds none. -/
def flush (bus : MessageBus w P) : MessageBus w P :=
  bus.flushLoop (bus.outbox.cells.len.toNat + 1)

def popInbox (bus : MessageBus w P) (id : SubscriberId) : Option (Envelope P) × MessageBus w P :=
  match bus.inboxes[id.raw.toNat]? with
  | none => (none, bus)
  | some mailbox =>
    let (envelope, mailbox) := mailbox.pop
    (envelope, bus.setInbox id mailbox)

/-- A fresh envelope with the bus's sequence number. -/
def envelope (bus : MessageBus w P) (sender recipient : SubscriberId) (topic : UInt16)
    (payload : P) : Envelope P × MessageBus w P :=
  (⟨sender, recipient, topic, bus.nextSeq, payload⟩, { bus with nextSeq := bus.nextSeq + 1 })

end MessageBus

/-! ## The queues a bus stands for -/

/-- A bus as queues, oldest first. -/
structure Mail (P : Type) where
  outbox : List (Envelope P)
  inboxes : List (List (Envelope P))

namespace Mail

variable {P : Type}

def deliver (mail : Mail P) (queued : Envelope P) : Except BusError Unit × Mail P :=
  match mail.inboxes[queued.recipient.raw.toNat]? with
  | none => (.error (.unknownRecipient queued.recipient), mail)
  | some inbox =>
    if inbox.length < DEFAULT_INBOX_CAPACITY then
      (.ok (),
        { mail with
          inboxes := mail.inboxes.set queued.recipient.raw.toNat (inbox ++ [queued]) })
    else (.error (.inboxFull queued.recipient), mail)

theorem outbox_deliver (mail : Mail P) (queued : Envelope P) :
    (mail.deliver queued).2.outbox = mail.outbox := by
  unfold deliver
  split
  · rfl
  · split
    · rfl
    · rfl

/-- The envelope joins the outbox, and the outbox's oldest is delivered. -/
def publish (mail : Mail P) (envelope : Envelope P) : Except BusError Unit × Mail P :=
  if mail.outbox.length < OUTBOX_CAPACITY then
    match mail.outbox ++ [envelope] with
    | [] => (.error .outboxFull, mail)
    | queued :: outbox => deliver { mail with outbox } queued
  else (.error .outboxFull, mail)

/-- Delivers until the outbox is empty or an envelope is turned away. -/
def flushAll : List (Envelope P) → List (List (Envelope P)) → Mail P
  | [], inboxes => ⟨[], inboxes⟩
  | queued :: outbox, inboxes =>
    match deliver ⟨outbox, inboxes⟩ queued with
    | (.ok (), mail) => flushAll outbox mail.inboxes
    | (.error _, mail) => mail

def flush (mail : Mail P) : Mail P := flushAll mail.outbox mail.inboxes

def popInbox (mail : Mail P) (id : SubscriberId) : Option (Envelope P) × Mail P :=
  match mail.inboxes[id.raw.toNat]? with
  | none => (none, mail)
  | some inbox =>
    (inbox.head?, { mail with inboxes := mail.inboxes.set id.raw.toNat inbox.tail })

end Mail

namespace MessageBus

variable {w : PointerWidth} {P : Type}

def mail (bus : MessageBus w P) : Mail P :=
  ⟨bus.outbox.cells.contents, bus.inboxes.map SpscRing.contents⟩

/-- Every ring is in order, and of its size. -/
structure Wf (bus : MessageBus w P) : Prop where
  outbox : bus.outbox.cells.Wf
  outboxSize : bus.outbox.cells.buf.length = OUTBOX_CAPACITY
  inbox : ∀ inbox ∈ bus.inboxes, inbox.Wf ∧ inbox.buf.length = DEFAULT_INBOX_CAPACITY

/-- A call does to a bus what another does to its queues. -/
structure Follows {A : Type} (call : A × MessageBus w P) (spec : A × Mail P) : Prop where
  answer : call.1 = spec.1
  wf : call.2.Wf
  mail : call.2.mail = spec.2

/-- Writing what is there changes nothing. -/
theorem set_of_getElem? {α : Type} {xs : List α} {i : Nat} {x : α} (h : xs[i]? = some x) :
    xs.set i x = xs := by
  obtain ⟨hlt, rfl⟩ := List.getElem?_eq_some_iff.mp h
  exact List.set_getElem_self hlt

section Calls

variable {bus : MessageBus w P}

/-- The capacities fit in any `usize`. -/
theorem toNat_ofNat_capacity {n : Nat} (h : n < 2 ^ 16) : (BitVec.ofNat w.bits n).toNat = n := by
  have hpow : 2 ^ 16 ≤ 2 ^ w.bits := Nat.pow_le_pow_right (by decide) w.sixteen_le
  rw [BitVec.toNat_ofNat, Nat.mod_eq_of_lt (by omega)]

/-- **A new bus** is in order and empty. -/
theorem tryNew_spec {room : Bool} (h : tryNew room = .ok bus) : bus.Wf ∧ bus.mail = ⟨[], []⟩ := by
  unfold tryNew at h
  cases hring : MpscRing.tryWithCapacity (T := Envelope P) room
      (BitVec.ofNat w.bits OUTBOX_CAPACITY) with
  | error e => rw [hring] at h; exact absurd h (by simp)
  | ok r =>
    simp only [hring] at h
    obtain rfl := Except.ok.inj h
    obtain ⟨hholds, hsize⟩ := MpscRing.tryWithCapacity_spec hring
    rw [toNat_ofNat_capacity (by decide)] at hsize
    refine ⟨⟨hholds.wf, hsize, by simp⟩, ?_⟩
    rw [mail, hholds.contents_eq]
    rfl

/-- **A subscriber** gets an inbox behind the others, or none. -/
theorem Wf.tryAddSubscriber (h : bus.Wf) (table ring : Bool) :
    (bus.tryAddSubscriber table ring).2.Wf ∧
      ((bus.tryAddSubscriber table ring).2 = bus ∧
          (∃ error, (bus.tryAddSubscriber table ring).1 = .error error) ∨
        (∃ id, (bus.tryAddSubscriber table ring).1 = .ok id) ∧
          (bus.tryAddSubscriber table ring).2.mail =
            { bus.mail with inboxes := bus.mail.inboxes ++ [[]] }) := by
  unfold MessageBus.tryAddSubscriber
  split
  · exact ⟨h, .inl ⟨rfl, _, rfl⟩⟩
  · split
    · exact ⟨h, .inl ⟨rfl, _, rfl⟩⟩
    · cases hring : SpscRing.tryWithCapacity (T := Envelope P) ring
          (BitVec.ofNat w.bits DEFAULT_INBOX_CAPACITY) with
      | error e => exact ⟨h, .inl ⟨rfl, _, rfl⟩⟩
      | ok r =>
        obtain ⟨hholds, hsize⟩ := SpscRing.tryWithCapacity_spec hring
        rw [toNat_ofNat_capacity (by decide)] at hsize
        refine ⟨⟨h.outbox, h.outboxSize, ?_⟩, .inr ⟨⟨_, rfl⟩, ?_⟩⟩
        · intro inbox hin
          cases List.mem_append.mp hin with
          | inl hold => exact h.inbox inbox hold
          | inr hnew => exact (List.mem_singleton.mp hnew) ▸ ⟨hholds.wf, hsize⟩
        · simp [mail, hholds.contents_eq]

/-- Who got an address had memory and an address left. -/
theorem room_of_tryAddSubscriber {table ring : Bool} {id : SubscriberId}
    (h : (bus.tryAddSubscriber table ring).1 = .ok id) :
    table = true ∧ ring = true ∧ bus.inboxes.length < 2 ^ 32 := by
  unfold MessageBus.tryAddSubscriber at h
  split at h
  · exact absurd h (by rintro ⟨⟩)
  · next haddress =>
    split at h
    · exact absurd h (by rintro ⟨⟩)
    · next htable =>
      cases ring with
      | true => exact ⟨by simpa using htable, rfl, by omega⟩
      | false =>
        unfold SpscRing.tryWithCapacity at h
        split at h
        · exact absurd h (by rintro ⟨⟩)
        · next hring =>
          split at hring
          · exact absurd hring (by rintro ⟨⟩)
          · exact absurd hring (by simp)

/-- Installing the routes changes them and nothing else, or fails and changes nothing. -/
theorem trySetDebugEdges_cases (room : Bool) (bus : MessageBus w P) (deps : List (List Nat)) :
    (∃ error, bus.trySetDebugEdges room deps = (.error error, bus)) ∨
      room = true ∧ ∃ edges, bus.trySetDebugEdges room deps = (.ok (), { bus with edges }) := by
  simp only [trySetDebugEdges]
  split
  · exact .inl ⟨_, rfl⟩
  · next hroom =>
    split
    · exact .inl ⟨_, rfl⟩
    · exact .inr ⟨by simpa using hroom, _, rfl⟩

/-- What does not touch a ring keeps them all in order. -/
theorem Wf.congr {bus' : MessageBus w P} (h : bus.Wf) (houtbox : bus'.outbox = bus.outbox)
    (hinboxes : bus'.inboxes = bus.inboxes) : bus'.Wf ∧ bus'.mail = bus.mail := by
  refine ⟨⟨houtbox ▸ h.outbox, houtbox ▸ h.outboxSize, hinboxes ▸ h.inbox⟩, ?_⟩
  rw [mail, mail, houtbox, hinboxes]

/-- A mailbox is replaced by another one in order. -/
theorem Wf.setInbox (h : bus.Wf) (recipient : SubscriberId)
    {inbox : SpscRing w (Envelope P)} (hwf : inbox.Wf)
    (hsize : inbox.buf.length = DEFAULT_INBOX_CAPACITY) :
    (bus.setInbox recipient inbox).Wf ∧ (bus.setInbox recipient inbox).mail =
      { bus.mail with
        inboxes := bus.mail.inboxes.set recipient.raw.toNat inbox.contents } := by
  refine ⟨⟨h.outbox, h.outboxSize, ?_⟩, ?_⟩
  · intro r hr
    cases List.mem_or_eq_of_mem_set hr with
    | inl hold => exact h.inbox r hold
    | inr hnew => exact hnew ▸ ⟨hwf, hsize⟩
  · rw [mail, mail, MessageBus.setInbox, List.map_set]

/-- **A delivery** is a delivery to the queues. -/
theorem Wf.deliver (h : bus.Wf) (queued : Envelope P) :
    Follows (bus.deliver queued) (bus.mail.deliver queued) := by
  unfold MessageBus.deliver Mail.deliver
  have hget : bus.mail.inboxes[queued.recipient.raw.toNat]? =
      (bus.inboxes[queued.recipient.raw.toNat]?).map SpscRing.contents := List.getElem?_map
  rw [hget]
  -- The mailbox of the recipient, if it has one, and whether it has room.
  cases hbox : bus.inboxes[queued.recipient.raw.toNat]? with
  | none => exact ⟨rfl, h, rfl⟩
  | some inbox =>
    obtain ⟨hwf, hsize⟩ := h.inbox inbox (List.mem_of_getElem? hbox)
    simp only [Option.map_some]
    by_cases hroom : inbox.contents.length < DEFAULT_INBOX_CAPACITY
    · obtain ⟨inbox', hpush, hwf', hsize', hcontents⟩ := hwf.push_room (hsize ▸ hroom) queued
      obtain ⟨hset, hmail⟩ := h.setInbox queued.recipient hwf' (hsize'.trans hsize)
      simp only [hpush, if_pos hroom]
      exact ⟨rfl, hset, by rw [hmail, hcontents]⟩
    · obtain ⟨hset, hmail⟩ := h.setInbox queued.recipient hwf hsize
      have hsame : bus.mail.inboxes.set queued.recipient.raw.toNat inbox.contents =
          bus.mail.inboxes := by
        rw [hbox, Option.map_some] at hget
        exact set_of_getElem? hget
      simp only [hwf.push_full (hsize ▸ hroom), if_neg hroom]
      exact ⟨rfl, hset, by rw [hmail, hsame]⟩

/-- Taking an envelope out of the outbox. -/
theorem Wf.popOutbox (h : bus.Wf) :
    ∃ outbox, bus.outbox.pop = (bus.mail.outbox.head?, outbox) ∧
      { bus with outbox }.Wf ∧
      { bus with outbox }.mail = { bus.mail with outbox := bus.mail.outbox.tail } := by
  obtain ⟨cells, hpop, hwf, hsize, hcontents⟩ := h.outbox.pop_spec
  refine ⟨⟨cells⟩, ?_, ⟨hwf, hsize.trans h.outboxSize, h.inbox⟩, ?_⟩
  · rw [MpscRing.pop, hpop]
    rfl
  · rw [mail, mail, hcontents]

/-- Counting a send touches no ring. -/
theorem Wf.policed (h : bus.Wf) (envelope : Envelope P) :
    (bus.policed envelope).Wf ∧ (bus.policed envelope).mail = bus.mail := by
  unfold MessageBus.policed
  split
  · exact ⟨h, rfl⟩
  · exact h.congr rfl rfl

/-- The outbox takes an envelope, or is full. -/
theorem Wf.pushOutbox (h : bus.Wf) (envelope : Envelope P) :
    (bus.mail.outbox.length < OUTBOX_CAPACITY → ∃ outbox,
        bus.outbox.push envelope = (.ok (), outbox) ∧ { bus with outbox }.Wf ∧
        { bus with outbox }.mail = { bus.mail with outbox := bus.mail.outbox ++ [envelope] }) ∧
      (¬ bus.mail.outbox.length < OUTBOX_CAPACITY →
        bus.outbox.push envelope = (.error envelope, bus.outbox)) := by
  refine ⟨?_, ?_⟩
  · intro hroom
    obtain ⟨cells, hpush, hwf, hsize, hcontents⟩ :=
      h.outbox.push_room (h.outboxSize ▸ hroom) envelope
    refine ⟨⟨cells⟩, ?_, ⟨hwf, hsize.trans h.outboxSize, h.inbox⟩, ?_⟩
    · rw [MpscRing.push, hpush]
    · rw [mail, mail, hcontents]
  · intro hfull
    rw [MpscRing.push, h.outbox.push_full (h.outboxSize ▸ hfull) envelope]

/-- **A publish** is a publish on the queues. -/
theorem Wf.publish (h : bus.Wf) (envelope : Envelope P) :
    Follows (bus.publish envelope) (bus.mail.publish envelope) := by
  obtain ⟨hpoliced, hmail⟩ := h.policed envelope
  rw [← hmail]
  unfold MessageBus.publish Mail.publish
  generalize bus.policed envelope = policed at hpoliced ⊢
  obtain ⟨hpush, hfull⟩ := hpoliced.pushOutbox envelope
  -- A full outbox gives the envelope back at once.
  by_cases hroom : policed.mail.outbox.length < OUTBOX_CAPACITY
  · obtain ⟨outbox, hok, hwf, hqueued⟩ := hpush hroom
    obtain ⟨outbox', hpop, hwf', htaken⟩ := hwf.popOutbox
    simp only [hok, if_pos hroom]
    rw [hqueued] at hpop htaken
    cases hfront : policed.mail.outbox ++ [envelope] with
    | nil => exact absurd hfront (by simp)
    | cons queued rest =>
      simp only [hfront, List.head?_cons, List.tail_cons] at hpop htaken
      have hpop' : outbox.pop = (some queued, outbox') := hpop
      simp only [hpop']
      rw [← htaken]
      exact hwf'.deliver queued
  · simp only [hfull hroom, if_neg hroom]
    exact ⟨rfl, hpoliced, rfl⟩

/-- **A pop** takes the oldest envelope of its inbox. -/
theorem Wf.popInbox (h : bus.Wf) (id : SubscriberId) :
    Follows (bus.popInbox id) (bus.mail.popInbox id) := by
  unfold MessageBus.popInbox Mail.popInbox
  have hget : bus.mail.inboxes[id.raw.toNat]? =
      (bus.inboxes[id.raw.toNat]?).map SpscRing.contents := List.getElem?_map
  rw [hget]
  cases hbox : bus.inboxes[id.raw.toNat]? with
  | none => exact ⟨rfl, h, rfl⟩
  | some inbox =>
    obtain ⟨hwf, hsize⟩ := h.inbox inbox (List.mem_of_getElem? hbox)
    obtain ⟨inbox', hpop, hwf', hsize', hcontents⟩ := hwf.pop_spec
    obtain ⟨hset, hmail⟩ := h.setInbox id hwf' (hsize'.trans hsize)
    simp only [hpop, Option.map_some]
    exact ⟨rfl, hset, by rw [hmail, hcontents]⟩

/-- A round of `flush` is a delivery. -/
theorem flushLoop_succ (bus : MessageBus w P) (rounds : Nat) :
    bus.flushLoop (rounds + 1) =
      match bus.outbox.pop with
      | (none, outbox) => { bus with outbox }
      | (some queued, outbox) =>
        match MessageBus.deliver { bus with outbox } queued with
        | (.ok (), bus) => bus.flushLoop rounds
        | (.error _, bus) => bus := by
  rw [flushLoop]
  obtain ⟨popped, outbox⟩ := bus.outbox.pop
  -- What was popped, and whether there is a mailbox for it.
  cases popped with
  | none => rfl
  | some queued =>
    simp only [MessageBus.deliver]
    cases bus.inboxes[queued.recipient.raw.toNat]? with
    | none => rfl
    | some mailbox =>
      simp only
      obtain ⟨result, mailbox'⟩ := mailbox.push queued
      cases result with
      | error _ => rfl
      | ok _ => rfl

/-- Enough rounds deliver what the queues deliver. -/
theorem Wf.flushLoop (h : bus.Wf) {rounds : Nat} (hrounds : bus.mail.outbox.length < rounds) :
    (bus.flushLoop rounds).Wf ∧ (bus.flushLoop rounds).mail = bus.mail.flush := by
  -- On the rounds: each takes one envelope out, so there are always more left than envelopes.
  induction rounds generalizing bus with
  | zero => exact absurd hrounds (Nat.not_lt_zero _)
  | succ rounds ih =>
    obtain ⟨outbox, hpop, hwf, htaken⟩ := h.popOutbox
    rw [flushLoop_succ, Mail.flush, hpop]
    cases hfront : bus.mail.outbox with
    | nil =>
      simp only [hfront, List.tail_nil] at htaken
      exact ⟨hwf, htaken⟩
    | cons queued rest =>
      simp only [hfront, List.tail_cons] at htaken
      obtain ⟨hanswer, hwf', hmail⟩ := hwf.deliver queued
      rw [htaken] at hanswer hmail
      simp only [List.head?_cons, Mail.flushAll]
      generalize MessageBus.deliver { bus with outbox } queued = call at hanswer hwf' hmail
      obtain ⟨answer, bus'⟩ := call
      have houtbox : bus'.mail.outbox = rest := by
        rw [show bus'.mail = _ from hmail]
        exact Mail.outbox_deliver _ _
      generalize Mail.deliver ⟨rest, bus.mail.inboxes⟩ queued = spec at hanswer hmail
      obtain ⟨answer', mail'⟩ := spec
      obtain rfl : answer = answer' := hanswer
      obtain rfl : bus'.mail = mail' := hmail
      cases answer with
      | error error => exact ⟨hwf', rfl⟩
      | ok _ =>
        have hlt : bus'.mail.outbox.length < rounds := by
          rw [hfront, List.length_cons] at hrounds
          rw [houtbox]
          omega
        have hrest := ih hwf' hlt
        rw [Mail.flush, houtbox] at hrest
        exact hrest

/-- **A flush** is a flush of the queues. -/
theorem Wf.flush (h : bus.Wf) : bus.flush.Wf ∧ bus.flush.mail = bus.mail.flush := by
  refine h.flushLoop ?_
  rw [h.outbox.toNat_len]
  exact Nat.lt_succ_self _

end Calls

end MessageBus

end Bus
end EngineKit
