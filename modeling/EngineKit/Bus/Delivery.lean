import EngineKit.Bus.MessageBus
import EngineKit.Lib.Reach

/-!
# Every envelope once, in order

A bus is watched from its construction: what was published with success (`sent`), and what was
popped and by whom (`popped`), in the order it happened. `Watched.Delivered` ties the two to what
the inboxes hold, and one lemma for each call says it keeps it. That the outbox is empty between
calls is part of it: a publish then delivers the envelope it was given and no other, whatever
became of the publishes before.

The rings of the inboxes are not looked at here: the model of the bus says what each call does to
the queues (`Mail`), and `held` is a queue by its address. So the three books are lists of
envelopes, and each call adds to one of them or moves an envelope from the front of one to the end
of another.

`books` is an equation for every address, and it would not be an invariant for one alone: a publish
is addressed by its envelope, and not by the address one happens to look at.
-/

set_option autoImplicit false

namespace EngineKit
namespace Bus

open Lib
open Schedule (SubscriberId BusError)

variable {w : PointerWidth} {P : Type}

/-! ## What a call does to the queues -/

namespace Mail

/-- What an inbox holds; nothing, for an address without one. -/
def held (mail : Mail P) (id : SubscriberId) : List (Envelope P) :=
  (mail.inboxes[id.raw.toNat]?).getD []

/-- Writing one inbox leaves the others. -/
theorem held_set (mail : Mail P) {recipient : SubscriberId} {inbox : List (Envelope P)}
    (h : mail.inboxes[recipient.raw.toNat]? = some inbox) (new : List (Envelope P))
    (id : SubscriberId) :
    held { mail with inboxes := mail.inboxes.set recipient.raw.toNat new } id =
      if id = recipient then new else mail.held id := by
  rw [held, held, List.getElem?_set]
  by_cases hid : id = recipient
  · rw [if_pos hid, hid, if_pos rfl, if_pos (List.getElem?_eq_some_iff.mp h).1, Option.getD_some]
  · have hne : ¬ recipient.raw.toNat = id.raw.toNat := by
      intro heq
      refine hid ?_
      obtain ⟨raw⟩ := id
      obtain ⟨raw'⟩ := recipient
      exact congrArg _ (UInt32.toNat_inj.mp heq.symm)
    rw [if_neg hid, if_neg hne]

/-- **A delivery** appends to the recipient's inbox, or changes nothing. -/
theorem deliver_cases (mail : Mail P) (queued : Envelope P) :
    (∃ error, mail.deliver queued = (.error error, mail)) ∨
      ((mail.deliver queued).1 = .ok () ∧
        (mail.held queued.recipient).length < DEFAULT_INBOX_CAPACITY ∧
        ∀ id, (mail.deliver queued).2.held id =
          if id = queued.recipient then mail.held id ++ [queued] else mail.held id) := by
  unfold deliver
  -- No inbox, or one that has room or is full.
  cases hbox : mail.inboxes[queued.recipient.raw.toNat]? with
  | none => exact .inl ⟨_, rfl⟩
  | some inbox =>
    simp only
    have hheld : mail.held queued.recipient = inbox := by rw [held, hbox, Option.getD_some]
    split
    · next hroom =>
      refine .inr ⟨rfl, hheld.symm ▸ hroom, ?_⟩
      intro id
      rw [mail.held_set hbox]
      split
      · next hid => rw [hid, hheld]
      · rfl
    · exact .inl ⟨_, rfl⟩

/-- A publish with nothing in the outbox is a delivery. -/
theorem publish_eq_deliver {mail : Mail P} (hempty : mail.outbox = []) (envelope : Envelope P) :
    mail.publish envelope = mail.deliver envelope := by
  obtain ⟨outbox, inboxes⟩ := mail
  cases hempty
  rfl

/-- With nothing in the outbox a flush has nothing to do. -/
theorem flush_eq_self {mail : Mail P} (hempty : mail.outbox = []) : mail.flush = mail := by
  obtain ⟨outbox, inboxes⟩ := mail
  cases hempty
  rfl

/-- **A pop** takes the front of its inbox. -/
theorem popInbox_spec (mail : Mail P) (id : SubscriberId) :
    (mail.popInbox id).1 = (mail.held id).head? ∧
      (mail.popInbox id).2.outbox = mail.outbox ∧
      ∀ other, (mail.popInbox id).2.held other =
        if other = id then (mail.held id).tail else mail.held other := by
  unfold popInbox
  cases hbox : mail.inboxes[id.raw.toNat]? with
  | none =>
    have hheld : mail.held id = [] := by rw [held, hbox, Option.getD_none]
    rw [hheld]
    refine ⟨rfl, rfl, ?_⟩
    intro other
    by_cases hother : other = id
    · rw [if_pos hother, hother]
      exact hheld
    · exact (if_neg hother).symm
  | some inbox =>
    have hheld : mail.held id = inbox := by rw [held, hbox, Option.getD_some]
    rw [hheld]
    exact ⟨rfl, rfl, mail.held_set hbox _⟩

/-- A new inbox is empty. -/
theorem held_addInbox (mail : Mail P) (id : SubscriberId) :
    held { mail with inboxes := mail.inboxes ++ [[]] } id = mail.held id := by
  rw [held, held]
  show ((mail.inboxes ++ [[]])[id.raw.toNat]?).getD [] = _
  rw [List.getElem?_append]
  split
  · rfl
  · next hout =>
    rw [List.getElem?_eq_none (Nat.not_lt.mp hout)]
    cases id.raw.toNat - mail.inboxes.length with
    | zero => rfl
    | succ k => rfl

end Mail

/-- No inbox holds more than its ring has places. -/
theorem MessageBus.Wf.length_held {bus : MessageBus w P} (h : bus.Wf) (id : SubscriberId) :
    (bus.mail.held id).length ≤ DEFAULT_INBOX_CAPACITY := by
  have hget : bus.mail.inboxes[id.raw.toNat]? =
      (bus.inboxes[id.raw.toNat]?).map SpscRing.contents := List.getElem?_map
  rw [Mail.held, hget]
  cases hbox : bus.inboxes[id.raw.toNat]? with
  | none => exact Nat.zero_le _
  | some inbox =>
    obtain ⟨hwf, hsize⟩ := h.inbox inbox (List.mem_of_getElem? hbox)
    exact hsize ▸ hwf.length_le

/-! ## A bus and its history -/

/-- A call on the bus, with what its environment decides. -/
inductive Call (P : Type) where
  | publish (envelope : Envelope P)
  | flush
  | popInbox (id : SubscriberId)
  | addSubscriber (table ring : Bool)
  | setDebugEdges (room : Bool) (deps : List (List Nat))
  | envelope (sender recipient : SubscriberId) (topic : UInt16) (payload : P)

structure Watched (w : PointerWidth) (P : Type) where
  bus : MessageBus w P
  sent : List (Envelope P)
  popped : List (SubscriberId × Envelope P)

namespace Watched

/-- A bus just built. -/
def Starts (s : Watched w P) : Prop :=
  ∃ room, MessageBus.tryNew room = .ok s.bus ∧ s.sent = [] ∧ s.popped = []

def step (s : Watched w P) : Call P → Watched w P
  | .publish envelope =>
    match s.bus.publish envelope with
    | (.ok (), bus) => { s with bus, sent := s.sent ++ [envelope] }
    | (.error _, bus) => { s with bus }
  | .flush => { s with bus := s.bus.flush }
  | .popInbox id =>
    match s.bus.popInbox id with
    | (some envelope, bus) => { s with bus, popped := s.popped ++ [(id, envelope)] }
    | (none, bus) => { s with bus }
  | .addSubscriber table ring => { s with bus := (s.bus.tryAddSubscriber table ring).2 }
  | .setDebugEdges room deps => { s with bus := (s.bus.trySetDebugEdges room deps).2 }
  | .envelope sender recipient topic payload =>
    { s with bus := (s.bus.envelope sender recipient topic payload).2 }

def steps : Watched w P → Call P → Watched w P → Prop := fun s c t => t = s.step c

/-- What was addressed to `id` and published with success. -/
def sentTo (s : Watched w P) (id : SubscriberId) : List (Envelope P) :=
  s.sent.filter fun envelope => envelope.recipient = id

def poppedFrom (s : Watched w P) (id : SubscriberId) : List (Envelope P) :=
  (s.popped.filter fun pop => pop.1 = id).map Prod.snd

/-- What the inbox of `id` holds. -/
def held (s : Watched w P) (id : SubscriberId) : List (Envelope P) :=
  ((s.bus.inboxes[id.raw.toNat]?).map SpscRing.contents).getD []

/-- The inbox, read off the bus or off its queues. -/
theorem held_eq (s : Watched w P) (id : SubscriberId) : s.held id = s.bus.mail.held id := by
  rw [held, Mail.held, MessageBus.mail, List.getElem?_map]

structure Delivered (s : Watched w P) : Prop where
  wf : s.bus.Wf
  outbox : s.bus.mail.outbox = []
  books (id : SubscriberId) : s.sentTo id = s.poppedFrom id ++ s.bus.mail.held id

/-- A bus just built has no envelopes. -/
theorem Delivered.start {s : Watched w P} (h : s.Starts) : s.Delivered := by
  obtain ⟨bus, sent, popped⟩ := s
  obtain ⟨room, hnew, rfl, rfl⟩ := h
  obtain ⟨hwf, hmail⟩ := MessageBus.tryNew_spec hnew
  exact ⟨hwf, by rw [hmail], fun id => by rw [hmail]; rfl⟩

/-- **A publish** adds to what was sent what it adds to an inbox. -/
theorem Delivered.publish {s : Watched w P} (h : s.Delivered) (envelope : Envelope P) :
    (s.step (.publish envelope)).Delivered := by
  obtain ⟨hanswer, hwf, hmail⟩ := h.wf.publish envelope
  rw [Mail.publish_eq_deliver h.outbox] at hanswer hmail
  have houtbox := (s.bus.mail.outbox_deliver envelope).trans h.outbox
  simp only [step]
  -- The call by its answer and by what it leaves; how it comes about is no matter here.
  generalize s.bus.publish envelope = call at hanswer hwf hmail
  obtain ⟨answer, bus⟩ := call
  -- What is refused is neither sent nor held.
  rcases s.bus.mail.deliver_cases envelope with ⟨error, hdeliver⟩ | ⟨hok, -, hheld⟩
  · rw [hdeliver] at hanswer hmail
    obtain rfl : answer = .error error := hanswer
    exact ⟨hwf, by rw [show bus.mail = _ from hmail]; exact h.outbox, fun id => by
      rw [show bus.mail = _ from hmail]; exact h.books id⟩
  · obtain rfl : answer = .ok () := hanswer.trans hok
    refine ⟨hwf, by rw [show bus.mail = _ from hmail]; exact houtbox, ?_⟩
    intro id
    have hbooks := h.books id
    show (s.sent ++ [envelope]).filter _ = s.poppedFrom id ++ bus.mail.held id
    rw [show bus.mail = _ from hmail, hheld, List.filter_append]
    by_cases hid : id = envelope.recipient
    · rw [if_pos hid, ← List.append_assoc, ← hbooks, hid]
      simp [sentTo]
    · rw [if_neg hid, ← hbooks]
      simp [sentTo, Ne.symm hid]

/-- **A pop** adds to what was popped what it takes from an inbox. -/
theorem Delivered.popInbox {s : Watched w P} (h : s.Delivered) (id : SubscriberId) :
    (s.step (.popInbox id)).Delivered := by
  obtain ⟨hanswer, hwf, hmail⟩ := h.wf.popInbox id
  obtain ⟨hfront, houtbox, hheld⟩ := s.bus.mail.popInbox_spec id
  simp only [step]
  generalize s.bus.popInbox id = call at hanswer hwf hmail
  obtain ⟨answer, bus⟩ := call
  obtain rfl : answer = (s.bus.mail.held id).head? := hanswer.trans hfront
  rw [← show bus.mail = _ from hmail] at houtbox hheld
  -- An empty inbox answers with nothing; of another one the front goes to what was popped.
  cases hbox : s.bus.mail.held id with
  | nil =>
    refine ⟨hwf, houtbox.trans h.outbox, ?_⟩
    intro other
    show s.sentTo other = s.poppedFrom other ++ bus.mail.held other
    rw [hheld, h.books other]
    split
    · next hother => rw [hother, hbox]; rfl
    · rfl
  | cons envelope rest =>
    refine ⟨hwf, houtbox.trans h.outbox, ?_⟩
    intro other
    show s.sentTo other =
      ((s.popped ++ [(id, envelope)]).filter _).map Prod.snd ++ bus.mail.held other
    rw [hheld, h.books other, List.filter_append, List.map_append]
    by_cases hother : other = id
    · rw [if_pos hother, hother, hbox]
      simp [poppedFrom]
    · rw [if_neg hother]
      simp [poppedFrom, Ne.symm hother]

/-- What touches no ring keeps the books. -/
theorem Delivered.aside {s : Watched w P} (h : s.Delivered) (bus : MessageBus w P)
    (houtbox : bus.outbox = s.bus.outbox) (hinboxes : bus.inboxes = s.bus.inboxes) :
    Delivered { s with bus } := by
  obtain ⟨hwf, hmail⟩ := h.wf.congr houtbox hinboxes
  refine ⟨hwf, hmail ▸ h.outbox, ?_⟩
  intro id
  show s.sentTo id = s.poppedFrom id ++ bus.mail.held id
  rw [hmail]
  exact h.books id

/-- **Any call.** -/
theorem Delivered.step {s : Watched w P} (h : s.Delivered) (c : Call P) : (s.step c).Delivered := by
  -- Two of the calls move envelopes.
  cases c with
  | publish envelope => exact h.publish envelope
  | flush =>
    obtain ⟨hwf, hmail⟩ := h.wf.flush
    rw [Mail.flush_eq_self h.outbox] at hmail
    exact ⟨hwf, by rw [show (s.step .flush).bus.mail = _ from hmail]; exact h.outbox, fun id => by
      rw [show (s.step .flush).bus.mail = _ from hmail]; exact h.books id⟩
  | popInbox id => exact h.popInbox id
  | addSubscriber table ring =>
    obtain ⟨hwf, ⟨hsame, -⟩ | ⟨-, hmail⟩⟩ := h.wf.tryAddSubscriber table ring
    · have hstep : s.step (.addSubscriber table ring) = s := by simp only [Watched.step, hsame]
      rw [hstep]
      exact h
    · refine ⟨hwf, ?_, ?_⟩
      · show (s.bus.tryAddSubscriber table ring).2.mail.outbox = []
        rw [hmail]
        exact h.outbox
      · intro id
        show s.sentTo id = s.poppedFrom id ++ (s.bus.tryAddSubscriber table ring).2.mail.held id
        rw [hmail, Mail.held_addInbox]
        exact h.books id
  | setDebugEdges room deps =>
    simp only [Watched.step]
    rcases s.bus.trySetDebugEdges_cases room deps with ⟨error, hsame⟩ | ⟨-, edges, hset⟩
    · rw [hsame]
      exact h
    · rw [hset]
      exact h.aside _ rfl rfl
  | envelope sender recipient topic payload => exact h.aside _ rfl rfl

/-- The books of any run. -/
theorem Delivered.run {s t : Watched w P} (hstart : s.Starts) (hr : Reaches steps s t) :
    t.Delivered := by
  refine hr.invariant Delivered (.start hstart) ?_
  rintro s c _ h rfl
  exact h.step c

theorem Delivered.length_held {s : Watched w P} (h : s.Delivered) (id : SubscriberId) :
    (s.held id).length ≤ DEFAULT_INBOX_CAPACITY := by
  rw [s.held_eq]
  exact h.wf.length_held id

/-- **Delivery.** After any run what an inbox was popped of is the first of what was published to
    it with success, and the inbox holds the rest. The outbox is empty. -/
theorem delivery {s t : Watched w P} (hstart : s.Starts) (hr : Reaches steps s t) :
    (∀ id, t.poppedFrom id <+: t.sentTo id ∧ t.sentTo id = t.poppedFrom id ++ t.held id ∧
        (t.held id).length ≤ DEFAULT_INBOX_CAPACITY) ∧
      t.bus.outbox.cells.isEmpty = true := by
  have h := Delivered.run hstart hr
  refine ⟨?_, ?_⟩
  · intro id
    have hbooks := h.books id
    rw [← held_eq] at hbooks
    exact ⟨⟨_, hbooks.symm⟩, hbooks, h.length_held id⟩
  · obtain ⟨taken, hholds⟩ := h.wf.outbox
    exact hholds.isEmpty_iff.mpr h.outbox

def opened : Watched .sixtyFour Nat :=
  ⟨⟨⟨⟨List.replicate 32 none, 31, 0, 0⟩⟩, [], [], 0, 0⟩, [], []⟩

/-- A subscriber's two envelopes to itself, of which it pops one. -/
def selfPost : Watched .sixtyFour Nat :=
  [.addSubscriber true true, .publish ⟨⟨0⟩, ⟨0⟩, 0, 0, 7⟩, .publish ⟨⟨0⟩, ⟨0⟩, 0, 1, 8⟩,
    .popInbox ⟨0⟩].foldl step opened

/-- What it popped is the first of what was sent to it, and the second is still held. -/
theorem delivery_selfPost :
    opened.Starts ∧ Reaches steps opened selfPost ∧
      selfPost.poppedFrom ⟨0⟩ = [⟨⟨0⟩, ⟨0⟩, 0, 0, 7⟩] ∧
      selfPost.sentTo ⟨0⟩ = selfPost.poppedFrom ⟨0⟩ ++ selfPost.held ⟨0⟩ := by
  have hstart : opened.Starts := ⟨true, rfl, rfl, rfl⟩
  have hrun : Reaches steps opened selfPost := Reaches.run step opened _
  exact ⟨hstart, hrun, by decide, ((delivery hstart hrun).1 ⟨0⟩).2.1⟩

end Watched

end Bus
end EngineKit

