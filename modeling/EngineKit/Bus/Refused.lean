import EngineKit.Bus.Delivery

/-!
# What becomes of a refused envelope

`publish` promises an error "without dropping the message", and the envelope does not come back in
the error: a `BusError` has an address and no payload. So it is kept only if the bus still holds
it. It does not: it has left the outbox when its inbox turns it away. `keeps_iff` is when nothing
is lost, which is when nothing is turned away.

The two calls are told apart by what they do with the rest. A publish delivers one envelope, the
first of the outbox, and its answer is about that one; a flush goes on until it meets a full inbox
or an address without one, and has no answer, so that whether it lost something has to be read off
what it met (`meetsFull`). Both conditions are on the bus before the call.

The proofs count envelopes. That one is gone is a difference of one in their number, which no other
envelope can make up for; that none is gone is a permutation, as the order of two inboxes is
nobody's.
-/

set_option autoImplicit false

namespace EngineKit
namespace Bus

open Lib
open Schedule (SubscriberId BusError)

variable {w : PointerWidth} {P : Type}

namespace Mail

/-- Every envelope the bus holds. -/
def envelopes (mail : Mail P) : List (Envelope P) := mail.outbox ++ mail.inboxes.flatten

/-- The recipient has an inbox with room. -/
def Accepts (mail : Mail P) (id : SubscriberId) : Prop :=
  ∃ inbox, mail.inboxes[id.raw.toNat]? = some inbox ∧ inbox.length < DEFAULT_INBOX_CAPACITY

/-- What is accepted is delivered. -/
theorem deliver_accepted {mail : Mail P} {queued : Envelope P}
    (h : mail.Accepts queued.recipient) : (mail.deliver queued).1 = .ok () := by
  obtain ⟨inbox, hbox, hroom⟩ := h
  simp only [deliver, hbox, if_pos hroom]

/-- An envelope that is not accepted is nowhere after its delivery. -/
theorem deliver_refused {mail : Mail P} {queued : Envelope P}
    (h : ¬ mail.Accepts queued.recipient) :
    mail.deliver queued = (.error (.unknownRecipient queued.recipient), mail) ∨
      mail.deliver queued = (.error (.inboxFull queued.recipient), mail) := by
  unfold deliver
  cases hbox : mail.inboxes[queued.recipient.raw.toNat]? with
  | none => exact .inl rfl
  | some inbox =>
    have hfull : ¬ inbox.length < DEFAULT_INBOX_CAPACITY := fun hroom => h ⟨inbox, hbox, hroom⟩
    exact .inr (if_neg hfull)

/-- The envelope a flush meets a full inbox with. -/
def meetsFull : List (Envelope P) → List (List (Envelope P)) → Option (Envelope P)
  | [], _ => none
  | queued :: outbox, inboxes =>
    match inboxes[queued.recipient.raw.toNat]? with
    | none => none
    | some inbox =>
      if inbox.length < DEFAULT_INBOX_CAPACITY then
        meetsFull outbox (inboxes.set queued.recipient.raw.toNat (inbox ++ [queued]))
      else some queued

/-- One inbox has one more. -/
theorem length_flatten_set {inboxes : List (List (Envelope P))} {i : Nat}
    {inbox : List (Envelope P)} (h : inboxes[i]? = some inbox) (queued : Envelope P) :
    (inboxes.set i (inbox ++ [queued])).flatten.length = inboxes.flatten.length + 1 := by
  induction inboxes generalizing i with
  | nil => exact absurd h (by simp)
  | cons first rest ih =>
    cases i with
    | zero =>
      obtain rfl : first = inbox := by simpa using h
      simp
      omega
    | succ i =>
      have hrest := ih (i := i) (by simpa using h)
      simp only [List.set_cons_succ, List.flatten_cons, List.length_append, hrest]
      omega

/-- A flush that meets a full inbox loses one envelope. -/
theorem length_flushAll {outbox : List (Envelope P)} {inboxes : List (List (Envelope P))}
    (h : meetsFull outbox inboxes ≠ none) :
    (flushAll outbox inboxes).envelopes.length + 1 = (envelopes ⟨outbox, inboxes⟩).length := by
  -- On the outbox, as the flush goes through it; each delivery fills an inbox of the next round.
  induction outbox generalizing inboxes with
  | nil => exact absurd rfl h
  | cons queued outbox ih =>
    rw [meetsFull] at h
    rw [flushAll, deliver]
    cases hbox : inboxes[queued.recipient.raw.toNat]? with
    | none => rw [hbox] at h; exact absurd rfl h
    | some inbox =>
      simp only [hbox] at h ⊢
      by_cases hroom : inbox.length < DEFAULT_INBOX_CAPACITY
      · rw [if_pos hroom] at h
        simp only [if_pos hroom]
        rw [ih h]
        simp only [envelopes, List.length_append, List.length_cons, length_flatten_set hbox]
        omega
      · simp only [if_neg hroom, envelopes, List.length_append, List.length_cons]
        omega

/-- The inboxes have room for what the outbox holds up to the first unknown address. -/
def Fits (mail : Mail P) : Prop :=
  let known := mail.outbox.takeWhile fun envelope =>
    envelope.recipient.raw.toNat < mail.inboxes.length
  ∀ id : SubscriberId, (mail.held id).length +
    known.countP (fun envelope => envelope.recipient = id) ≤ DEFAULT_INBOX_CAPACITY

/-- No inbox is longer than it may be, nor is the one of an address without an inbox. -/
theorem length_held_le {outbox : List (Envelope P)} {inboxes : List (List (Envelope P))}
    (hinboxes : ∀ inbox ∈ inboxes, inbox.length ≤ DEFAULT_INBOX_CAPACITY) (id : SubscriberId) :
    (held ⟨outbox, inboxes⟩ id).length ≤ DEFAULT_INBOX_CAPACITY := by
  rw [held]
  cases hbox : inboxes[id.raw.toNat]? with
  | none => exact Nat.zero_le _
  | some inbox => exact hinboxes inbox (List.mem_of_getElem? hbox)

/-- **No full inbox is met** exactly if all have room for what is addressed to them. -/
theorem meetsFull_eq_none_iff {outbox : List (Envelope P)} {inboxes : List (List (Envelope P))}
    (hinboxes : ∀ inbox ∈ inboxes, inbox.length ≤ DEFAULT_INBOX_CAPACITY) :
    meetsFull outbox inboxes = none ↔ Fits ⟨outbox, inboxes⟩ := by
  -- On the outbox: a round that delivers leaves a box one fuller and a demand one smaller.
  induction outbox generalizing inboxes with
  | nil => exact iff_of_true rfl (length_held_le hinboxes)
  | cons queued outbox ih =>
    rw [meetsFull]
    cases hbox : inboxes[queued.recipient.raw.toNat]? with
    | none =>
      have hunknown : ¬ queued.recipient.raw.toNat < inboxes.length :=
        Nat.not_lt.mpr (List.getElem?_eq_none_iff.mp hbox)
      refine iff_of_true rfl ?_
      intro id
      rw [List.takeWhile_cons_of_neg (by simpa using hunknown)]
      exact length_held_le hinboxes id
    | some inbox =>
      have hknown : queued.recipient.raw.toNat < inboxes.length :=
        (List.getElem?_eq_some_iff.mp hbox).1
      simp only
      by_cases hroom : inbox.length < DEFAULT_INBOX_CAPACITY
      · have hset : ∀ other ∈ inboxes.set queued.recipient.raw.toNat (inbox ++ [queued]),
            other.length ≤ DEFAULT_INBOX_CAPACITY := by
          intro other hother
          cases List.mem_or_eq_of_mem_set hother with
          | inl hold => exact hinboxes other hold
          | inr hnew => rw [hnew, List.length_append, List.length_singleton]; exact hroom
        rw [if_pos hroom, ih hset]
        refine forall_congr' ?_
        intro id
        rw [List.takeWhile_cons_of_pos (by simpa using hknown), List.countP_cons,
          held_set ⟨outbox, inboxes⟩ hbox (inbox ++ [queued]) id]
        simp only [List.length_set]
        show _ ↔ (held ⟨outbox, inboxes⟩ id).length + _ ≤ _
        -- The inbox that grew, or another one.
        by_cases hid : id = queued.recipient
        · have hheld : held ⟨outbox, inboxes⟩ id = inbox := by
            rw [hid, held, hbox, Option.getD_some]
          rw [if_pos hid, hheld, if_pos (by simpa using hid.symm), List.length_append,
            List.length_singleton]
          omega
        · rw [if_neg hid, if_neg (by simpa using Ne.symm hid), Nat.add_zero]
      · rw [if_neg hroom]
        refine iff_of_false (by simp) ?_
        intro hfits
        have hfull := hfits queued.recipient
        rw [List.takeWhile_cons_of_pos (by simpa using hknown), List.countP_cons_of_pos (by simp),
          held, hbox, Option.getD_some] at hfull
        omega

end Mail

namespace MessageBus

/-- Every envelope the bus holds. -/
def envelopes (bus : MessageBus w P) : List (Envelope P) := bus.mail.envelopes

/-- A publish that is refused by the inbox, or for want of one, leaves the bus with all it held
    and the envelope it was given. -/
def PublishKeeps (bus : MessageBus w P) (envelope : Envelope P) : Prop :=
  (∃ id, (bus.publish envelope).1 = .error (.inboxFull id) ∨
      (bus.publish envelope).1 = .error (.unknownRecipient id)) →
    (bus.publish envelope).2.envelopes.Perm (bus.envelopes ++ [envelope])

/-- A flush that meets a full inbox leaves the bus with all it held. -/
def FlushKeeps (bus : MessageBus w P) : Prop :=
  Mail.meetsFull bus.mail.outbox bus.mail.inboxes ≠ none →
    bus.flush.envelopes.Perm bus.envelopes

/-- The next envelope `publish` delivers has room in its inbox, or the outbox is full. -/
def PublishFits (bus : MessageBus w P) (envelope : Envelope P) : Prop :=
  OUTBOX_CAPACITY ≤ bus.mail.outbox.length ∨
    ∀ queued ∈ (bus.mail.outbox ++ [envelope]).head?, bus.mail.Accepts queued.recipient

section Keeps

variable {bus : MessageBus w P}

/-- **A publish** keeps what it was given if it delivers, or never takes it. -/
theorem Wf.publishKeeps_iff (h : bus.Wf) (envelope : Envelope P) :
    bus.PublishKeeps envelope ↔ bus.PublishFits envelope := by
  obtain ⟨hanswer, -, hmail⟩ := h.publish envelope
  unfold PublishKeeps PublishFits envelopes
  rw [hanswer, hmail, Mail.publish]
  -- With room in the outbox the first of it is delivered; without, the error is another one.
  by_cases hroom : bus.mail.outbox.length < OUTBOX_CAPACITY
  · rw [if_pos hroom]
    cases hfront : bus.mail.outbox ++ [envelope] with
    | nil => exact absurd hfront (by simp)
    | cons queued rest =>
      have hlen := congrArg List.length hfront
      rw [List.length_append, List.length_singleton, List.length_cons] at hlen
      simp only [List.head?_cons, Option.mem_some_iff, forall_eq',
        or_iff_right (Nat.not_le.mpr hroom)]
      show _ ↔ Mail.Accepts ⟨rest, bus.mail.inboxes⟩ queued.recipient
      by_cases haccept : Mail.Accepts ⟨rest, bus.mail.inboxes⟩ queued.recipient
      · refine iff_of_true ?_ haccept
        intro hex
        obtain ⟨id, herror⟩ := hex
        rw [Mail.deliver_accepted haccept] at herror
        simp at herror
      · refine iff_of_false ?_ haccept
        intro hkeeps
        have hperm : (Mail.envelopes ⟨rest, bus.mail.inboxes⟩).Perm
            (bus.mail.envelopes ++ [envelope]) := by
          rcases Mail.deliver_refused haccept with hrefused | hrefused
          · rw [hrefused] at hkeeps
            exact hkeeps ⟨_, .inr rfl⟩
          · rw [hrefused] at hkeeps
            exact hkeeps ⟨_, .inl rfl⟩
        have hsame := hperm.length_eq
        simp only [Mail.envelopes, List.length_append, List.length_singleton] at hsame
        omega
  · rw [if_neg hroom]
    refine iff_of_true ?_ (.inl (Nat.not_lt.mp hroom))
    intro hex
    obtain ⟨id, herror⟩ := hex
    simp at herror

/-- **A flush** keeps what it meets if all of it fits. -/
theorem Wf.flushKeeps_iff (h : bus.Wf) : bus.FlushKeeps ↔ bus.mail.Fits := by
  have hinboxes : ∀ inbox ∈ bus.mail.inboxes, inbox.length ≤ DEFAULT_INBOX_CAPACITY := by
    intro inbox hin
    obtain ⟨ring, hring, rfl⟩ := List.mem_map.mp hin
    obtain ⟨hwf, hsize⟩ := h.inbox ring hring
    exact hsize ▸ hwf.length_le
  rw [← Mail.meetsFull_eq_none_iff hinboxes, FlushKeeps, envelopes, h.flush.2]
  constructor
  · intro hkeeps
    -- A flush that met a full inbox holds one envelope less than it held.
    by_contra hmeets
    have hlost := Mail.length_flushAll hmeets
    have hsame : (Mail.flushAll bus.mail.outbox bus.mail.inboxes).envelopes.length =
        (Mail.envelopes ⟨bus.mail.outbox, bus.mail.inboxes⟩).length := (hkeeps hmeets).length_eq
    omega
  · intro hnone hmeets
    exact absurd hnone hmeets

/-- **What is turned away is lost.** -/
theorem keeps_iff (h : bus.Wf) :
    (∀ envelope, bus.PublishKeeps envelope ↔ bus.PublishFits envelope) ∧
      (bus.FlushKeeps ↔ bus.mail.Fits) :=
  ⟨h.publishKeeps_iff, h.flushKeeps_iff⟩

end Keeps

/-- A subscriber that has published to itself until its inbox was full. -/
def filled : Watched .sixtyFour Nat :=
  (Call.addSubscriber true true :: (List.range DEFAULT_INBOX_CAPACITY).map fun i =>
    .publish ⟨⟨0⟩, ⟨0⟩, 1, UInt64.ofNat i, i⟩).foldl Watched.step Watched.opened

/-- Beside a full inbox there is one with room: what is published to the one is lost, to the other
    it is kept, and so is all that a flush meets. -/
theorem keeps_iff_beside :
    let bus := (filled.step (.addSubscriber true true)).bus
    bus.Wf ∧ bus.PublishKeeps ⟨⟨0⟩, ⟨1⟩, 1, 64, 64⟩ ∧ ¬ bus.PublishKeeps ⟨⟨0⟩, ⟨0⟩, 1, 64, 64⟩ ∧
      bus.FlushKeeps := by
  intro bus
  have hstart : Watched.opened.Starts := ⟨true, rfl, rfl, rfl⟩
  have hrun : Reaches Watched.steps Watched.opened (filled.step (.addSubscriber true true)) :=
    (Reaches.run Watched.step Watched.opened _).tail ⟨.addSubscriber true true, rfl⟩
  have hdelivered := Watched.Delivered.run hstart hrun
  have hsizes : bus.mail.inboxes.map List.length = [DEFAULT_INBOX_CAPACITY, 0] := by
    decide +kernel
  have houtbox : bus.mail.outbox = [] := hdelivered.outbox
  have hwf : bus.Wf := hdelivered.wf
  clear_value bus
  have htwo : bus.mail.inboxes.length = 2 := by
    rw [← List.length_map (f := List.length), hsizes]
    rfl
  have hsize {i : Nat} {inbox : List (Envelope Nat)} (h : bus.mail.inboxes[i]? = some inbox) :
      [DEFAULT_INBOX_CAPACITY, 0][i]? = some inbox.length := by
    rw [← hsizes, List.getElem?_map, h]
    rfl
  obtain ⟨hpublish, hflush⟩ := keeps_iff hwf
  refine ⟨hwf, (hpublish _).mpr (.inr ?_), mt (hpublish _).mp ?_, hflush.mpr ?_⟩
  · rw [houtbox]
    rintro queued hqueued
    obtain rfl := Option.some.inj hqueued
    obtain ⟨inbox, hinbox⟩ : ∃ inbox, bus.mail.inboxes[1]? = some inbox :=
      ⟨_, List.getElem?_eq_getElem (by omega)⟩
    have hempty := Option.some.inj (hsize hinbox)
    exact ⟨inbox, hinbox, hempty ▸ by decide⟩
  · rw [PublishFits, houtbox]
    rintro (hfull | haccepts)
    · exact absurd hfull (by decide)
    · obtain ⟨inbox, hinbox, hroom⟩ := haccepts _ rfl
      rw [← Option.some.inj (hsize hinbox)] at hroom
      exact absurd hroom (by decide)
  · intro id
    rw [houtbox]
    exact hwf.length_held id

/-- One more is refused, and gone. -/
theorem publish_filled_loses :
    ∃ s : Watched .sixtyFour Nat, Reaches Watched.steps Watched.opened s ∧
      ¬ s.bus.PublishKeeps ⟨⟨0⟩, ⟨0⟩, 1, 64, 64⟩ := by
  refine ⟨filled, Reaches.run Watched.step Watched.opened _, ?_⟩
  intro hkeeps
  have hfull : (filled.bus.publish ⟨⟨0⟩, ⟨0⟩, 1, 64, 64⟩).1 = .error (.inboxFull ⟨0⟩) := by
    decide +kernel
  have hlen := (hkeeps ⟨⟨0⟩, .inl hfull⟩).length_eq
  exact absurd hlen (by decide +kernel)

end MessageBus

end Bus
end EngineKit
