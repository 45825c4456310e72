import EngineKit.Bus.Delivery
import EngineKit.Core.Kernel

/-!
# What the inboxes hold

A law of the form "an inbox only ever holds messages of such a kind" says of every program what it
may publish (`Callback.Sends`). If all of them abide by it, so does the bus (`Holds`), and whoever
receives a message receives one of that kind (`Kernel.frame_holds`).

The law is asked of a program whatever the bus answers it. A program is a tree of calls and answers,
and which branch is taken depends on what other programs have sent; so only a law about all branches
lets each program be looked at by itself, without knowing the others. What it may take for granted
in return is nothing: `Sends` does not even assume that what it receives abides by the law.

The outbox is empty because `publish` delivers at once. It is in the invariant all the same, as a
message that waited there would be of a kind nobody has looked at.
-/

set_option autoImplicit false

namespace EngineKit
namespace Core

open Lib Schedule Bus

variable {w : PointerWidth} {P : Type} {ok : SubscriberId → UInt16 → P → Prop}

/-- Whatever it is answered, the program publishes nothing but what is allowed. -/
def Callback.Sends (ok : SubscriberId → UInt16 → P → Prop) : Callback P → Prop
  | .done => True
  | .publish recipient topic payload next =>
    ok recipient topic payload ∧ ∀ answer, (next answer).Sends ok
  | .receive next => ∀ envelope, (next envelope).Sends ok

/-- The bus is in order, with an empty outbox, and its inboxes hold what is allowed. -/
structure Holds (ok : SubscriberId → UInt16 → P → Prop) (bus : MessageBus w P) : Prop where
  wf : bus.Wf
  outbox : bus.mail.outbox = []
  held (id : SubscriberId) :
    ∀ envelope ∈ bus.mail.held id, ok id envelope.topic envelope.payload

section Calls

variable {bus : MessageBus w P}

/-- A message that is delivered is one that was allowed, and one that is not delivered is
    nowhere. -/
theorem Holds.publish (h : Holds ok bus) {envelope : Envelope P}
    (hok : ok envelope.recipient envelope.topic envelope.payload) :
    Holds ok (bus.publish envelope).2 := by
  obtain ⟨-, hwf, hmail⟩ := h.wf.publish envelope
  rw [Mail.publish_eq_deliver h.outbox] at hmail
  refine ⟨hwf, ?_, ?_⟩
  · rw [hmail, Mail.outbox_deliver, h.outbox]
  · intro id e he
    rw [hmail] at he
    rcases bus.mail.deliver_cases envelope with ⟨error, hsame⟩ | ⟨-, -, hheld⟩
    · rw [hsame] at he
      exact h.held id e he
    · rw [hheld id] at he
      split at he
      · next hid =>
        cases List.mem_append.mp he with
        | inl hold => exact h.held id e hold
        | inr hnew =>
          obtain rfl := List.mem_singleton.mp hnew
          exact hid ▸ hok
      · exact h.held id e he

/-- What is popped was held. -/
theorem Holds.popInbox (h : Holds ok bus) (id : SubscriberId) :
    Holds ok (bus.popInbox id).2 ∧
      ∀ envelope, (bus.popInbox id).1 = some envelope →
        ok id envelope.topic envelope.payload := by
  obtain ⟨hanswer, hwf, hmail⟩ := h.wf.popInbox id
  obtain ⟨hhead, houtbox, htail⟩ := bus.mail.popInbox_spec id
  refine ⟨⟨hwf, ?_, ?_⟩, ?_⟩
  · rw [hmail, houtbox, h.outbox]
  · intro other e he
    rw [hmail, htail other] at he
    split at he
    · next hother =>
      rw [hother]
      exact h.held id e (List.mem_of_mem_tail he)
    · exact h.held other e he
  · intro envelope hpop
    rw [hanswer, hhead] at hpop
    exact h.held id envelope (List.mem_of_mem_head? hpop)

/-- Edges and counters are no contents. -/
theorem Holds.aside (h : Holds ok bus) {bus' : MessageBus w P}
    (houtbox : bus'.outbox = bus.outbox) (hinboxes : bus'.inboxes = bus.inboxes) :
    Holds ok bus' := by
  obtain ⟨hwf, hmail⟩ := h.wf.congr houtbox hinboxes
  exact ⟨hwf, hmail ▸ h.outbox, hmail ▸ h.held⟩

theorem Holds.flush (h : Holds ok bus) : Holds ok bus.flush := by
  obtain ⟨hwf, hmail⟩ := h.wf.flush
  rw [Mail.flush_eq_self h.outbox] at hmail
  exact ⟨hwf, hmail ▸ h.outbox, hmail ▸ h.held⟩

end Calls

/-! ## Programs -/

/-- The bus holds what is allowed, and so was what was received. -/
structure Live.Holds (ok : SubscriberId → UInt16 → P → Prop) (live : Live w P) : Prop where
  bus : Core.Holds ok live.bus
  received (idx : Nat) (envelope : Envelope P) :
    .received idx envelope ∈ live.events → ok ⟨UInt32.ofNat idx⟩ envelope.topic envelope.payload

/-- **One program**, with all that it publishes and receives. -/
theorem Callback.run_holds {program : Callback P} (hsends : program.Sends ok) (idx : Nat)
    {live : Live w P} (h : live.Holds ok) : (program.run idx live).Holds ok := by
  -- On the program: what is left after an answer is again a program that abides by the law.
  induction program generalizing live with
  | done => exact h
  | publish recipient topic payload next ih =>
    have hcounted : Core.Holds ok { live.bus with nextSeq := live.bus.nextSeq + 1 } :=
      h.bus.aside rfl rfl
    exact ih _ (hsends.2 _) ⟨hcounted.publish hsends.1, h.received⟩
  | receive next ih =>
    obtain ⟨hbus, hpopped⟩ := h.bus.popInbox ⟨UInt32.ofNat idx⟩
    rw [Callback.run]
    split
    · next hpop =>
      rw [hpop] at hbus
      exact ih _ (hsends _) ⟨hbus, h.received⟩
    · next envelope bus hpop =>
      rw [hpop] at hbus hpopped
      refine ih _ (hsends _) ⟨hbus, ?_⟩
      intro i e he
      cases List.mem_append.mp he with
      | inl hold => exact h.received i e hold
      | inr hlast =>
        obtain ⟨rfl, rfl⟩ := Event.received.inj (List.mem_singleton.mp hlast)
        exact hpopped e rfl

/-- And all of them, one after the other. -/
theorem callAll_holds (phase : Phase) {programs : Nat → Callback P}
    (hsends : ∀ idx, (programs idx).Sends ok) (order : List Nat) {bus : MessageBus w P}
    (h : Holds ok bus) : (callAll phase programs order bus).Holds ok := by
  have hfold (live : Live w P) (hlive : live.Holds ok) :
      (order.foldl (Live.call phase programs) live).Holds ok := by
    induction order generalizing live with
    | nil => exact hlive
    | cons idx order ih =>
      refine ih _ (Callback.run_holds (hsends idx) idx ⟨hlive.bus, ?_⟩)
      intro i e he
      cases List.mem_append.mp he with
      | inl hold => exact hlive.received i e hold
      | inr hlast => exact absurd (List.mem_singleton.mp hlast) (by simp)
  exact hfold ⟨bus, []⟩ ⟨h, fun _ _ he => absurd he List.not_mem_nil⟩

namespace Kernel

variable {k : Kernel w P}

/-- **A frame** of programs that abide by the law. -/
theorem frame_holds {ticks : Nat → Callback P} (hsends : ∀ idx, (ticks idx).Sends ok)
    (exec : List Nat) (h : Holds ok k.bus) :
    Holds ok (k.frame ticks exec).1.bus ∧
      ∀ idx envelope, .received idx envelope ∈ (k.frame ticks exec).2 →
        ok ⟨UInt32.ofNat idx⟩ envelope.topic envelope.payload := by
  obtain ⟨hbus, hreceived⟩ := callAll_holds .tick hsends exec h.flush
  exact ⟨hbus, hreceived⟩

/-- New inboxes are empty. -/
theorem addSubscribers_holds {bus : MessageBus w P} (hwf : bus.Wf) (hmail : bus.mail = ⟨[], []⟩)
    (room : Room) (n : Nat) (edges : List (List Bool)) :
    Holds ok { (addSubscribers room n bus).2 with edges } ∧
      ((addSubscribers room n bus).1 = true → n ≤ 2 ^ 32) := by
  obtain ⟨hadded, count, -, hinboxes, hroom⟩ := addSubscribers_spec hwf room n
  rw [hmail, List.nil_append] at hinboxes
  have hholds : Holds ok (addSubscribers room n bus).2 := by
    refine ⟨hadded, by rw [hinboxes], ?_⟩
    intro id e he
    rw [hinboxes, Mail.held] at he
    cases hget : (List.replicate count ([] : List (Envelope P)))[id.raw.toNat]? with
    | none =>
      rw [hget] at he
      exact absurd he List.not_mem_nil
    | some inbox =>
      rw [hget, List.eq_of_mem_replicate (List.mem_of_getElem? hget)] at he
      exact absurd he List.not_mem_nil
  refine ⟨hholds.aside rfl rfl, ?_⟩
  intro hall
  obtain ⟨-, -, hbound⟩ := hroom hall
  rw [hmail, List.length_nil, Nat.zero_add] at hbound
  by_cases hn : 0 < n
  · exact hbound hn
  · omega

/-- **An init** of programs that abide by the law, on a bus without messages. -/
theorem init_holds {room : Room} {programs : Nat → Callback P}
    (hsends : ∀ idx, (programs idx).Sends ok) (hwf : k.bus.Wf) (hmail : k.bus.mail = ⟨[], []⟩)
    (hfresh : k.initialized = false) (hok : (k.init room programs).1 = some (.ok ())) :
    Holds ok (k.init room programs).2.1.bus ∧
      (k.init room programs).2.1.names = k.registry.entries.map Subsystem.name ∧
      k.registry.entries.length ≤ 2 ^ 32 := by
  unfold init at hok ⊢
  rw [if_neg (by rw [hfresh]; decide)] at hok ⊢
  cases hdeps : k.registry.resolveDependencies with
  | error error => simp [hdeps] at hok
  | ok deps =>
    simp only [hdeps] at hok ⊢
    cases hplan : k.registry.plan deps with
    | error error => simp [hplan] at hok
    | ok plan =>
      simp only [hplan] at hok ⊢
      have hadd := @addSubscribers_holds w P ok k.bus hwf hmail room k.registry.entries.length
      -- The bus is only touched once the registry has been resolved and planned.
      cases hadded : addSubscribers room k.registry.entries.length k.bus with
      | mk added bus =>
        rw [hadded] at hadd
        cases added with
        | false => simp [hadded] at hok
        | true =>
          simp only [hadded] at hok ⊢
          rcases bus.trySetDebugEdges_cases room.edges (deps.map fun list => list.map Fin.val)
            with ⟨error, hset⟩ | ⟨-, edges, hset⟩
          · simp [hset] at hok
          · simp only [hset]
            obtain ⟨hempty, hbound⟩ := hadd edges
            exact ⟨(callAll_holds .init hsends _ hempty).bus, trivial, hbound rfl⟩

end Kernel

end Core
end EngineKit
