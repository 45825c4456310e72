import Mathlib.Data.List.Induction

/-!
# The last message that tells something

A register is what one reads of a state that messages are folded over, when each message either
sets it or leaves it alone. After any messages it holds what the last one that sets it tells, or
what it held at first if there is none (`Register.foldl`).
-/

set_option autoImplicit false

namespace EngineKit
namespace Lib

variable {α β γ σ : Type}

/-- The answer of the last message that has one. -/
def lastSome (tells : α → Option β) (messages : List α) : Option β :=
  messages.reverse.findSome? tells

@[simp] theorem lastSome_nil (tells : α → Option β) : lastSome tells [] = none := rfl

theorem lastSome_append_singleton (tells : α → Option β) (messages : List α) (message : α) :
    lastSome tells (messages ++ [message]) = (tells message).or (lastSome tells messages) := by
  simp only [lastSome, List.reverse_append, List.reverse_singleton, List.findSome?_append,
    List.findSome?_singleton]

/-- Messages that some wrapping may or may not carry. -/
theorem lastSome_filterMap (carries : γ → Option α) (tells : α → Option β) (wrapped : List γ) :
    lastSome tells (wrapped.filterMap carries) =
      lastSome (fun item => (carries item).bind tells) wrapped := by
  induction wrapped using List.reverseRecOn with
  | nil => rfl
  | append_singleton wrapped item ih =>
    rw [lastSome_append_singleton, List.filterMap_append, ← ih]
    cases hcarries : carries item with
    | none => simp [hcarries]
    | some message =>
      rw [List.filterMap_cons_some hcarries, List.filterMap_nil, lastSome_append_singleton]
      rfl

/-- What is read of a state is what the message tells, if it tells anything. -/
def Register (step : σ → α → σ) (read : σ → β) (tells : α → Option β) : Prop :=
  ∀ s message, read (step s message) = (tells message).getD (read s)

/-- **A register after any messages.** -/
theorem Register.foldl {step : σ → α → σ} {read : σ → β} {tells : α → Option β}
    (h : Register step read tells) (s : σ) (messages : List α) :
    read (messages.foldl step s) = (lastSome tells messages).getD (read s) := by
  induction messages using List.reverseRecOn with
  | nil => rfl
  | append_singleton messages message ih =>
    rw [List.foldl_append, List.foldl_cons, List.foldl_nil, h, ih, lastSome_append_singleton]
    cases tells message with
    | none => rfl
    | some answer => rfl

end Lib
end EngineKit
