import Mathlib.Logic.Function.Basic

/-!
# Who has the mutex

Threads `T` share a mutex, and the place a thread is at says whether it has it. `HeldBy` is that
the mutex agrees: it is with a thread exactly if the thread's place says so. Then no two threads
have it (`HeldBy.unique`).

A step of one thread takes the mutex if it is free, gives it back, or leaves it where it is
(`Passes`). To keep `HeldBy` it is enough to look at that thread (`HeldBy.move`).
-/

set_option autoImplicit false

namespace EngineKit
namespace Lib

variable {T : Type}

/-- The mutex is with the thread whose place says so. -/
def HeldBy (holds : T → Bool) (mutex : Option T) : Prop :=
  ∀ thread, holds thread = true ↔ mutex = some thread

/-- A free mutex is with no thread. -/
theorem free_iff (thread : T) : false = true ↔ none = some thread := by simp

/-- The mutex goes between nobody and one thread, or stays where it is. -/
def Passes (me : T) (mutex mutex' : Option T) : Prop :=
  mutex' = mutex ∨ (mutex = none ∨ mutex = some me) ∧ (mutex' = none ∨ mutex' = some me)

theorem Passes.iff_of_ne {me thread : T} {mutex mutex' : Option T} (h : Passes me mutex mutex')
    (hne : thread ≠ me) : mutex' = some thread ↔ mutex = some thread := by
  have hno : ∀ {m : Option T}, m = none ∨ m = some me → m ≠ some thread := by
    intro m hm hthread
    cases hm with
    | inl hnone =>
      rw [hnone] at hthread
      cases hthread
    | inr hme =>
      rw [hme] at hthread
      exact hne (Option.some.inj hthread).symm
  cases h with
  | inl hstays => rw [hstays]
  | inr hgoes =>
    exact ⟨fun hnow => absurd hnow (hno hgoes.2), fun hwas => absurd hwas (hno hgoes.1)⟩

variable {holds holds' : T → Bool} {mutex mutex' : Option T}

theorem HeldBy.free (h : ∀ thread, holds thread = false) : HeldBy holds none :=
  fun thread => by simp [h thread]

theorem HeldBy.unique (h : HeldBy holds mutex) {i j : T} (hi : holds i = true)
    (hj : holds j = true) : i = j :=
  Option.some.inj (((h i).mp hi).symm.trans ((h j).mp hj))

/-- **One thread's step.** -/
theorem HeldBy.move (h : HeldBy holds mutex) {me : T} (hpasses : Passes me mutex mutex')
    (hother : ∀ thread, thread ≠ me → holds' thread = holds thread)
    (hself : holds' me = true ↔ mutex' = some me) : HeldBy holds' mutex' := by
  intro thread
  by_cases heq : thread = me
  · rw [heq]
    exact hself
  · rw [hother thread heq, h thread, hpasses.iff_of_ne heq]

end Lib
end EngineKit
