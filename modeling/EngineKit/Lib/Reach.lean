import Mathlib.Logic.Relation

/-!
# Runs of a labelled transition system

A system is a relation `step : σ → ι → σ → Prop`: from a state, under a label (the call made,
with everything the environment decides), to a state. `Reaches step s t` says some run of any
length leads from `s` to `t`; it is Mathlib's reflexive transitive closure, so a run is
extended, composed and inducted on with Mathlib's lemmas.

`Guarded guard step` is the system restricted to the steps taken in a state where `guard`
holds of the label. A run of it is a run of `step` whose steps all meet the condition, which is
how a law that holds only of well-behaved runs is stated.
-/

set_option autoImplicit false

namespace EngineKit
namespace Lib

variable {σ ι : Type}

/-- Some run leads from the first state to the second. -/
abbrev Reaches (step : σ → ι → σ → Prop) : σ → σ → Prop :=
  Relation.ReflTransGen fun s t => ∃ i, step s i t

/-- The steps whose label meets `guard` in the state they are taken from. -/
def Guarded (guard : σ → ι → Prop) (step : σ → ι → σ → Prop) : σ → ι → σ → Prop :=
  fun s i t => guard s i ∧ step s i t

/-- **The invariant rule.** What holds at the start and survives each step holds of every
    state reached. -/
theorem Reaches.invariant {step : σ → ι → σ → Prop} (Inv : σ → Prop) {s t : σ}
    (hr : Reaches step s t) (h0 : Inv s)
    (hstep : ∀ s i t, Inv s → step s i t → Inv t) : Inv t := by
  induction hr with
  | refl => exact h0
  | tail _ hlast ih =>
    obtain ⟨i, hi⟩ := hlast
    exact hstep _ i _ ih hi

/-- A run that meets a condition is a run. -/
theorem Reaches.unguarded {step : σ → ι → σ → Prop} {guard : σ → ι → Prop} {s t : σ}
    (hr : Reaches (Guarded guard step) s t) : Reaches step s t := by
  induction hr with
  | refl => exact .refl
  | tail _ hlast ih =>
    obtain ⟨i, -, hi⟩ := hlast
    exact ih.tail ⟨i, hi⟩

/-- A list of labels run through a step *function* is a run of its graph. -/
theorem Reaches.run (f : σ → ι → σ) (s : σ) (is : List ι) :
    Reaches (fun s i t => t = f s i) s (is.foldl f s) := by
  induction is generalizing s with
  | nil => exact .refl
  | cons i is ih => exact .head ⟨i, rfl⟩ (ih (f s i))

/-- And through one that may refuse, where it refuses none. -/
theorem Reaches.foldlM {step : σ → ι → σ → Prop} {f : σ → ι → Option σ} {s t : σ} {is : List ι}
    (hf : ∀ i ∈ is, ∀ s t : σ, f s i = some t → step s i t) (h : is.foldlM f s = some t) :
    Reaches step s t := by
  induction is generalizing s with
  | nil =>
    obtain rfl := Option.some.inj h
    exact .refl
  | cons i is ih =>
    rw [List.foldlM_cons] at h
    obtain ⟨u, hu, hrest⟩ := Option.bind_eq_some_iff.mp h
    exact .head ⟨i, hf i List.mem_cons_self s u hu⟩
      (ih (fun j hj => hf j (List.mem_cons_of_mem i hj)) hrest)

/-- And of the part of it the labels allow. -/
theorem Reaches.foldl {ok : ι → Prop} (f : σ → ι → σ) (s : σ) {is : List ι}
    (h : ∀ i ∈ is, ok i) :
    Reaches (Guarded (fun _ i => ok i) fun s i t => t = f s i) s (is.foldl f s) := by
  induction is generalizing s with
  | nil => exact .refl
  | cons i is ih =>
    exact .head ⟨i, h i List.mem_cons_self, rfl⟩
      (ih (f s i) fun j hj => h j (List.mem_cons_of_mem _ hj))

end Lib
end EngineKit
