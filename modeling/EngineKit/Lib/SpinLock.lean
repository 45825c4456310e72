import EngineKit.Lib.Mutex
import EngineKit.Lib.Reach
import Mathlib.Data.List.Basic

/-!
# Calls behind a spin lock

Threads call operations on shared data. An operation is a critical section: some steps on the data,
one at a time, the last of which has the answer (`Critical`). A caller spins until an exchange gives
it the lock, takes the steps of its section in between anything the others do, and gives the lock
back.

Whatever the schedule, the calls are as good as made at once, one after the other (`linear`):
in the order in which their sections end (the log), each answers what it answers when its section
runs alone on what the ones before it left, and the data, when nobody has the lock, is what the
last one left. They return in that order too, so a call that returned before another was made is
before it in the log.
-/

set_option autoImplicit false

namespace EngineKit
namespace Lib

/-- Operations in steps: `L` is where a section is, with what it has read. -/
structure Critical (σ Op L A : Type) where
  enter : Op → L
  step : L → σ → σ × (L ⊕ A)

namespace Critical

variable {T σ Op L A : Type} (p : Critical σ Op L A)

/-- The rest of a section, run alone. -/
inductive Runs : L → σ → A → σ → Prop where
  | last {l : L} {d d' : σ} {a : A} (hstep : p.step l d = (d', .inr a)) : Runs l d a d'
  | more {l l' : L} {d d₁ d' : σ} {a : A} (hstep : p.step l d = (d₁, .inl l'))
      (hrest : Runs l' d₁ a d') : Runs l d a d'

variable {p} in
theorem Runs.more_iff {l l' : L} {d d₁ d' : σ} {a : A} (hstep : p.step l d = (d₁, .inl l')) :
    p.Runs l d a d' ↔ p.Runs l' d₁ a d' := by
  constructor
  · intro h
    cases h with
    | last hlast => exact nomatch hstep.symm.trans hlast
    | more hmore hrest =>
      obtain ⟨rfl, hl⟩ := Prod.mk.inj (hstep.symm.trans hmore)
      obtain rfl := Sum.inl.inj hl
      exact hrest
  · exact .more hstep

variable {p} in
theorem Runs.last_iff {l : L} {d d₁ d' : σ} {a b : A} (hstep : p.step l d = (d₁, .inr b)) :
    p.Runs l d a d' ↔ b = a ∧ d₁ = d' := by
  constructor
  · intro h
    cases h with
    | last hlast =>
      obtain ⟨hd, ha⟩ := Prod.mk.inj (hstep.symm.trans hlast)
      exact ⟨Sum.inr.inj ha, hd⟩
    | more hmore hrest => exact nomatch hstep.symm.trans hmore
  · intro h
    obtain ⟨rfl, rfl⟩ := h
    exact .last hstep

/-- Calls one after the other. -/
inductive Follows (d₀ : σ) : List (T × Op × A) → σ → Prop where
  | start : Follows d₀ [] d₀
  | call {log : List (T × Op × A)} {d d' : σ} {op : Op} {a : A} (before : Follows d₀ log d)
      (thread : T) (hruns : p.Runs (p.enter op) d a d') :
      Follows d₀ (log ++ [(thread, op, a)]) d'

/-- The places of a caller. -/
inductive Place (Op L A : Type) where
  | idle
  | spinning (op : Op)
  | inside (op : Op) (l : L)
  /-- With the answer, about to give the lock back. -/
  | done (op : Op) (a : A)

def Place.holds : Place Op L A → Bool
  | .inside _ _ | .done _ _ => true
  | _ => false

/-- `lock` is the thread that set it. The log has the sections that ended and `returned` the calls
    that came back. -/
structure System (T σ Op L A : Type) where
  lock : Option T
  data : σ
  places : T → Place Op L A
  log : List (T × Op × A)
  returned : List (T × Op × A)

def start (d₀ : σ) : System T σ Op L A := ⟨none, d₀, fun _ => .idle, [], []⟩

/-- A call, or the next step of one. -/
inductive LockAct (T Op : Type) where
  | call (i : T) (op : Op)
  | go (i : T)

variable [DecidableEq T]

def System.move (s : System T σ Op L A) (i : T) (place : Place Op L A) : System T σ Op L A :=
  { s with places := Function.update s.places i place }

/-- The next step of a thread that is calling. -/
def go (s : System T σ Op L A) (i : T) : System T σ Op L A :=
  match s.places i with
  | .idle => s
  | .spinning op =>
    match s.lock with
    | none => { s with lock := some i }.move i (.inside op (p.enter op))
    | some _ => s
  | .inside op l =>
    match p.step l s.data with
    | (data, .inl l') => { s with data }.move i (.inside op l')
    | (data, .inr a) => { s with data, log := s.log ++ [(i, op, a)] }.move i (.done op a)
  | .done op a => { s with lock := none, returned := s.returned ++ [(i, op, a)] }.move i .idle

def steps (s : System T σ Op L A) : LockAct T Op → System T σ Op L A → Prop
  | .call i op, t => s.places i = .idle ∧ t = s.move i (.spinning op)
  | .go i, t => t = p.go s i

/-- The state after a step, if it can be taken. -/
def next (s : System T σ Op L A) : LockAct T Op → Option (System T σ Op L A)
  | .call i op =>
    match s.places i with
    | .idle => some (s.move i (.spinning op))
    | _ => none
  | .go i => some (p.go s i)

variable {p} in
theorem next_steps {s t : System T σ Op L A} {a : LockAct T Op} (h : p.next s a = some t) :
    p.steps s a t := by
  cases a with
  | call i op =>
    rw [next] at h
    split at h
    · next hidle => exact ⟨hidle, (Option.some.inj h).symm⟩
    · cases h
  | go i => exact (Option.some.inj h).symm

/-! ## What is kept -/

/-- How far the thread with the lock is. -/
def Kept (d₀ : σ) (s : System T σ Op L A) (i : T) : Place Op L A → Prop
  | .inside op l => s.log = s.returned ∧ ∃ d, p.Follows d₀ s.log d ∧
      ∀ a d', p.Runs l s.data a d' → p.Runs (p.enter op) d a d'
  | .done op a => s.log = s.returned ++ [(i, op, a)] ∧ p.Follows d₀ s.log s.data
  | _ => False

structure Linear (d₀ : σ) (s : System T σ Op L A) : Prop where
  held : HeldBy (fun i => (s.places i).holds) s.lock
  free : s.lock = none → s.log = s.returned ∧ p.Follows d₀ s.log s.data
  taken : ∀ i, s.lock = some i → p.Kept d₀ s i (s.places i)

variable {p} {d₀ : σ} {s : System T σ Op L A}

omit [DecidableEq T] in
theorem linear_start (d₀ : σ) : p.Linear d₀ (start d₀ : System T σ Op L A) where
  held := HeldBy.free fun _ => rfl
  free _ := ⟨rfl, .start⟩
  taken := nofun

theorem held_move (h : HeldBy (fun i => (s.places i).holds) s.lock) {i : T} {place : Place Op L A}
    {lock : Option T} (hpasses : Passes i s.lock lock)
    (hself : place.holds = true ↔ lock = some i) :
    HeldBy (fun j => (Function.update s.places i place j).holds) lock := by
  refine h.move hpasses ?_ ?_
  · intro j hj
    rw [Function.update_of_ne hj]
  · rw [Function.update_self]
    exact hself

theorem Linear.call (h : p.Linear d₀ s) {i : T} {op : Op} (hidle : s.places i = .idle) :
    p.Linear d₀ (s.move i (.spinning op)) := by
  have hmine := h.held i
  simp only [hidle] at hmine
  refine ⟨held_move h.held (.inl rfl) hmine, h.free, ?_⟩
  intro j hj
  have hne : j ≠ i := by
    intro heq
    rw [heq] at hj
    exact (Bool.false_ne_true (hmine.mpr hj)).elim
  show p.Kept d₀ s j (Function.update s.places i _ j)
  rw [Function.update_of_ne hne]
  exact h.taken j hj

theorem Linear.go (h : p.Linear d₀ s) (i : T) : p.Linear d₀ (p.go s i) := by
  have hmine := h.held i
  unfold Critical.go
  cases hplace : s.places i with
  | idle => exact h
  | spinning op =>
    cases hlock : s.lock with
    | some j => exact h
    | none =>
      obtain ⟨hlog, hfollows⟩ := h.free hlock
      refine ⟨held_move h.held (.inr ⟨.inl hlock, .inr rfl⟩) ⟨fun _ => rfl, fun _ => rfl⟩,
        nofun, ?_⟩
      intro j hj
      obtain rfl := Option.some.inj hj
      show p.Kept d₀ _ i (Function.update s.places i _ i)
      rw [Function.update_self]
      exact ⟨hlog, s.data, hfollows, fun a d' hruns => hruns⟩
  | inside op l =>
    simp only [hplace] at hmine
    have hlock : s.lock = some i := hmine.mp rfl
    have htaken := h.taken i hlock
    rw [hplace] at htaken
    obtain ⟨hlog, d, hfollows, hruns⟩ := htaken
    have hfree : ∀ {P : Prop}, s.lock = none → P := by
      intro P hnone
      rw [hlock] at hnone
      cases hnone
    cases hstep : p.step l s.data with
    | mk data result =>
      simp only [hstep]
      cases result with
      | inl l' =>
        refine ⟨held_move h.held (.inl rfl) hmine, hfree, ?_⟩
        intro j hj
        obtain rfl := Option.some.inj (hlock.symm.trans hj)
        show p.Kept d₀ _ i (Function.update s.places i _ i)
        rw [Function.update_self]
        exact ⟨hlog, d, hfollows, fun a d' hrest => hruns a d' (.more hstep hrest)⟩
      | inr a =>
        refine ⟨held_move h.held (.inl rfl) hmine, hfree, ?_⟩
        intro j hj
        obtain rfl := Option.some.inj (hlock.symm.trans hj)
        show p.Kept d₀ _ i (Function.update s.places i _ i)
        rw [Function.update_self]
        refine ⟨?_, hfollows.call i (hruns a data (.last hstep))⟩
        show s.log ++ _ = s.returned ++ _
        rw [hlog]
  | done op a =>
    simp only [hplace] at hmine
    have hlock : s.lock = some i := hmine.mp rfl
    have htaken := h.taken i hlock
    rw [hplace] at htaken
    exact ⟨held_move h.held (.inr ⟨.inr hlock, .inl rfl⟩) (free_iff _), fun _ => htaken,
      nofun⟩

/-- **Calls behind a lock are one after the other.** -/
theorem linear (d₀ : σ) (hrun : Reaches p.steps (start d₀) s) : p.Linear d₀ s := by
  refine hrun.invariant (p.Linear d₀) (linear_start d₀) ?_
  intro s a t h hstep
  cases a with
  | call i op =>
    obtain ⟨hidle, rfl⟩ := hstep
    exact h.call hidle
  | go i =>
    obtain rfl := hstep
    exact h.go i

end Critical

end Lib
end EngineKit
