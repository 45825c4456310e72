import EngineKit.Lib.Reach
import Mathlib.Data.List.Pairwise
import Mathlib.Logic.Function.Basic

/-!
# Updates by compare and exchange

`fetch_update` on one atomic cell, by any threads. A call loads the cell, asks its operation for the
next value, and tries to exchange the one it loaded for it; a failed exchange, for no reason too,
loads the cell anew. If the operation has no next value the call fails. Loads are relaxed: they may
see any value the cell has had.

The exchanges that succeed are updates made at once, one after the other (`Chain`), and a call that
succeeds has made one of them and answers the value it replaced. A call that fails was refused at a
value that the cell has had (`Looped`).
-/

set_option autoImplicit false

namespace EngineKit
namespace Lib

namespace CasLoop

variable {T σ Op : Type}

/-- Updates one after the other: each with the value that it replaced. -/
inductive Chain (f : Op → σ → Option σ) (c₀ : σ) : List (T × Op × σ) → σ → Prop where
  | start : Chain f c₀ [] c₀
  | update {log : List (T × Op × σ)} {c c' : σ} {op : Op} (before : Chain f c₀ log c) (thread : T)
      (hnext : f op c = some c') : Chain f c₀ (log ++ [(thread, op, c)]) c'

section Measure

variable {f : Op → σ → Option σ} {c₀ c : σ} {log : List (T × Op × σ)}
variable (measure : σ → Nat)

/-- If every update goes up, and to where it stops at least, then each begins where the ones before
    it have stopped. -/
theorem Chain.pairwise (stop : Op → σ → Nat) (h : Chain f c₀ log c)
    (hup : ∀ op c c', f op c = some c' → measure c ≤ measure c' ∧ stop op c ≤ measure c') :
    (log.Pairwise fun a b => stop a.2.1 a.2.2 ≤ measure b.2.2) ∧
      ∀ a ∈ log, stop a.2.1 a.2.2 ≤ measure c := by
  induction h with
  | start => exact ⟨List.Pairwise.nil, nofun⟩
  | @update log c c' op _ thread hnext ih =>
    obtain ⟨hpairwise, hstop⟩ := ih
    obtain ⟨hle, hnew⟩ := hup _ _ _ hnext
    refine ⟨List.pairwise_append.mpr ⟨hpairwise, List.pairwise_singleton _ _, ?_⟩, ?_⟩
    · intro a ha b hb
      obtain rfl := List.mem_singleton.mp hb
      exact hstop a ha
    · intro a ha
      rcases List.mem_append.mp ha with hold | hlast
      · exact Nat.le_trans (hstop a hold) hle
      · obtain rfl := List.mem_singleton.mp hlast
        exact hnew

/-- What the cell has held on the way is not above what it holds. -/
theorem Chain.le_of_prefix (h : Chain f c₀ log c)
    (hup : ∀ op c c', f op c = some c' → measure c ≤ measure c') {log' : List (T × Op × σ)} {c' : σ}
    (h' : Chain f c₀ log' c') (hbefore : log' <+: log) : measure c' ≤ measure c := by
  induction h with
  | start =>
    obtain rfl := List.prefix_nil.mp hbefore
    generalize hlog : ([] : List (T × Op × σ)) = log at h'
    cases h' with
    | start => exact Nat.le_refl _
    | update before thread hnext => simp at hlog
  | @update log c d op before thread hnext ih =>
    rcases List.prefix_concat_iff.mp hbefore with rfl | hshort
    · generalize hlog : log ++ [(thread, op, c)] = whole at h'
      cases h' with
      | start => simp at hlog
      | @update log₂ c₂ c₃ op₂ before₂ thread₂ hnext₂ =>
        obtain ⟨-, hlast⟩ := List.append_inj' hlog rfl
        obtain ⟨-, hop⟩ := Prod.mk.inj (List.singleton_inj.mp hlast)
        obtain ⟨rfl, rfl⟩ := Prod.mk.inj hop
        obtain rfl := Option.some.inj (hnext.symm.trans hnext₂)
        exact Nat.le_refl _
    · exact Nat.le_trans (ih hshort) (hup _ _ _ hnext)

end Measure

/-- The places of a call. -/
inductive Place (σ Op : Type) where
  | idle
  | loading (op : Op)
  | loaded (op : Op) (seen : σ)
  | done (op : Op) (answer : Except σ σ)

/-- `past` is what the cell has held, up to now. -/
structure System (T σ Op : Type) where
  cell : σ
  places : T → Place σ Op
  past : List σ
  log : List (T × Op × σ)
  returned : List (T × Op × Except σ σ)

def start (c₀ : σ) : System T σ Op := ⟨c₀, fun _ => .idle, [c₀], [], []⟩

/-- A call, a load with what it sees, an exchange with whether it fails for no reason, a return. -/
inductive CasAct (T σ Op : Type) where
  | call (i : T) (op : Op)
  | load (i : T) (seen : σ)
  | exchange (i : T) (spurious : Bool)
  | ret (i : T)

variable [DecidableEq T] [DecidableEq σ] (f : Op → σ → Option σ)

def System.move (s : System T σ Op) (i : T) (place : Place σ Op) : System T σ Op :=
  { s with places := Function.update s.places i place }

def next (s : System T σ Op) : CasAct T σ Op → Option (System T σ Op)
  | .call i op =>
    match s.places i with
    | .idle => some (s.move i (.loading op))
    | _ => none
  | .load i seen =>
    match s.places i with
    | .loading op => if seen ∈ s.past then some (s.move i (.loaded op seen)) else none
    | _ => none
  | .exchange i spurious =>
    match s.places i with
    | .loaded op seen =>
      match f op seen with
      | none => some (s.move i (.done op (.error seen)))
      | some c =>
        if s.cell = seen ∧ spurious = false then
          some ({ s with cell := c, past := c :: s.past, log := s.log ++ [(i, op, seen)] }.move i
            (.done op (.ok seen)))
        else some (s.move i (.loading op))
    | _ => none
  | .ret i =>
    match s.places i with
    | .done op answer =>
      some ({ s with returned := s.returned ++ [(i, op, answer)] }.move i .idle)
    | _ => none

def steps (s : System T σ Op) (a : CasAct T σ Op) (t : System T σ Op) : Prop := next f s a = some t

/-! ## Who made which update -/

/-- The updates of a thread. -/
def updates (i : T) (log : List (T × Op × σ)) : List (Op × σ) :=
  log.filterMap fun entry => if entry.1 = i then some entry.2 else none

/-- Those that a thread has been told of. -/
def told (i : T) (returned : List (T × Op × Except σ σ)) : List (Op × σ) :=
  returned.filterMap fun call =>
    match call.2.2 with
    | .ok old => if call.1 = i then some (call.2.1, old) else none
    | .error _ => none

/-- The one it is about to be told of. -/
def Place.pending : Place σ Op → List (Op × σ)
  | .idle | .loading _ | .loaded _ _ => []
  | .done op answer =>
    match answer with
    | .ok old => [(op, old)]
    | .error _ => []

/-- What is so of a call at a place. -/
def Place.Sound (past : List σ) : Place σ Op → Prop
  | .idle | .loading _ => True
  | .loaded _ seen => seen ∈ past
  | .done op answer =>
    match answer with
    | .ok _ => True
    | .error seen => f op seen = none ∧ seen ∈ past

structure Looped (c₀ : σ) (s : System T σ Op) : Prop where
  chain : Chain f c₀ s.log s.cell
  past : ∀ c ∈ s.past, ∃ log, log <+: s.log ∧ Chain f c₀ log c
  places : ∀ i, (s.places i).Sound f s.past
  refused : ∀ i op seen, (i, op, Except.error seen) ∈ s.returned → f op seen = none ∧ seen ∈ s.past
  updates : ∀ i, updates i s.log = told i s.returned ++ (s.places i).pending

variable {f} {c₀ : σ} {s t : System T σ Op}

omit [DecidableEq σ] in
theorem Place.Sound.mono {past past' : List σ} {place : Place σ Op} (h : place.Sound f past)
    (hsub : ∀ c ∈ past, c ∈ past') : place.Sound f past' := by
  cases place with
  | idle | loading op => trivial
  | loaded op seen => exact hsub seen h
  | done op answer =>
    cases answer with
    | ok old => trivial
    | error seen => exact ⟨h.1, hsub seen h.2⟩

omit [DecidableEq σ] in
theorem looped_start (c₀ : σ) : Looped f c₀ (start c₀ : System T σ Op) where
  chain := .start
  past c hc := by
    obtain rfl := List.mem_singleton.mp hc
    exact ⟨[], List.prefix_rfl, .start⟩
  places _ := trivial
  refused := nofun
  updates _ := rfl

omit [DecidableEq σ] in
/-- A thread goes to a place with the same update to be told of. -/
theorem Looped.move (h : Looped f c₀ s) {i : T} {place : Place σ Op}
    (hsound : place.Sound f s.past) (hpending : place.pending = (s.places i).pending) :
    Looped f c₀ (s.move i place) where
  chain := h.chain
  past := h.past
  places j := by
    show (Function.update s.places i place j).Sound f s.past
    by_cases hj : j = i
    · rw [hj, Function.update_self]
      exact hsound
    · rw [Function.update_of_ne hj]
      exact h.places j
  refused := h.refused
  updates j := by
    show CasLoop.updates j s.log =
      told j s.returned ++ (Function.update s.places i place j).pending
    rw [h.updates j]
    by_cases hj : j = i
    · rw [hj, Function.update_self, hpending]
    · rw [Function.update_of_ne hj]

omit [DecidableEq σ] in
/-- An exchange that succeeds. -/
theorem Looped.exchange (h : Looped f c₀ s) {i : T} {op : Op} {c : σ}
    (hplace : s.places i = .loaded op s.cell) (hnext : f op s.cell = some c) :
    Looped f c₀ ({ s with
      cell := c
      past := c :: s.past
      log := s.log ++ [(i, op, s.cell)] }.move i (.done op (.ok s.cell))) where
  chain := h.chain.update i hnext
  past c' hc' := by
    rcases List.mem_cons.mp hc' with rfl | hold
    · exact ⟨_, List.prefix_rfl, h.chain.update i hnext⟩
    · obtain ⟨log, hbefore, hchain⟩ := h.past c' hold
      exact ⟨log, hbefore.trans (List.prefix_append _ _), hchain⟩
  places j := by
    show (Function.update s.places i _ j).Sound f _
    by_cases hj : j = i
    · rw [hj, Function.update_self]
      trivial
    · rw [Function.update_of_ne hj]
      exact (h.places j).mono fun c hc => List.mem_cons_of_mem _ hc
  refused j op' seen hmem := by
    obtain ⟨hnone, hpast⟩ := h.refused j op' seen hmem
    exact ⟨hnone, List.mem_cons_of_mem _ hpast⟩
  updates j := by
    show CasLoop.updates j (s.log ++ [(i, op, s.cell)]) =
      told j s.returned ++ (Function.update s.places i _ j).pending
    have hold := h.updates j
    rw [CasLoop.updates, List.filterMap_append]
    rw [CasLoop.updates] at hold
    rw [hold]
    by_cases hj : j = i
    · subst hj
      rw [Function.update_self, hplace]
      simp [Place.pending]
    · rw [Function.update_of_ne hj]
      simp [Ne.symm hj]

omit [DecidableEq σ] in
theorem Looped.ret (h : Looped f c₀ s) {i : T} {op : Op} {answer : Except σ σ}
    (hplace : s.places i = .done op answer) :
    Looped f c₀ ({ s with returned := s.returned ++ [(i, op, answer)] }.move i .idle) where
  chain := h.chain
  past := h.past
  places j := by
    show (Function.update s.places i _ j).Sound f s.past
    by_cases hj : j = i
    · rw [hj, Function.update_self]
      trivial
    · rw [Function.update_of_ne hj]
      exact h.places j
  refused j op' seen hmem := by
    rcases List.mem_append.mp hmem with hold | hnew
    · exact h.refused j op' seen hold
    · obtain ⟨rfl, hrest⟩ := Prod.mk.inj (List.mem_singleton.mp hnew)
      obtain ⟨rfl, rfl⟩ := Prod.mk.inj hrest
      have hsound := h.places j
      rw [hplace] at hsound
      exact hsound
  updates j := by
    show CasLoop.updates j s.log =
      told j (s.returned ++ [(i, op, answer)]) ++ (Function.update s.places i _ j).pending
    rw [h.updates j, told, told, List.filterMap_append, List.append_assoc]
    congr 1
    by_cases hj : j = i
    · subst hj
      rw [Function.update_self, hplace]
      cases answer with
      | ok old => simp [Place.pending]
      | error seen => simp [Place.pending]
    · rw [Function.update_of_ne hj]
      cases answer with
      | ok old => simp [Ne.symm hj, Place.pending]
      | error seen => simp

theorem Looped.step {a : CasAct T σ Op} (h : Looped f c₀ s) (hstep : steps f s a t) :
    Looped f c₀ t := by
  unfold steps next at hstep
  cases a with
  | call i op =>
    simp only at hstep
    split at hstep
    · next hplace =>
      obtain rfl := Option.some.inj hstep
      refine h.move trivial ?_
      rw [hplace]
      rfl
    · cases hstep
  | load i seen =>
    simp only at hstep
    split at hstep
    · next op hplace =>
      obtain ⟨hseen, heq⟩ := Option.ite_none_right_eq_some.mp hstep
      obtain rfl := Option.some.inj heq
      refine h.move hseen ?_
      rw [hplace]
      rfl
    · cases hstep
  | exchange i spurious =>
    simp only at hstep
    split at hstep
    · next op seen hplace =>
      have hsound := h.places i
      rw [hplace] at hsound
      split at hstep
      · next hnone =>
        obtain rfl := Option.some.inj hstep
        refine h.move ⟨hnone, hsound⟩ ?_
        rw [hplace]
        rfl
      · next c hnext =>
        split at hstep
        · next hsame =>
          obtain rfl := Option.some.inj hstep
          obtain rfl := hsame.1
          exact h.exchange hplace hnext
        · obtain rfl := Option.some.inj hstep
          refine h.move trivial ?_
          rw [hplace]
          rfl
    · cases hstep
  | ret i =>
    simp only at hstep
    split at hstep
    · next op answer hplace =>
      obtain rfl := Option.some.inj hstep
      exact h.ret hplace
    · cases hstep

/-- **Updates by compare and exchange are one after the other.** -/
theorem looped (c₀ : σ) (hrun : Reaches (steps f) (start c₀) s) : Looped f c₀ s :=
  hrun.invariant (Looped f c₀) (looped_start c₀) fun _ _ _ h hstep => h.step hstep

/-! ## Two calls that have returned -/

omit [DecidableEq σ] in
/-- What a call has been told is one of the updates. -/
theorem Looped.mem_log (h : Looped f c₀ s) {i : T} {op : Op} {old : σ}
    (hmem : (i, op, Except.ok old) ∈ s.returned) : (i, op, old) ∈ s.log := by
  have htold : (op, old) ∈ told i s.returned :=
    List.mem_filterMap.mpr ⟨(i, op, .ok old), hmem, if_pos rfl⟩
  have hupdate : (op, old) ∈ CasLoop.updates i s.log := by
    rw [h.updates i]
    exact List.mem_append_left _ htold
  obtain ⟨⟨j, update⟩, hentry, hsome⟩ := List.mem_filterMap.mp hupdate
  obtain ⟨hthread, heq⟩ := Option.ite_none_right_eq_some.mp hsome
  obtain rfl : j = i := hthread
  obtain rfl : update = (op, old) := Option.some.inj heq
  exact hentry

omit [DecidableEq σ] in
/-- What any two updates are to each other, in either order, any two calls are that were told of
    updates: no two of them are told of the same. -/
theorem Looped.apart {R : Op × σ → Op × σ → Prop} [Std.Symm R] (h : Looped f c₀ s)
    (hlog : s.log.Pairwise fun a b => R a.2 b.2) :
    s.returned.Pairwise fun a b => ∀ old old', a.2.2 = .ok old → b.2.2 = .ok old' →
      R (a.2.1, old) (b.2.1, old') := by
  refine List.pairwise_iff_getElem.mpr ?_
  intro p q hp hq hlt old old' ha hb
  obtain ⟨⟨i, op, answer⟩, hi⟩ : ∃ call, s.returned[p] = call := ⟨_, rfl⟩
  obtain ⟨⟨j, op', answer'⟩, hj⟩ : ∃ call, s.returned[q] = call := ⟨_, rfl⟩
  rw [hi, hj]
  rw [hi] at ha
  rw [hj] at hb
  obtain rfl : answer = .ok old := ha
  obtain rfl : answer' = .ok old' := hb
  by_cases hthread : i = j
  · -- the updates of one thread are in the order in which it was told of them
    subst hthread
    have hupdates : (CasLoop.updates i s.log).Pairwise R := by
      refine List.pairwise_filterMap.mpr (hlog.imp ?_)
      intro a b hab c hc d hd
      obtain rfl := Option.some.inj (Option.ite_none_right_eq_some.mp hc).2
      obtain rfl := Option.some.inj (Option.ite_none_right_eq_some.mp hd).2
      exact hab
    rw [h.updates i] at hupdates
    have htold := List.pairwise_filterMap.mp (List.pairwise_append.mp hupdates).1
    have hpair := List.pairwise_iff_getElem.mp htold p q hp hq hlt
    rw [hi, hj] at hpair
    exact hpair _ (if_pos rfl) _ (if_pos rfl)
  · have hsymm : Std.Symm fun a b : T × Op × σ => R a.2 b.2 :=
      ⟨fun _ _ hab => Std.Symm.symm _ _ hab⟩
    have hfirst := h.mem_log (hi ▸ List.getElem_mem hp)
    have hsecond := h.mem_log (hj ▸ List.getElem_mem hq)
    exact hlog.forall hfirst hsecond fun heq => hthread (congrArg Prod.fst heq)

end CasLoop

end Lib
end EngineKit
