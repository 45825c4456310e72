import Mathlib.Data.Fintype.Card
import Mathlib.Data.Nat.ModEq
import Mathlib.Logic.Function.Basic
import EngineKit.Lib.Reach

/-!
# The barrier

`FutexBarrier::wait` and `WaitOnAddressBarrier::wait` are one algorithm over two atomic words. A
thread reads the generation (`sense`), counts itself in, and the one that completes the count
rewinds it, moves the generation on and wakes the others, which sleep for as long as the
generation is the one they read. The three last are separate steps, and between them a thread
that was fast may be in its next call and one that was slow not yet asleep.

A state is the two words, where each thread is, how many waits each has begun, and of which waits
the last arriver has returned. A step is one atomic operation of one thread. What the words mean
is told round by round (`Round`): in round `R` a thread has begun `R` waits and is on its way out
of the last of them, or it has begun `R + 1` and counts, or sleeps, at the present generation.
-/

set_option autoImplicit false

namespace EngineKit
namespace Threads

open Lib

/-- Where a thread is in `wait`: what it does next. -/
inductive Place where
  | outside
  /-- It has read the generation; it counts itself in. -/
  | arriving (mySense : UInt32)
  /-- It was the last: it rewinds the count. -/
  | last
  /-- It moves the generation on. -/
  | rewound
  /-- It wakes the others and returns. -/
  | flipped
  /-- It reads the generation again. -/
  | checking (mySense : UInt32)
  /-- It found the generation it read first: it goes to sleep. -/
  | parking (mySense : UInt32)
  | asleep (mySense : UInt32)
deriving DecidableEq

def Place.isAsleep : Place → Bool
  | .asleep _ => true
  | _ => false

/-- Its place once it is woken. -/
def Place.wake : Place → Place
  | .asleep mySense => .checking mySense
  | place => place

/-- The barrier of `count`, `sense` and `total`, and its threads. -/
structure FutexBarrier (T : Type) where
  count : UInt32
  sense : UInt32
  total : UInt32
  places : T → Place
  begun : T → Nat
  released : List Nat

/-- The two barriers differ in how they wake. -/
inductive Platform where
  | linux
  | windows

/-- How many of so many sleepers are woken: `futex_wake` is asked for `i32::MAX` of them,
    `WakeByAddressAll` wakes all. -/
def Platform.wakes : Platform → Nat → Nat
  | .linux, sleepers => min (2 ^ 31 - 1) sleepers
  | .windows, sleepers => sleepers

/-- A step of a thread: the one its place says, or, where that is to wake the others, the waking
    of these. -/
inductive BarrierAct (T : Type) where
  | advance (i : T)
  | wake (i : T) (woken : Finset T)

namespace FutexBarrier

variable {T : Type}

def new (total : UInt32) : FutexBarrier T where
  count := 0
  sense := 0
  total := max total 1
  places _ := .outside
  begun _ := 0
  released := []

/-- The waits a thread has returned from. -/
def returned (s : FutexBarrier T) (i : T) : Nat :=
  if s.places i = .outside then s.begun i else s.begun i - 1

def sleepers [Fintype T] (s : FutexBarrier T) : Finset T :=
  Finset.univ.filter fun i => (s.places i).isAsleep

variable [DecidableEq T]

def move (s : FutexBarrier T) (i : T) (place : Place) : FutexBarrier T :=
  { s with places := Function.update s.places i place }

def advance (s : FutexBarrier T) (i : T) : FutexBarrier T :=
  match s.places i with
  | .outside =>
    { s.move i (.arriving s.sense) with begun := Function.update s.begun i (s.begun i + 1) }
  | .arriving mySense =>
    let arrived := s.count + 1
    { s.move i (if arrived = s.total then .last else .checking mySense) with count := arrived }
  | .last => { s.move i .rewound with count := 0 }
  | .rewound => { s.move i .flipped with sense := s.sense + 1 }
  | .flipped => s
  | .checking mySense => s.move i (if s.sense ≠ mySense then .outside else .parking mySense)
  -- the word is compared and the thread put to sleep in one step
  | .parking mySense =>
    s.move i (if s.sense = mySense then .asleep mySense else .checking mySense)
  -- it wakes for no reason
  | .asleep mySense => s.move i (.checking mySense)

def wake (s : FutexBarrier T) (i : T) (woken : Finset T) : FutexBarrier T :=
  { s with
    places := Function.update (fun j => if j ∈ woken then (s.places j).wake else s.places j) i
      .outside
    released := s.released ++ [s.begun i] }

def steps [Fintype T] (platform : Platform) (s : FutexBarrier T) :
    BarrierAct T → FutexBarrier T → Prop
  | .advance i, t => s.places i ≠ .flipped ∧ t = s.advance i
  | .wake i woken, t =>
    s.places i = .flipped ∧
      (woken ⊆ s.sleepers ∧ woken.card = platform.wakes s.sleepers.card) ∧ t = s.wake i woken

/-! ## Rounds -/

/-- A place, but for how far the thread is with falling asleep. -/
inductive Stage where
  | outside
  | arriving (mySense : UInt32)
  | last
  | rewound
  | flipped
  | waiting (mySense : UInt32)
deriving DecidableEq

end FutexBarrier

def Place.stage : Place → FutexBarrier.Stage
  | .outside => .outside
  | .arriving mySense => .arriving mySense
  | .last => .last
  | .rewound => .rewound
  | .flipped => .flipped
  | .checking mySense | .parking mySense | .asleep mySense => .waiting mySense

theorem Place.stage_wake (place : Place) : place.wake.stage = place.stage := by
  cases place <;> rfl

namespace FutexBarrier

variable {T : Type} {R : Nat} {i j : T} {s t : FutexBarrier T}

def stage (s : FutexBarrier T) (i : T) : Stage := (s.places i).stage

/-- On its way out of the last wait that everyone has begun. -/
def Past (s : FutexBarrier T) (R : Nat) (i : T) : Prop :=
  s.begun i = R ∧
    (s.stage i = .outside ∨ s.stage i = .flipped ∨
      ∃ mySense, s.stage i = .waiting mySense ∧ mySense + 1 = s.sense)

/-- In the wait that not everyone has returned from. -/
def Present (s : FutexBarrier T) (R : Nat) (i : T) : Prop :=
  s.begun i = R + 1 ∧
    (s.stage i = .arriving s.sense ∨ s.stage i = .last ∨ s.stage i = .rewound ∨
      s.stage i = .waiting s.sense)

/-- Counted in, and not the last. -/
def Arrived (s : FutexBarrier T) (R : Nat) (i : T) : Prop :=
  s.begun i = R + 1 ∧ s.stage i = .waiting s.sense

instance (s : FutexBarrier T) (R : Nat) (i : T) : Decidable (s.Arrived R i) :=
  inferInstanceAs (Decidable (_ ∧ _))

/-- The last arriver, before it has moved the generation on. All others are counted in. -/
structure Leads (s : FutexBarrier T) (R : Nat) (i : T) : Prop where
  leader : s.stage i = .last ∨ (s.stage i = .rewound ∧ s.count = 0)
  others (j : T) : j ≠ i → s.Arrived R j

theorem Past.same (h : s.Past R j) (hstage : t.stage j = s.stage j)
    (hbegun : t.begun j = s.begun j) (hsense : t.sense = s.sense) : t.Past R j := by
  unfold Past at h ⊢
  rwa [hstage, hbegun, hsense]

theorem Present.same (h : s.Present R j) (hstage : t.stage j = s.stage j)
    (hbegun : t.begun j = s.begun j) (hsense : t.sense = s.sense) : t.Present R j := by
  unfold Present at h ⊢
  rwa [hstage, hbegun, hsense]

theorem arrived_congr (hstage : t.stage j = s.stage j) (hbegun : t.begun j = s.begun j)
    (hsense : t.sense = s.sense) : t.Arrived R j ↔ s.Arrived R j := by
  unfold Arrived
  rw [hstage, hbegun, hsense]

theorem stage_move_self [DecidableEq T] (s : FutexBarrier T) (i : T) (place : Place) :
    (s.move i place).stage i = place.stage := by simp [stage, move]

theorem stage_move_of_ne [DecidableEq T] (s : FutexBarrier T) (hj : j ≠ i) (place : Place) :
    (s.move i place).stage j = s.stage j := by simp [stage, move, hj]

theorem ne_add_one (x : UInt32) : x ≠ x + 1 := by
  intro h
  have hnat := congrArg UInt32.toNat h
  have hlt := x.toNat_lt
  rw [UInt32.toNat_add, UInt32.toNat_one] at hnat
  omega

/-- **Nobody is left asleep.** A thread asleep on its way out is one that the last arriver has yet
    to wake. -/
def Wakeful (s : FutexBarrier T) (R : Nat) : Prop :=
  ∀ i, s.begun i = R → (s.places i).isAsleep → ∃ j, s.places j = .flipped

theorem Wakeful.kept (h : s.Wakeful R)
    (hasleep : ∀ j, t.begun j = R → (t.places j).isAsleep → s.begun j = R ∧ (s.places j).isAsleep)
    (hflipped : ∀ j, s.places j = .flipped → t.places j = .flipped) : t.Wakeful R := by
  intro j hbegun hsleeps
  obtain ⟨hbegun', hsleeps'⟩ := hasleep j hbegun hsleeps
  obtain ⟨k, hk⟩ := h j hbegun' hsleeps'
  exact ⟨k, hflipped k hk⟩

/-- A step of one thread that neither puts it to sleep nor is the last arriver's waking. -/
theorem Wakeful.move [DecidableEq T] (h : s.Wakeful R) (hi : s.places i ≠ .flipped) (place : Place)
    (hplace : place.isAsleep = false) (hplaces : t.places = Function.update s.places i place)
    (hbegun : ∀ j, j ≠ i → t.begun j = s.begun j) : t.Wakeful R := by
  refine h.kept ?_ ?_
  · intro j hj hsleeps
    by_cases heq : j = i
    · rw [hplaces, heq, Function.update_self, hplace] at hsleeps
      cases hsleeps
    · rw [hplaces, Function.update_of_ne heq] at hsleeps
      exact ⟨(hbegun j heq).symm.trans hj, hsleeps⟩
  · intro j hj
    have hne : j ≠ i := by
      rintro rfl
      exact hi hj
    rw [hplaces, Function.update_of_ne hne]
    exact hj

variable [Fintype T]

/-- Not everyone is counted in. -/
structure Gathering (s : FutexBarrier T) (R : Nat) : Prop where
  noLeader (i : T) : s.stage i ≠ .last ∧ s.stage i ≠ .rewound
  count : s.count.toNat = (Finset.univ.filter (s.Arrived R)).card
  missing : (Finset.univ.filter (s.Arrived R)).card < Fintype.card T

/-- **Round `R`.** -/
structure Round (s : FutexBarrier T) (R : Nat) : Prop where
  total : s.total.toNat = Fintype.card T
  thread (i : T) : s.Past R i ∨ s.Present R i
  flipped (i j : T) : s.stage i = .flipped → s.stage j = .flipped → i = j
  released : ∀ k ∈ s.released, k ≤ R
  unreleased (i : T) : s.stage i = .flipped → R ∉ s.released
  phase : s.Gathering R ∨ ∃ i, s.Leads R i

/-! ## What a step does to a round -/

section Steps

/-- Everyone else of the round being where they were. -/
theorem Round.threads (h : s.Round R) (hstage : ∀ j, j ≠ i → t.stage j = s.stage j)
    (hbegun : ∀ j, j ≠ i → t.begun j = s.begun j) (hsense : t.sense = s.sense)
    (hi : t.Past R i ∨ t.Present R i) (j : T) : t.Past R j ∨ t.Present R j := by
  by_cases hj : j = i
  · rw [hj]
    exact hi
  · rcases h.thread j with hpast | hpresent
    · exact .inl (hpast.same (hstage j hj) (hbegun j hj) hsense)
    · exact .inr (hpresent.same (hstage j hj) (hbegun j hj) hsense)

theorem Round.begun_cases (h : s.Round R) (i : T) :
    R ≤ s.begun i ∧ s.returned i ≤ R := by
  unfold returned
  rcases h.thread i with ⟨hbegun, -⟩ | ⟨hbegun, hwhere⟩
  · rw [hbegun]
    refine ⟨Nat.le_refl R, ?_⟩
    split
    · exact Nat.le_refl R
    · exact Nat.sub_le R 1
  · have hinside : s.places i ≠ .outside := by
      intro hplace
      have hstage : s.stage i = .outside := congrArg Place.stage hplace
      simp [hstage] at hwhere
    rw [hbegun, if_neg hinside]
    exact ⟨Nat.le_succ R, Nat.le_refl R⟩

/-- Whoever leaves round `R`, or is yet to enter it, has begun `R` waits. -/
theorem Round.begun_out (h : s.Round R) (hi : s.stage i = .outside ∨ s.stage i = .flipped) :
    s.begun i = R := by
  rcases h.thread i with hpast | ⟨-, hwhere⟩
  · exact hpast.1
  · rcases hi with hi | hi
    · simp [hi] at hwhere
    · simp [hi] at hwhere

theorem Round.begun_last (h : s.Round R) (hi : s.stage i = .last ∨ s.stage i = .rewound) :
    s.begun i = R + 1 := by
  rcases h.thread i with ⟨-, hwhere⟩ | hpresent
  · rcases hi with hi | hi
    · simp [hi] at hwhere
    · simp [hi] at hwhere
  · exact hpresent.1

/-- While a thread is neither counted in nor the last, not everyone is counted in. -/
theorem Round.gathering (h : s.Round R) (hnot : ¬ s.Arrived R i)
    (hlast : s.stage i ≠ .last ∧ s.stage i ≠ .rewound) : s.Gathering R := by
  rcases h.phase with hgather | ⟨leader, hleads⟩
  · exact hgather
  · by_cases heq : i = leader
    · subst heq
      rcases hleads.leader with hl | ⟨hl, -⟩
      · exact absurd hl hlast.1
      · exact absurd hl hlast.2
    · exact absurd (hleads.others i heq) hnot

/-- A step that leaves who is counted in. -/
theorem Gathering.same (h : s.Gathering R)
    (hleader : ∀ j, t.stage j ≠ .last ∧ t.stage j ≠ .rewound) (hcount : t.count = s.count)
    (harrived : ∀ j, t.Arrived R j ↔ s.Arrived R j) : t.Gathering R := by
  have hset : Finset.univ.filter (t.Arrived R) = Finset.univ.filter (s.Arrived R) :=
    Finset.filter_congr fun j _ => harrived j
  refine ⟨hleader, ?_, ?_⟩
  · rw [hset, hcount]
    exact h.count
  · rw [hset]
    exact h.missing

/-- A step that leaves every thread at its stage. -/
theorem Round.same (h : s.Round R) (hstage : ∀ j, t.stage j = s.stage j)
    (hbegun : t.begun = s.begun) (hcount : t.count = s.count) (hsense : t.sense = s.sense)
    (htotal : t.total = s.total) (hreleased : t.released = s.released) : t.Round R := by
  have harrived (j : T) : t.Arrived R j ↔ s.Arrived R j :=
    arrived_congr (hstage j) (congrFun hbegun j) hsense
  refine ⟨htotal ▸ h.total, ?_, ?_, hreleased ▸ h.released, ?_, ?_⟩
  · intro j
    rcases h.thread j with hpast | hpresent
    · exact .inl (hpast.same (hstage j) (congrFun hbegun j) hsense)
    · exact .inr (hpresent.same (hstage j) (congrFun hbegun j) hsense)
  · intro i j hi hj
    exact h.flipped i j ((hstage i).symm.trans hi) ((hstage j).symm.trans hj)
  · intro i hi
    rw [hreleased]
    exact h.unreleased i ((hstage i).symm.trans hi)
  · rcases h.phase with hgather | ⟨leader, hleads⟩
    · refine .inl (hgather.same ?_ hcount harrived)
      intro j
      rw [hstage]
      exact hgather.noLeader j
    · refine .inr ⟨leader, ?_, ?_⟩
      · rw [hstage, hcount]
        exact hleads.leader
      · intro j hj
        exact (harrived j).mpr (hleads.others j hj)

/-- **A step of one thread within the round.** What is left to show is where the thread is now,
    which rounds are released and how far the counting is. -/
theorem Round.moved (h : s.Round R) (i : T) (hstage : ∀ j, j ≠ i → t.stage j = s.stage j)
    (hbegun : ∀ j, j ≠ i → t.begun j = s.begun j) (hsense : t.sense = s.sense)
    (htotal : t.total = s.total) (hi : t.Past R i ∨ t.Present R i)
    (hplain : t.stage i ≠ .flipped) (hreleased : ∀ k ∈ t.released, k ≤ R)
    (hunreleased : ∀ j, j ≠ i → s.stage j = .flipped → R ∉ t.released)
    (hphase : t.Gathering R ∨ ∃ i, t.Leads R i) : t.Round R := by
  have hother (j : T) (hj : t.stage j = .flipped) : j ≠ i ∧ s.stage j = .flipped := by
    have hne : j ≠ i := by
      rintro rfl
      exact hplain hj
    exact ⟨hne, (hstage j hne).symm.trans hj⟩
  refine ⟨htotal ▸ h.total, h.threads hstage hbegun hsense hi, ?_, hreleased, ?_, hphase⟩
  · intro a b ha hb
    exact h.flipped a b (hother a ha).2 (hother b hb).2
  · intro j hj
    exact hunreleased j (hother j hj).1 (hother j hj).2

/-- As long as one thread is among those who are neither counted in nor the last. -/
theorem Gathering.moved (h : s.Gathering R) (i : T) (hstage : ∀ j, j ≠ i → t.stage j = s.stage j)
    (hbegun : ∀ j, j ≠ i → t.begun j = s.begun j) (hsense : t.sense = s.sense)
    (hcount : t.count = s.count) (hwas : ¬ s.Arrived R i) (hnow : ¬ t.Arrived R i)
    (hplain : t.stage i ≠ .last ∧ t.stage i ≠ .rewound) : t.Gathering R := by
  refine h.same ?_ hcount ?_
  · intro j
    by_cases hj : j = i
    · rw [hj]
      exact hplain
    · rw [hstage j hj]
      exact h.noLeader j
  · intro j
    by_cases hj : j = i
    · rw [hj]
      exact iff_of_false hnow hwas
    · exact arrived_congr (hstage j hj) (hbegun j hj) hsense

/-- A thread that is about to count itself in: one more than are counted in now. -/
theorem Round.arriving (h : s.Round R) {mySense : UInt32} (hstage : s.stage i = .arriving mySense) :
    (s.begun i = R + 1 ∧ mySense = s.sense) ∧ s.Gathering R ∧
      i ∉ Finset.univ.filter (s.Arrived R) ∧
      (s.count + 1).toNat = (Finset.univ.filter (s.Arrived R)).card + 1 := by
  have hpresent : s.begun i = R + 1 ∧ mySense = s.sense := by
    rcases h.thread i with hpast | hpresent
    · exact absurd hpast.2 (by simp [hstage])
    · exact ⟨hpresent.1, by simpa [hstage] using hpresent.2⟩
  have hout : ¬ s.Arrived R i := by simp [Arrived, hstage]
  have hgather := h.gathering hout (by simp [hstage])
  refine ⟨hpresent, hgather, by simpa using hout, ?_⟩
  have hmissing := hgather.missing
  have htotal := s.total.toNat_lt
  have hsum := h.total
  rw [UInt32.toNat_add, UInt32.toNat_one, hgather.count]
  omega

variable [DecidableEq T]

/-- **A thread begins a wait.** -/
theorem Round.begin (h : s.Round R) (hi : s.places i = .outside) : (s.advance i).Round R := by
  have hstage : s.stage i = .outside := congrArg Place.stage hi
  have hrun : s.advance i = { s.move i (.arriving s.sense) with
      begun := Function.update s.begun i (s.begun i + 1) } := by simp only [advance, hi]
  have hpast := h.begun_out (.inl hstage)
  have hgather := h.gathering (i := i) (by simp [Arrived, hstage]) (by simp [hstage])
  rw [hrun]
  have hsame (j : T) (hj : j ≠ i) : stage { s.move i (.arriving s.sense) with
      begun := Function.update s.begun i (s.begun i + 1) } j = s.stage j := stage_move_of_ne s hj _
  have hnow : stage { s.move i (.arriving s.sense) with
      begun := Function.update s.begun i (s.begun i + 1) } i = .arriving s.sense :=
    stage_move_self s i _
  have hbegun (j : T) (hj : j ≠ i) : Function.update s.begun i (s.begun i + 1) j = s.begun j :=
    Function.update_of_ne hj _ _
  refine h.moved i hsame hbegun rfl rfl (.inr ⟨?_, .inl hnow⟩) (by simp [hnow]) h.released
    (fun j _ hj => h.unreleased j hj) (.inl ?_)
  · simp [hpast]
  · exact hgather.moved i hsame hbegun rfl rfl (by simp [Arrived, hstage])
      (by simp [Arrived, hnow]) (by simp [hnow])

/-- The count is complete: all the others are counted in. -/
theorem Round.arrive_last (h : s.Round R) {mySense : UInt32}
    (hstage : s.stage i = .arriving mySense) (hlast : s.count + 1 = s.total) :
    ({ s.move i .last with count := s.count + 1 } : FutexBarrier T).Round R := by
  obtain ⟨hpresent, -, hmem, hcount⟩ := h.arriving hstage
  have hall : Finset.univ.filter (s.Arrived R) = Finset.univ.erase i := by
    refine Finset.eq_of_subset_of_card_le ?_ ?_
    · intro j hj
      refine Finset.mem_erase.mpr ⟨?_, Finset.mem_univ j⟩
      rintro rfl
      exact hmem hj
    · rw [Finset.card_erase_of_mem (Finset.mem_univ i), Finset.card_univ, ← h.total, ← hlast,
        hcount]
      exact Nat.le_refl _
  have hsame (j : T) (hj : j ≠ i) :
      stage { s.move i .last with count := s.count + 1 } j = s.stage j := stage_move_of_ne s hj _
  have hnow : stage { s.move i .last with count := s.count + 1 } i = .last :=
    stage_move_self s i _
  refine h.moved i hsame (fun _ _ => rfl) rfl rfl (.inr ⟨hpresent.1, .inr (.inl hnow)⟩)
    (by simp [hnow]) h.released (fun j _ hj => h.unreleased j hj) (.inr ⟨i, .inl hnow, ?_⟩)
  intro j hj
  have harrived : j ∈ Finset.univ.filter (s.Arrived R) := by
    rw [hall]
    exact Finset.mem_erase.mpr ⟨hj, Finset.mem_univ j⟩
  exact (arrived_congr (hsame j hj) rfl rfl).mpr (Finset.mem_filter.mp harrived).2

/-- Someone is still missing: one more is counted in. -/
theorem Round.arrive_waiting (h : s.Round R) {mySense : UInt32}
    (hstage : s.stage i = .arriving mySense) (hlast : s.count + 1 ≠ s.total) :
    ({ s.move i (.checking mySense) with count := s.count + 1 } : FutexBarrier T).Round R := by
  obtain ⟨hpresent, hgather, hmem, hcount⟩ := h.arriving hstage
  have hsame (j : T) (hj : j ≠ i) :
      stage { s.move i (.checking mySense) with count := s.count + 1 } j = s.stage j :=
    stage_move_of_ne s hj _
  have hnow : stage { s.move i (.checking mySense) with count := s.count + 1 } i =
      .waiting s.sense := (stage_move_self s i _).trans (congrArg Stage.waiting hpresent.2)
  have hset : Finset.univ.filter (Arrived { s.move i (.checking mySense) with
      count := s.count + 1 } R) = insert i (Finset.univ.filter (s.Arrived R)) := by
    ext j
    rw [Finset.mem_insert, Finset.mem_filter, Finset.mem_filter]
    by_cases hj : j = i
    · subst hj
      simp only [Finset.mem_univ, true_and, true_or, iff_true]
      exact ⟨hpresent.1, hnow⟩
    · simp only [Finset.mem_univ, true_and, hj, false_or]
      exact arrived_congr (hsame j hj) rfl rfl
  refine h.moved i hsame (fun _ _ => rfl) rfl rfl
    (.inr ⟨hpresent.1, .inr (.inr (.inr hnow))⟩) (by simp [hnow]) h.released
    (fun j _ hj => h.unreleased j hj) (.inl ⟨?_, ?_, ?_⟩)
  · intro j
    by_cases hj : j = i
    · rw [hj, hnow]
      simp
    · rw [hsame j hj]
      exact hgather.noLeader j
  · rw [hset, Finset.card_insert_of_notMem hmem]
    exact hcount
  · rw [hset, Finset.card_insert_of_notMem hmem, ← hcount, ← h.total]
    refine Nat.lt_of_le_of_ne ?_ ?_
    · rw [hcount, h.total]
      exact hgather.missing
    · exact fun heq => hlast (UInt32.toNat_inj.mp heq)

/-- **A thread counts itself in**, and finds itself the last where all others are. -/
theorem Round.arrive (h : s.Round R) {mySense : UInt32} (hi : s.places i = .arriving mySense) :
    (s.advance i).Round R := by
  have hstage : s.stage i = .arriving mySense := congrArg Place.stage hi
  by_cases hlast : s.count + 1 = s.total
  · have hrun : s.advance i = { s.move i .last with count := s.count + 1 } := by
      simp only [advance, hi, if_pos hlast]
    rw [hrun]
    exact h.arrive_last hstage hlast
  · have hrun : s.advance i = { s.move i (.checking mySense) with count := s.count + 1 } := by
      simp only [advance, hi, if_neg hlast]
    rw [hrun]
    exact h.arrive_waiting hstage hlast

/-- A thread at one of the last arriver's places is the last arriver. -/
theorem Round.leads (h : s.Round R) (hi : s.stage i = .last ∨ s.stage i = .rewound) :
    s.Leads R i := by
  rcases h.phase with hgather | ⟨leader, hleads⟩
  · rcases hi with hi | hi
    · exact absurd hi (hgather.noLeader i).1
    · exact absurd hi (hgather.noLeader i).2
  · by_cases heq : i = leader
    · exact heq ▸ hleads
    · obtain ⟨-, hwaits⟩ := hleads.others i heq
      rw [hwaits] at hi
      rcases hi with hi | hi <;> cases hi

/-- **The last arriver rewinds the count.** -/
theorem Round.rewind (h : s.Round R) (hi : s.places i = .last) : (s.advance i).Round R := by
  have hstage : s.stage i = .last := congrArg Place.stage hi
  have hrun : s.advance i = { s.move i .rewound with count := 0 } := by simp only [advance, hi]
  have hleads := h.leads (.inl hstage)
  have hpresent := h.begun_last (.inl hstage)
  have hsame (j : T) (hj : j ≠ i) : stage { s.move i .rewound with count := 0 } j = s.stage j :=
    stage_move_of_ne s hj _
  have hnow : stage { s.move i .rewound with count := 0 } i = .rewound := stage_move_self s i _
  rw [hrun]
  refine h.moved i hsame (fun _ _ => rfl) rfl rfl (.inr ⟨hpresent, .inr (.inr (.inl hnow))⟩)
    (by simp [hnow]) h.released (fun j _ hj => h.unreleased j hj)
    (.inr ⟨i, .inr ⟨hnow, rfl⟩, ?_⟩)
  intro j hj
  exact (arrived_congr (hsame j hj) rfl rfl).mpr (hleads.others j hj)

/-- **The last arriver moves the generation on**, and with it the round: everyone has begun the
    wait, and all but the last arriver are in it, at the generation before. -/
theorem Round.flip (h : s.Round R) (hi : s.places i = .rewound) :
    (s.advance i).Round (R + 1) := by
  have hstage : s.stage i = .rewound := congrArg Place.stage hi
  have hrun : s.advance i = { s.move i .flipped with sense := s.sense + 1 } := by
    simp only [advance, hi]
  have hleads := h.leads (.inr hstage)
  have hzero : s.count = 0 := by
    rcases hleads.leader with hl | ⟨-, hzero⟩
    · rw [hstage] at hl
      cases hl
    · exact hzero
  have hpresent := h.begun_last (.inr hstage)
  have hbegun (j : T) : s.begun j = R + 1 := by
    by_cases hj : j = i
    · exact hj ▸ hpresent
    · exact (hleads.others j hj).1
  have hsame (j : T) (hj : j ≠ i) :
      stage { s.move i .flipped with sense := s.sense + 1 } j = .waiting s.sense :=
    (stage_move_of_ne s hj _).trans (hleads.others j hj).2
  have hnow : stage { s.move i .flipped with sense := s.sense + 1 } i = .flipped :=
    stage_move_self s i _
  rw [hrun]
  have hone (j : T) (hj : stage { s.move i .flipped with sense := s.sense + 1 } j = .flipped) :
      j = i := by
    by_contra hne
    rw [hsame j hne] at hj
    cases hj
  refine ⟨h.total, ?_, ?_, ?_, ?_, .inl ⟨?_, ?_, ?_⟩⟩
  · intro j
    refine .inl ⟨hbegun j, ?_⟩
    by_cases hj : j = i
    · subst hj
      exact .inr (.inl hnow)
    · exact .inr (.inr ⟨s.sense, hsame j hj, rfl⟩)
  · intro a b ha hb
    rw [hone a ha, hone b hb]
  · intro k hk
    exact Nat.le_succ_of_le (h.released k hk)
  · intro j _ hmem
    exact absurd (h.released _ hmem) (Nat.not_succ_le_self R)
  · intro j
    by_cases hj : j = i
    · rw [hj, hnow]
      simp
    · rw [hsame j hj]
      simp
  all_goals
    have hnone : Finset.univ.filter
        (Arrived { s.move i .flipped with sense := s.sense + 1 } (R + 1)) = ∅ := by
      refine Finset.filter_eq_empty_iff.mpr ?_
      rintro j - ⟨hj, -⟩
      exact absurd ((hbegun j).symm.trans hj) (Nat.succ_ne_self _).symm
    rw [hnone, Finset.card_empty]
  · exact congrArg UInt32.toNat hzero
  · exact Fintype.card_pos_iff.mpr ⟨i⟩

/-- **The last arriver wakes the others and returns.** -/
theorem Round.wake (h : s.Round R) (hi : s.places i = .flipped) (woken : Finset T) :
    (s.wake i woken).Round R := by
  have hstage : s.stage i = .flipped := congrArg Place.stage hi
  have hpast := h.begun_out (.inr hstage)
  have hgather := h.gathering (i := i) (by simp [Arrived, hstage]) (by simp [hstage])
  have hsame (j : T) (hj : j ≠ i) : (s.wake i woken).stage j = s.stage j := by
    simp only [stage, FutexBarrier.wake, Function.update_of_ne hj]
    split
    · exact Place.stage_wake _
    · rfl
  have hnow : (s.wake i woken).stage i = .outside := by simp [stage, FutexBarrier.wake, Place.stage]
  have hreleased : (s.wake i woken).released = s.released ++ [R] :=
    congrArg (fun k => s.released ++ [k]) hpast
  refine h.moved i hsame (fun _ _ => rfl) rfl rfl (.inl ⟨hpast, .inl hnow⟩) (by simp [hnow]) ?_ ?_
    (.inl (hgather.moved i hsame (fun _ _ => rfl) rfl rfl (by simp [Arrived, hstage])
      (by simp [Arrived, hnow]) (by simp [hnow])))
  · intro k hk
    rw [hreleased] at hk
    rcases List.mem_append.mp hk with hk | hk
    · exact h.released k hk
    · exact (List.mem_singleton.mp hk).le
  · intro j hj hflipped
    exact absurd (h.flipped j i hflipped hstage) hj

/-- **A waiting thread reads the generation again**, and returns if it is another. -/
theorem Round.check (h : s.Round R) {mySense : UInt32} (hi : s.places i = .checking mySense) :
    (s.advance i).Round R := by
  have hstage : s.stage i = .waiting mySense := congrArg Place.stage hi
  by_cases hmoved : s.sense = mySense
  · have hrun : s.advance i = s.move i (.parking mySense) := by
      simp only [advance, hi, if_neg (not_not.mpr hmoved)]
    rw [hrun]
    refine h.same ?_ rfl rfl rfl rfl rfl
    intro j
    by_cases hj : j = i
    · rw [hj, stage_move_self, hstage]
      rfl
    · exact stage_move_of_ne s hj _
  · have hrun : s.advance i = s.move i .outside := by simp only [advance, hi, if_pos hmoved]
    have hpast : s.begun i = R := by
      rcases h.thread i with hpast | hpresent
      · exact hpast.1
      · exact absurd hpresent.2 (by simpa [hstage] using Ne.symm hmoved)
    have hwas : ¬ s.Arrived R i := by simpa [Arrived, hstage] using fun _ => Ne.symm hmoved
    have hgather := h.gathering hwas (by simp [hstage])
    have hsame (j : T) (hj : j ≠ i) : (s.move i .outside).stage j = s.stage j :=
      stage_move_of_ne s hj _
    have hnow : (s.move i .outside).stage i = .outside := stage_move_self s i _
    rw [hrun]
    exact h.moved i hsame (fun _ _ => rfl) rfl rfl (.inl ⟨hpast, .inl hnow⟩) (by simp [hnow])
      h.released (fun j _ hj => h.unreleased j hj)
      (.inl (hgather.moved i hsame (fun _ _ => rfl) rfl rfl hwas (by simp [Arrived, hnow])
        (by simp [hnow])))

/-- Falling asleep and waking are no steps of the round. -/
theorem Round.doze (h : s.Round R) {mySense : UInt32} (hi : s.stage i = .waiting mySense)
    {place : Place} (hplace : place.stage = .waiting mySense) : (s.move i place).Round R := by
  refine h.same ?_ rfl rfl rfl rfl rfl
  intro j
  by_cases hj : j = i
  · rw [hj, stage_move_self, hi, hplace]
  · exact stage_move_of_ne s hj _

end Steps

end FutexBarrier

end Threads
end EngineKit
