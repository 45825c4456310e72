import EngineKit.Threads.Barrier

/-!
# What the barrier promises

Nobody leaves a wait before everybody has begun it, and nobody is left asleep in it: as long as a
thread sleeps at a generation that has passed, the last arriver has yet to wake it
(`FutexBarrier.Wakeful`). The generation may wrap. A thread takes part in every round, so the
word it compares with is never more than one behind.

The last arriver asks for `i32::MAX` threads to be woken. There are at most as many others.
-/

set_option autoImplicit false

namespace EngineKit
namespace Threads

open Lib

namespace FutexBarrier

variable {T : Type} [Fintype T] {platform : Platform} {R : Nat} {i : T} {s t : FutexBarrier T}

/-- **The invariant.** -/
def Inv (s : FutexBarrier T) : Prop := ∃ R, s.Round R ∧ s.Wakeful R

theorem Inv.new {total : UInt32} (hpos : 1 ≤ total) (hT : Fintype.card T = total.toNat) :
    (FutexBarrier.new total : FutexBarrier T).Inv := by
  have hmax : max total 1 = total := by
    show (if total ≤ 1 then 1 else total) = total
    split
    · next hle => exact UInt32.le_antisymm hpos hle
    · rfl
  have hnone : Finset.univ.filter ((FutexBarrier.new total : FutexBarrier T).Arrived 0) = ∅ :=
    Finset.filter_eq_empty_iff.mpr fun j _ hj => absurd hj.1 (Nat.zero_ne_one)
  have hstage (j : T) : (FutexBarrier.new total : FutexBarrier T).stage j = .outside := rfl
  refine ⟨0, ⟨?_, ?_, ?_, ?_, ?_, .inl ⟨?_, ?_, ?_⟩⟩, ?_⟩
  · exact (congrArg UInt32.toNat hmax).trans hT.symm
  · intro j
    exact .inl ⟨rfl, .inl rfl⟩
  · intro a b ha
    rw [hstage] at ha
    cases ha
  · exact List.forall_mem_nil _
  · intro j hj
    rw [hstage] at hj
    cases hj
  · intro j
    rw [hstage]
    simp
  · rw [hnone]
    rfl
  · rw [hnone, hT, Finset.card_empty]
    exact UInt32.le_iff_toNat_le.mp hpos
  · intro j _ hsleeps
    cases hsleeps

/-! ## Waking -/

variable [DecidableEq T]

/-- The last arriver is not asleep, and as many are woken as are. -/
theorem sleepers_woken (hT : Fintype.card T ≤ 2 ^ 31) (hi : s.places i = .flipped)
    {woken : Finset T} (hsub : woken ⊆ s.sleepers)
    (hcard : woken.card = platform.wakes s.sleepers.card) : woken = s.sleepers := by
  refine Finset.eq_of_subset_of_card_le hsub ?_
  have hout : s.sleepers ⊆ Finset.univ.erase i := by
    intro j hj
    refine Finset.mem_erase.mpr ⟨?_, Finset.mem_univ j⟩
    rintro rfl
    have hsleeps := (Finset.mem_filter.mp hj).2
    rw [hi] at hsleeps
    cases hsleeps
  have hle := Finset.card_le_card hout
  rw [Finset.card_erase_of_mem (Finset.mem_univ i), Finset.card_univ] at hle
  rw [hcard]
  cases platform with
  | linux =>
    refine (Nat.min_eq_right ?_).ge
    omega
  | windows => exact Nat.le_refl _

/-- **Waking the others** leaves nobody asleep. -/
theorem Wakeful.wake (hT : Fintype.card T ≤ 2 ^ 31) (hi : s.places i = .flipped)
    {woken : Finset T} (hsub : woken ⊆ s.sleepers)
    (hcard : woken.card = platform.wakes s.sleepers.card) : (s.wake i woken).Wakeful R := by
  intro j _ hsleeps
  have hall := sleepers_woken hT hi hsub hcard
  have hnone : ((s.wake i woken).places j).isAsleep = false := by
    by_cases hj : j = i
    · simp [FutexBarrier.wake, hj, Place.isAsleep]
    · simp only [FutexBarrier.wake, Function.update_of_ne hj]
      by_cases hmem : j ∈ woken
      · rw [if_pos hmem]
        cases s.places j <;> rfl
      · rw [if_neg hmem]
        simpa [hall, sleepers] using hmem
  rw [hnone] at hsleeps
  cases hsleeps

/-! ## Runs -/

theorem Inv.advance (h : s.Inv) (hi : s.places i ≠ .flipped) : (s.advance i).Inv := by
  obtain ⟨R, hround, hwakeful⟩ := h
  cases hplace : s.places i with
  | outside =>
    refine ⟨R, hround.begin hplace, hwakeful.move hi (.arriving s.sense) rfl ?_ ?_⟩
    · simp only [FutexBarrier.advance, hplace, FutexBarrier.move]
    · intro j hj
      simp only [FutexBarrier.advance, hplace, Function.update_of_ne hj]
  | arriving mySense =>
    refine ⟨R, hround.arrive hplace, hwakeful.move hi (if s.count + 1 = s.total then .last
      else .checking mySense) ?_ ?_ fun j _ => ?_⟩
    · split <;> rfl
    · simp only [FutexBarrier.advance, hplace, FutexBarrier.move]
    · simp only [FutexBarrier.advance, hplace, FutexBarrier.move]
  | last =>
    refine ⟨R, hround.rewind hplace, hwakeful.move hi .rewound rfl ?_ fun j _ => ?_⟩
    · simp only [FutexBarrier.advance, hplace, FutexBarrier.move]
    · simp only [FutexBarrier.advance, hplace, FutexBarrier.move]
  | rewound =>
    -- whoever sleeps in the wait that has just ended, the last arriver is about to wake
    refine ⟨R + 1, hround.flip hplace, fun _ _ _ => ⟨i, ?_⟩⟩
    simp only [FutexBarrier.advance, hplace, FutexBarrier.move, Function.update_self]
  | flipped => exact absurd hplace hi
  | checking mySense =>
    refine ⟨R, hround.check hplace, hwakeful.move hi (if s.sense ≠ mySense then .outside
      else .parking mySense) ?_ ?_ fun j _ => ?_⟩
    · split <;> rfl
    · simp only [FutexBarrier.advance, hplace, FutexBarrier.move]
    · simp only [FutexBarrier.advance, hplace, FutexBarrier.move]
  | parking mySense =>
    have hstage : s.stage i = .waiting mySense := congrArg Place.stage hplace
    by_cases hsense : s.sense = mySense
    · have hrun : s.advance i = s.move i (.asleep mySense) := by
        simp only [FutexBarrier.advance, hplace, if_pos hsense]
      rw [hrun]
      refine ⟨R, hround.doze hstage rfl, hwakeful.kept ?_ ?_⟩
      · intro j hj hsleeps
        by_cases heq : j = i
        · -- at the present generation it is not on its way out
          subst heq
          rcases hround.thread j with ⟨-, hpast⟩ | ⟨hpresent, -⟩
          · rw [hstage] at hpast
            rcases hpast with hpast | hpast | ⟨old, hold, hnext⟩
            · cases hpast
            · cases hpast
            · obtain rfl := Stage.waiting.inj hold
              exact absurd (hsense.symm.trans hnext.symm) (ne_add_one mySense)
          · exact absurd (hpresent.symm.trans hj) (Nat.succ_ne_self R)
        · refine ⟨hj, ?_⟩
          simpa [FutexBarrier.move, Function.update_of_ne heq] using hsleeps
      · intro j hj
        have hne : j ≠ i := by
          rintro rfl
          exact hi hj
        simpa [FutexBarrier.move, Function.update_of_ne hne] using hj
    · have hrun : s.advance i = s.move i (.checking mySense) := by
        simp only [FutexBarrier.advance, hplace, if_neg hsense]
      rw [hrun]
      exact ⟨R, hround.doze hstage rfl, hwakeful.move hi (.checking mySense) rfl rfl fun j _ => rfl⟩
  | asleep mySense =>
    have hrun : s.advance i = s.move i (.checking mySense) := by
      simp only [FutexBarrier.advance, hplace]
    rw [hrun]
    exact ⟨R, hround.doze (congrArg Place.stage hplace) rfl,
      hwakeful.move hi (.checking mySense) rfl rfl fun j _ => rfl⟩

theorem Inv.run (hT : Fintype.card T ≤ 2 ^ 31) (h : s.Inv) (hr : Reaches (steps platform) s t) :
    t.Inv := by
  refine hr.invariant Inv h ?_
  intro u a v hinv hstep
  cases a with
  | advance i =>
    obtain ⟨hi, rfl⟩ := hstep
    exact hinv.advance hi
  | wake i woken =>
    obtain ⟨hi, ⟨hsub, hcard⟩, rfl⟩ := hstep
    obtain ⟨R, hround, -⟩ := hinv
    exact ⟨R, hround.wake hi woken, .wake hT hi hsub hcard⟩

/-- A wait whose last arriver has returned stays one. -/
theorem released_run (hr : Reaches (steps platform) s t) : s.released ⊆ t.released := by
  refine hr.invariant (fun u => s.released ⊆ u.released) (List.Subset.refl _) ?_
  intro u a v hsub hstep
  cases a with
  | advance i =>
    obtain ⟨-, rfl⟩ := hstep
    have hsame : (u.advance i).released = u.released := by
      unfold FutexBarrier.advance
      cases u.places i <;> rfl
    rw [hsame]
    exact hsub
  | wake i woken =>
    obtain ⟨-, -, rfl⟩ := hstep
    exact List.subset_append_of_subset_left _ hsub

/-- **The barrier's promise.** Nobody has returned from a wait that not everybody has begun; and
    once everybody has begun a wait and its last arriver has returned, nobody is asleep in it, then
    and from then on. -/
structure Sound (platform : Platform) (s : FutexBarrier T) : Prop where
  together (i j : T) (k : Nat) : k ≤ s.returned i → k ≤ s.begun j
  awake (k : Nat) : (∀ j, k ≤ s.begun j) → k ∈ s.released →
    ∀ t, Reaches (steps platform) s t → ∀ i, t.begun i = k → (t.places i).isAsleep = false

/-- **The barrier keeps its promise** in every run of `total` threads, on both platforms. -/
theorem barrier_sound {total : UInt32} (hpos : 1 ≤ total) (hle : total.toNat ≤ 2 ^ 31)
    (hT : Fintype.card T = total.toNat) (hr : Reaches (steps platform) (.new total) s) :
    s.Sound platform := by
  have hsmall : Fintype.card T ≤ 2 ^ 31 := hT.trans_le hle
  have hinv := (Inv.new hpos hT).run hsmall hr
  constructor
  · intro i j k hk
    obtain ⟨R, hround, -⟩ := hinv
    exact hk.trans ((hround.begun_cases i).2.trans (hround.begun_cases j).1)
  · intro k _ hreleased t hrun i hbegun
    obtain ⟨R, hround, hwakeful⟩ := hinv.run hsmall hrun
    have hmem := released_run hrun hreleased
    have hkR : k = R := Nat.le_antisymm (hround.released k hmem)
      (hbegun ▸ (hround.begun_cases i).1)
    subst hkR
    cases hsleeps : (t.places i).isAsleep with
    | false => rfl
    | true =>
      obtain ⟨j, hj⟩ := hwakeful i hbegun hsleeps
      exact absurd hmem (hround.unreleased j (congrArg Place.stage hj))

theorem reaches_advance {n : Nat} {i : T}
    (h : ∀ k < n, ((fun s : FutexBarrier T => s.advance i)^[k] s).places i ≠ .flipped) :
    Reaches (steps platform) s ((fun s => s.advance i)^[n] s) := by
  induction n with
  | zero => exact .refl
  | succ n ih =>
    rw [Function.iterate_succ_apply']
    exact (ih fun k hk => h k (Nat.lt_succ_of_lt hk)).tail
      ⟨.advance i, h n (Nat.lt_succ_self n), rfl⟩

/-- A whole round of two threads: the first goes to sleep, the second is the last and wakes it, and
    both have returned. -/
theorem barrier_sound_two : ∃ s : FutexBarrier (Fin 2),
    Reaches (steps .linux) (.new 2) s ∧ s.released = [1] ∧ (∀ i, s.returned i = 1) ∧
      s.Sound .linux := by
  let slept : FutexBarrier (Fin 2) := (fun s => s.advance 0)^[4] (.new 2)
  let flipped : FutexBarrier (Fin 2) := (fun s => s.advance 1)^[4] slept
  have hslept : Reaches (steps .linux) (.new 2) slept := reaches_advance (by decide)
  have hflipped : Reaches (steps .linux) slept flipped := reaches_advance (by decide)
  have hwoken : Reaches (steps .linux) flipped (flipped.wake 1 {0}) :=
    .single ⟨.wake 1 {0}, by decide, ⟨by decide, by decide⟩, rfl⟩
  have hround : Reaches (steps .linux) (.new 2) ((flipped.wake 1 {0}).advance 0) :=
    ((hslept.trans hflipped).trans hwoken).tail ⟨.advance 0, by decide, rfl⟩
  exact ⟨_, hround, by decide, by decide, barrier_sound (show 1 ≤ (2 : UInt32) by decide)
    (by decide) (Fintype.card_fin 2) hround⟩

end FutexBarrier

end Threads
end EngineKit
