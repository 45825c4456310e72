import Mathlib.Data.Nat.ModEq

/-!
# Voices in time

`AudioSubsystem` of `src/subsystems/audio.rs`. A tick moves the phase of every active voice by its
step times the length of the tick. The phase wraps at the top of its type, but the product in front
of it saturates there: a step too large for the type is the largest number of the type, which to a
phase that wraps is one back.

So time is additive for as long as no voice turns once around, and not beyond
(`advance_split_iff`): two ticks add what each of them turns, one tick of their length turns less.
-/

set_option autoImplicit false

namespace EngineKit
namespace Audio

/-- `u64::saturating_mul` -/
def saturatingMul (a b : UInt64) : UInt64 := UInt64.ofNat (min (a.toNat * b.toNat) (2 ^ 64 - 1))

structure Voice where
  phase : UInt64
  phaseStep : UInt64
  gainMilli : UInt16
  active : Bool
deriving DecidableEq

inductive AudioError where
  | allocationFailed
deriving DecidableEq

/-- The voice's turn in `advance`. -/
def Voice.advance (voice : Voice) (dtNs : UInt64) : Voice :=
  if voice.active then
    { voice with phase := voice.phase + saturatingMul voice.phaseStep dtNs }
  else voice

/-- `voices` within the room that was reserved for them. -/
structure AudioSubsystem where
  voices : List Voice
  capacity : Nat
  reserved : voices.length ≤ capacity

namespace AudioSubsystem

/-- `room` says whether there is memory for that many voices. -/
def tryWithCapacity (room : Bool) (capacity : Nat) : Except AudioError AudioSubsystem :=
  if room then .ok ⟨[], capacity, Nat.zero_le capacity⟩ else .error .allocationFailed

def addVoice (s : AudioSubsystem) (phaseStep : UInt64) (gainMilli : UInt16) :
    Option Nat × AudioSubsystem :=
  if h : s.voices.length = s.capacity then (none, s)
  else
    (some s.voices.length,
      { s with
        voices := s.voices ++ [⟨0, phaseStep, gainMilli, true⟩]
        reserved := by
          rw [List.length_append]
          exact Nat.lt_of_le_of_ne s.reserved h })

def stopVoice (s : AudioSubsystem) (index : Nat) : Bool × AudioSubsystem :=
  (decide (index < s.voices.length),
    { s with
      voices := s.voices.modify index fun voice => { voice with active := false }
      reserved := by
        rw [List.length_modify]
        exact s.reserved })

def advance (s : AudioSubsystem) (dtNs : UInt64) : AudioSubsystem :=
  { s with
    voices := s.voices.map fun voice => voice.advance dtNs
    reserved := by
      rw [List.length_map]
      exact s.reserved }

def tick (s : AudioSubsystem) (dtNs : UInt64) : AudioSubsystem := s.advance dtNs

end AudioSubsystem

/-! ## The product -/

theorem toNat_saturatingMul (a b : UInt64) :
    (saturatingMul a b).toNat = min (a.toNat * b.toNat) (2 ^ 64 - 1) := by
  have hlt : min (a.toNat * b.toNat) (2 ^ 64 - 1) < 2 ^ 64 := by omega
  exact UInt64.toNat_ofNat_of_lt' hlt

@[simp] theorem saturatingMul_zero (a : UInt64) : saturatingMul a 0 = 0 := by
  simp [saturatingMul]

/-- Two numbers that saturate add up modulo `2 ^ 64` only if one is zero or the sum does not
    saturate: beyond that the saturated sum is the largest number, and the two miss it. -/
theorem min_add_mod_iff (p q : Nat) :
    (min p (2 ^ 64 - 1) + min q (2 ^ 64 - 1)) % 2 ^ 64 = min (p + q) (2 ^ 64 - 1) ↔
      p = 0 ∨ q = 0 ∨ p + q < 2 ^ 64 := by
  omega

theorem saturatingMul_add_iff (step : UInt64) {a b : UInt64} (h : a.toNat + b.toNat < 2 ^ 64) :
    saturatingMul step a + saturatingMul step b = saturatingMul step (a + b) ↔
      a = 0 ∨ b = 0 ∨ step.toNat * (a.toNat + b.toNat) < 2 ^ 64 := by
  have hsum : (a + b).toNat = a.toNat + b.toNat := by
    rw [UInt64.toNat_add, Nat.mod_eq_of_lt h]
  have hzero (x : UInt64) : x.toNat = 0 ↔ x = 0 := UInt64.toNat_inj (b := 0)
  rw [← UInt64.toNat_inj, UInt64.toNat_add, toNat_saturatingMul, toNat_saturatingMul,
    toNat_saturatingMul, hsum, Nat.mul_add, min_add_mod_iff, Nat.mul_eq_zero, Nat.mul_eq_zero,
    hzero a, hzero b, hzero step]
  constructor
  · intro hsplit
    rcases hsplit with (hstep | ha) | (hstep | hb) | hlt
    · simp [hstep]
    · exact Or.inl ha
    · simp [hstep]
    · exact Or.inr (Or.inl hb)
    · exact Or.inr (Or.inr hlt)
  · intro hsplit
    rcases hsplit with ha | hb | hlt
    · exact Or.inl (Or.inr ha)
    · exact Or.inr (Or.inl (Or.inr hb))
    · exact Or.inr (Or.inr hlt)

/-! ## One voice -/

namespace Voice

@[simp] theorem active_advance (voice : Voice) (dtNs : UInt64) :
    (voice.advance dtNs).active = voice.active := by
  unfold advance
  split
  · rfl
  · rfl

@[simp] theorem phaseStep_advance (voice : Voice) (dtNs : UInt64) :
    (voice.advance dtNs).phaseStep = voice.phaseStep := by
  unfold advance
  split
  · rfl
  · rfl

theorem advance_of_not_active {voice : Voice} (h : voice.active = false) (dtNs : UInt64) :
    voice.advance dtNs = voice := by
  simp [advance, h]

@[simp] theorem advance_zero (voice : Voice) : voice.advance 0 = voice := by
  simp [advance]

/-- **When two ticks are one**, of a voice that plays. -/
theorem advance_advance_iff (voice : Voice) {a b : UInt64} (h : a.toNat + b.toNat < 2 ^ 64) :
    (voice.advance a).advance b = voice.advance (a + b) ↔
      (voice.active = true →
        a = 0 ∨ b = 0 ∨ voice.phaseStep.toNat * (a.toNat + b.toNat) < 2 ^ 64) := by
  cases hactive : voice.active with
  | false => simp [advance, hactive]
  | true =>
    rw [← saturatingMul_add_iff voice.phaseStep h]
    simp [advance, hactive, UInt64.add_assoc]

/-- **Any number of ticks are one** for a voice that does not turn around in their time. -/
theorem foldl_advance {voice : Voice} {t : UInt64} {steps : List UInt64}
    (hsum : (steps.map UInt64.toNat).sum = t.toNat)
    (h : voice.active = true → voice.phaseStep.toNat * t.toNat < 2 ^ 64) :
    steps.foldl advance voice = voice.advance t := by
  induction steps generalizing voice t with
  | nil =>
    have hzero : t = 0 := UInt64.toNat_inj.mp hsum.symm
    rw [hzero, advance_zero, List.foldl_nil]
  | cons dtNs steps ih =>
    rw [List.map_cons, List.sum_cons] at hsum
    -- The first step and one for all the others, which the induction makes of them.
    have hle : dtNs ≤ t := by
      rw [UInt64.le_iff_toNat_le]
      omega
    have hrest : (t - dtNs).toNat = t.toNat - dtNs.toNat := UInt64.toNat_sub_of_le _ _ hle
    have hadd : dtNs.toNat + (t - dtNs).toNat = t.toNat := by omega
    have hlt : dtNs.toNat + (t - dtNs).toNat < 2 ^ 64 := hadd ▸ t.toNat_lt
    have hnext : (voice.advance dtNs).active = true →
        (voice.advance dtNs).phaseStep.toNat * (t - dtNs).toNat < 2 ^ 64 := by
      rw [active_advance, phaseStep_advance, hrest]
      intro hactive
      exact Nat.lt_of_le_of_lt (Nat.mul_le_mul_left _ (Nat.sub_le _ _)) (h hactive)
    have hone : (voice.advance dtNs).advance (t - dtNs) = voice.advance (dtNs + (t - dtNs)) := by
      refine (advance_advance_iff voice hlt).mpr ?_
      intro hactive
      rw [hadd]
      exact Or.inr (Or.inr (h hactive))
    rw [List.foldl_cons, ih (by omega) hnext, hone, UInt64.add_comm, UInt64.sub_add_cancel]

end Voice

/-! ## All voices -/

namespace AudioSubsystem

theorem voices_foldl_advance (s : AudioSubsystem) (steps : List UInt64) :
    (steps.foldl advance s).voices =
      s.voices.map fun voice => steps.foldl Voice.advance voice := by
  induction steps generalizing s with
  | nil => exact (List.map_id s.voices).symm
  | cons dtNs steps ih =>
    rw [List.foldl_cons, ih]
    exact List.map_map

/-- **A stopped voice stands still**, however long. -/
theorem getElem?_stopVoice_foldl {s : AudioSubsystem} {index : Nat} {voice : Voice}
    (h : s.voices[index]? = some voice) (steps : List UInt64) :
    (steps.foldl advance (s.stopVoice index).2).voices[index]? =
      some { voice with active := false } := by
  have hstopped : steps.foldl Voice.advance { voice with active := false } =
      { voice with active := false } := by
    induction steps with
    | nil => rfl
    | cons dtNs steps ih => rw [List.foldl_cons, Voice.advance_of_not_active rfl, ih]
  have hindex : (s.stopVoice index).2.voices[index]? = some { voice with active := false } := by
    show (s.voices.modify index _)[index]? = _
    rw [List.getElem?_modify, h]
    simp
  rw [voices_foldl_advance, List.getElem?_map, hindex, Option.map_some, hstopped]

/-- No voice that plays turns around in the time. -/
def WithinTurn (s : AudioSubsystem) (t : Nat) : Prop :=
  ∀ voice ∈ s.voices, voice.active = true → voice.phaseStep.toNat * t < 2 ^ 64

instance (s : AudioSubsystem) (t : Nat) : Decidable (s.WithinTurn t) :=
  inferInstanceAs (Decidable (∀ voice ∈ s.voices, _ → _))

theorem voices_advance_advance_iff (s : AudioSubsystem) {a b : UInt64}
    (h : a.toNat + b.toNat < 2 ^ 64) :
    ((s.advance a).advance b).voices = (s.advance (a + b)).voices ↔
      a = 0 ∨ b = 0 ∨ s.WithinTurn (a.toNat + b.toNat) := by
  have hmap : ((s.advance a).advance b).voices =
      s.voices.map fun voice => (voice.advance a).advance b := List.map_map
  rw [hmap]
  show List.map _ s.voices = List.map _ s.voices ↔ _
  rw [List.map_inj_left]
  constructor
  · intro hall
    by_cases ha : a = 0
    · exact Or.inl ha
    by_cases hb : b = 0
    · exact Or.inr (Or.inl hb)
    refine Or.inr (Or.inr ?_)
    intro voice hvoice hactive
    exact (((voice.advance_advance_iff h).mp (hall voice hvoice) hactive).resolve_left
      ha).resolve_left hb
  · intro hsplit voice hvoice
    refine (voice.advance_advance_iff h).mpr ?_
    intro hactive
    rcases hsplit with ha | hb | hturn
    · exact Or.inl ha
    · exact Or.inr (Or.inl hb)
    · exact Or.inr (Or.inr (hturn voice hvoice hactive))

/-- A span of more than one nanosecond has a first one. -/
theorem withinTurn_of_splits {s : AudioSubsystem} {t : UInt64}
    (h : ∀ steps : List UInt64, (steps.map UInt64.toNat).sum = t.toNat →
      (steps.foldl advance s).voices = (s.advance t).voices) : s.WithinTurn t.toNat := by
  intro voice hvoice hactive
  by_cases hshort : t.toNat ≤ 1
  · have hone : voice.phaseStep.toNat * t.toNat ≤ voice.phaseStep.toNat * 1 :=
      Nat.mul_le_mul_left _ hshort
    have hlt := voice.phaseStep.toNat_lt
    omega
  · -- Split off one nanosecond: neither part is empty, so the two are one only within a turn.
    have hone : (1 : UInt64).toNat = 1 := rfl
    have hle : (1 : UInt64) ≤ t := by
      rw [UInt64.le_iff_toNat_le]
      omega
    have hrest : (t - 1).toNat = t.toNat - 1 := UInt64.toNat_sub_of_le _ _ hle
    have hadd : (1 : UInt64).toNat + (t - 1).toNat = t.toNat := by omega
    have hsplit := h [1, t - 1] (by simpa using hadd)
    have ht : t = 1 + (t - 1) := by rw [UInt64.add_comm, UInt64.sub_add_cancel]
    nth_rewrite 2 [ht] at hsplit
    have hturn := (s.voices_advance_advance_iff (hadd ▸ t.toNat_lt)).mp hsplit
    rw [hadd] at hturn
    have hnonzero : t - 1 ≠ 0 := by
      intro hzero
      rw [hzero] at hrest
      have : (0 : UInt64).toNat = 0 := rfl
      omega
    exact (hturn.resolve_left (by decide)).resolve_left hnonzero voice hvoice hactive

/-- **When audio time is additive.** Two ticks are one exactly if one of them is empty or no voice
    that plays turns around in their time, and a span can be split any way exactly if none turns
    around in the span. -/
theorem advance_split_iff (s : AudioSubsystem) :
    (∀ a b : UInt64, a.toNat + b.toNat < 2 ^ 64 →
      (((s.advance a).advance b).voices = (s.advance (a + b)).voices ↔
        a = 0 ∨ b = 0 ∨ s.WithinTurn (a.toNat + b.toNat))) ∧
      ∀ t : UInt64,
        (∀ steps : List UInt64, (steps.map UInt64.toNat).sum = t.toNat →
          (steps.foldl advance s).voices = (s.advance t).voices) ↔
          s.WithinTurn t.toNat := by
  constructor
  · intro a b h
    exact s.voices_advance_advance_iff h
  · intro t
    constructor
    · intro h
      exact withinTurn_of_splits h
    · intro hturn steps hsum
      rw [voices_foldl_advance]
      refine List.map_congr_left ?_
      intro voice hvoice
      exact Voice.foldl_advance hsum (hturn voice hvoice)

/-- One voice, half a turn a nanosecond. -/
def halfTurn : AudioSubsystem := ⟨[⟨0, 0x8000000000000000, 1000, true⟩], 64, by decide⟩

/-- **Two ticks of one nanosecond, or one of two.** The first are a turn and end where they began,
    the other is one short of it. -/
theorem advance_halfTurn :
    ((halfTurn.advance 1).advance 1).voices = [⟨0, 0x8000000000000000, 1000, true⟩] ∧
      (halfTurn.advance (1 + 1)).voices =
        [⟨0xFFFFFFFFFFFFFFFF, 0x8000000000000000, 1000, true⟩] := by
  decide +kernel

end AudioSubsystem

end Audio
end EngineKit
