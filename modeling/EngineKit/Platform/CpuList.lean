import EngineKit.Lib.Text
import Mathlib.Data.List.Destutter
import Mathlib.Data.List.Sort

/-!
# Lists of CPUs

`try_expand_cpulist` of `src/platform/linux/cpu.rs`. A list of CPUs is text, numbers and ranges of
numbers with commas between them; what comes out is ascending and without repeats
(`tryExpandCpulist_ok`).

An element without a dash that is no number is passed over. One with a dash is not: what is no
number in front of it counts as 0, and what is none behind it as the number in front. So a range
that is not well formed brings in CPUs that nothing in the text denotes, and the outcome is what
the text denotes exactly if there is no such range or one of the ranges is refused
(`tryExpandCpulist_iff`).
-/

set_option autoImplicit false

namespace EngineKit
namespace Platform

open Lib

inductive CpuTopologyError where
  | allocationFailed
  | rangeTooLarge
deriving DecidableEq

def MAX_CPUS_PER_LIST : Nat := 2 ^ 20

/-- Both ends of a range, from what stands in front of the dash and what stands behind. -/
def rangeEnds (lo hi : List Char) : Nat × Nat :=
  let lo := (parseUsize (trim lo)).getD 0
  let hi := (parseUsize (trim hi)).getD lo
  (lo, hi)

/-- The loop's turn for one part of the text. `room` says whether there is memory for so many more
    CPUs behind those there are. -/
def expandPart (room : Nat → Nat → Bool) (out : List Nat) (part : List Char) :
    Except CpuTopologyError (List Nat) :=
  let part := trim part
  if part.isEmpty then .ok out
  else
    match splitOnce '-' part with
    | some parts =>
      let lo := (rangeEnds parts.1 parts.2).1
      let hi := (rangeEnds parts.1 parts.2).2
      if hi < lo ∨ MAX_CPUS_PER_LIST ≤ hi - lo then .error .rangeTooLarge
      else if room out.length (hi - lo + 1) then .ok (out ++ List.range' lo (hi - lo + 1))
      else .error .allocationFailed
    | none =>
      match parseUsize part with
      | some cpu => if room out.length 1 then .ok (out ++ [cpu]) else .error .allocationFailed
      | none => .ok out

def tryExpandCpulist (room : Nat → Nat → Bool) (spec : List Char) :
    Except CpuTopologyError (List Nat) := do
  let out ← (spec.splitOn ',').foldlM (expandPart room) []
  return (out.insertionSort (· ≤ ·)).destutter (· ≠ ·)

/-- `expand_cpulist`, which panics on an error. -/
def expandCpulist (room : Nat → Nat → Bool) (spec : List Char) : Option (List Nat) :=
  match tryExpandCpulist room spec with
  | .ok cpus => some cpus
  | .error _ => none

example :
    tryExpandCpulist (fun _ _ => true) ['9', '-', '1', '1', ',', ' ', '0', '-', '2', ',', '1'] =
      .ok [0, 1, 2, 9, 10, 11] := by decide

/-! ## What a text denotes -/

/-- The parts of the text, without blanks at their ends. -/
def elements (spec : List Char) : List (List Char) := (spec.splitOn ',').map trim

/-- A number denotes a CPU, and two numbers with a dash between them all from the one to the
    other. -/
def Denotes (element : List Char) (cpu : Nat) : Prop :=
  parseUsize element = some cpu ∨
    ∃ front back lo hi, element = front ++ '-' :: back ∧ parseUsize (trim front) = some lo ∧
      parseUsize (trim back) = some hi ∧ lo ≤ cpu ∧ cpu ≤ hi

def WellFormed (element : List Char) : Prop := ∃ cpu, Denotes element cpu

theorem dash_not_mem_of_trim {text : List Char} {value : Nat}
    (h : parseUsize (trim text) = some value) : '-' ∉ text := by
  intro hmem
  exact not_mem_of_parseUsize (by decide) (by decide) h (mem_trim_of_mem hmem (by decide))

theorem denotes_of_splitOnce_none {element : List Char} (h : splitOnce '-' element = none)
    (cpu : Nat) : Denotes element cpu ↔ parseUsize element = some cpu := by
  constructor
  · intro hden
    rcases hden with hnumber | ⟨front, back, _, _, helement, _⟩
    · exact hnumber
    · exact absurd (by simp [helement]) (not_mem_of_splitOnce h)
  · intro hnumber
    exact Or.inl hnumber

/-- There is one dash to a range. -/
theorem denotes_of_splitOnce_some {element front back : List Char}
    (h : splitOnce '-' element = some (front, back)) (cpu : Nat) :
    Denotes element cpu ↔ ∃ lo hi, parseUsize (trim front) = some lo ∧
      parseUsize (trim back) = some hi ∧ lo ≤ cpu ∧ cpu ≤ hi := by
  constructor
  · intro hden
    rcases hden with hnumber | ⟨front', back', lo, hi, helement, hlo, hhi, hrange⟩
    · have hdash : '-' ∉ element := not_mem_of_parseUsize (by decide) (by decide) hnumber
      rw [splitOnce_of_not_mem hdash] at h
      exact absurd h (by simp)
    · rw [helement, splitOnce_append (dash_not_mem_of_trim hlo)] at h
      cases h
      exact ⟨lo, hi, hlo, hhi, hrange⟩
  · intro hrange
    obtain ⟨lo, hi, hlo, hhi, hrange⟩ := hrange
    exact Or.inr ⟨front, back, lo, hi, eq_of_splitOnce h, hlo, hhi, hrange⟩

/-! ## What it is read as -/

/-- What one element brings in. -/
def readAs (element : List Char) : List Nat :=
  match splitOnce '-' element with
  | some parts =>
    List.range' (rangeEnds parts.1 parts.2).1
      ((rangeEnds parts.1 parts.2).2 - (rangeEnds parts.1 parts.2).1 + 1)
  | none => (parseUsize element).toList

/-- A range up to a number that is smaller than the one it begins with, or too far beyond. Without
    a number in front it begins at 0. -/
def Refused (element : List Char) : Prop :=
  ∃ parts hi, splitOnce '-' element = some parts ∧ parseUsize (trim parts.2) = some hi ∧
    (hi < (parseUsize (trim parts.1)).getD 0 ∨
      MAX_CPUS_PER_LIST ≤ hi - (parseUsize (trim parts.1)).getD 0)

/-- A range with a number in front of the dash and one behind. -/
def TwoNumbers (element : List Char) : Prop :=
  ∀ parts, splitOnce '-' element = some parts →
    (parseUsize (trim parts.1)).isSome = true ∧ (parseUsize (trim parts.2)).isSome = true

theorem refused_iff {element : List Char} {parts : List Char × List Char}
    (hcut : splitOnce '-' element = some parts) :
    Refused element ↔ (rangeEnds parts.1 parts.2).2 < (rangeEnds parts.1 parts.2).1 ∨
      MAX_CPUS_PER_LIST ≤ (rangeEnds parts.1 parts.2).2 - (rangeEnds parts.1 parts.2).1 := by
  constructor
  · intro h
    obtain ⟨parts', hi, hcut', hhi, hends⟩ := h
    obtain rfl := Option.some.inj (hcut.symm.trans hcut')
    simp only [rangeEnds, hhi, Option.getD_some]
    exact hends
  · intro h
    simp only [rangeEnds] at h
    cases hhi : parseUsize (trim parts.2) with
    | none =>
      -- Nothing behind the dash: the range is the one number in front of it.
      rw [hhi, Option.getD_none, Nat.sub_self] at h
      exact absurd h (by simp [MAX_CPUS_PER_LIST])
    | some hi =>
      rw [hhi, Option.getD_some] at h
      exact ⟨parts, hi, hcut, hhi, h⟩

/-- **A part that is refused.** -/
theorem expandPart_of_refused {part : List Char} (h : Refused (trim part))
    (room : Nat → Nat → Bool) (out : List Nat) :
    expandPart room out part = .error .rangeTooLarge := by
  obtain ⟨parts, _, hcut, _⟩ := id h
  have hnonempty : (trim part).isEmpty = false := by
    rw [eq_of_splitOnce hcut]
    simp
  simp [expandPart, hnonempty, hcut, (refused_iff hcut).mp h]

/-- **A part that is not** adds what it is read as, if there is memory for it. -/
theorem expandPart_of_not_refused {part : List Char} (h : ¬ Refused (trim part))
    (room : Nat → Nat → Bool) (out : List Nat) :
    expandPart room out part =
      if readAs (trim part) = [] ∨ room out.length (readAs (trim part)).length = true then
        .ok (out ++ readAs (trim part))
      else .error .allocationFailed := by
  by_cases hempty : (trim part).isEmpty = true
  · -- Nothing between two commas.
    have hnil : readAs (trim part) = [] := by
      rw [List.isEmpty_iff.mp hempty]
      rfl
    simp [expandPart, hempty, hnil]
  cases hcut : splitOnce '-' (trim part) with
  | none =>
    cases hnumber : parseUsize (trim part) with
    | none => simp [expandPart, readAs, hempty, hcut, hnumber]
    | some cpu => simp [expandPart, readAs, hempty, hcut, hnumber]
  | some parts =>
    rw [refused_iff hcut] at h
    simp only [expandPart, readAs, hempty, hcut, if_neg h]
    simp

/-- **The whole text**, if it comes out. -/
theorem foldlM_expandPart_ok {room : Nat → Nat → Bool} {out cpus : List Nat}
    {parts : List (List Char)} (h : parts.foldlM (expandPart room) out = .ok cpus) :
    (∀ part ∈ parts, ¬ Refused (trim part)) ∧
      cpus = out ++ parts.flatMap fun part => readAs (trim part) := by
  induction parts generalizing out with
  | nil =>
    cases h
    simp
  | cons part parts ih =>
    rw [List.foldlM_cons] at h
    by_cases hrefused : Refused (trim part)
    · rw [expandPart_of_refused hrefused] at h
      cases h
    rw [expandPart_of_not_refused hrefused] at h
    by_cases hroom : readAs (trim part) = [] ∨ room out.length (readAs (trim part)).length = true
    · rw [if_pos hroom] at h
      obtain ⟨hrest, hcpus⟩ := ih h
      constructor
      · intro other hother
        rcases List.mem_cons.mp hother with rfl | hother
        · exact hrefused
        · exact hrest other hother
      · rw [hcpus, List.flatMap_cons, List.append_assoc]
    · rw [if_neg hroom] at h
      cases h

/-- With memory enough it does come out, unless a part is refused. -/
theorem foldlM_expandPart_roomy {parts : List (List Char)}
    (h : ∀ part ∈ parts, ¬ Refused (trim part)) (out : List Nat) :
    parts.foldlM (expandPart fun _ _ => true) out =
      .ok (out ++ parts.flatMap fun part => readAs (trim part)) := by
  induction parts generalizing out with
  | nil => simp [pure, Except.pure]
  | cons part parts ih =>
    obtain ⟨hpart, hparts⟩ := List.forall_mem_cons.mp h
    rw [List.foldlM_cons, expandPart_of_not_refused hpart, if_pos (Or.inr rfl)]
    show parts.foldlM _ (out ++ readAs (trim part)) = _
    rw [ih hparts, List.flatMap_cons, List.append_assoc]

/-! ## Ascending and without repeats -/

theorem sort_dedup (out : List Nat) :
    ((out.insertionSort (· ≤ ·)).destutter (· ≠ ·)).Pairwise (· < ·) ∧
      ∀ cpu, cpu ∈ (out.insertionSort (· ≤ ·)).destutter (· ≠ ·) ↔ cpu ∈ out := by
  have hsorted : (out.insertionSort (· ≤ ·)).Pairwise (· ≤ ·) :=
    List.pairwise_insertionSort (· ≤ ·) out
  rw [hsorted.destutter_eq_dedup]
  constructor
  · have hle := hsorted.sublist (List.dedup_sublist _)
    exact hle.imp₂ (fun a b hab hne => Nat.lt_of_le_of_ne hab hne) (List.nodup_dedup _)
  · intro cpu
    rw [List.mem_dedup, List.mem_insertionSort]

theorem tryExpandCpulist_ok {room : Nat → Nat → Bool} {spec : List Char} {cpus : List Nat}
    (h : tryExpandCpulist room spec = .ok cpus) :
    (∀ element ∈ elements spec, ¬ Refused element) ∧ cpus.Pairwise (· < ·) ∧
      ∀ cpu, cpu ∈ cpus ↔ ∃ element ∈ elements spec, cpu ∈ readAs element := by
  rw [tryExpandCpulist] at h
  cases hout : (spec.splitOn ',').foldlM (expandPart room) [] with
  | error error =>
    rw [hout] at h
    cases h
  | ok out =>
    rw [hout] at h
    cases h
    obtain ⟨hrefused, hreads⟩ := foldlM_expandPart_ok hout
    obtain ⟨hlt, hmem⟩ := sort_dedup out
    refine ⟨?_, hlt, ?_⟩
    · intro element helement
      obtain ⟨part, hpart, rfl⟩ := List.mem_map.mp helement
      exact hrefused part hpart
    · intro cpu
      rw [hmem, hreads, List.nil_append, List.mem_flatMap]
      simp [elements]

theorem tryExpandCpulist_roomy {spec : List Char}
    (h : ∀ element ∈ elements spec, ¬ Refused element) :
    ∃ cpus, tryExpandCpulist (fun _ _ => true) spec = .ok cpus := by
  have hparts : ∀ part ∈ spec.splitOn ',', ¬ Refused (trim part) := by
    intro part hpart
    exact h (trim part) (List.mem_map.mpr ⟨part, hpart, rfl⟩)
  rw [tryExpandCpulist, foldlM_expandPart_roomy hparts]
  exact ⟨_, rfl⟩

/-! ## What comes out is what it says -/

/-- What is well formed is read as what it denotes. -/
theorem mem_readAs_iff {element : List Char} (hrefused : ¬ Refused element)
    (h : TwoNumbers element) (cpu : Nat) : cpu ∈ readAs element ↔ Denotes element cpu := by
  cases hcut : splitOnce '-' element with
  | none =>
    rw [denotes_of_splitOnce_none hcut]
    simp [readAs, hcut, Option.mem_toList]
  | some parts =>
    obtain ⟨hfront, hback⟩ := h parts hcut
    obtain ⟨lo, hlo⟩ := Option.isSome_iff_exists.mp hfront
    obtain ⟨hi, hhi⟩ := Option.isSome_iff_exists.mp hback
    rw [refused_iff hcut] at hrefused
    simp only [rangeEnds, hlo, hhi, Option.getD_some] at hrefused
    rw [denotes_of_splitOnce_some hcut]
    simp only [readAs, hcut, rangeEnds, hlo, hhi, Option.getD_some, List.mem_range'_1]
    constructor
    · intro hmem
      exact ⟨lo, hi, rfl, rfl, hmem.1, by omega⟩
    · intro hden
      obtain ⟨lo', hi', heqlo, heqhi, hle, hge⟩ := hden
      cases heqlo
      cases heqhi
      omega

/-- A range that is not brings in a CPU, and denotes none. -/
theorem readAs_of_not_twoNumbers {element : List Char} (h : ¬ TwoNumbers element) :
    readAs element ≠ [] ∧ ¬ WellFormed element := by
  rw [TwoNumbers] at h
  push Not at h
  obtain ⟨parts, hcut, hnumbers⟩ := h
  constructor
  · simp [readAs, hcut]
  · intro hwell
    obtain ⟨cpu, hden⟩ := hwell
    obtain ⟨lo, hi, hlo, hhi, _⟩ := (denotes_of_splitOnce_some hcut cpu).mp hden
    exact hnumbers (by simp [hlo]) (by simp [hhi])

/-- If the text comes out, it comes out ascending and as what its elements denote, and one that
    is not well formed adds nothing on the way. -/
def Faithful (spec : List Char) : Prop :=
  ∀ room cpus, tryExpandCpulist room spec = .ok cpus →
    cpus.Pairwise (· < ·) ∧
      (∀ cpu, cpu ∈ cpus ↔ ∃ element ∈ elements spec, Denotes element cpu) ∧
        ∀ part ∈ spec.splitOn ',', ¬ WellFormed (trim part) →
          ∀ out next, expandPart room out part = .ok next → next = out

theorem faithful_of_twoNumbers {spec : List Char}
    (h : ∀ element ∈ elements spec, TwoNumbers element) : Faithful spec := by
  intro room cpus hcpus
  obtain ⟨hrefused, hlt, hmem⟩ := tryExpandCpulist_ok hcpus
  refine ⟨hlt, ?_, ?_⟩
  · intro cpu
    rw [hmem]
    refine exists_congr ?_
    intro element
    refine and_congr_right ?_
    intro helement
    exact mem_readAs_iff (hrefused element helement) (h element helement) cpu
  · intro part hpart hwell out next hnext
    have helement : trim part ∈ elements spec := List.mem_map.mpr ⟨part, hpart, rfl⟩
    have hnone : readAs (trim part) = [] := by
      refine List.eq_nil_iff_forall_not_mem.mpr ?_
      intro cpu hcpu
      exact hwell ⟨cpu, (mem_readAs_iff (hrefused _ helement) (h _ helement) cpu).mp hcpu⟩
    rw [expandPart_of_not_refused (hrefused _ helement), hnone, List.append_nil,
      if_pos (Or.inl rfl)] at hnext
    exact (Except.ok.inj hnext).symm

/-- **When a list of CPUs comes out as it reads.** One of its ranges is refused, or each of them
    has a number in front of the dash and one behind it. -/
theorem tryExpandCpulist_iff (spec : List Char) :
    Faithful spec ↔ (∃ element ∈ elements spec, Refused element) ∨
      ∀ element ∈ elements spec, TwoNumbers element := by
  constructor
  · intro hfaithful
    by_cases hrefused : ∃ element ∈ elements spec, Refused element
    · exact Or.inl hrefused
    push Not at hrefused
    refine Or.inr ?_
    intro element helement
    by_contra hnumbers
    obtain ⟨hsome, hwell⟩ := readAs_of_not_twoNumbers hnumbers
    -- With memory enough the list comes out, and what this range brought in had no right to.
    obtain ⟨cpus, hcpus⟩ := tryExpandCpulist_roomy hrefused
    obtain ⟨_, _, hnothing⟩ := hfaithful _ cpus hcpus
    obtain ⟨part, hpart, rfl⟩ := List.mem_map.mp helement
    refine hsome (hnothing part hpart hwell [] (readAs (trim part)) ?_)
    rw [expandPart_of_not_refused (hrefused _ helement), if_pos (Or.inr rfl), List.nil_append]
  · intro h
    rcases h with hrefused | hnumbers
    · obtain ⟨element, helement, hrefused⟩ := hrefused
      intro room cpus hcpus
      exact absurd hrefused ((tryExpandCpulist_ok hcpus).1 element helement)
    · exact faithful_of_twoNumbers hnumbers

/-- **A letter in front of the dash.** It counts as 0, and four CPUs come out that no element
    denotes. -/
theorem tryExpandCpulist_letter :
    tryExpandCpulist (fun _ _ => true) ['x', '-', '3'] = .ok [0, 1, 2, 3] ∧
      ∀ element ∈ elements ['x', '-', '3'], ∀ cpu, ¬ Denotes element cpu := by
  refine ⟨by decide, ?_⟩
  intro element helement cpu hden
  have hone : elements ['x', '-', '3'] = [['x', '-', '3']] := by decide
  rw [hone, List.mem_singleton] at helement
  subst helement
  have hcut : splitOnce '-' ['x', '-', '3'] = some (['x'], ['3']) := by decide
  obtain ⟨lo, _, hlo, _⟩ := (denotes_of_splitOnce_some hcut cpu).mp hden
  have hnone : parseUsize (trim ['x']) = none := by decide
  rw [hnone] at hlo
  cases hlo

end Platform
end EngineKit
