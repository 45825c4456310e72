import EngineKit.Lib.LittleEndian
import Mathlib.Data.List.DropRight

/-!
# Text and the numbers in it

What a program that reads a line of text uses of its standard library: the cut at the first
separator, the blanks at the ends, and the number that a run of digits spells. The names are
Rust's.

A separator that is neither blank nor part of a number stands between two numbers in one way only
(`splitOnce_append`, `not_mem_of_parseUsize`).
-/

set_option autoImplicit false

namespace EngineKit
namespace Lib

/-! ## Cutting -/

section Cut

variable {χ : Type} [DecidableEq χ]

/-- What stands in front of the first separator and what stands behind it. -/
def splitOnce (sep : χ) : List χ → Option (List χ × List χ)
  | [] => none
  | c :: text =>
    if c = sep then some ([], text)
    else (splitOnce sep text).map fun parts => (c :: parts.1, parts.2)

theorem splitOnce_of_not_mem {sep : χ} {text : List χ} (h : sep ∉ text) :
    splitOnce sep text = none := by
  induction text with
  | nil => rfl
  | cons c text ih =>
    have hc : c ≠ sep := fun heq => h (heq ▸ List.mem_cons_self)
    rw [splitOnce, if_neg hc, ih fun hmem => h (List.mem_cons_of_mem c hmem)]
    rfl

theorem splitOnce_append {sep : χ} {before : List χ} (h : sep ∉ before) (after : List χ) :
    splitOnce sep (before ++ sep :: after) = some (before, after) := by
  induction before with
  | nil => exact if_pos rfl
  | cons c before ih =>
    have hc : c ≠ sep := fun heq => h (heq ▸ List.mem_cons_self)
    rw [List.cons_append, splitOnce, if_neg hc, ih fun hmem => h (List.mem_cons_of_mem c hmem)]
    rfl

theorem eq_of_splitOnce {sep : χ} {text before after : List χ}
    (h : splitOnce sep text = some (before, after)) : text = before ++ sep :: after := by
  induction text generalizing before with
  | nil => exact absurd h (by simp [splitOnce])
  | cons c text ih =>
    by_cases hc : c = sep
    · rw [splitOnce, if_pos hc] at h
      cases h
      rw [hc, List.nil_append]
    · rw [splitOnce, if_neg hc, Option.map_eq_some_iff] at h
      obtain ⟨⟨front, back⟩, hcut, heq⟩ := h
      cases heq
      rw [ih hcut, List.cons_append]

theorem not_mem_of_splitOnce {sep : χ} {text : List χ} (h : splitOnce sep text = none) :
    sep ∉ text := by
  intro hmem
  obtain ⟨before, after, hnew, htext⟩ := List.eq_append_cons_of_mem hmem
  have hcut := splitOnce_append htext after
  rw [← hnew, h] at hcut
  exact absurd hcut (by simp)

end Cut

/-! ## Blanks -/

/-- The characters of the Unicode property `White_Space`. -/
def isWhitespace (c : Char) : Bool :=
  (9 ≤ c.toNat ∧ c.toNat ≤ 13) ∨
    c.toNat ∈ [0x20, 0x85, 0xA0, 0x1680, 0x2028, 0x2029, 0x202F, 0x205F, 0x3000] ∨
      (0x2000 ≤ c.toNat ∧ c.toNat ≤ 0x200A)

/-- `str::trim` -/
def trim (text : List Char) : List Char := (text.dropWhile isWhitespace).rdropWhile isWhitespace

theorem mem_dropWhile_of_not {α : Type} {p : α → Bool} {l : List α} {x : α} (h : x ∈ l)
    (hx : p x = false) : x ∈ l.dropWhile p := by
  rw [← List.takeWhile_append_dropWhile (p := p) (l := l), List.mem_append] at h
  refine h.resolve_left ?_
  intro hmem
  exact Bool.false_ne_true (hx.symm.trans (List.mem_takeWhile_imp hmem))

theorem mem_trim_of_mem {text : List Char} {c : Char} (h : c ∈ text)
    (hc : isWhitespace c = false) : c ∈ trim text := by
  rw [trim, List.rdropWhile, List.mem_reverse]
  exact mem_dropWhile_of_not (List.mem_reverse.mpr (mem_dropWhile_of_not h hc)) hc

/-! ## Numbers -/

/-- The digits behind a number that is already read. -/
def parseDigits (n : Nat) : List Char → Option Nat
  | [] => some n
  | c :: text =>
    if c.isDigit then
      (checkedMul n 10).bind fun tens =>
        (checkedAdd tens (c.toNat - '0'.toNat)).bind fun next => parseDigits next text
    else none

/-- `str::parse::<usize>`: digits, with one plus in front at most. -/
def parseUsize : List Char → Option Nat
  | [] => none
  | c :: text =>
    if c = '+' then if text = [] then none else parseDigits 0 text
    else parseDigits 0 (c :: text)

theorem isDigit_of_parseDigits {n value : Nat} {text : List Char}
    (h : parseDigits n text = some value) : ∀ c ∈ text, c.isDigit = true := by
  induction text generalizing n with
  | nil => simp
  | cons c text ih =>
    rw [parseDigits] at h
    by_cases hc : c.isDigit = true
    · rw [if_pos hc, Option.bind_eq_some_iff] at h
      obtain ⟨tens, _, h⟩ := h
      obtain ⟨next, _, h⟩ := Option.bind_eq_some_iff.mp h
      intro d hd
      rcases List.mem_cons.mp hd with rfl | hd
      · exact hc
      · exact ih h d hd
    · rw [if_neg hc] at h
      exact absurd h (by simp)

theorem not_mem_of_parseUsize {sep : Char} (hplus : sep ≠ '+') (hdigit : sep.isDigit = false)
    {text : List Char} {value : Nat} (h : parseUsize text = some value) : sep ∉ text := by
  intro hmem
  have hnot {n : Nat} {digits : List Char} (hdigits : parseDigits n digits = some value) :
      sep ∉ digits := by
    intro hsep
    exact Bool.false_ne_true (hdigit.symm.trans (isDigit_of_parseDigits hdigits sep hsep))
  cases text with
  | nil => exact absurd hmem (by simp)
  | cons c text =>
    rw [parseUsize] at h
    by_cases hc : c = '+'
    · rw [if_pos hc] at h
      by_cases htext : text = []
      · rw [if_pos htext] at h
        exact absurd h (by simp)
      · rw [if_neg htext] at h
        rcases List.mem_cons.mp hmem with heq | hmem
        · exact hplus (heq.trans hc)
        · exact hnot h hmem
    · rw [if_neg hc] at h
      exact hnot h hmem

end Lib
end EngineKit
