import EngineKit.Lib.Lines
import EngineKit.Ui.Exact
import EngineKit.Ui.Text

/-!
# Wrapped text

What `shape_wrapped` gives for a text, the arithmetic read exactly: one glyph for each character
that is not a newline, and the lines of `linesOf`, as many characters to a line as fit the width.
The width is that of the longest line, the height that of all of them.

The line counter and the cast of the column count are those of `usize`. No text is longer than
`isize::MAX` bytes, so the counter does not overflow, and where the cast saturates every paragraph
is one line either way.
-/

set_option autoImplicit false

namespace EngineKit
namespace Ui

open Lib

/-- The characters of a text without its newlines. -/
def printed (text : List Char) : List Char := text.filter (· != '\n')

namespace FallbackGlyphProvider

/-- The lines of a text of a width: as many characters to each as fit. -/
def linesIn (p : FallbackGlyphProvider ℚ) (text : List Char) (maxWidth : ℚ) : List (List Char) :=
  linesOf (· == '\n') ⌊maxWidth / p.advance⌋₊ text

/-- A run of glyphs is a text wrapped to a width. -/
structure Wraps (p : FallbackGlyphProvider ℚ) (text : List Char) (maxWidth : ℚ)
    (run : GlyphRun ℚ) : Prop where
  codepoints : run.glyphs.map Glyph.codepoint = (printed text).map Char.val
  fits : run.width ≤ maxWidth
  width : run.width = longest (p.linesIn text maxWidth) * p.advance
  height : run.height = p.lineHeight * (p.linesIn text maxWidth).length

/-! ## The loop -/

/-- A line that is no longer than the width so far does not widen it. -/
theorem max_longest_cons {width advance : ℚ} {line : List Char} {lines : List (List Char)}
    (hadvance : 0 ≤ advance) (h : line.length * advance ≤ width) :
    max width (longest (line :: lines) * advance) = max width (longest lines * advance) := by
  rw [longest_cons, Nat.cast_max, max_mul_of_nonneg _ _ hadvance, ← max_assoc, max_eq_left h]

/-- One glyph more on a line that the rest goes on with. -/
theorem max_longest_fill {width advance : ℚ} {columns : Nat} {current text : List Char}
    (hadvance : 0 ≤ advance) :
    max (max width (current.length * advance))
        (longest (fill (· == '\n') columns current text) * advance) =
      max width (longest (fill (· == '\n') columns current text) * advance) := by
  rw [max_assoc]
  refine congrArg (max width) (max_eq_right (mul_le_mul_of_nonneg_right ?_ hadvance))
  exact_mod_cast length_le_longest_fill _ columns current text

theorem usizeSaturatingAdd_one {a : Nat} (h : a + 1 < 2 ^ 64) : usizeSaturatingAdd a 1 = a + 1 := by
  unfold usizeSaturatingAdd
  omega

section Step

variable {p : FallbackGlyphProvider ℚ} {columns index column line : Nat} {text : List Char}
  {width : ℚ} {glyphs : List (Glyph ℚ)}

/-- A newline ends the line. -/
theorem wrap_newline {ch : Char} (hch : ch = '\n') (hline : line + 1 < 2 ^ 64) :
    p.wrap columns index (ch :: text) column line width glyphs =
      p.wrap columns (index + 1) text 0 (line + 1) width glyphs := by
  conv => lhs; unfold wrap
  simp only [hch, true_or, if_true, checkedAdd_of_lt hline, orOverflow, bind, Except.bind]

/-- A character that finds the line full is the first of the next. -/
theorem wrap_full {ch : Char} (hch : ch ≠ '\n') (hfull : columns ≤ column)
    (hline : line + 1 < 2 ^ 64) :
    p.wrap columns index (ch :: text) column line width glyphs =
      p.wrap columns (index + 1) text [ch].length (line + 1)
        (max width ([ch].length * p.advance)) (glyphs ++ [p.glyph index ch]) := by
  conv => lhs; unfold wrap
  simp only [hch, hfull, or_true, if_true, if_false, checkedAdd_of_lt hline, orOverflow, bind,
    Except.bind]
  rfl

/-- Any other goes on the line. -/
theorem wrap_next {ch : Char} (hch : ch ≠ '\n') (hroom : column < columns)
    (hcolumn : column + 1 < 2 ^ 64) :
    p.wrap columns index (ch :: text) column line width glyphs =
      p.wrap columns (index + 1) text (column + 1) line
        (max width (((column + 1 : Nat) : ℚ) * p.advance)) (glyphs ++ [p.glyph index ch]) := by
  conv => lhs; unfold wrap
  simp only [hch, Nat.not_le.mpr hroom, or_self, if_false, bind, Except.bind,
    usizeSaturatingAdd_one hcolumn]
  rfl

end Step

/-- **The loop fills lines**: `current` is the line it is on, `line` the number of lines before it,
    and the width is that of the longest so far. -/
theorem wrap_eq {p : FallbackGlyphProvider ℚ} (hadvance : 0 ≤ p.advance) {columns : Nat}
    (hcolumns : 0 < columns) (hmachine : columns < 2 ^ 64) {text current : List Char}
    {index line : Nat} {width : ℚ} {glyphs : List (Glyph ℚ)} (hfits : current.length ≤ columns)
    (hwidth : current.length * p.advance ≤ width) (hline : line + text.length < 2 ^ 64) :
    ∃ glyphs' line', p.wrap columns index text current.length line width glyphs =
        .ok (glyphs ++ glyphs', line',
          max width (longest (fill (· == '\n') columns current text) * p.advance)) ∧
      glyphs'.map Glyph.codepoint = (printed text).map Char.val ∧
      line' + 1 = line + (fill (· == '\n') columns current text).length := by
  induction text generalizing current index line width glyphs with
  | nil =>
    refine ⟨[], line, ?_, rfl, rfl⟩
    have hlongest : longest (fill (· == '\n') columns current []) = current.length :=
      Nat.max_zero _
    rw [hlongest, max_eq_left hwidth, List.append_nil]
    rfl
  | cons ch text ih =>
    rw [List.length_cons] at hline
    by_cases hnewline : ch = '\n'
    · have hprinted : printed (ch :: text) = printed text := by
        rw [hnewline]
        rfl
      have hseparates : (ch == '\n') = true := by simpa using hnewline
      have hzero : (([] : List Char).length : ℚ) * p.advance ≤ width := by
        have hnonneg : (0 : ℚ) ≤ current.length * p.advance :=
          mul_nonneg (Nat.cast_nonneg _) hadvance
        simpa using hnonneg.trans hwidth
      obtain ⟨glyphs', line', hcall, hcodes, hlines⟩ :=
        @ih [] (index + 1) (line + 1) width glyphs (Nat.zero_le _) hzero (by omega)
      refine ⟨glyphs', line', ?_, by rw [hcodes, hprinted], ?_⟩
      · rw [wrap_newline hnewline (by omega), fill_separator (· == '\n') hseparates,
          max_longest_cons hadvance hwidth]
        exact hcall
      · rw [fill_separator (· == '\n') hseparates, List.length_cons]
        omega
    · have hprinted : printed (ch :: text) = ch :: printed text := by
        simp [printed, hnewline]
      have hseparates : (ch == '\n') = false := by simpa using hnewline
      by_cases hfull : columns ≤ current.length
      · have hone : (([ch] : List Char).length : ℚ) * p.advance ≤
            max width (([ch] : List Char).length * p.advance) := le_max_right _ _
        obtain ⟨glyphs', line', hcall, hcodes, hlines⟩ :=
          @ih [ch] (index + 1) (line + 1) _ (glyphs ++ [p.glyph index ch]) hcolumns hone
            (by omega)
        refine ⟨p.glyph index ch :: glyphs', line', ?_, ?_, ?_⟩
        · rw [wrap_full hnewline hfull (by omega), fill_full (· == '\n') hseparates hfull,
            max_longest_cons hadvance hwidth, ← max_longest_fill hadvance, hcall, List.append_assoc]
          rfl
        · rw [hprinted, List.map_cons, List.map_cons, hcodes]
          rfl
        · rw [fill_full (· == '\n') hseparates hfull, List.length_cons]
          omega
      · have hlength : (current ++ [ch]).length = current.length + 1 := List.length_append
        have hnext : ((current ++ [ch]).length : ℚ) * p.advance ≤
            max width ((current ++ [ch]).length * p.advance) := le_max_right _ _
        obtain ⟨glyphs', line', hcall, hcodes, hlines⟩ :=
          @ih (current ++ [ch]) (index + 1) line _ (glyphs ++ [p.glyph index ch]) (by omega) hnext
            (by omega)
        refine ⟨p.glyph index ch :: glyphs', line', ?_, ?_, ?_⟩
        · rw [wrap_next hnewline (by omega) (by omega), fill_next (· == '\n') hseparates hfull,
            ← hlength, ← max_longest_fill hadvance, hcall, List.append_assoc]
          rfl
        · rw [hprinted, List.map_cons, List.map_cons, hcodes]
          rfl
        · rw [fill_next (· == '\n') hseparates hfull]
          omega

/-! ## The call -/

theorem toUsize_rat (x : ℚ) : Coord.toUsize x = min ⌊x⌋₊ (2 ^ 64 - 1) := rfl

/-- A character takes a byte at least. -/
theorem length_toList_le (text : String) : text.toList.length ≤ text.utf8ByteSize := by
  induction text using String.push_induction with
  | empty => exact Nat.zero_le _
  | push text ch ih =>
    rw [String.toList_push, List.length_append, String.utf8ByteSize_push]
    exact Nat.add_le_add ih ch.utf8Size_pos

/-- The first check of the call, and the one of the columns. -/
theorem checks_of_accepts {p : FallbackGlyphProvider ℚ} {text : String} {maxGlyphs : Nat}
    {maxWidth : ℚ} (hcount : text.toList.length ≤ maxGlyphs)
    (haccepts : p.shapeWrapped true text maxGlyphs maxWidth ≠ .error .invalidValue) :
    0 < p.advance ∧ 0 < maxWidth ∧ 0 < Coord.toUsize (maxWidth / p.advance) ∧
      p.shapeWrapped true text maxGlyphs maxWidth = (do
        let (glyphs, line, width) ←
          p.wrap (Coord.toUsize (maxWidth / p.advance)) 0 text.toList 0 0 0 []
        .ok ⟨glyphs, width, Coord.ofNat (usizeSaturatingAdd line 1) * p.lineHeight⟩) := by
  unfold shapeWrapped at haccepts ⊢
  by_cases hmetrics : (validMetric p.advance && validMetric p.lineHeight &&
      Coord.isFinite maxWidth && ! decide (maxWidth ≤ Scalar.zero)) = true
  · by_cases hcolumns : Coord.toUsize (maxWidth / p.advance) = 0
    · refine absurd ?_ haccepts
      simp only [failIf, hmetrics, not_true, if_false, Nat.not_lt.mpr hcount, hcolumns, if_true]
      rfl
    · have hvalid := hmetrics
      simp only [validMetric, isFinite_rat, zero_rat, Bool.true_and, Bool.and_eq_true,
        Bool.not_eq_true', decide_eq_false_iff_not, not_le] at hvalid
      refine ⟨hvalid.1.1.1.1, hvalid.2, Nat.pos_of_ne_zero hcolumns, ?_⟩
      simp only [failIf, hmetrics, not_true, if_false, Nat.not_lt.mpr hcount, hcolumns,
        Bool.true_eq_false]
      rfl
  · refine absurd ?_ haccepts
    simp only [failIf, hmetrics]
    rfl

/-- **Wrapped text**: a text of no more characters than asked for, in metrics and a width that the
    provider does not refuse. -/
theorem shapeWrapped_wraps {p : FallbackGlyphProvider ℚ} {text : String} {maxGlyphs : Nat}
    {maxWidth : ℚ} (hsize : text.utf8ByteSize < 2 ^ 63) (hcount : text.toList.length ≤ maxGlyphs)
    (haccepts : p.shapeWrapped true text maxGlyphs maxWidth ≠ .error .invalidValue) :
    ∃ run, p.shapeWrapped true text maxGlyphs maxWidth = .ok run ∧
      p.Wraps text.toList maxWidth run := by
  obtain ⟨hadvance, hpositive, hcolumns, hcall⟩ := checks_of_accepts hcount haccepts
  have hsmall : text.toList.length < 2 ^ 63 := (length_toList_le text).trans_lt hsize
  have husize := toUsize_rat (maxWidth / p.advance)
  have hmachine : Coord.toUsize (maxWidth / p.advance) < 2 ^ 64 := by omega
  have hfloor : 0 < ⌊maxWidth / p.advance⌋₊ := by omega
  -- where the cast saturates, no paragraph is as long as a line
  have hlines : fill (· == '\n') (Coord.toUsize (maxWidth / p.advance)) [] text.toList =
      p.linesIn text.toList maxWidth := by
    rw [linesIn, ← fill_nil hfloor]
    by_cases hfits : ⌊maxWidth / p.advance⌋₊ ≤ 2 ^ 64 - 1
    · rw [husize, Nat.min_eq_left hfits]
    · refine fill_of_long _ ?_ ?_
      · rw [List.length_nil]
        omega
      · rw [List.length_nil]
        omega
  obtain ⟨glyphs, line, hwrap, hcodes, hcount'⟩ := @wrap_eq p hadvance.le _ hcolumns hmachine
    text.toList [] 0 0 0 [] (Nat.zero_le _) (by simp) (by omega)
  rw [hlines] at hwrap hcount'
  have hbound := length_fill_le (· == '\n') (Coord.toUsize (maxWidth / p.advance)) [] text.toList
  rw [hlines] at hbound
  rw [List.length_nil] at hwrap
  have hwidth : max 0 ((longest (p.linesIn text.toList maxWidth) : ℚ) * p.advance) =
      longest (p.linesIn text.toList maxWidth) * p.advance :=
    max_eq_right (mul_nonneg (Nat.cast_nonneg _) hadvance.le)
  have hline : usizeSaturatingAdd line 1 = (p.linesIn text.toList maxWidth).length := by
    rw [usizeSaturatingAdd_one (by omega)]
    omega
  rw [hwidth] at hwrap
  refine ⟨⟨glyphs, longest (p.linesIn text.toList maxWidth) * p.advance,
    Coord.ofNat (usizeSaturatingAdd line 1) * p.lineHeight⟩, by rw [hcall, hwrap]; rfl, hcodes, ?_,
    rfl, ?_⟩
  · have hlongest : longest (p.linesIn text.toList maxWidth) ≤ ⌊maxWidth / p.advance⌋₊ :=
      longest_le fun line hline => length_le_of_mem_linesOf hline
    calc (longest (p.linesIn text.toList maxWidth) : ℚ) * p.advance
        ≤ ⌊maxWidth / p.advance⌋₊ * p.advance :=
          mul_le_mul_of_nonneg_right (Nat.cast_le.mpr hlongest) hadvance.le
      _ ≤ maxWidth / p.advance * p.advance :=
          mul_le_mul_of_nonneg_right
            (Nat.floor_le (div_nonneg hpositive.le hadvance.le)) hadvance.le
      _ = maxWidth := div_mul_cancel₀ maxWidth hadvance.ne'
  · rw [hline, ofNat_rat]
    exact mul_comm _ _

/-- Three lines, of which the second is full where the newline comes. -/
theorem shapeWrapped_wraps_small :
    (FallbackGlyphProvider.shapeWrapped true ⟨8, 16⟩ "abcdef\ng" 32 (24 : ℚ) ≠
        .error .invalidValue) ∧
      ∃ run, FallbackGlyphProvider.shapeWrapped true ⟨8, 16⟩ "abcdef\ng" 32 (24 : ℚ) = .ok run ∧
        Wraps ⟨8, 16⟩ "abcdef\ng".toList 24 run := by
  have haccepts : FallbackGlyphProvider.shapeWrapped true ⟨8, 16⟩ "abcdef\ng" 32 (24 : ℚ) ≠
      .error .invalidValue := by
    have hok : (FallbackGlyphProvider.shapeWrapped true ⟨8, 16⟩ "abcdef\ng" 32
        (24 : ℚ)).toOption.isSome = true := by decide +kernel
    intro herror
    rw [herror] at hok
    cases hok
  exact ⟨haccepts, shapeWrapped_wraps (by decide) (by decide) haccepts⟩

end FallbackGlyphProvider
end Ui
end EngineKit
