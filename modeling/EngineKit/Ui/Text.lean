import EngineKit.Ui.Components

/-!
# Text

The glyphs of a text node, from the engine's own provider: every character is as wide as the next,
and a line is as many of them as fit the width (`FallbackGlyphProvider.shapeWrapped`).
-/

set_option autoImplicit false

namespace EngineKit
namespace Ui

open Lib

variable {F : Type}

def GlyphRun.empty [Scalar F] : GlyphRun F := ⟨[], Scalar.zero, Scalar.zero⟩

structure FallbackGlyphProvider (F : Type) where
  advance : F
  lineHeight : F

namespace FallbackGlyphProvider

variable [Coord F]

def defaults : FallbackGlyphProvider F := ⟨Coord.ofNat 8, Coord.ofNat 16⟩

/-- A metric the provider accepts: positive, and within a `u16`. -/
def validMetric (value : F) : Bool :=
  Coord.isFinite value && ! decide (value ≤ Scalar.zero) && ! decide (Coord.ofNat 65535 < value)

/-- The glyph of the character at `index`. -/
def glyph (p : FallbackGlyphProvider F) (index : Nat) (ch : Char) : Glyph F where
  codepoint := ch.val
  advance := p.advance
  atlasX := UInt16.ofNat (index % 256)
  atlasY := UInt16.ofNat (index / 256)
  width := Coord.toU16 p.advance
  height := Coord.toU16 p.lineHeight

/-- The loop of `shape_wrapped`, at the character at `index`. -/
def wrap (p : FallbackGlyphProvider F) (columns : Nat) :
    Nat → List Char → Nat → Nat → F → List (Glyph F) → Except UiError (List (Glyph F) × Nat × F)
  | _, [], _, line, width, glyphs => .ok (glyphs, line, width)
  | index, ch :: text, column, line, width, glyphs => do
    let wraps := ch = '\n' ∨ columns ≤ column
    let line ← if wraps then orOverflow (checkedAdd line 1) else .ok line
    if ch = '\n' then p.wrap columns (index + 1) text 0 line width glyphs
    else
      let column := usizeSaturatingAdd (if wraps then 0 else column) 1
      p.wrap columns (index + 1) text column line
        (Coord.max width (Coord.ofNat column * p.advance)) (glyphs ++ [p.glyph index ch])

/-- `room` is whether the run's glyphs find memory. -/
def shapeWrapped (room : Bool) (p : FallbackGlyphProvider F) (text : String) (maxGlyphs : Nat)
    (maxWidth : F) : Except UiError (GlyphRun F) := do
  failIf (¬ (validMetric p.advance && validMetric p.lineHeight && Coord.isFinite maxWidth &&
    ! decide (maxWidth ≤ Scalar.zero))) .invalidValue
  let count := text.toList.length
  failIf (maxGlyphs < count) .capacityExceeded
  let columns := Coord.toUsize (maxWidth / p.advance)
  failIf (columns = 0) .invalidValue
  failIf (room = false) .allocationFailed
  let (glyphs, line, width) ← p.wrap columns 0 text.toList 0 0 Scalar.zero []
  .ok ⟨glyphs, width, Coord.ofNat (usizeSaturatingAdd line 1) * p.lineHeight⟩

end FallbackGlyphProvider

end Ui
end EngineKit
