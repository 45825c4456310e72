import EngineKit.Ui.Paint

/-!
# Components of a UI node

The values a retained node is made of: rectangles, style, text, image and interaction flags, with
the checks (`sane`) every write of them goes through.

Here coordinates are computed with, not only stored: `Coord F` is what the engine uses of `f32`,
and `Float32` is the instance it runs on. `f32::max` and `f32::min` give the other operand for a
NaN, which Lean's own do not promise, so they are definitions of their own.
-/

set_option autoImplicit false

namespace EngineKit
namespace Ui

/-- What layout, painting and hit testing use of `f32`. `toUsize` and `toU16` are the saturating
    casts `as usize` and `as u16`, which drop the fraction; `ofNat` is the cast back. -/
class Coord (F : Type) extends Scalar F, Add F, Sub F, Mul F, Div F, LT F, LE F where
  [decLt : DecidableLT F]
  [decLe : DecidableLE F]
  isFinite : F → Bool
  max : F → F → F
  min : F → F → F
  largest : F
  ofNat : Nat → F
  toUsize : F → Nat
  toU16 : F → UInt16

attribute [reducible, instance] Coord.decLt Coord.decLe

/-- `f32::max`. -/
def f32Max (a b : Float32) : Float32 :=
  if a.isNaN then b else if b.isNaN then a else if a < b then b else a

/-- `f32::min`. -/
def f32Min (a b : Float32) : Float32 :=
  if a.isNaN then b else if b.isNaN then a else if b < a then b else a

instance : Scalar Float32 := ⟨0, 1, Float32.toBits⟩

instance : Coord Float32 where
  isFinite := Float32.isFinite
  max := f32Max
  min := f32Min
  largest := Float32.ofBits 0x7F7FFFFF
  ofNat n := (UInt64.ofNat n).toFloat32
  toUsize x := x.toUInt64.toNat
  toU16 := Float32.toUInt16

def failIf (c : Prop) [Decidable c] (e : UiError) : Except UiError Unit :=
  if c then .error e else .ok ()

@[simp] theorem failIf_eq_ok {c : Prop} [Decidable c] {e : UiError} {u : Unit} :
    failIf c e = .ok u ↔ ¬ c := by
  unfold failIf
  split <;> simp [*]

/-- A call whose value passes a test has a value. -/
theorem ok_of_any {ε α : Type} {x : Except ε α} {test : α → Bool}
    (h : x.toOption.any test = true) : ∃ a, x = .ok a ∧ test a = true := by
  cases x with
  | error e => cases h
  | ok a => exact ⟨a, rfl, h⟩

variable {F : Type} [Coord F]

/-! ## Rectangles -/

def UiRect.right (rect : UiRect F) : F := rect.x + rect.width

def UiRect.bottom (rect : UiRect F) : F := rect.y + rect.height

def UiRect.sane (rect : UiRect F) : Bool :=
  [rect.x, rect.y, rect.width, rect.height, rect.right, rect.bottom].all Coord.isFinite &&
    decide (Scalar.zero ≤ rect.width) && decide (Scalar.zero ≤ rect.height)

def UiRect.contains (rect : UiRect F) (x y : F) : Bool :=
  rect.sane && decide (rect.x ≤ x) && decide (rect.y ≤ y) && decide (x < rect.right) &&
    decide (y < rect.bottom)

def UiRect.intersect (rect other : UiRect F) : UiRect F :=
  let left := Coord.max rect.x other.x
  let top := Coord.max rect.y other.y
  let right := Coord.min rect.right other.right
  let bottom := Coord.min rect.bottom other.bottom
  ⟨left, top, Coord.max (right - left) Scalar.zero, Coord.max (bottom - top) Scalar.zero⟩

def UiRect.area (rect : UiRect F) : F := rect.width * rect.height

/-! ## Style -/

inductive UiLength (F : Type) where
  | auto
  | points (value : F)
  | percent (value : F)

structure UiEdges (F : Type) where
  left : F
  right : F
  top : F
  bottom : F

def UiEdges.all (value : F) : UiEdges F := ⟨value, value, value, value⟩

def UiEdges.sane (edges : UiEdges F) : Bool :=
  [edges.left, edges.right, edges.top, edges.bottom].all fun value =>
    Coord.isFinite value && decide (Scalar.zero ≤ value)

inductive UiDirection where
  | row
  | column
deriving DecidableEq

inductive UiAlign where
  | start
  | center
  | end
  | stretch
deriving DecidableEq

inductive UiOverflow where
  | visible
  | clip
  | scroll
deriving DecidableEq

inductive UiPosition (F : Type) where
  | flow
  | absolute (left top : F)

def UiPosition.sane : UiPosition F → Bool
  | .flow => true
  | .absolute left top => Coord.isFinite left && Coord.isFinite top

structure UiStyle (F : Type) where
  width : UiLength F
  height : UiLength F
  minWidth : F
  minHeight : F
  maxWidth : F
  maxHeight : F
  margin : UiEdges F
  padding : UiEdges F
  gap : F
  direction : UiDirection
  align : UiAlign
  position : UiPosition F
  background : Vector F 4
  gradient : Option (Vector F 4 × Vector F 4)
  border : Vector F 4
  borderWidth : F
  cornerRadius : F
  overflow : UiOverflow
  scrollX : F
  scrollY : F

/-- `UiStyle::default`. -/
def UiStyle.defaults : UiStyle F where
  width := .auto
  height := .auto
  minWidth := Scalar.zero
  minHeight := Scalar.zero
  maxWidth := Coord.largest
  maxHeight := Coord.largest
  margin := .all Scalar.zero
  padding := .all Scalar.zero
  gap := Scalar.zero
  direction := .column
  align := .stretch
  position := .flow
  background := Vector.replicate 4 Scalar.zero
  gradient := none
  border := Vector.replicate 4 Scalar.zero
  borderWidth := Scalar.zero
  cornerRadius := Scalar.zero
  overflow := .visible
  scrollX := Scalar.zero
  scrollY := Scalar.zero

def UiStyle.sane (style : UiStyle F) : Bool :=
  style.margin.sane && style.padding.sane && Coord.isFinite style.gap &&
    decide (Scalar.zero ≤ style.gap) && Coord.isFinite style.minWidth &&
    Coord.isFinite style.minHeight && Coord.isFinite style.maxWidth &&
    Coord.isFinite style.maxHeight && decide (Scalar.zero ≤ style.minWidth) &&
    decide (Scalar.zero ≤ style.minHeight) && decide (style.minWidth ≤ style.maxWidth) &&
    decide (style.minHeight ≤ style.maxHeight) && Coord.isFinite style.borderWidth &&
    decide (Scalar.zero ≤ style.borderWidth) && style.position.sane &&
    style.background.all Coord.isFinite && style.border.all Coord.isFinite &&
    (style.gradient.all fun (fromColor, toColor) =>
      fromColor.all Coord.isFinite && toColor.all Coord.isFinite) &&
    Coord.isFinite style.cornerRadius && decide (Scalar.zero ≤ style.cornerRadius) &&
    Coord.isFinite style.scrollX && Coord.isFinite style.scrollY &&
    decide (Scalar.zero ≤ style.scrollX) && decide (Scalar.zero ≤ style.scrollY)

/-! ## Content -/

inductive UiNodeKind where
  | root
  | panel
  | text
  | image
  | custom
deriving DecidableEq

inductive UiAccessibilityRole where
  | none
  | button
  | label
  | image
  | textField
  | window
  | list
  | listItem
deriving DecidableEq

structure UiText where
  value : String
deriving DecidableEq

def UiText.byteLen (text : UiText) : Nat := text.value.utf8ByteSize

structure UiAccessibility where
  role : UiAccessibilityRole
  label : Option UiText
  hidden : Bool
deriving DecidableEq

def UiAccessibility.defaults : UiAccessibility := ⟨.none, none, false⟩

structure UiImage where
  texture : TextureId
  width : UInt32
  height : UInt32
deriving DecidableEq

structure UiInteraction where
  focusable : Bool
  disabled : Bool
  hitTest : Bool
deriving DecidableEq

def UiInteraction.defaults : UiInteraction := ⟨false, false, true⟩

structure UiNodeContent (F : Type) where
  kind : UiNodeKind
  style : UiStyle F
  visible : Bool
  zIndex : Int32
  opacity : F
  text : Option UiText
  image : Option UiImage
  font : Option FontId
  interaction : UiInteraction
  accessibility : UiAccessibility

def UiNodeContent.new (kind : UiNodeKind) : UiNodeContent F where
  kind
  style := .defaults
  visible := true
  zIndex := 0
  opacity := Scalar.one
  text := none
  image := none
  font := none
  interaction := .defaults
  accessibility := .defaults

def UiNodeContent.sane (content : UiNodeContent F) : Bool :=
  content.style.sane && Coord.isFinite content.opacity &&
    decide (Scalar.zero ≤ content.opacity) && decide (content.opacity ≤ Scalar.one)

/-- The defaults pass their own check. -/
theorem UiNodeContent.sane_new (kind : UiNodeKind) :
    (UiNodeContent.new kind : UiNodeContent Float32).sane = true := by
  cases kind <;> decide +kernel

end Ui
end EngineKit
