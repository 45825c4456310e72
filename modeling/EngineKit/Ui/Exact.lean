import EngineKit.Ui.Components
import Mathlib.Algebra.Order.Field.Rat
import Mathlib.Data.Rat.Floor
import Mathlib.Data.Set.Prod
import Mathlib.Order.Interval.Set.LinearOrder
import Mathlib.Tactic.Linarith

/-!
# Exact coordinates

Every finite `f32` is a rational number, and the four operations on rationals are the ones the
floats round. `Coord ℚ` reads the engine's arithmetic without the rounding: sums and products are
exact, nothing overflows, and every number is finite. What is proved over it is what layout,
clipping and wrapping come to when rounding is left out; the casts to integers saturate as they do
for floats.

A rectangle is then the set of points it contains, `UiRect.region`, and the `intersect` of two
rectangles is the intersection of the two sets, also when they are disjoint or one of them is
empty (`region_intersect`).
-/

set_option autoImplicit false

namespace EngineKit
namespace Ui

/-- Only the encoder asks for bits, which are those of the quotient as a float. -/
instance : Scalar ℚ := ⟨0, 1, fun x => (Float32.ofInt x.num / Float32.ofNat x.den).toBits⟩

instance : Coord ℚ where
  isFinite _ := true
  max := max
  min := min
  largest := (2 ^ 24 - 1) * 2 ^ 104
  ofNat n := n
  toUsize x := min x.floor.toNat (2 ^ 64 - 1)
  toU16 x := UInt16.ofNat (min x.floor.toNat (2 ^ 16 - 1))

@[simp] theorem zero_rat : (Scalar.zero : ℚ) = 0 := rfl

@[simp] theorem one_rat : (Scalar.one : ℚ) = 1 := rfl

@[simp] theorem max_rat (a b : ℚ) : Coord.max a b = max a b := rfl

@[simp] theorem min_rat (a b : ℚ) : Coord.min a b = min a b := rfl

@[simp] theorem isFinite_rat (a : ℚ) : Coord.isFinite a = true := rfl

@[simp] theorem ofNat_rat (n : Nat) : (Coord.ofNat n : ℚ) = n := rfl

/-! ## Rectangles as sets -/

section Span

variable {α : Type} [AddCommGroup α] [LinearOrder α] [IsOrderedAddMonoid α]

/-- Two spans, each a start and a size, meet in the span from the later start to the earlier
    end. -/
theorem Ico_span_inter (a w b v : α) :
    Set.Ico (max a b) (max a b + max (min (a + w) (b + v) - max a b) 0)
      = Set.Ico a (a + w) ∩ Set.Ico b (b + v) := by
  have hend : max a b + max (min (a + w) (b + v) - max a b) 0
      = max (min (a + w) (b + v)) (max a b) := by
    rw [← max_add_add_left, add_sub_cancel, add_zero]
  rw [hend, Set.Ico_inter_Ico]
  rcases le_total (min (a + w) (b + v)) (max a b) with hle | hle
  · rw [max_eq_right hle, Set.Ico_self, Set.Ico_eq_empty (not_lt.mpr hle)]
  · rw [max_eq_left hle]

end Span

/-- The points of a rectangle, its right and lower edges left out. -/
def UiRect.region (rect : UiRect ℚ) : Set (ℚ × ℚ) :=
  Set.Ico rect.x rect.right ×ˢ Set.Ico rect.y rect.bottom

theorem UiRect.sane_rat (rect : UiRect ℚ) :
    rect.sane = true ↔ 0 ≤ rect.width ∧ 0 ≤ rect.height := by
  simp [UiRect.sane]

/-- The points are those a sane rectangle contains. -/
theorem UiRect.mem_region {rect : UiRect ℚ} (h : rect.sane = true) {x y : ℚ} :
    (x, y) ∈ rect.region ↔ rect.contains x y = true := by
  simp only [UiRect.region, UiRect.contains, Set.mem_prod, Set.mem_Ico, h, Bool.true_and,
    Bool.and_eq_true, decide_eq_true_eq]
  tauto

/-- **`intersect` is intersection**, whatever the two rectangles are. -/
theorem UiRect.region_intersect (a b : UiRect ℚ) :
    (a.intersect b).region = a.region ∩ b.region := by
  have hx := Ico_span_inter a.x a.width b.x b.width
  have hy := Ico_span_inter a.y a.height b.y b.height
  rw [region, region, region, Set.prod_inter_prod]
  exact congrArg₂ (· ×ˢ ·) hx hy

theorem UiRect.area_rat (rect : UiRect ℚ) : rect.area = rect.width * rect.height := rfl

/-- A sane rectangle has an area when it has a point. -/
theorem UiRect.area_pos_iff {rect : UiRect ℚ} (h : rect.sane = true) :
    0 < rect.area ↔ rect.region.Nonempty := by
  obtain ⟨hw, hh⟩ := rect.sane_rat.mp h
  have hx : (Set.Ico rect.x rect.right).Nonempty ↔ 0 < rect.width := by
    rw [Set.nonempty_Ico]
    exact lt_add_iff_pos_right rect.x
  have hy : (Set.Ico rect.y rect.bottom).Nonempty ↔ 0 < rect.height := by
    rw [Set.nonempty_Ico]
    exact lt_add_iff_pos_right rect.y
  rw [region, Set.prod_nonempty_iff, hx, hy, area_rat]
  constructor
  · intro hpos
    exact ⟨pos_of_mul_pos_left hpos hh, pos_of_mul_pos_right hpos hw⟩
  · intro hboth
    exact mul_pos hboth.1 hboth.2

theorem UiRect.sane_intersect (a b : UiRect ℚ) : (a.intersect b).sane = true := by
  rw [sane_rat]
  exact ⟨le_max_right _ _, le_max_right _ _⟩

end Ui
end EngineKit
