import Mathlib.Data.List.Basic
import Mathlib.Logic.Function.Basic

/-!
# Checksums no single change survives

A running checksum folds a step over the units it covers. If the step loses nothing, of the
state it is taken in or of the unit it takes (`Lossless`), then a fold from two states stays in
two states, and changing one unit, at any position of any length, changes the checksum
(`Lossless.foldl_set`).

The step of the FNV family is an exclusive or and a multiplication; it loses nothing where the
multiplier has an inverse (`lossless_mul`).
-/

set_option autoImplicit false

namespace EngineKit
namespace Lib

variable {σ β : Type} {step : σ → β → σ}

structure Lossless (step : σ → β → σ) : Prop where
  state (b : β) : Function.Injective fun s => step s b
  unit (s : σ) : Function.Injective (step s)

theorem Lossless.foldl_injective (h : Lossless step) (xs : List β) :
    Function.Injective fun s => xs.foldl step s := by
  induction xs with
  | nil => exact Function.injective_id
  | cons x xs ih => exact ih.comp (h.state x)

/-- **One changed unit changes the checksum.** -/
theorem Lossless.foldl_set (h : Lossless step) {xs : List β} {i : Nat} {y : β}
    (hset : xs.set i y ≠ xs) (s : σ) : (xs.set i y).foldl step s ≠ xs.foldl step s := by
  induction xs generalizing i s with
  | nil => exact absurd rfl hset
  | cons x xs ih =>
    cases i with
    | zero =>
      intro heq
      have hxy : y = x := h.unit s (h.foldl_injective xs heq)
      exact hset (by rw [hxy, List.set_cons_zero])
    | succ i =>
      refine ih ?_ (step s x)
      intro heq
      exact hset (by rw [List.set_cons_succ, heq])

/-- An exclusive or with a byte, times a unit of the ring of 32-bit words. -/
theorem lossless_mul {p q : UInt32} (hpq : p * q = 1) :
    Lossless fun (hash : UInt32) (byte : UInt8) => (hash ^^^ byte.toUInt32) * p := by
  have hcancel {a b : UInt32} (hab : a * p = b * p) : a = b := by
    have hq := congrArg (· * q) hab
    simpa only [UInt32.mul_assoc, hpq, UInt32.mul_one] using hq
  constructor
  · intro byte a b hab
    exact (UInt32.xor_left_inj byte.toUInt32).mp (hcancel hab)
  · intro hash a b hab
    exact UInt8.toUInt32_inj.mp ((UInt32.xor_right_inj hash).mp (hcancel hab))

end Lib
end EngineKit
