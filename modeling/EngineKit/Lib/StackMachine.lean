import Mathlib.Data.List.Basic

/-!
# Straight-line programs on a bounded stack

A program is a list of words: a word pushes a value or applies a binary operation to the two values
on top. `eval` runs it on a stack of at most `cap` values, top first, and stops at the first word
that finds the stack full or too short.

What goes wrong, and where, is a matter of how high the stack is and never of what lies on it:
`depth` runs the same words on heights alone, and `eval_depth` has `eval` fail exactly as it does.
And an evaluation over other values that gets through is an image of this one (`eval_image`), so
words of a machine may be read as the numbers they stand for.
-/

set_option autoImplicit false

namespace EngineKit
namespace Lib

/-- One word of a program over values `V` and operations `Op`. -/
inductive StackWord (V Op : Type) where
  | push (value : V)
  | apply (op : Op)

/-- What ends an evaluation early. -/
inductive StackFault where
  | overflow
  | underflow
deriving DecidableEq

/-- How much is left on the stack: all of it, or nothing. -/
def StackFault.height (cap : Nat) : StackFault → Nat
  | .overflow => cap
  | .underflow => 0

namespace StackWord

variable {V W Op : Type}

/-- One word on the stack `st`. A fault comes with what is left of the stack: the operands that were
    taken before the missing one are gone. -/
def step (f : Op → V → V → V) (cap : Nat) : StackWord V Op → List V →
    Except (StackFault × List V) (List V)
  | push v, st => if st.length = cap then .error (.overflow, st) else .ok (v :: st)
  | apply _, [] => .error (.underflow, [])
  | apply _, [_] => .error (.underflow, [])
  | apply o, b :: a :: st => .ok (f o a b :: st)

def eval (f : Op → V → V → V) (cap : Nat) : List (StackWord V Op) → List V →
    Except (StackFault × List V) (List V)
  | [], st => .ok st
  | w :: ws, st =>
    match w.step f cap st with
    | .error e => .error e
    | .ok st' => eval f cap ws st'

/-- The words on the height of the stack alone. -/
def depth (cap : Nat) : List (StackWord V Op) → Nat → Except StackFault Nat
  | [], n => .ok n
  | push _ :: ws, n => if n = cap then .error .overflow else depth cap ws (n + 1)
  | apply _ :: ws, n => if n < 2 then .error .underflow else depth cap ws (n - 1)

@[simp]
theorem eval_nil (f : Op → V → V → V) (cap : Nat) (st : List V) : eval f cap [] st = .ok st := rfl

theorem eval_cons (f : Op → V → V → V) (cap : Nat) (w : StackWord V Op) (ws : List (StackWord V Op))
    (st : List V) : eval f cap (w :: ws) st = (w.step f cap st).bind (eval f cap ws) := by
  rw [eval]
  cases w.step f cap st <;> rfl

/-- **Faults are a matter of height.** -/
theorem eval_depth (f : Op → V → V → V) (cap : Nat) (ws : List (StackWord V Op)) (st : List V) :
    ((eval f cap ws st).map List.length).mapError Prod.fst = depth cap ws st.length := by
  induction ws generalizing st with
  | nil => rfl
  | cons w ws ih =>
    rw [eval_cons]
    cases w with
    | push v =>
      by_cases hfull : st.length = cap
      · simp [step, depth, hfull, Except.bind, Except.map, Except.mapError]
      · simp only [step, depth, if_neg hfull]
        exact ih (v :: st)
    | apply o =>
      match st with
      | [] => rfl
      | [_] => rfl
      | b :: a :: rest => exact ih (f o a b :: rest)

theorem length_of_fault {f : Op → V → V → V} {cap : Nat} {ws : List (StackWord V Op)}
    {st left : List V} {fault : StackFault} (h : eval f cap ws st = .error (fault, left)) :
    left.length = fault.height cap := by
  induction ws generalizing st with
  | nil => cases h
  | cons w ws ih =>
    rw [eval_cons] at h
    cases w with
    | push v =>
      by_cases hfull : st.length = cap
      · simp only [step, if_pos hfull, Except.bind, Except.error.injEq, Prod.mk.injEq] at h
        obtain ⟨rfl, rfl⟩ := h
        exact hfull
      · simp only [step, if_neg hfull] at h
        exact ih h
    | apply o =>
      match st with
      | [] =>
        cases h
        rfl
      | [_] =>
        cases h
        rfl
      | b :: a :: rest =>
        have hrest : eval f cap ws (f o a b :: rest) = .error (fault, left) := h
        exact ih hrest

/-! ## Read as other values -/

/-- The words over `W`, for operations that may have no answer there. -/
def evalOver (g : Op → W → W → Option W) (h : V → W) : List (StackWord V Op) → List W →
    Option (List W)
  | [], st => some st
  | push v :: ws, st => evalOver g h ws (h v :: st)
  | apply o :: ws, b :: a :: st => (g o a b).bind fun c => evalOver g h ws (c :: st)
  | apply _ :: _, _ => none

/-- **The image of an evaluation.** Where `f` computes what `g` answers, evaluating over the other
    values gives the image of the stack. -/
theorem eval_image {f : Op → V → V → V} {g : Op → W → W → Option W} {h : V → W}
    (hfg : ∀ o a b c, g o (h a) (h b) = some c → h (f o a b) = c) {cap : Nat}
    {ws : List (StackWord V Op)} {st out : List V} {image : List W}
    (heval : eval f cap ws st = .ok out) (himage : evalOver g h ws (st.map h) = some image) :
    out.map h = image := by
  induction ws generalizing st with
  | nil =>
    cases heval
    exact Option.some.inj himage
  | cons w ws ih =>
    rw [eval_cons] at heval
    cases w with
    | push v =>
      by_cases hfull : st.length = cap
      · simp [step, hfull, Except.bind] at heval
      · simp only [step, if_neg hfull] at heval
        exact ih heval himage
    | apply o =>
      match st with
      | [] => cases heval
      | [_] => cases heval
      | b :: a :: rest =>
        obtain ⟨c, hc, hrest⟩ := Option.bind_eq_some_iff.mp himage
        have hval : h (f o a b) = c := hfg o a b c hc
        have hlater : eval f cap ws (f o a b :: rest) = .ok out := heval
        refine ih hlater ?_
        rw [List.map_cons, hval]
        exact hrest

end StackWord

end Lib
end EngineKit
