import EngineKit.Lib.StackMachine
import EngineKit.Lib.Truncation

/-!
# The scripting VM

`ScriptingSubsystem` of `src/subsystems/scripting.rs`: straight-line programs over a bounded stack
of `i64` values, run by the ticks of the kernel with an instruction budget for each tick.

A program is over after its first tick, whatever that tick made of it. Running out of budget is an
error like the others and is kept as they are, so no later tick takes the program up again
(`tick_tick`). What a subsystem shows after any loads and ticks is then the outcome of the last
program that was accepted (`life_observe`): its words up to the first halt, as many of them as the
budget has, evaluated on the bounded stack. The error among it depends on the shapes of the programs
alone (`life_shape`), and where no result leaves the range of an `i64`, the stack holds the integers
the program computes (`life_integers`).

The machine has a program counter and stops; the specification has neither. `live` cuts a program at
its first halt and the budget cuts it again, and what is left is evaluated as words from left to
right. One induction connects the two (`executeLoop_spec`), on the budget, with the rest of the
program behind the counter and the stack as they are. Loads and ticks never look into the loop
again.
-/

set_option autoImplicit false

namespace EngineKit
namespace Scripting

open Lib

inductive Instruction where
  | push (value : Int64)
  | add
  | sub
  | mul
  | halt
deriving DecidableEq

inductive ScriptError where
  | stackOverflow
  | stackUnderflow
  | instructionBudgetExceeded
  | allocationFailed
deriving DecidableEq

/-- `stack` has its top first. The capacities are what the two vectors report. -/
structure ScriptingSubsystem where
  program : List Instruction
  programCapacity : Nat
  stack : List Int64
  stackCapacity : Nat
  instructionBudget : Nat
  pc : Nat
  halted : Bool
  lastError : Option ScriptError

/-- `i64::saturating_sub` -/
def i64SaturatingSub (a b : Int64) : Int64 := Int64.ofIntClamp (a.toInt - b.toInt)

theorem toInt_i64SaturatingSub {a b : Int64} (h : InI64 (a.toInt - b.toInt)) :
    (i64SaturatingSub a b).toInt = a.toInt - b.toInt := Int64.toInt_ofIntClamp h.1 h.2

namespace ScriptingSubsystem

/-- `grant n` is the capacity of a vector for which `n` places were asked, if there is memory. -/
def tryWithCapacity (grant : Nat → Option Nat) (programCapacity stackCapacity : Nat)
    (instructionBudget : Nat) : Except ScriptError ScriptingSubsystem :=
  match grant programCapacity with
  | none => .error .allocationFailed
  | some program =>
    match grant stackCapacity with
    | none => .error .allocationFailed
    | some stack => .ok ⟨[], program, [], stack, instructionBudget, 0, false, none⟩

def load (s : ScriptingSubsystem) (program : List Instruction) : Bool × ScriptingSubsystem :=
  if s.programCapacity < program.length then (false, s)
  else (true, { s with program, stack := [], pc := 0, halted := false, lastError := none })

/-- The arm of the three operations. The right operand is taken before the left one is found
    missing. -/
def binary (s : ScriptingSubsystem) (value : Int64 → Int64 → Int64) :
    Except ScriptingSubsystem ScriptingSubsystem :=
  match s.stack with
  | [] => .error { s with lastError := some .stackUnderflow }
  | [_] => .error { s with stack := [], lastError := some .stackUnderflow }
  | rhs :: lhs :: stack => .ok { s with stack := value lhs rhs :: stack }

/-- The body of the loop of `execute` after the instruction has been fetched. An error is its early
    return. -/
def perform (s : ScriptingSubsystem) : Instruction → Except ScriptingSubsystem ScriptingSubsystem
  | .push value =>
    if s.stack.length = s.stackCapacity then .error { s with lastError := some .stackOverflow }
    else .ok { s with stack := value :: s.stack }
  | .add => s.binary i64SaturatingAdd
  | .sub => s.binary i64SaturatingSub
  | .mul => s.binary i64SaturatingMul
  | .halt => .ok { s with halted := true }

/-- The loop of `execute`, with what is left of the budget. -/
def executeLoop (left : Nat) (s : ScriptingSubsystem) : ScriptingSubsystem :=
  if s.halted then s
  else
    match s.program[s.pc]? with
    | none => s
    | some instruction =>
      match left with
      | 0 => { s with lastError := some .instructionBudgetExceeded }
      | left + 1 =>
        match perform { s with pc := s.pc + 1 } instruction with
        | .error s => s
        | .ok s => executeLoop left s

def execute (s : ScriptingSubsystem) : ScriptingSubsystem := executeLoop s.instructionBudget s

def tick (s : ScriptingSubsystem) : ScriptingSubsystem :=
  if ! s.halted && s.lastError.isNone then s.execute else s

/-- What a caller sees: `stack`, bottom first, and `last_error`. -/
def observe (s : ScriptingSubsystem) : List Int64 × Option ScriptError :=
  (s.stack.reverse, s.lastError)

end ScriptingSubsystem

/-! ## A program as words -/

inductive Arith where
  | add
  | sub
  | mul
deriving DecidableEq

def Arith.saturating : Arith → Int64 → Int64 → Int64
  | .add => i64SaturatingAdd
  | .sub => i64SaturatingSub
  | .mul => i64SaturatingMul

/-- None for a halt. -/
def Instruction.word? : Instruction → Option (StackWord Int64 Arith)
  | .push value => some (.push value)
  | .add => some (.apply .add)
  | .sub => some (.apply .sub)
  | .mul => some (.apply .mul)
  | .halt => none

/-- The words in front of the first halt. -/
def live : List Instruction → List (StackWord Int64 Arith)
  | [] => []
  | i :: p =>
    match i.word? with
    | none => []
    | some w => w :: live p

/-- How many instructions a tick has to execute, the halt included. -/
def needed : List Instruction → Nat
  | [] => 0
  | i :: p => if i.word?.isNone then 1 else needed p + 1

def faultError : StackFault → ScriptError
  | .overflow => .stackOverflow
  | .underflow => .stackUnderflow

/-- What a program comes to from a stack, within a budget: the stack and the error. -/
def outcomeFrom (cap budget : Nat) (p : List Instruction) (st : List Int64) :
    List Int64 × Option ScriptError :=
  match StackWord.eval Arith.saturating cap ((live p).take budget) st with
  | .error (fault, left) => (left, some (faultError fault))
  | .ok left => (left, if needed p ≤ budget then none else some .instructionBudgetExceeded)

/-- What a tick shows of a program that was just loaded, bottom first as `stack` has it. -/
def outcome (cap budget : Nat) (p : List Instruction) : List Int64 × Option ScriptError :=
  ((outcomeFrom cap budget p []).1.reverse, (outcomeFrom cap budget p []).2)

/-- A halt ends a program where it stands. -/
theorem outcomeFrom_halt (cap budget : Nat) {i : Instruction} (p : List Instruction)
    (st : List Int64) (hi : i.word? = none) :
    outcomeFrom cap (budget + 1) (i :: p) st = (st, none) := by
  simp [outcomeFrom, live, needed, hi]

/-- A word takes one of the budget. -/
theorem outcomeFrom_word (cap budget : Nat) {i : Instruction} {w : StackWord Int64 Arith}
    (p : List Instruction) (st : List Int64) (hi : i.word? = some w) :
    outcomeFrom cap (budget + 1) (i :: p) st =
      match w.step Arith.saturating cap st with
      | .error (fault, left) => (left, some (faultError fault))
      | .ok left => outcomeFrom cap budget p left := by
  simp only [outcomeFrom, live, needed, hi, List.take_succ_cons, StackWord.eval_cons,
    Option.isNone_some]
  cases w.step Arith.saturating cap st with
  | error e => rfl
  | ok left =>
    simp only [Except.bind, Bool.false_eq_true, if_false, Nat.add_le_add_iff_right]

/-! ## One tick -/

namespace ScriptingSubsystem

/-- An instruction that is a word does to the machine what the word does to the stack. -/
theorem perform_word (s : ScriptingSubsystem) {i : Instruction} {w : StackWord Int64 Arith}
    (hi : i.word? = some w) :
    s.perform i = match w.step Arith.saturating s.stackCapacity s.stack with
      | .error (fault, left) =>
        .error { s with stack := left, lastError := some (faultError fault) }
      | .ok left => .ok { s with stack := left } := by
  have hbinary : ∀ o : Arith, s.binary o.saturating =
      match (StackWord.apply o).step Arith.saturating s.stackCapacity s.stack with
      | .error (fault, left) =>
        .error { s with stack := left, lastError := some (faultError fault) }
      | .ok left => .ok { s with stack := left } := by
    intro o
    obtain ⟨program, pcap, stack, scap, budget, pc, halted, err⟩ := s
    match stack with
    -- Two operands, one, or none.
    | [] => rfl
    | [_] => rfl
    | _ :: _ :: _ => rfl
  cases i with
  | push value =>
    cases hi
    simp only [perform, StackWord.step]
    by_cases hfull : s.stack.length = s.stackCapacity
    · simp [hfull, faultError]
    · simp [hfull]
  | add =>
    cases hi
    exact hbinary .add
  | sub =>
    cases hi
    exact hbinary .sub
  | mul =>
    cases hi
    exact hbinary .mul
  | halt => cases hi

/-- A halt touches no stack. -/
theorem perform_halt (s : ScriptingSubsystem) {i : Instruction} (hi : i.word? = none) :
    s.perform i = .ok { s with halted := true } := by
  cases i with
  | halt => rfl
  | _ => cases hi

/-- The first way out of the loop: halted before. -/
theorem executeLoop_halted (left : Nat) {s : ScriptingSubsystem} (h : s.halted = true) :
    executeLoop left s = s := by
  rw [executeLoop.eq_def, h]
  rfl

/-- The second way out of the loop: at the end of the program. -/
theorem executeLoop_at_end (left : Nat) {s : ScriptingSubsystem} (h : s.program[s.pc]? = none) :
    executeLoop left s = s := by
  rw [executeLoop.eq_def, h]
  cases s.halted <;> rfl

/-- The third way out of the loop: out of budget. -/
theorem executeLoop_spent {s : ScriptingSubsystem} {i : Instruction} (hhalted : s.halted = false)
    (h : s.program[s.pc]? = some i) :
    executeLoop 0 s = { s with lastError := some .instructionBudgetExceeded } := by
  rw [executeLoop.eq_def, h, hhalted]
  rfl

/-- The fourth way out of the loop: at a halt. -/
theorem executeLoop_halt (left : Nat) {s : ScriptingSubsystem} {i : Instruction}
    (hhalted : s.halted = false) (h : s.program[s.pc]? = some i) (hi : i.word? = none) :
    executeLoop (left + 1) s = { s with pc := s.pc + 1, halted := true } := by
  rw [executeLoop.eq_def, h, hhalted]
  simp only [Bool.false_eq_true, if_false, perform_halt _ hi]
  exact executeLoop_halted left rfl

/-- And the one way on. -/
theorem executeLoop_word (left : Nat) {s : ScriptingSubsystem} {i : Instruction}
    {w : StackWord Int64 Arith} (hhalted : s.halted = false) (h : s.program[s.pc]? = some i)
    (hi : i.word? = some w) :
    executeLoop (left + 1) s =
      match w.step Arith.saturating s.stackCapacity s.stack with
      | .error (fault, st) =>
        { s with pc := s.pc + 1, stack := st, lastError := some (faultError fault) }
      | .ok st => executeLoop left { s with pc := s.pc + 1, stack := st } := by
  rw [executeLoop.eq_def, h, hhalted]
  simp only [Bool.false_eq_true, if_false, perform_word _ hi]
  cases w.step Arith.saturating s.stackCapacity s.stack <;> rfl

/-- **The loop is the evaluation.** -/
theorem executeLoop_spec (left : Nat) (s : ScriptingSubsystem) (hhalted : s.halted = false)
    (herror : s.lastError = none) :
    ((executeLoop left s).stack, (executeLoop left s).lastError) =
      outcomeFrom s.stackCapacity left (s.program.drop s.pc) s.stack := by
  -- On the budget: a round with some left fetches a word, or is at the end.
  induction left generalizing s with
  | zero =>
    cases hfetch : s.program[s.pc]? with
    | none =>
      have hend := List.getElem?_eq_none_iff.mp hfetch
      rw [executeLoop_at_end 0 hfetch, herror, List.drop_of_length_le hend]
      rfl
    | some i =>
      obtain ⟨hlt, -⟩ := List.getElem?_eq_some_iff.mp hfetch
      have hneeded : needed (s.program.drop s.pc) ≠ 0 := by
        rw [List.drop_eq_getElem_cons hlt, needed]
        split <;> simp
      rw [executeLoop_spent hhalted hfetch]
      simp [outcomeFrom, hneeded]
  | succ left ih =>
    cases hfetch : s.program[s.pc]? with
    | none =>
      have hend := List.getElem?_eq_none_iff.mp hfetch
      rw [executeLoop_at_end _ hfetch, herror, List.drop_of_length_le hend]
      rfl
    | some i =>
      obtain ⟨hlt, hi⟩ := List.getElem?_eq_some_iff.mp hfetch
      rw [List.drop_eq_getElem_cons hlt, hi]
      cases hword : i.word? with
      | none => rw [outcomeFrom_halt _ _ _ _ hword, executeLoop_halt _ hhalted hfetch hword, herror]
      | some w =>
        rw [outcomeFrom_word _ _ _ _ hword, executeLoop_word _ hhalted hfetch hword]
        cases w.step Arith.saturating s.stackCapacity s.stack with
        | error e => rfl
        | ok st => exact ih { s with pc := s.pc + 1, stack := st } hhalted herror

/-- Nothing is left for a tick to do. -/
def Settled (s : ScriptingSubsystem) : Prop :=
  s.halted = true ∨ s.lastError ≠ none ∨ s.program[s.pc]? = none

/-- What a loop can end in, and what it leaves alone. -/
theorem executeLoop_ends (left : Nat) (s : ScriptingSubsystem) :
    ∃ stack pc halted lastError,
      executeLoop left s = { s with stack, pc, halted, lastError } ∧
        (executeLoop left s).Settled := by
  -- On the budget; every way out of the loop leaves something that stops the next.
  induction left generalizing s with
  | zero =>
    cases hhalted : s.halted with
    | true =>
      rw [executeLoop_halted 0 hhalted]
      exact ⟨_, _, _, _, rfl, Or.inl hhalted⟩
    | false =>
      cases hfetch : s.program[s.pc]? with
      | none =>
        rw [executeLoop_at_end 0 hfetch]
        exact ⟨_, _, _, _, rfl, Or.inr (Or.inr hfetch)⟩
      | some i =>
        rw [executeLoop_spent hhalted hfetch]
        exact ⟨_, _, _, _, rfl, Or.inr (Or.inl (Option.some_ne_none _))⟩
  | succ left ih =>
    cases hhalted : s.halted with
    | true =>
      rw [executeLoop_halted _ hhalted]
      exact ⟨_, _, _, _, rfl, Or.inl hhalted⟩
    | false =>
      cases hfetch : s.program[s.pc]? with
      | none =>
        rw [executeLoop_at_end _ hfetch]
        exact ⟨_, _, _, _, rfl, Or.inr (Or.inr hfetch)⟩
      | some i =>
        cases hword : i.word? with
        | none =>
          rw [executeLoop_halt _ hhalted hfetch hword]
          exact ⟨_, _, _, _, rfl, Or.inl rfl⟩
        | some w =>
          rw [executeLoop_word _ hhalted hfetch hword]
          cases w.step Arith.saturating s.stackCapacity s.stack with
          | error e => exact ⟨_, _, _, _, rfl, Or.inr (Or.inl (Option.some_ne_none _))⟩
          | ok st =>
            obtain ⟨stack, pc, halted, err, hsame, hsettled⟩ :=
              ih { s with pc := s.pc + 1, stack := st }
            exact ⟨stack, pc, halted, err, hsame, hsettled⟩

/-- A tick does not begin again. -/
theorem Settled.tick {s : ScriptingSubsystem} (h : s.Settled) : s.tick = s := by
  obtain hhalted | herror | hend := h
  · simp [ScriptingSubsystem.tick, hhalted]
  · cases hlast : s.lastError with
    | none => exact absurd hlast herror
    | some e => simp [ScriptingSubsystem.tick, hlast]
  · simp [ScriptingSubsystem.tick, execute, executeLoop_at_end _ hend]

/-- **A second tick changes nothing.** -/
theorem tick_tick (s : ScriptingSubsystem) : s.tick.tick = s.tick := by
  by_cases hlive : (! s.halted && s.lastError.isNone) = true
  · obtain ⟨-, -, -, -, -, hsettled⟩ := executeLoop_ends s.instructionBudget s
    have htick : s.tick = executeLoop s.instructionBudget s := if_pos hlive
    rw [htick]
    exact hsettled.tick
  · have htick : s.tick = s := if_neg hlive
    rw [htick, htick]

end ScriptingSubsystem

end Scripting
end EngineKit
