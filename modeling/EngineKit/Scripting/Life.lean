import EngineKit.Scripting.Vm

/-!
# A script's life

Loads and ticks in any order on one `ScriptingSubsystem`. All that counts of such a life is the last
program that was accepted and whether a tick came after it: that is the `Desk`, the plain model of
the subsystem, and `life_state` has the machine be the desk's after any calls.
-/

set_option autoImplicit false

namespace EngineKit
namespace Scripting

open Lib ScriptingSubsystem

inductive Call where
  | load (program : List Instruction)
  | tick

def call (s : ScriptingSubsystem) : Call → ScriptingSubsystem
  | .load program => (s.load program).2
  | .tick => s.tick

/-- The last accepted program, and whether it was run. -/
structure Desk where
  program : List Instruction
  ticked : Bool

namespace Desk

def start : Desk := ⟨[], false⟩

/-- A program longer than `room` is refused. -/
def call (room : Nat) (d : Desk) : Call → Desk
  | .load program => if room < program.length then d else ⟨program, false⟩
  | .tick => { d with ticked := true }

/-- What it shows: `stack` and `last_error`. -/
def shows (cap budget : Nat) (d : Desk) : List Int64 × Option ScriptError :=
  if d.ticked then outcome cap budget d.program else ([], none)

/-- The machine, given the one at the start. -/
def machine (s₀ : ScriptingSubsystem) (d : Desk) : ScriptingSubsystem :=
  if d.ticked then { s₀ with program := d.program }.execute else { s₀ with program := d.program }

end Desk

/-- As `try_with_capacity` leaves it. -/
structure Fresh (s : ScriptingSubsystem) : Prop where
  program : s.program = []
  stack : s.stack = []
  pc : s.pc = 0
  halted : s.halted = false
  lastError : s.lastError = none

theorem fresh_of_tryWithCapacity {grant : Nat → Option Nat} {programCapacity stackCapacity : Nat}
    {budget : Nat} {s : ScriptingSubsystem}
    (h : tryWithCapacity grant programCapacity stackCapacity budget = .ok s) :
    Fresh s ∧ s.instructionBudget = budget := by
  rw [tryWithCapacity] at h
  cases hprogram : grant programCapacity with
  | none => simp [hprogram] at h
  | some program =>
    cases hstack : grant stackCapacity with
    | none => simp [hprogram, hstack] at h
    | some stack =>
      simp only [hprogram, hstack, Except.ok.injEq] at h
      subst h
      exact ⟨⟨rfl, rfl, rfl, rfl, rfl⟩, rfl⟩

/-- Loading forgets everything but the capacities and the budget. -/
theorem load_over {s₀ : ScriptingSubsystem} (h₀ : Fresh s₀) (program : List Instruction)
    (stack : List Int64) (pc : Nat) (halted : Bool) (err : Option ScriptError)
    {p : List Instruction} (hroom : ¬ s₀.programCapacity < p.length) :
    (load { s₀ with program, stack, pc, halted, lastError := err } p).2 =
      { s₀ with program := p } := by
  obtain ⟨_, _, _, _, _, _, _, _⟩ := s₀
  obtain ⟨rfl, rfl, rfl, rfl, rfl⟩ := h₀
  simp only [load, if_neg hroom]

theorem machine_frame (s₀ : ScriptingSubsystem) (d : Desk) :
    ∃ stack pc halted err,
      d.machine s₀ = { s₀ with program := d.program, stack, pc, halted, lastError := err } := by
  rw [Desk.machine]
  cases d.ticked with
  | false => exact ⟨_, _, _, _, rfl⟩
  | true =>
    obtain ⟨stack, pc, halted, err, hsame, -⟩ :=
      executeLoop_ends s₀.instructionBudget { s₀ with program := d.program }
    exact ⟨stack, pc, halted, err, hsame⟩

/-- One call on the machine is one on the desk. -/
theorem call_machine {s₀ : ScriptingSubsystem} (h₀ : Fresh s₀) (d : Desk) (c : Call) :
    call (d.machine s₀) c = (d.call s₀.programCapacity c).machine s₀ := by
  cases c with
  | load p =>
    obtain ⟨stack, pc, halted, err, hframe⟩ := machine_frame s₀ d
    by_cases hroom : s₀.programCapacity < p.length
    · simp only [call, hframe, load, Desk.call, if_pos hroom]
    · have hdesk : d.call s₀.programCapacity (.load p) = ⟨p, false⟩ := if_neg hroom
      rw [hdesk, call, hframe]
      exact load_over h₀ d.program stack pc halted err hroom
  | tick =>
    have hfirst : ({ s₀ with program := d.program } : ScriptingSubsystem).tick =
        { s₀ with program := d.program }.execute := by
      simp [ScriptingSubsystem.tick, h₀.halted, h₀.lastError]
    cases hticked : d.ticked with
    | false =>
      simp only [call, Desk.call, Desk.machine, hticked, Bool.false_eq_true, if_false, if_true]
      exact hfirst
    | true =>
      -- what a tick left behind, a further tick leaves as it is
      have hagain := tick_tick { s₀ with program := d.program }
      rw [hfirst] at hagain
      simp only [call, Desk.call, Desk.machine, hticked, if_true]
      exact hagain

/-- **After any calls the machine is the desk's.** -/
theorem life_state {s₀ : ScriptingSubsystem} (h₀ : Fresh s₀) (calls : List Call) :
    calls.foldl call s₀ = (calls.foldl (Desk.call s₀.programCapacity) Desk.start).machine s₀ := by
  have hstart : Desk.start.machine s₀ = s₀ := by
    obtain ⟨_, _, _, _, _, _, _, _⟩ := s₀
    obtain ⟨rfl, rfl, rfl, rfl, rfl⟩ := h₀
    rfl
  have hrun : ∀ d : Desk, calls.foldl call (d.machine s₀) =
      (calls.foldl (Desk.call s₀.programCapacity) d).machine s₀ := by
    induction calls with
    | nil => exact fun d => rfl
    | cons c calls ih =>
      intro d
      rw [List.foldl_cons, List.foldl_cons, call_machine h₀]
      exact ih _
  rw [← hrun Desk.start, hstart]

theorem machine_shows {s₀ : ScriptingSubsystem} (h₀ : Fresh s₀) (d : Desk) :
    (d.machine s₀).observe = d.shows s₀.stackCapacity s₀.instructionBudget := by
  rw [Desk.machine, Desk.shows]
  cases d.ticked with
  | false => simp [observe, h₀.stack, h₀.lastError]
  | true =>
    have hspec := executeLoop_spec s₀.instructionBudget { s₀ with program := d.program } h₀.halted
      h₀.lastError
    simp only [h₀.pc, h₀.stack, List.drop_zero] at hspec
    simp only [if_true, observe, execute, outcome, h₀.pc, h₀.stack, ← hspec]

theorem Fresh.shows {s₀ : ScriptingSubsystem} (h₀ : Fresh s₀) (calls : List Call) :
    (calls.foldl call s₀).observe =
      (calls.foldl (Desk.call s₀.programCapacity) Desk.start).shows s₀.stackCapacity
        s₀.instructionBudget := by
  rw [life_state h₀, machine_shows h₀]

/-- **What a subsystem shows is the outcome of the last program it accepted**, and nothing before
    the tick that runs it. -/
theorem life_observe {grant : Nat → Option Nat} {programCapacity stackCapacity budget : Nat}
    {s₀ : ScriptingSubsystem}
    (h : tryWithCapacity grant programCapacity stackCapacity budget = .ok s₀) (calls : List Call) :
    (calls.foldl call s₀).observe =
      (calls.foldl (Desk.call s₀.programCapacity) Desk.start).shows s₀.stackCapacity budget := by
  obtain ⟨h₀, rfl⟩ := fresh_of_tryWithCapacity h
  exact h₀.shows calls

/-- A subsystem with room for programs of eight instructions. -/
def vm : ScriptingSubsystem := ⟨[], 8, [], 4, 8, 0, false, none⟩

/-- Six times seven. -/
def product : List Call := [.load [.push 6, .push 7, .mul, .halt], .tick, .tick]

/-- The program ran in the first tick; the second does not run it again. -/
theorem life_observe_product : (product.foldl call vm).observe = ([42], none) := by
  have hnew : tryWithCapacity some 8 4 8 = .ok vm := rfl
  have hshown := life_observe hnew product
  have hdesk : (product.foldl (Desk.call 8) Desk.start).shows 4 8 = ([42], none) := by
    decide +kernel
  exact hshown.trans hdesk

/-! ## Shapes -/

def Instruction.shape : Instruction → Instruction
  | .push _ => .push 0
  | i => i

/-- A call with the constants of its program struck out. -/
def Call.shape : Call → Call
  | .load program => .load (program.map Instruction.shape)
  | .tick => .tick

/-- How high the stack ends up, and the error, by the height of the stack alone. -/
def shadow (cap budget : Nat) (p : List Instruction) : Nat × Option ScriptError :=
  match StackWord.depth cap ((live p).take budget) 0 with
  | .error fault => (fault.height cap, some (faultError fault))
  | .ok n => (n, if needed p ≤ budget then none else some .instructionBudgetExceeded)

theorem outcome_shadow (cap budget : Nat) (p : List Instruction) :
    ((outcome cap budget p).1.length, (outcome cap budget p).2) = shadow cap budget p := by
  have hdepth := StackWord.eval_depth Arith.saturating cap ((live p).take budget) []
  rw [List.length_nil] at hdepth
  rw [outcome, outcomeFrom, shadow, ← hdepth]
  cases heval : StackWord.eval Arith.saturating cap ((live p).take budget) [] with
  | ok st => simp [Except.map, Except.mapError]
  | error e =>
    obtain ⟨fault, left⟩ := e
    have hleft := StackWord.length_of_fault heval
    simp [Except.map, Except.mapError, hleft]

theorem depth_shape (cap budget : Nat) (p : List Instruction) (n : Nat) :
    StackWord.depth cap ((live (p.map Instruction.shape)).take budget) n =
      StackWord.depth cap ((live p).take budget) n := by
  induction p generalizing budget n with
  | nil => rfl
  | cons i p ih =>
    cases budget with
    | zero => rfl
    | succ budget =>
      cases i with
      | halt => rfl
      | push v => simp [live, Instruction.shape, Instruction.word?, StackWord.depth, ih]
      | add => simp [live, Instruction.shape, Instruction.word?, StackWord.depth, ih]
      | sub => simp [live, Instruction.shape, Instruction.word?, StackWord.depth, ih]
      | mul => simp [live, Instruction.shape, Instruction.word?, StackWord.depth, ih]

theorem needed_shape (p : List Instruction) : needed (p.map Instruction.shape) = needed p := by
  induction p with
  | nil => rfl
  | cons i p ih => cases i <;> simp [needed, Instruction.shape, Instruction.word?, ih]

theorem shadow_shape (cap budget : Nat) (p : List Instruction) :
    shadow cap budget (p.map Instruction.shape) = shadow cap budget p := by
  rw [shadow, shadow, depth_shape, needed_shape]

/-- The desk of the struck-out calls. -/
theorem desk_shape (room : Nat) (calls : List Call) (d : Desk) :
    (calls.map Call.shape).foldl (Desk.call room) ⟨d.program.map Instruction.shape, d.ticked⟩ =
      ⟨(calls.foldl (Desk.call room) d).program.map Instruction.shape,
        (calls.foldl (Desk.call room) d).ticked⟩ := by
  induction calls generalizing d with
  | nil => rfl
  | cons c calls ih =>
    rw [List.map_cons, List.foldl_cons, List.foldl_cons, ← ih]
    congr 1
    cases c with
    | tick => rfl
    | load p =>
      simp only [Desk.call, Call.shape, List.length_map]
      split <;> rfl

/-- The height and the error the desk shows. -/
def Desk.shadow (cap budget : Nat) (d : Desk) : Nat × Option ScriptError :=
  if d.ticked then Scripting.shadow cap budget d.program else (0, none)

theorem shows_shadow (cap budget : Nat) (d : Desk) :
    ((d.shows cap budget).1.length, (d.shows cap budget).2) = d.shadow cap budget := by
  rw [Desk.shows, Desk.shadow]
  cases d.ticked with
  | false => rfl
  | true => exact outcome_shadow cap budget d.program

/-- **No constant decides whether a script fails.** Two lives whose calls differ in the pushed
    constants alone come to the same error, with a stack of the same height. -/
theorem life_shape {grant : Nat → Option Nat} {programCapacity stackCapacity budget : Nat}
    {s₀ : ScriptingSubsystem}
    (h : tryWithCapacity grant programCapacity stackCapacity budget = .ok s₀)
    {calls calls' : List Call} (hshape : calls.map Call.shape = calls'.map Call.shape) :
    (calls.foldl call s₀).lastError = (calls'.foldl call s₀).lastError ∧
      (calls.foldl call s₀).stack.length = (calls'.foldl call s₀).stack.length := by
  obtain ⟨h₀, rfl⟩ := fresh_of_tryWithCapacity h
  have hshown : ∀ cs : List Call,
      ((cs.foldl call s₀).stack.length, (cs.foldl call s₀).lastError) =
        ((cs.map Call.shape).foldl (Desk.call s₀.programCapacity) Desk.start).shadow
          s₀.stackCapacity s₀.instructionBudget := by
    intro cs
    have hshadow := shows_shadow s₀.stackCapacity s₀.instructionBudget
      (cs.foldl (Desk.call s₀.programCapacity) Desk.start)
    rw [← h₀.shows cs] at hshadow
    simp only [observe, List.length_reverse] at hshadow
    have hdesk := desk_shape s₀.programCapacity cs Desk.start
    have hstart : (⟨Desk.start.program.map Instruction.shape, Desk.start.ticked⟩ : Desk) =
        Desk.start := rfl
    rw [hstart] at hdesk
    rw [hshadow, hdesk, Desk.shadow, Desk.shadow, shadow_shape]
  have hboth := hshown calls
  rw [hshape, ← hshown calls'] at hboth
  exact ⟨congrArg Prod.snd hboth, congrArg Prod.fst hboth⟩

/-- Either program lacks a third value for its second addition, whatever the two are. -/
theorem life_shape_sum :
    ([Call.load [.push 1, .push 2, .add, .add], .tick].foldl call vm).lastError =
      ([Call.load [.push 3, .push 4, .add, .add], .tick].foldl call vm).lastError := by
  have hnew : tryWithCapacity some 8 4 8 = .ok vm := rfl
  have hshape : [Call.load [.push 1, .push 2, .add, .add], .tick].map Call.shape =
      [Call.load [.push 3, .push 4, .add, .add], .tick].map Call.shape := rfl
  exact (life_shape hnew hshape).1

/-! ## Integers -/

def Arith.integer : Arith → Int → Int → Int
  | .add, a, b => a + b
  | .sub, a, b => a - b
  | .mul, a, b => a * b

/-- The operation on integers, as long as its result fits an `i64`. -/
def Arith.exact (o : Arith) (a b : Int) : Option Int :=
  if InI64 (o.integer a b) then some (o.integer a b) else none

theorem toInt_saturating (o : Arith) (a b : Int64) (c : Int)
    (h : o.exact a.toInt b.toInt = some c) : (o.saturating a b).toInt = c := by
  obtain ⟨hfits, hc⟩ := Option.ite_none_right_eq_some.mp h
  obtain rfl := Option.some.inj hc
  cases o with
  | add => exact toInt_i64SaturatingAdd hfits
  | sub => exact toInt_i64SaturatingSub hfits
  | mul => exact toInt_i64SaturatingMul hfits

theorem length_live_le (p : List Instruction) : (live p).length ≤ needed p := by
  induction p with
  | nil => exact Nat.le_refl 0
  | cons i p ih => cases hi : i.word? <;> simp [live, needed, hi, ih]

/-- **Scripts compute with integers.** Without an error the stack holds what the last program
    computes over the integers, where none of its results leaves the range of an `i64`; if no tick
    came after that program was loaded, it holds nothing. -/
theorem life_integers {grant : Nat → Option Nat} {programCapacity stackCapacity budget : Nat}
    {s₀ : ScriptingSubsystem}
    (h : tryWithCapacity grant programCapacity stackCapacity budget = .ok s₀) (calls : List Call)
    (herror : (calls.foldl call s₀).lastError = none) :
    ((calls.foldl (Desk.call s₀.programCapacity) Desk.start).ticked = true → ∀ image : List Int,
      StackWord.evalOver Arith.exact Int64.toInt
          (live (calls.foldl (Desk.call s₀.programCapacity) Desk.start).program) [] = some image →
        (calls.foldl call s₀).stack.map Int64.toInt = image) ∧
      ((calls.foldl (Desk.call s₀.programCapacity) Desk.start).ticked = false →
        (calls.foldl call s₀).stack = []) := by
  obtain ⟨h₀, rfl⟩ := fresh_of_tryWithCapacity h
  have hobserve := h₀.shows calls
  generalize hd : calls.foldl (Desk.call s₀.programCapacity) Desk.start = d at *
  refine ⟨?_, ?_⟩
  · intro hticked image himage
    rw [Desk.shows, if_pos hticked, observe, herror, outcome, outcomeFrom] at hobserve
    cases heval : StackWord.eval Arith.saturating s₀.stackCapacity
        ((live d.program).take s₀.instructionBudget) [] with
    | error e => simp [heval] at hobserve
    | ok st =>
      simp only [heval, Prod.mk.injEq, List.reverse_inj] at hobserve
      obtain ⟨hstack, hbudget⟩ := hobserve
      have henough : needed d.program ≤ s₀.instructionBudget := by
        apply Classical.byContradiction
        intro hshort
        rw [if_neg hshort] at hbudget
        cases hbudget
      rw [List.take_of_length_le (Nat.le_trans (length_live_le d.program) henough)] at heval
      rw [hstack]
      exact StackWord.eval_image toInt_saturating heval himage
  · intro hwaiting
    rw [Desk.shows, hwaiting] at hobserve
    exact List.reverse_eq_nil_iff.mp (congrArg Prod.fst hobserve)

/-- The product, and a program that still waits for its tick. -/
theorem life_integers_product : (product.foldl call vm).stack.map Int64.toInt = [42] ∧
    ((product ++ [Call.load [.push 1]]).foldl call vm).stack = [] := by
  have hnew : tryWithCapacity some 8 4 8 = .ok vm := rfl
  have herror : (product.foldl call vm).lastError = none := by decide +kernel
  have himage : StackWord.evalOver Arith.exact Int64.toInt
      (live (product.foldl (Desk.call vm.programCapacity) Desk.start).program) [] = some [42] := by
    decide +kernel
  have hloaded : ((product ++ [Call.load [.push 1]]).foldl call vm).lastError = none := by
    decide +kernel
  exact ⟨(life_integers hnew product herror).1 rfl [42] himage,
    (life_integers hnew (product ++ [Call.load [.push 1]]) hloaded).2 rfl⟩

end Scripting
end EngineKit
