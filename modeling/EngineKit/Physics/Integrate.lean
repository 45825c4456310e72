import EngineKit.Input.Edges
import EngineKit.Lib.Truncation
import EngineKit.Render.Frames

/-!
# Bodies in motion

`PhysicsSubsystem` of `src/subsystems/physics.rs`. Positions are whole units and velocities whole
units per second; `integrate` adds to each position what its velocity makes of the time step, a
division that truncates and whose rest is not kept.

So a body drifts. After `n` steps it is where it should be, to the unit, exactly if `n` such rests
make up no more than one unit (`onCourse_iff`), and one whose step is less than a unit never moves
(`position_of_slow`).

The bodies do not touch each other, so a run of the subsystem is a run of each body
(`getElem?_run`), and of a run nothing matters to a body but the number of ticks. Where nothing
saturates each step adds the same number of whole units, the velocity never changing; the rest of
the division is the same in each step as well, and `n` steps are off by `n` rests.
-/

set_option autoImplicit false

namespace EngineKit
namespace Physics

open Lib
open Input (InputFrame)
open Render (FIXED_DT_NS)

def NANOS_PER_SECOND : Int64 := 1000000000

structure Body where
  position : Vector Int64 2
  velocity : Vector Int64 2
deriving DecidableEq

/-- `i64::try_from(dt_ns).unwrap_or(i64::MAX)` -/
def i64OrMax (dtNs : UInt64) : Int64 :=
  if dtNs.toNat < 2 ^ 63 then Int64.ofNat dtNs.toNat else Int64.maxValue

/-- One position after one step. -/
def moved (position velocity dt : Int64) : Int64 :=
  i64SaturatingAdd position (i64SaturatingMul velocity dt / NANOS_PER_SECOND)

/-- The body's turn in `integrate`. -/
def Body.integrate (dtNs : UInt64) (body : Body) : Body :=
  { body with
    position := Vector.ofFn fun axis =>
      moved (body.position.get axis) (body.velocity.get axis) (i64OrMax dtNs) }

inductive PhysicsError where
  | allocationFailed
deriving DecidableEq

/-- A message in the inbox: its topic, and the frame if it carries one. -/
structure PhysicsEnvelope where
  topic : UInt16
  message : Option InputFrame

/-- `bodies` within the room that was reserved for them. -/
structure PhysicsSubsystem where
  bodies : List Body
  capacity : Nat
  lastInput : Option InputFrame
  reserved : bodies.length ≤ capacity

namespace PhysicsSubsystem

/-- `try_with_capacity`. `room` says whether there is memory for that many bodies. -/
def tryWithCapacity (room : Bool) (capacity : Nat) : Except PhysicsError PhysicsSubsystem :=
  if room then .ok ⟨[], capacity, none, Nat.zero_le capacity⟩ else .error .allocationFailed

def addBody (s : PhysicsSubsystem) (body : Body) : Option Nat × PhysicsSubsystem :=
  if h : s.bodies.length = s.capacity then (none, s)
  else
    (some s.bodies.length,
      { s with
        bodies := s.bodies ++ [body]
        reserved := by
          rw [List.length_append]
          exact Nat.lt_of_le_of_ne s.reserved h })

def integrate (dtNs : UInt64) (s : PhysicsSubsystem) : PhysicsSubsystem :=
  { s with
    bodies := s.bodies.map (Body.integrate dtNs)
    reserved := by
      rw [List.length_map]
      exact s.reserved }

/-- The last frame in the inbox stays. -/
def receive (inbox : List PhysicsEnvelope) (s : PhysicsSubsystem) : PhysicsSubsystem :=
  inbox.foldl
    (fun s envelope =>
      if envelope.topic = 2 then
        match envelope.message with
        | some input => { s with lastInput := some input }
        | none => s
      else s) s

def tick (inbox : List PhysicsEnvelope) (dtNs : UInt64) (s : PhysicsSubsystem) :
    PhysicsSubsystem :=
  (s.receive inbox).integrate dtNs

end PhysicsSubsystem

/-! ## One step -/

/-- Nothing on the way to a new position leaves the range of its type: not the time step, not the
    product, not the sum. -/
def Fits (dtNs : UInt64) (position velocity : Int64) : Prop :=
  InI64 dtNs.toNat ∧ InI64 (velocity.toInt * dtNs.toNat) ∧
    InI64 (position.toInt + (velocity.toInt * dtNs.toNat).tdiv 1000000000)

instance (dtNs : UInt64) (position velocity : Int64) : Decidable (Fits dtNs position velocity) :=
  inferInstanceAs (Decidable (_ ∧ _ ∧ _))

/-- A time step in range is itself. -/
theorem toInt_i64OrMax {dtNs : UInt64} (h : InI64 dtNs.toNat) :
    (i64OrMax dtNs).toInt = dtNs.toNat := by
  have hle : (dtNs.toNat : Int) ≤ 9223372036854775807 := h.2
  have hlt : dtNs.toNat < 2 ^ 63 := by omega
  rw [i64OrMax, if_pos hlt]
  exact Int64.toInt_ofNat_of_lt hlt

/-- **A step without saturation.** -/
theorem toInt_moved {dtNs : UInt64} {position velocity : Int64} (h : Fits dtNs position velocity) :
    (moved position velocity (i64OrMax dtNs)).toInt =
      position.toInt + (velocity.toInt * dtNs.toNat).tdiv 1000000000 := by
  obtain ⟨hdt, hproduct, hsum⟩ := h
  rw [← toInt_i64OrMax hdt] at hproduct hsum ⊢
  have hquotient : (i64SaturatingMul velocity (i64OrMax dtNs) / NANOS_PER_SECOND).toInt =
      (velocity.toInt * (i64OrMax dtNs).toInt).tdiv 1000000000 := by
    rw [Int64.toInt_div_of_ne_right _ _ (by decide), toInt_i64SaturatingMul hproduct]
    rfl
  rw [← hquotient] at hsum ⊢
  exact toInt_i64SaturatingAdd hsum

/-- **A step of less than a unit** is none, saturation or not. -/
theorem moved_of_slow {dtNs : UInt64} {velocity : Int64} (position : Int64)
    (h : (velocity.toInt * dtNs.toNat).natAbs < 1000000000) :
    moved position velocity (i64OrMax dtNs) = position := by
  have hdt : (i64OrMax dtNs).toInt.natAbs ≤ dtNs.toNat := by
    -- A time step that does not fit is cut off, so it is not longer than it was.
    by_cases hlt : dtNs.toNat < 2 ^ 63
    · rw [i64OrMax, if_pos hlt, Int64.toInt_ofNat_of_lt hlt, Int.natAbs_natCast]
    · have hmax : Int64.maxValue.toInt.natAbs = 2 ^ 63 - 1 := rfl
      rw [i64OrMax, if_neg hlt, hmax]
      omega
  have hsmall : (velocity.toInt * (i64OrMax dtNs).toInt).natAbs < 1000000000 := by
    rw [Int.natAbs_mul, Int.natAbs_natCast] at h
    rw [Int.natAbs_mul]
    exact lt_of_le_of_lt (Nat.mul_le_mul_left _ hdt) h
  have hproduct : InI64 (velocity.toInt * (i64OrMax dtNs).toInt) := by
    have hmin : Int64.minValue.toInt = -9223372036854775808 := rfl
    have hmax : Int64.maxValue.toInt = 9223372036854775807 := rfl
    rw [InI64, hmin, hmax]
    omega
  have hquotient : i64SaturatingMul velocity (i64OrMax dtNs) / NANOS_PER_SECOND = 0 := by
    rw [← Int64.toInt_inj, Int64.toInt_div_of_ne_right _ _ (by decide),
      toInt_i64SaturatingMul hproduct]
    exact Int.natAbs_eq_zero.mp ((Int.natAbs_tdiv _ _).trans (Nat.div_eq_of_lt hsmall))
  rw [moved, hquotient, i64SaturatingAdd, Int64.toInt_zero, Int.add_zero, Int64.ofIntClamp_toInt]

/-- In this turn of the body nothing saturates. -/
def Body.Unsaturated (dtNs : UInt64) (body : Body) : Prop :=
  ∀ axis, Fits dtNs (body.position.get axis) (body.velocity.get axis)

instance (dtNs : UInt64) (body : Body) : Decidable (body.Unsaturated dtNs) :=
  inferInstanceAs
    (Decidable (∀ axis : Fin 2, Fits dtNs (body.position.get axis) (body.velocity.get axis)))

namespace Body

@[simp] theorem velocity_integrate (dtNs : UInt64) (body : Body) :
    (body.integrate dtNs).velocity = body.velocity := rfl

/-- Each axis by itself. -/
theorem position_integrate (dtNs : UInt64) (body : Body) (axis : Fin 2) :
    (body.integrate dtNs).position.get axis =
      moved (body.position.get axis) (body.velocity.get axis) (i64OrMax dtNs) := by
  show (body.integrate dtNs).position[axis.val] = _
  rw [integrate, Vector.getElem_ofFn]

/-- The velocity stays. -/
theorem velocity_iterate (dtNs : UInt64) (body : Body) (n : Nat) :
    ((integrate dtNs)^[n] body).velocity = body.velocity := by
  induction n with
  | zero => rfl
  | succ n ih => rw [Function.iterate_succ_apply', velocity_integrate, ih]

/-- **`n` steps without saturation.** Each adds the same whole units. -/
theorem position_iterate {dtNs : UInt64} {body : Body} {n : Nat}
    (h : ∀ k < n, ((integrate dtNs)^[k] body).Unsaturated dtNs) (axis : Fin 2) :
    (((integrate dtNs)^[n] body).position.get axis).toInt =
      (body.position.get axis).toInt +
        n * ((body.velocity.get axis).toInt * dtNs.toNat).tdiv 1000000000 := by
  induction n with
  | zero => simp
  | succ n ih =>
    have hlast := h n (Nat.lt_succ_self n) axis
    have hbefore := ih fun k hk => h k (Nat.lt_succ_of_lt hk)
    rw [Function.iterate_succ_apply', position_integrate, toInt_moved hlast, hbefore,
      velocity_iterate]
    push_cast
    ring

/-- **A slow body stands still**, however long. -/
theorem position_of_slow {dtNs : UInt64} {body : Body} {axis : Fin 2}
    (h : ((body.velocity.get axis).toInt * dtNs.toNat).natAbs < 1000000000) (n : Nat) :
    ((integrate dtNs)^[n] body).position.get axis = body.position.get axis := by
  induction n with
  | zero => rfl
  | succ n ih =>
    rw [Function.iterate_succ_apply', position_integrate, velocity_iterate, moved_of_slow _ h, ih]

end Body

/-! ## Runs -/

/-- Between two ticks a body may be added. -/
inductive PhysicsStep where
  | add (body : Body)
  | tick (inbox : List PhysicsEnvelope)

/-- How often `integrate` is called. -/
def ticks : List PhysicsStep → Nat
  | [] => 0
  | .add _ :: steps => ticks steps
  | .tick _ :: steps => ticks steps + 1

namespace PhysicsSubsystem

def step (dtNs : UInt64) (s : PhysicsSubsystem) : PhysicsStep → PhysicsSubsystem
  | .add body => (s.addBody body).2
  | .tick inbox => s.tick inbox dtNs

def run (dtNs : UInt64) (s : PhysicsSubsystem) (steps : List PhysicsStep) : PhysicsSubsystem :=
  steps.foldl (step dtNs) s

@[simp] theorem bodies_receive (inbox : List PhysicsEnvelope) (s : PhysicsSubsystem) :
    (s.receive inbox).bodies = s.bodies := by
  induction inbox generalizing s with
  | nil => rfl
  | cons envelope inbox ih =>
    show (receive inbox _).bodies = _
    rw [ih]
    by_cases htopic : envelope.topic = 2
    · simp only [if_pos htopic]
      cases envelope.message with
      | none => rfl
      | some input => rfl
    · simp only [if_neg htopic]

/-- A tick moves every body. -/
theorem bodies_tick (inbox : List PhysicsEnvelope) (dtNs : UInt64) (s : PhysicsSubsystem) :
    (s.tick inbox dtNs).bodies = s.bodies.map (Body.integrate dtNs) :=
  congrArg (List.map (Body.integrate dtNs)) (bodies_receive inbox s)

/-- Bodies are added behind the others. -/
theorem getElem?_addBody {s : PhysicsSubsystem} {i : Nat} {body : Body}
    (h : s.bodies[i]? = some body) (other : Body) :
    (s.addBody other).2.bodies[i]? = some body := by
  unfold addBody
  by_cases hfull : s.bodies.length = s.capacity
  · rw [dif_pos hfull]
    exact h
  · rw [dif_neg hfull]
    exact (List.getElem?_append_left (List.getElem?_eq_some_iff.mp h).1).trans h

/-- **A body through a run.** It keeps its index, and no other has a part in where it goes. -/
theorem getElem?_run {dtNs : UInt64} {s : PhysicsSubsystem} {i : Nat} {body : Body}
    (h : s.bodies[i]? = some body) (steps : List PhysicsStep) :
    (s.run dtNs steps).bodies[i]? = some ((Body.integrate dtNs)^[ticks steps] body) := by
  induction steps generalizing s body with
  | nil => exact h
  | cons step steps ih =>
    cases step with
    | add other => exact ih (getElem?_addBody h other)
    | tick inbox =>
      have hnext : (s.tick inbox dtNs).bodies[i]? = some (body.integrate dtNs) := by
        rw [bodies_tick, List.getElem?_map, h]
        rfl
      exact ih hnext

end PhysicsSubsystem

/-! ## Drift -/

/-- Where the body is and where it should be after `n` steps differ by at most one unit on each
    axis. -/
def OnCourse (dtNs : UInt64) (n : Nat) (start now : Body) : Prop :=
  ∀ axis : Fin 2,
    |(((now.position.get axis).toInt - (start.position.get axis).toInt : Int) : ℚ) -
      (start.velocity.get axis).toInt * n * dtNs.toNat / 10 ^ 9| ≤ 1

/-- What the division of one step leaves over, `n` times, is at most one unit. -/
def RestsFit (dtNs : UInt64) (n : Nat) (body : Body) : Prop :=
  ∀ axis : Fin 2,
    n * (((body.velocity.get axis).toInt * dtNs.toNat).natAbs % 1000000000) ≤ 1000000000

/-- **How far a body is off**: by the rests of its steps. -/
theorem onCourse_iterate_iff {dtNs : UInt64} {body : Body} {n : Nat}
    (h : ∀ k < n, ((Body.integrate dtNs)^[k] body).Unsaturated dtNs) :
    OnCourse dtNs n body ((Body.integrate dtNs)^[n] body) ↔ RestsFit dtNs n body := by
  refine forall_congr' ?_
  intro axis
  have hmoved : (((Body.integrate dtNs)^[n] body).position.get axis).toInt -
      (body.position.get axis).toInt =
      n * ((body.velocity.get axis).toInt * dtNs.toNat).tdiv 1000000000 := by
    rw [Body.position_iterate h, add_sub_cancel_left]
  have hexact : ((body.velocity.get axis).toInt : ℚ) * n * dtNs.toNat / 10 ^ 9 =
      n * ((body.velocity.get axis).toInt * dtNs.toNat : Int) / (1000000000 : Nat) := by
    push_cast
    ring
  rw [hmoved, hexact]
  exact near_iff n _ (by decide)

/-- **When a body does not drift.** -/
theorem PhysicsSubsystem.onCourse_iff {dtNs : UInt64} {s : PhysicsSubsystem} {i : Nat}
    {body : Body} (hbody : s.bodies[i]? = some body) (steps : List PhysicsStep)
    (h : ∀ k < ticks steps, ((Body.integrate dtNs)^[k] body).Unsaturated dtNs) :
    (∃ now, (s.run dtNs steps).bodies[i]? = some now ∧ OnCourse dtNs (ticks steps) body now) ↔
      RestsFit dtNs (ticks steps) body := by
  rw [getElem?_run hbody, ← onCourse_iterate_iff h]
  constructor
  · intro hrun
    obtain ⟨now, hnow, hcourse⟩ := hrun
    rwa [Option.some.inj hnow]
  · intro hcourse
    exact ⟨_, rfl, hcourse⟩

def PhysicsSubsystem.alone (body : Body) : PhysicsSubsystem := ⟨[body], 1, none, Nat.le_refl 1⟩

/-- Half a second at three units per second, and at five the other way: either leaves half a unit
    over. -/
def halfSecond : Body := ⟨#v[0, 10], #v[3, -5]⟩

/-- After two steps a unit is missing, and no more. -/
theorem onCourse_halfSecond :
    RestsFit 500000000 2 halfSecond ∧
      ((PhysicsSubsystem.alone halfSecond).run 500000000 [.tick [], .tick []]).bodies =
        [⟨#v[2, 6], #v[3, -5]⟩] ∧
      OnCourse 500000000 2 halfSecond ⟨#v[2, 6], #v[3, -5]⟩ := by
  have hfits : ∀ k < 2, ((Body.integrate 500000000)^[k] halfSecond).Unsaturated 500000000 := by
    decide +kernel
  have hrests : RestsFit 500000000 2 halfSecond := by
    unfold RestsFit
    decide +kernel
  have hbody : (PhysicsSubsystem.alone halfSecond).bodies[0]? = some halfSecond := rfl
  have hrun : ((PhysicsSubsystem.alone halfSecond).run 500000000 [.tick [], .tick []]).bodies =
      [⟨#v[2, 6], #v[3, -5]⟩] := by decide +kernel
  obtain ⟨now, hnow, hcourse⟩ :=
    (PhysicsSubsystem.onCourse_iff hbody [.tick [], .tick []] hfits).mpr hrests
  rw [hrun] at hnow
  obtain rfl := Option.some.inj hnow
  exact ⟨hrests, hrun, hcourse⟩

/-- Less than a unit in one step of the kernel, and almost two in two. -/
def slow : Body := ⟨#v[0, 0], #v[59, 0]⟩

/-- In each step less than a unit is gained, which the division drops: after two frames it stands
    where it stood. -/
theorem onCourse_slow :
    (∀ k < 2, ((Body.integrate FIXED_DT_NS)^[k] slow).Unsaturated FIXED_DT_NS) ∧
      ((PhysicsSubsystem.alone slow).run FIXED_DT_NS [.tick [], .tick []]).bodies = [slow] ∧
      ¬ OnCourse FIXED_DT_NS 2 slow slow := by
  have hcourse : ¬ |((0 : Int) : ℚ) - (59 : Int) * (2 : Nat) * (16666667 : Nat) / 10 ^ 9| ≤ 1 := by
    norm_num [abs_of_neg]
  refine ⟨by decide +kernel, by decide +kernel, fun h => hcourse (h 0)⟩

end Physics
end EngineKit
