import EngineKit.Rubik.History

/-!
# The driver of the cube

`RubikDriver` of `examples/rubik_3d/driver.rs`: a queue of moves, the one that is being animated,
and the cube. A move takes a quarter of a second, and the cube is turned when it is over. The
progress of an animation as a fraction is left to the renderer.
-/

set_option autoImplicit false

namespace EngineKit
namespace Rubik

/-- `MOVE_DURATION_NS` -/
def moveDurationNs : Nat := 250000000

/-- `MAX_QUEUED_MOVES` -/
def maxQueuedMoves : Nat := 256

inductive MoveFace where
  | u
  | d
  | l
  | r
  | f
  | b
  | m
  | e
  | s
deriving DecidableEq

def MoveFace.command (face : MoveFace) (inverse : Bool) : RotationCommand :=
  let command : RotationCommand := match face with
    | .r => ⟨.x, 1, 1, by decide, by decide⟩
    | .l => ⟨.x, -1, -1, by decide, by decide⟩
    | .m => ⟨.x, 0, -1, by decide, by decide⟩
    | .u => ⟨.y, 1, 1, by decide, by decide⟩
    | .d => ⟨.y, -1, -1, by decide, by decide⟩
    | .e => ⟨.y, 0, -1, by decide, by decide⟩
    | .f => ⟨.z, 1, 1, by decide, by decide⟩
    | .b => ⟨.z, -1, -1, by decide, by decide⟩
    | .s => ⟨.z, 0, 1, by decide, by decide⟩
  if inverse then command.inverse else command

structure MoveRequest where
  face : MoveFace
  inverse : Bool
  double : Bool

/-- `active` comes with the time it has been animated for. -/
structure RubikDriver where
  state : CubeState
  queue : List RotationCommand
  active : Option (RotationCommand × Nat)
  rng : UInt32

/-- `XorShift32::next`: the number and the state are the same. -/
def xorShift32 (value : UInt32) : UInt32 :=
  let value := value ^^^ (value <<< 13)
  let value := value ^^^ (value >>> 17)
  value ^^^ (value <<< 5)

namespace RubikDriver

def new : RubikDriver := ⟨CubeState.new, [], none, 0x9e3779b9⟩

def isIdle (d : RubikDriver) : Bool := d.active.isNone && d.queue.isEmpty

def enqueue (d : RubikDriver) (request : MoveRequest) : Bool × RubikDriver :=
  let count := if request.double then 2 else 1
  if maxQueuedMoves < d.queue.length + count then (false, d)
  else
    let command := request.face.command request.inverse
    (true, { d with queue := d.queue ++ List.replicate count command })

def enqueueCommand (d : RubikDriver) (command : RotationCommand) : Bool × RubikDriver :=
  if maxQueuedMoves ≤ d.queue.length then (false, d)
  else (true, { d with queue := d.queue ++ [command] })

/-- The loop of `advance`. Each round but the last finishes a move. -/
def advanceLoop : Nat → RubikDriver → Nat → RubikDriver
  | 0, d, _ => d
  | rounds + 1, d, remaining =>
    if 0 < remaining ∨ (d.active.isNone ∧ d.queue ≠ []) then
      let d := match d.active, d.queue with
        | none, command :: queue => { d with queue, active := some (command, 0) }
        | _, _ => d
      match d.active with
      | none => d
      | some (command, elapsed) =>
        let needed := moveDurationNs - elapsed
        let step := min remaining needed
        let nextElapsed := elapsed + step
        if moveDurationNs ≤ nextElapsed then
          advanceLoop rounds { d with state := (d.state.applyMove command).2, active := none }
            (remaining - step)
        else { d with active := some (command, nextElapsed) }
    else d

def advance (d : RubikDriver) (dtNs : Nat) : RubikDriver :=
  advanceLoop (d.queue.length + 2) d (min dtNs moveDurationNs)

def undo (d : RubikDriver) : Bool × RubikDriver :=
  if d.isIdle then
    let (undone, state) := d.state.undo
    (undone, { d with state })
  else (false, d)

def redo (d : RubikDriver) : Bool × RubikDriver :=
  if d.isIdle then
    let (redone, state) := d.state.redoMove
    (redone, { d with state })
  else (false, d)

def reset (d : RubikDriver) : RubikDriver :=
  { d with queue := [], active := none, state := CubeState.new }

/-- A face by its number in `shuffle`. -/
def faceOf (n : UInt32) : MoveFace :=
  match n.toNat % 9 with
  | 0 => .u
  | 1 => .d
  | 2 => .l
  | 3 => .r
  | 4 => .f
  | 5 => .b
  | 6 => .m
  | 7 => .e
  | _ => .s

/-- The inner loop of `shuffle`: draws until the layer is another one, `tries` times at most. -/
def drawCommand (previous : Option RotationCommand) : Nat → UInt32 →
    Option (RotationCommand × UInt32)
  | 0, _ => none
  | tries + 1, rng =>
    let first := xorShift32 rng
    let second := xorShift32 first
    let command := (faceOf first).command (second &&& 1 ≠ 0)
    let other := match previous with
      | none => true
      | some last => last.axis ≠ command.axis || last.layer ≠ command.layer
    if other then some (command, second) else drawCommand previous tries second

def shuffleLoop (tries : Nat) : Nat → Option RotationCommand → RubikDriver → Option RubikDriver
  | 0, _, d => some d
  | count + 1, previous, d =>
    match drawCommand previous tries d.rng with
    | none => none
    | some (command, rng) =>
      shuffleLoop tries count (some command) ({ d with rng }.enqueueCommand command).2

/-- None if some move was not drawn in `tries` draws. -/
def shuffle (d : RubikDriver) (tries count : Nat) : Option RubikDriver :=
  shuffleLoop tries (min count maxQueuedMoves) none { d with queue := [], active := none }

def solveHistory (d : RubikDriver) : RubikDriver :=
  if d.isIdle then
    d.state.history.foldl (fun d command => (d.enqueueCommand command.inverse).2)
      { d with queue := [] }
  else d

end RubikDriver

end Rubik
end EngineKit
