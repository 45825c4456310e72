import Mathlib.LinearAlgebra.Matrix.Notation

/-!
# The cube

`CubeState` of `examples/rubik_3d/state.rs`. The cube is its 27 cubies, each with the cell it is in,
the matrix it has been turned by and the colours it started with; the 54 facelets are painted from
them after every move. `i8` entries are integers here: those of a cube are never outside -1, 0, 1.
-/

set_option autoImplicit false

namespace EngineKit
namespace Rubik

/-- There are axes to index. -/
scoped instance neZero_axes : NeZero 3 := ⟨three_ne_zero⟩

/-- `[i8; 3]` -/
abbrev Vec := Fin 3 → Int

/-- `[[i8; 3]; 3]` -/
abbrev Mat := Matrix (Fin 3) (Fin 3) Int

inductive Axis where
  | x
  | y
  | z
deriving DecidableEq

def Axis.index : Axis → Fin 3
  | .x => 0
  | .y => 1
  | .z => 2

/-- `RotationCommand::new` hands out no others. -/
structure RotationCommand where
  axis : Axis
  layer : Int
  direction : Int
  layer_mem : -1 ≤ layer ∧ layer ≤ 1
  direction_mem : direction = 1 ∨ direction = -1
deriving DecidableEq

def RotationCommand.new (axis : Axis) (layer direction : Int) : Option RotationCommand :=
  if h : layer < -1 ∨ 1 < layer ∨ (direction ≠ -1 ∧ direction ≠ 1) then none
  else
    some ⟨axis, layer, direction, by omega, by omega⟩

def RotationCommand.inverse (c : RotationCommand) : RotationCommand :=
  { c with
    direction := - c.direction
    direction_mem := by
      obtain h | h := c.direction_mem
      · exact Or.inr (by rw [h])
      · exact Or.inl (by rw [h]; rfl) }

/-- `faceColors` is in the order of `faceNormals`; 6 is no colour. -/
structure Cubie where
  coordinate : Vec
  orientation : Mat
  faceColors : Fin 6 → Nat
deriving DecidableEq

/-- The moves done and the moves undone, each with its last entry first. -/
structure CubeState where
  cubies : Vector Cubie 27
  facelets : List Nat
  history : List RotationCommand
  redo : List RotationCommand

def faceNormals : Fin 6 → Vec :=
  ![![0, 0, 1], ![0, 0, -1], ![-1, 0, 0], ![1, 0, 0], ![0, 1, 0], ![0, -1, 0]]

def identityOrientation : Mat := !![1, 0, 0; 0, 1, 0; 0, 0, 1]

def initialFaceColors (coordinate : Vec) : Fin 6 → Nat :=
  ![if coordinate 2 = 1 then 2 else 6, if coordinate 2 = -1 then 5 else 6,
    if coordinate 0 = -1 then 0 else 6, if coordinate 0 = 1 then 3 else 6,
    if coordinate 1 = 1 then 4 else 6, if coordinate 1 = -1 then 1 else 6]

def rotationMatrix : Axis → Int → Mat
  | .x, 1 => !![1, 0, 0; 0, 0, -1; 0, 1, 0]
  | .x, -1 => !![1, 0, 0; 0, 0, 1; 0, -1, 0]
  | .y, 1 => !![0, 0, 1; 0, 1, 0; -1, 0, 0]
  | .y, -1 => !![0, 0, -1; 0, 1, 0; 1, 0, 0]
  | .z, 1 => !![0, -1, 0; 1, 0, 0; 0, 0, 1]
  | .z, -1 => !![0, 1, 0; -1, 0, 0; 0, 0, 1]
  | _, _ => identityOrientation

def rotateCoordinate (c : Vec) : Axis → Int → Vec
  | .x, 1 => ![c 0, - c 2, c 1]
  | .x, -1 => ![c 0, c 2, - c 1]
  | .y, 1 => ![c 2, c 1, - c 0]
  | .y, -1 => ![- c 2, c 1, c 0]
  | .z, 1 => ![- c 1, c 0, c 2]
  | .z, -1 => ![c 1, - c 0, c 2]
  | _, _ => c

def multiplyI8 (a b : Mat) : Mat :=
  .of fun row column => ((List.finRange 3).map fun index => a row index * b index column).sum

def multiplyVec (m : Mat) (v : Vec) : Vec :=
  ![m 0 0 * v 0 + m 0 1 * v 1 + m 0 2 * v 2, m 1 0 * v 0 + m 1 1 * v 1 + m 1 2 * v 2,
    m 2 0 * v 0 + m 2 1 * v 1 + m 2 2 * v 2]

def faceletIndex (normal coordinate : Vec) : Nat :=
  let face : Nat :=
    if normal = ![0, 0, 1] then 0
    else if normal = ![0, 0, -1] then 1
    else if normal = ![-1, 0, 0] then 2
    else if normal = ![1, 0, 0] then 3
    else if normal = ![0, 1, 0] then 4
    else if normal = ![0, -1, 0] then 5
    else 0
  let place : Int × Int := match face with
    | 0 => (1 - coordinate 1, coordinate 0 + 1)
    | 1 => (1 - coordinate 1, 1 - coordinate 0)
    | 2 => (1 - coordinate 1, 1 - coordinate 2)
    | 3 => (1 - coordinate 1, coordinate 2 + 1)
    | 4 => (coordinate 2 + 1, coordinate 0 + 1)
    | _ => (1 - coordinate 2, coordinate 0 + 1)
  face * 9 + place.1.toNat * 3 + place.2.toNat

/-- The cell a cubie has in the array of a new cube. -/
def home (index : Fin 27) : Vec :=
  ![(index % 3 : Nat) - 1, (index / 3 % 3 : Nat) - 1, (index / 9 : Nat) - 1]

/-- The body of the loops of `sync_facelets`: the face's place and colour, if it is painted. -/
def paint (cubie : Cubie) (localFace : Fin 6) : Option (Nat × Nat) :=
  let color := cubie.faceColors localFace
  if 6 ≤ color then none
  else
    let normal := multiplyVec cubie.orientation (faceNormals localFace)
    match (List.finRange 3).find? fun axis => normal axis ≠ 0 with
    | none => none
    | some axis =>
      if cubie.coordinate axis ≠ normal axis then none
      else some (faceletIndex normal cubie.coordinate, color)

def syncFacelets (s : CubeState) : CubeState :=
  let painted := s.cubies.toList.flatMap fun cubie => (List.finRange 6).filterMap (paint cubie)
  { s with
    facelets := painted.foldl (fun facelets p => facelets.set p.1 p.2) (List.replicate 54 6) }

namespace CubeState

def new : CubeState :=
  syncFacelets
    { cubies := .ofFn fun index =>
        ⟨home index, identityOrientation, initialFaceColors (home index)⟩
      facelets := List.replicate 54 6
      history := []
      redo := [] }

def isSolved (s : CubeState) : Bool :=
  (List.range 6).all fun face =>
    let stickers := (s.facelets.drop (face * 9)).take 9
    stickers.all fun color => some color = stickers.head?

end CubeState

/-- A cubie in the layer that a command turns. -/
def Cubie.inLayer (cubie : Cubie) (command : RotationCommand) : Bool :=
  cubie.coordinate command.axis.index = command.layer

def Cubie.turn (command : RotationCommand) (cubie : Cubie) : Cubie :=
  if cubie.inLayer command then
    { cubie with
      coordinate := rotateCoordinate cubie.coordinate command.axis command.direction
      orientation := multiplyI8 (rotationMatrix command.axis command.direction) cubie.orientation }
  else cubie

namespace CubeState

def applyRaw (s : CubeState) (command : RotationCommand) : Bool × CubeState :=
  (s.cubies.toList.any (·.inLayer command), { s with cubies := s.cubies.map (Cubie.turn command) })

/-- The capacity of the two lists of moves. -/
def historyCapacity : Nat := 512

/-- A move that is kept while there is room. -/
def kept (command : RotationCommand) (moves : List RotationCommand) : List RotationCommand :=
  if moves.length < historyCapacity then command :: moves else moves

def applyMove (s : CubeState) (command : RotationCommand) : Bool × CubeState :=
  match s.applyRaw command with
  | (false, s) => (false, s)
  | (true, s) => (true, syncFacelets { s with history := kept command s.history, redo := [] })

def undo (s : CubeState) : Bool × CubeState :=
  match s.history with
  | [] => (false, s)
  | command :: history =>
    match { s with history }.applyRaw command.inverse with
    | (false, s) => (false, s)
    | (true, s) => (true, syncFacelets { s with redo := kept command s.redo })

/-- `redo` -/
def redoMove (s : CubeState) : Bool × CubeState :=
  match s.redo with
  | [] => (false, s)
  | command :: redo =>
    match { s with redo }.applyRaw command with
    | (false, s) => (false, s)
    | (true, s) => (true, syncFacelets { s with history := kept command s.history })

end CubeState

end Rubik
end EngineKit
