import EngineKit.Rubik.Cube
import Mathlib.LinearAlgebra.UnitaryGroup

/-!
# Turns of a cube

What the matrices and coordinates of the cube come to. The six rotations are special orthogonal
integer matrices, and a cubie that has been turned by one of them is in the cell the matrix takes
its first cell to. Integer matrices that keep lengths take unit vectors to unit vectors and cells to
cells, so nothing ever leaves the 27 cells, and a face of a cubie that looks outwards keeps looking
outwards.

The invariant of a cubie is `Placed`: it does not say where the cubie is, but that its coordinate is
its orientation applied to its home. One fact about rotations then gives the cell and the facelets,
and neither has to be followed through the turns. It is an invariant of a single cubie because a
turn asks nothing of the others.

Integer rotations need no case split over the twenty-four there are: they keep lengths, a cell is an
integer vector of length at most three, and a normal one of length one.
-/

set_option autoImplicit false

namespace EngineKit
namespace Rubik

open Matrix

/-- The rotations of space with integer entries. -/
abbrev Rotation (m : Mat) : Prop := m ∈ specialOrthogonalGroup (Fin 3) Int

/-- The code's products are the ones of the library. Sums of three entries from -1 to 1 fit in a
    byte. -/
theorem multiplyI8_eq (a b : Mat) : multiplyI8 a b = a * b := by
  ext row column
  simp [multiplyI8, Matrix.mul_apply, Fin.sum_univ_three, List.finRange, add_assoc]

theorem multiplyVec_eq (m : Mat) (v : Vec) : multiplyVec m v = m *ᵥ v := by
  ext row
  fin_cases row <;> simp [multiplyVec, mulVec, dotProduct, Fin.sum_univ_three]

/-- No turn. -/
theorem identityOrientation_eq : identityOrientation = 1 := by decide +kernel

/-! ## The six rotations -/

namespace RotationCommand

def matrix (c : RotationCommand) : Mat := rotationMatrix c.axis c.direction

/-- Where the command takes a cell. -/
def move (c : RotationCommand) (v : Vec) : Vec :=
  if v c.axis.index = c.layer then c.matrix *ᵥ v else v

/-- What holds of the six rotations. -/
theorem matrix_cases (P : Axis → Int → Prop) (hx : P .x 1) (hx' : P .x (-1)) (hy : P .y 1)
    (hy' : P .y (-1)) (hz : P .z 1) (hz' : P .z (-1)) (c : RotationCommand) :
    P c.axis c.direction := by
  obtain ⟨axis, layer, direction, -, hdirection⟩ := c
  obtain rfl | rfl := hdirection <;> cases axis <;> assumption

/-- The coordinates are turned by the matrix, written out. -/
theorem rotateCoordinate_eq (c : RotationCommand) (v : Vec) :
    rotateCoordinate v c.axis c.direction = c.matrix *ᵥ v := by
  apply matrix_cases (fun axis direction =>
    rotateCoordinate v axis direction = rotationMatrix axis direction *ᵥ v) <;>
  · ext row
    fin_cases row <;> simp [rotateCoordinate, rotationMatrix, mulVec, dotProduct,
      Fin.sum_univ_three]

/-- **Each of the six** is a rotation. -/
theorem rotation_matrix (c : RotationCommand) : Rotation c.matrix := by
  have hall := matrix_cases (fun axis direction =>
    (rotationMatrix axis direction)ᵀ * rotationMatrix axis direction = 1 ∧
      (rotationMatrix axis direction).det = 1)
    (by decide +kernel) (by decide +kernel) (by decide +kernel) (by decide +kernel)
    (by decide +kernel) (by decide +kernel) c
  rw [Rotation, mem_specialOrthogonalGroup_iff, mem_orthogonalGroup_iff']
  exact hall

/-- The inverse command undoes the matrix. -/
theorem matrix_inverse_mul (c : RotationCommand) : c.inverse.matrix * c.matrix = 1 :=
  matrix_cases (fun axis direction =>
    rotationMatrix axis (- direction) * rotationMatrix axis direction = 1)
    (by decide +kernel) (by decide +kernel) (by decide +kernel) (by decide +kernel)
    (by decide +kernel) (by decide +kernel) c

/-- A layer stays one. -/
theorem matrix_mulVec_axis (c : RotationCommand) (v : Vec) :
    (c.matrix *ᵥ v) c.axis.index = v c.axis.index := by
  apply matrix_cases (fun axis direction =>
    (rotationMatrix axis direction *ᵥ v) axis.index = v axis.index) <;>
  simp [rotationMatrix, mulVec, dotProduct, Fin.sum_univ_three, Axis.index]

/-- A turn back, of cells: the layer is the same before and after. -/
theorem move_inverse (c : RotationCommand) (v : Vec) : c.inverse.move (c.move v) = v := by
  by_cases hlayer : v c.axis.index = c.layer
  · have hmoved : (c.matrix *ᵥ v) c.inverse.axis.index = c.inverse.layer :=
      (matrix_mulVec_axis c v).trans hlayer
    rw [move, move, if_pos hlayer, if_pos hmoved, mulVec_mulVec, matrix_inverse_mul, one_mulVec]
  · have hstays : ¬ v c.inverse.axis.index = c.inverse.layer := hlayer
    rw [move, move, if_neg hlayer, if_neg hstays]

theorem move_injective (c : RotationCommand) : Function.Injective c.move :=
  Function.LeftInverse.injective (g := c.inverse.move) (move_inverse c)

end RotationCommand

/-! ## A cubie -/

namespace Cubie

/-- A turn changes the cubies of its layer, and of them the place and the orientation. -/
theorem turn_eq (c : RotationCommand) (cubie : Cubie) :
    cubie.turn c =
      if cubie.coordinate c.axis.index = c.layer then
        { cubie with
          coordinate := c.matrix *ᵥ cubie.coordinate
          orientation := c.matrix * cubie.orientation }
      else cubie := by
  simp only [turn, inLayer, decide_eq_true_eq, RotationCommand.rotateCoordinate_eq, multiplyI8_eq,
    RotationCommand.matrix]

/-- Where a cubie goes. -/
theorem coordinate_turn (c : RotationCommand) (cubie : Cubie) :
    (cubie.turn c).coordinate = c.move cubie.coordinate := by
  rw [turn_eq, RotationCommand.move]
  split <;> rfl

/-- **A turn back.** -/
theorem turn_inverse (c : RotationCommand) (cubie : Cubie) :
    (cubie.turn c).turn c.inverse = cubie := by
  rw [turn_eq c]
  by_cases hlayer : cubie.coordinate c.axis.index = c.layer
  · have hmoved : (c.matrix *ᵥ cubie.coordinate) c.inverse.axis.index = c.inverse.layer :=
      (RotationCommand.matrix_mulVec_axis c _).trans hlayer
    rw [if_pos hlayer, turn_eq, if_pos hmoved]
    simp only [mulVec_mulVec, ← Matrix.mul_assoc, RotationCommand.matrix_inverse_mul, one_mulVec,
      Matrix.one_mul]
  · have hstays : ¬ cubie.coordinate c.inverse.axis.index = c.inverse.layer := hlayer
    rw [if_neg hlayer, turn_eq, if_neg hstays]

/-- Turned by a rotation, and in the cell the rotation takes its home to. -/
structure Placed (index : Fin 27) (cubie : Cubie) : Prop where
  rotation : Rotation cubie.orientation
  coordinate : cubie.coordinate = cubie.orientation *ᵥ home index
  faceColors : cubie.faceColors = initialFaceColors (home index)

/-- A new cubie is at home and not turned. -/
theorem placed_new (index : Fin 27) :
    Placed index ⟨home index, identityOrientation, initialFaceColors (home index)⟩ := by
  refine ⟨?_, ?_, rfl⟩
  · rw [identityOrientation_eq]
    exact Submonoid.one_mem _
  · rw [identityOrientation_eq, one_mulVec]

/-- **A turn** is one more rotation. -/
theorem Placed.turn {index : Fin 27} {cubie : Cubie} (h : cubie.Placed index)
    (c : RotationCommand) : (cubie.turn c).Placed index := by
  rw [turn_eq]
  split
  · refine ⟨Submonoid.mul_mem _ c.rotation_matrix h.rotation, ?_, h.faceColors⟩
    rw [h.coordinate, mulVec_mulVec]
  · exact h

end Cubie

/-! ## Cells and unit vectors -/

def IsCell (v : Vec) : Prop := ∀ axis, -1 ≤ v axis ∧ v axis ≤ 1

/-- Lengths and angles stay. -/
theorem dotProduct_rotation {m : Mat} (hm : Rotation m) (v w : Vec) :
    (m *ᵥ v) ⬝ᵥ (m *ᵥ w) = v ⬝ᵥ w := by
  have horthogonal := (mem_orthogonalGroup_iff' (Fin 3) Int).mp
    (mem_specialOrthogonalGroup_iff.mp hm).1
  rw [dotProduct_mulVec, vecMul_mulVec, horthogonal, vecMul_one]

/-- An integer vector of length three or less has no entry beyond one. -/
theorem isCell_of_dotProduct {v : Vec} (h : v ⬝ᵥ v ≤ 3) : IsCell v := by
  intro axis
  have hentry : v axis * v axis ≤ v ⬝ᵥ v :=
    Finset.single_le_sum (fun i _ => mul_self_nonneg (v i)) (Finset.mem_univ axis)
  have hsquare : v axis * v axis ≤ 3 := hentry.trans h
  constructor <;> nlinarith

/-- The cells are the homes. -/
theorem exists_home {v : Vec} (h : IsCell v) : ∃ index, home index = v := by
  have hall : ∀ a b c : Fin 3, ∃ index, home index = ![(a : Int) - 1, b - 1, c - 1] := by
    decide +kernel
  have hentry : ∀ axis, ∃ a : Fin 3, v axis = (a : Int) - 1 := by
    intro axis
    obtain ⟨hlow, hhigh⟩ := h axis
    refine ⟨⟨(v axis + 1).toNat, by omega⟩, ?_⟩
    simp only
    omega
  obtain ⟨a, ha⟩ := hentry 0
  obtain ⟨b, hb⟩ := hentry 1
  obtain ⟨c, hc⟩ := hentry 2
  obtain ⟨index, hindex⟩ := hall a b c
  refine ⟨index, hindex.trans ?_⟩
  ext axis
  fin_cases axis <;> simp [ha, hb, hc]

theorem home_dotProduct_self_le (index : Fin 27) : home index ⬝ᵥ home index ≤ 3 := by
  have hall : ∀ i : Fin 27, home i ⬝ᵥ home i ≤ 3 := by decide +kernel
  exact hall index

/-- So nothing leaves the cells. -/
theorem Cubie.Placed.isCell {index : Fin 27} {cubie : Cubie} (h : cubie.Placed index) :
    IsCell cubie.coordinate := by
  apply isCell_of_dotProduct
  rw [h.coordinate, dotProduct_rotation h.rotation]
  exact home_dotProduct_self_le index

/-- No two cubies have one home. -/
theorem home_injective : Function.Injective home := by
  have hall : ∀ i j, home i = home j → i = j := by decide +kernel
  exact fun i j => hall i j

/-- The unit vectors are the face normals. -/
theorem exists_faceNormal {v : Vec} (h : v ⬝ᵥ v = 1) : ∃ face, faceNormals face = v := by
  obtain ⟨index, rfl⟩ := exists_home (isCell_of_dotProduct (by rw [h]; decide))
  have hall : ∀ i, home i ⬝ᵥ home i = 1 → ∃ face, faceNormals face = home i := by decide +kernel
  exact hall index h

theorem faceNormals_injective : Function.Injective faceNormals := by
  have hall : ∀ f g, faceNormals f = faceNormals g → f = g := by decide +kernel
  exact fun f g => hall f g

/-- Normals have length one. -/
theorem faceNormal_dotProduct_self (face : Fin 6) : faceNormals face ⬝ᵥ faceNormals face = 1 := by
  have hall : ∀ f, faceNormals f ⬝ᵥ faceNormals f = 1 := by decide +kernel
  exact hall face

end Rubik
end EngineKit
