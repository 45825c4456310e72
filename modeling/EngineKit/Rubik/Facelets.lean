import EngineKit.Lib.Scatter
import EngineKit.Rubik.Geometry

/-!
# The facelets of a cube

Cubies that are on the 27 cells, one on each, and none of them mirrored, stay so under every turn.
There is always a cubie in the layer that is turned, so no move is refused; and every one of the 54
facelets is painted by exactly one face of one cubie, so what `facelets` shows is a rearrangement of
what it shows of a new cube (`facelets_perm`).

`sync_facelets` paints whatever faces it meets, and a place that is painted twice would show the
last colour. That none is rests on the cubies only through `Arranged`: a sticker has a direction and
a cell, both turned by the matrix of its cubie; two stickers that come to one direction and one cell
are of one cubie, since no two are in one cell, and of one face, since a matrix that can be undone
takes no two directions to one.
-/

set_option autoImplicit false

namespace EngineKit
namespace Rubik

open Lib Matrix

/-! ## The cubies -/

/-- Every cubie where its matrix has taken it, no two in one cell. -/
structure Arranged (cubies : Vector Cubie 27) : Prop where
  placed : ∀ index : Fin 27, cubies[index].Placed index
  distinct : Function.Injective fun index : Fin 27 => cubies[index].coordinate

namespace Arranged

variable {cubies : Vector Cubie 27}

/-- **Any turn** keeps the cubies arranged. -/
theorem turn (h : Arranged cubies) (c : RotationCommand) :
    Arranged (cubies.map (Cubie.turn c)) := by
  have hget : ∀ index : Fin 27, (cubies.map (Cubie.turn c))[index] = cubies[index].turn c :=
    fun index => Vector.getElem_map _ index.isLt
  refine ⟨?_, ?_⟩
  · intro index
    rw [hget]
    exact (h.placed index).turn c
  · intro i j hij
    simp only [hget, Cubie.coordinate_turn] at hij
    exact h.distinct (c.move_injective hij)

/-- **Every cell is taken once.** -/
theorem existsUnique (h : Arranged cubies) {v : Vec} (hv : IsCell v) :
    ∃! index : Fin 27, cubies[index].coordinate = v := by
  choose cell hcell using fun index => exists_home (h.placed index).isCell
  have hinjective : Function.Injective cell := by
    intro i j hij
    apply h.distinct
    simp only [← hcell, hij]
  obtain ⟨k, rfl⟩ := exists_home hv
  obtain ⟨index, rfl⟩ := Finite.injective_iff_surjective.mp hinjective k
  refine ⟨index, (hcell index).symm, ?_⟩
  intro j hj
  exact h.distinct (hj.trans (hcell index))

/-- So there is always something to turn. -/
theorem any_inLayer (h : Arranged cubies) (c : RotationCommand) :
    cubies.toList.any (·.inLayer c) = true := by
  have hv : IsCell fun _ => c.layer := fun _ => c.layer_mem
  obtain ⟨index, hindex, -⟩ := h.existsUnique hv
  rw [List.any_eq_true]
  refine ⟨cubies[index], ?_, ?_⟩
  · exact Vector.mem_toList_iff.mpr (Vector.getElem_mem index.isLt)
  · rw [Cubie.inLayer, decide_eq_true_eq, hindex]

end Arranged

/-- A new cube has each cubie at home. -/
theorem arranged_new : Arranged CubeState.new.cubies := by
  have hget : ∀ index : Fin 27, CubeState.new.cubies[index] =
      ⟨home index, identityOrientation, initialFaceColors (home index)⟩ := by
    intro index
    simp [CubeState.new, syncFacelets]
  refine ⟨?_, ?_⟩
  · intro index
    rw [hget]
    exact Cubie.placed_new index
  · intro i j hij
    simp only [hget] at hij
    exact home_injective hij

/-! ## Painting -/

/-- The faces that are painted. -/
def stickers : List (Fin 27 × Fin 6) :=
  (List.finRange 27).flatMap fun index =>
    ((List.finRange 6).filter fun face => initialFaceColors (home index) face < 6).map (index, ·)

/-- No face of a cubie is painted twice. -/
theorem nodup_stickers : stickers.Nodup := by decide +kernel

/-- The painted faces are as many as there are places. -/
theorem length_stickers : stickers.length = 54 := by decide +kernel

/-- They look outwards. -/
theorem dotProduct_of_mem_stickers {p : Fin 27 × Fin 6} (hp : p ∈ stickers) :
    faceNormals p.2 ⬝ᵥ home p.1 = 1 := by
  have hall : ∀ i : Fin 27, ∀ f : Fin 6, initialFaceColors (home i) f < 6 →
      faceNormals f ⬝ᵥ home i = 1 := by decide +kernel
  rw [stickers] at hp
  obtain ⟨index, -, hin⟩ := List.mem_flatMap.mp hp
  obtain ⟨face, hface, rfl⟩ := List.mem_map.mp hin
  exact hall index face (of_decide_eq_true (List.mem_filter.mp hface).2)

/-- Where a face that looks outwards is painted, and that it is there alone. -/
theorem faceletIndex_spec {face : Fin 6} {index : Fin 27}
    (h : faceNormals face ⬝ᵥ home index = 1) :
    (∃ axis, ((List.finRange 3).find? fun axis => faceNormals face axis ≠ 0) = some axis ∧
        home index axis = faceNormals face axis) ∧
      faceletIndex (faceNormals face) (home index) < 54 := by
  have hall : ∀ f : Fin 6, ∀ i : Fin 27, faceNormals f ⬝ᵥ home i = 1 →
      (∃ axis, ((List.finRange 3).find? fun axis => faceNormals f axis ≠ 0) = some axis ∧
          home i axis = faceNormals f axis) ∧
        faceletIndex (faceNormals f) (home i) < 54 := by decide +kernel
  exact hall face index h

/-- A place belongs to one direction and one cell. -/
theorem faceletIndex_inj {f g : Fin 6} {i j : Fin 27} (hf : faceNormals f ⬝ᵥ home i = 1)
    (hg : faceNormals g ⬝ᵥ home j = 1)
    (h : faceletIndex (faceNormals f) (home i) = faceletIndex (faceNormals g) (home j)) :
    f = g ∧ i = j := by
  have hface : ∀ f : Fin 6, ∀ i : Fin 27, faceNormals f ⬝ᵥ home i = 1 →
      faceletIndex (faceNormals f) (home i) / 9 = f := by decide +kernel
  have hcell : ∀ f : Fin 6, ∀ i : Fin 27, faceNormals f ⬝ᵥ home i = 1 → ∀ j : Fin 27,
      faceNormals f ⬝ᵥ home j = 1 →
      faceletIndex (faceNormals f) (home i) = faceletIndex (faceNormals f) (home j) → i = j := by
    decide +kernel
  have hfg : f = g := by
    apply Fin.ext
    rw [← hface f i hf, ← hface g j hg, h]
  subst hfg
  exact ⟨rfl, hcell f i hf j hg h⟩

/-- What a face of a placed cubie is painted with, and where. -/
def facelet (cubies : Vector Cubie 27) (p : Fin 27 × Fin 6) : Nat × Nat :=
  (faceletIndex (cubies[p.1].orientation *ᵥ faceNormals p.2) cubies[p.1].coordinate,
    initialFaceColors (home p.1) p.2)

/-- The face and the cell a sticker has been turned to. -/
theorem turned {cubie : Cubie} {index : Fin 27} (h : cubie.Placed index) {face : Fin 6}
    (hout : faceNormals face ⬝ᵥ home index = 1) :
    ∃ (face' : Fin 6) (index' : Fin 27), faceNormals face' = cubie.orientation *ᵥ faceNormals face ∧
      home index' = cubie.coordinate ∧ faceNormals face' ⬝ᵥ home index' = 1 := by
  have hunit : (cubie.orientation *ᵥ faceNormals face) ⬝ᵥ (cubie.orientation *ᵥ faceNormals face)
      = 1 := by rw [dotProduct_rotation h.rotation, faceNormal_dotProduct_self]
  obtain ⟨face', hface'⟩ := exists_faceNormal hunit
  obtain ⟨index', hindex'⟩ := exists_home h.isCell
  refine ⟨face', index', hface', hindex', ?_⟩
  rw [hface', hindex', h.coordinate, dotProduct_rotation h.rotation, hout]

/-- What a placed cubie paints. -/
theorem paint_placed {cubies : Vector Cubie 27} (h : Arranged cubies) (index : Fin 27)
    (face : Fin 6) :
    paint cubies[index] face =
      if initialFaceColors (home index) face < 6 then some (facelet cubies (index, face))
      else none := by
  have hplaced := h.placed index
  rw [paint, hplaced.faceColors]
  -- A face without a colour is not painted.
  by_cases hcolor : initialFaceColors (home index) face < 6
  · have hmem : (index, face) ∈ stickers := by
      rw [stickers]
      refine List.mem_flatMap.mpr ⟨index, List.mem_finRange index, ?_⟩
      refine List.mem_map_of_mem (List.mem_filter.mpr ⟨List.mem_finRange face, ?_⟩)
      exact decide_eq_true hcolor
    have hout : faceNormals face ⬝ᵥ home index = 1 := dotProduct_of_mem_stickers hmem
    obtain ⟨face', index', hface', hindex', hout'⟩ := turned hplaced hout
    obtain ⟨⟨axis, haxis, hsame⟩, -⟩ := faceletIndex_spec hout'
    rw [hface'] at haxis hsame
    rw [hindex'] at hsame
    simp only [if_neg (Nat.not_le.mpr hcolor), multiplyVec_eq, haxis, if_pos hcolor, hsame, ne_eq,
      not_true_eq_false, if_false, facelet]
  · simp only [if_pos (Nat.not_lt.mp hcolor), if_neg hcolor]

/-- The writes of `sync_facelets`. -/
theorem painted_eq {cubies : Vector Cubie 27} (h : Arranged cubies) :
    (cubies.toList.flatMap fun cubie => (List.finRange 6).filterMap (paint cubie)) =
      stickers.map (facelet cubies) := by
  have hlist : cubies.toList = (List.finRange 27).map fun index => cubies[index] := by
    apply List.ext_getElem
    · simp
    · intro i hi _
      simp
  rw [hlist, List.flatMap_map, stickers, List.map_flatMap]
  congr 1
  funext index
  rw [List.map_map, ← List.filterMap_eq_map, List.filterMap_filter]
  congr 1
  funext face
  rw [paint_placed h]
  by_cases hcolor : initialFaceColors (home index) face < 6 <;> simp [hcolor]

/-- Each place once. -/
theorem places_perm {cubies : Vector Cubie 27} (h : Arranged cubies) :
    ((stickers.map (facelet cubies)).map Prod.fst).Perm (List.range 54) := by
  have hnodup : ((stickers.map (facelet cubies)).map Prod.fst).Nodup := by
    rw [List.map_map]
    refine List.Nodup.map_on ?_ nodup_stickers
    intro p hp q hq hpq
    obtain ⟨f, i, hf, hi, hfi⟩ := turned (h.placed p.1) (dotProduct_of_mem_stickers hp)
    obtain ⟨g, j, hg, hj, hgj⟩ := turned (h.placed q.1) (dotProduct_of_mem_stickers hq)
    have hplace : ∀ p : Fin 27 × Fin 6, (Prod.fst ∘ facelet cubies) p =
        faceletIndex (cubies[p.1].orientation *ᵥ faceNormals p.2) cubies[p.1].coordinate :=
      fun _ => rfl
    rw [hplace, hplace, ← hf, ← hg, ← hi, ← hj] at hpq
    obtain ⟨rfl, rfl⟩ := faceletIndex_inj hfi hgj hpq
    have hfirst : p.1 = q.1 := h.distinct (hi.symm.trans hj)
    obtain ⟨index, face⟩ := p
    obtain ⟨index', face'⟩ := q
    obtain rfl : index = index' := hfirst
    -- the matrix of the one cubie is invertible
    have hnormals := congrArg (cubies[index].orientationᵀ *ᵥ ·) (hf.symm.trans hg)
    have horthogonal := (mem_orthogonalGroup_iff' (Fin 3) Int).mp
      (mem_specialOrthogonalGroup_iff.mp (h.placed index).rotation).1
    simp only [mulVec_mulVec, horthogonal, one_mulVec] at hnormals
    rw [faceNormals_injective hnormals]
  have hsubset : (stickers.map (facelet cubies)).map Prod.fst ⊆ List.range 54 := by
    intro place hplace
    rw [List.map_map] at hplace
    obtain ⟨p, hp, rfl⟩ := List.mem_map.mp hplace
    obtain ⟨f, i, hf, hi, hfi⟩ := turned (h.placed p.1) (dotProduct_of_mem_stickers hp)
    have hlt := (faceletIndex_spec hfi).2
    rw [hf, hi] at hlt
    exact List.mem_range.mpr hlt
  refine (hnodup.subperm hsubset).perm_of_length_le ?_
  simp [length_stickers]

/-- **Every facelet is painted once.** -/
theorem facelets_perm {s : CubeState} (h : Arranged s.cubies) :
    (syncFacelets s).facelets.Perm
      (stickers.map fun p => initialFaceColors (home p.1) p.2) := by
  have hwrites : (syncFacelets s).facelets =
      scatter (List.replicate 54 6) (stickers.map (facelet s.cubies)) := by
    rw [← painted_eq h]
    rfl
  rw [hwrites]
  have hplaces : ((stickers.map (facelet s.cubies)).map Prod.fst).Perm
      (List.range (List.replicate 54 6).length) := by
    rw [List.length_replicate]
    exact places_perm h
  have hperm := scatter_perm hplaces
  rw [List.map_map] at hperm
  exact hperm

end Rubik
end EngineKit
