import EngineKit.Lib.NativeWords
import EngineKit.Vulkan.WorldUpload

/-!
# What the world's vertex shader reads

`shaders/world.vert` takes the storage buffer as `uint` words and finds instance `i` at word
`gl_InstanceIndex * 20u`; the vertex comes out of a table in the shader. Neither read is checked
there, so here both are: a run that reads past the end of either has no vertex.

The index is a `uint` and wraps. A packet that fits 2³² words is not long enough for that to
matter, and `validWorldPacket` keeps the draws inside the packet (`worldVert_of_valid`).

Floats are the words they are made of. The position, which is computed from them and the camera,
is not here.
-/

set_option autoImplicit false

namespace EngineKit
namespace Vulkan

open Lib

def CUBE_TRIANGLES : List (Int × Int × Int) :=
  [ (-1, -1,  1), ( 1, -1,  1), ( 1,  1,  1),
    (-1, -1,  1), ( 1,  1,  1), (-1,  1,  1),
    ( 1, -1, -1), (-1, -1, -1), (-1,  1, -1),
    ( 1, -1, -1), (-1,  1, -1), ( 1,  1, -1),
    (-1, -1, -1), (-1, -1,  1), (-1,  1,  1),
    (-1, -1, -1), (-1,  1,  1), (-1,  1, -1),
    ( 1, -1,  1), ( 1, -1, -1), ( 1,  1, -1),
    ( 1, -1,  1), ( 1,  1, -1), ( 1,  1,  1),
    (-1,  1,  1), ( 1,  1,  1), ( 1,  1, -1),
    (-1,  1,  1), ( 1,  1, -1), (-1,  1, -1),
    (-1, -1, -1), ( 1, -1, -1), ( 1, -1,  1),
    (-1, -1, -1), ( 1, -1,  1), (-1, -1,  1) ]

/-- What one run of the shader takes from the buffer, and what it hands on beside the position. -/
structure WorldVertex where
  rows : Vector (Vector UInt32 4) 3
  outMaterial : UInt32
  outFace : UInt32
  outLocalPosition : Int × Int × Int
deriving DecidableEq

/-- `gl_InstanceIndex * 20u + k`. -/
def wordIndex (glInstanceIndex k : UInt32) : UInt32 := glInstanceIndex * 20 + k

/-- `world_instances.words[index]`, if the buffer has that word. -/
def storageWord (order : ByteOrder) (bytes : List UInt8) (index : UInt32) : Option UInt32 :=
  if 4 * index.toNat + 4 ≤ bytes.length then some (neWordAt order bytes index.toNat) else none

/-- The four words from `k` on. -/
def storageRow (order : ByteOrder) (bytes : List UInt8) (glInstanceIndex k : UInt32) :
    Option (Vector UInt32 4) := do
  let x ← storageWord order bytes (wordIndex glInstanceIndex k)
  let y ← storageWord order bytes (wordIndex glInstanceIndex (k + 1))
  let z ← storageWord order bytes (wordIndex glInstanceIndex (k + 2))
  let w ← storageWord order bytes (wordIndex glInstanceIndex (k + 3))
  some #v[x, y, z, w]

/-- `main` of `world.vert`. -/
def worldVert (order : ByteOrder) (bytes : List UInt8) (glInstanceIndex glVertexIndex : UInt32) :
    Option WorldVertex := do
  let position ← CUBE_TRIANGLES[glVertexIndex.toNat]?
  let x ← storageRow order bytes glInstanceIndex 0
  let y ← storageRow order bytes glInstanceIndex 4
  let z ← storageRow order bytes glInstanceIndex 8
  let outMaterial ← storageWord order bytes (wordIndex glInstanceIndex 19)
  some
    { rows := #v[x, y, z]
      outMaterial
      outFace := glVertexIndex / 6
      outLocalPosition := position }

/-- The offsets from `gl_InstanceIndex * 20u` that `main` reads. -/
def READ_OFFSETS : List UInt32 := [0, 1, 2, 3, 4, 5, 6, 7, 8, 9, 10, 11, 19]

/-! ## The index -/

theorem toNat_wordIndex (glInstanceIndex k : UInt32) :
    (wordIndex glInstanceIndex k).toNat = (glInstanceIndex.toNat * 20 + k.toNat) % 2 ^ 32 := by
  rw [wordIndex, UInt32.toNat_add, UInt32.toNat_mul, UInt32.toNat_ofNat, Nat.mod_add_mod]

theorem toNat_wordIndex_le (glInstanceIndex k : UInt32) :
    (wordIndex glInstanceIndex k).toNat ≤ glInstanceIndex.toNat * 20 + k.toNat := by
  rw [toNat_wordIndex]
  exact Nat.mod_le _ _

theorem toNat_wordIndex_of_lt {glInstanceIndex k : UInt32}
    (h : glInstanceIndex.toNat * 20 + k.toNat < 2 ^ 32) :
    (wordIndex glInstanceIndex k).toNat = glInstanceIndex.toNat * 20 + k.toNat := by
  rw [toNat_wordIndex, Nat.mod_eq_of_lt h]

/-! ## One run -/

section Run

variable {order : ByteOrder} {bytes : List UInt8} {glInstanceIndex glVertexIndex : UInt32}
  {word : UInt32 → UInt32}

/-- **A run whose reads are inside** has a vertex, and it is made of what the words are. -/
theorem worldVert_eq_some (hvertex : glVertexIndex.toNat < CUBE_TRIANGLES.length)
    (hwords : ∀ k ∈ READ_OFFSETS,
      storageWord order bytes (wordIndex glInstanceIndex k) = some (word k)) :
    worldVert order bytes glInstanceIndex glVertexIndex = some
      { rows := #v[#v[word 0, word 1, word 2, word 3], #v[word 4, word 5, word 6, word 7],
          #v[word 8, word 9, word 10, word 11]]
        outMaterial := word 19
        outFace := glVertexIndex / 6
        outLocalPosition := CUBE_TRIANGLES[glVertexIndex.toNat] } := by
  have hrow (k : UInt32) (hk : ∀ j ∈ [k, k + 1, k + 2, k + 3], j ∈ READ_OFFSETS) :
      storageRow order bytes glInstanceIndex k
        = some #v[word k, word (k + 1), word (k + 2), word (k + 3)] := by
    have h₀ := hwords k (hk k (by simp))
    have h₁ := hwords (k + 1) (hk (k + 1) (by simp))
    have h₂ := hwords (k + 2) (hk (k + 2) (by simp))
    have h₃ := hwords (k + 3) (hk (k + 3) (by simp))
    rw [storageRow, h₀, h₁, h₂, h₃]
    rfl
  have hmaterial := hwords 19 (by simp [READ_OFFSETS])
  have hfirst := hrow 0 (by simp [READ_OFFSETS])
  have hsecond := hrow 4 (by simp [READ_OFFSETS])
  have hthird := hrow 8 (by simp [READ_OFFSETS])
  rw [worldVert, List.getElem?_eq_getElem hvertex, hfirst, hsecond, hthird, hmaterial]
  rfl

theorem storageWord_of_le {index : UInt32} (h : 4 * index.toNat + 4 ≤ bytes.length) :
    storageWord order bytes index = some (neWordAt order bytes index.toNat) := if_pos h

end Run

/-! ## A packet that was accepted -/

theorem toNat_lt_of_mem_readOffsets {k : UInt32} (hk : k ∈ READ_OFFSETS) : k.toNat < 20 := by
  have hall : ∀ k ∈ READ_OFFSETS, k.toNat < 20 := by simp [READ_OFFSETS]
  exact hall k hk

/-- **Accepted packets are safe for the shader.** Whatever instance and vertex of whatever draw it
    runs for (only where the draw ends matters): the vertex is in the table, every word it reads is
    among the bytes and within the capacity, at the index as it is and as a `uint`, which are the
    same for a capacity of up to `2 ^ 32` words; so the run has all it reads. -/
theorem worldVert_of_valid {bytes : List UInt8} {capacity : Nat} {camera : Camera}
    {draws : List WorldDrawCommand} (h : validWorldPacket bytes capacity camera draws)
    {draw : WorldDrawCommand} (hdraw : draw ∈ draws) {glInstanceIndex glVertexIndex : UInt32}
    (hinstance : glInstanceIndex.toNat < draw.firstInstance.toNat + draw.instanceCount.toNat)
    (hvertex : glVertexIndex.toNat < draw.firstVertex.toNat + draw.vertexCount.toNat) :
    glVertexIndex.toNat < CUBE_TRIANGLES.length ∧
      (∀ k ∈ READ_OFFSETS,
        4 * (glInstanceIndex.toNat * 20 + k.toNat) + 4 ≤ bytes.length ∧
          4 * (wordIndex glInstanceIndex k).toNat + 4 ≤ bytes.length ∧
          bytes.length ≤ capacity ∧
          (capacity ≤ 4 * 2 ^ 32 →
            (wordIndex glInstanceIndex k).toNat = glInstanceIndex.toNat * 20 + k.toNat)) ∧
      ∀ order : ByteOrder, (worldVert order bytes glInstanceIndex glVertexIndex).isSome := by
  obtain ⟨-, hcapacity, -, hdraws⟩ := drawable_of_validWorldPacket h
  have hbytes := instances_of_validWorldPacket h hdraw
  have htable : glVertexIndex.toNat < CUBE_TRIANGLES.length :=
    Nat.lt_of_lt_of_le hvertex (le_of_endsWithin (hdraws draw hdraw).2.2)
  have hinside : ∀ k ∈ READ_OFFSETS,
      4 * (glInstanceIndex.toNat * 20 + k.toNat) + 4 ≤ bytes.length := by
    intro k hk
    have hlt := toNat_lt_of_mem_readOffsets hk
    rw [GPU_INSTANCE_RECORD_SIZE] at hbytes
    omega
  have hwrapped : ∀ k ∈ READ_OFFSETS,
      4 * (wordIndex glInstanceIndex k).toNat + 4 ≤ bytes.length := by
    intro k hk
    have hle := toNat_wordIndex_le glInstanceIndex k
    have hin := hinside k hk
    omega
  refine ⟨htable, ?_, ?_⟩
  · intro k hk
    refine ⟨hinside k hk, hwrapped k hk, hcapacity, ?_⟩
    intro hsmall
    have hin := hinside k hk
    exact toNat_wordIndex_of_lt (by omega)
  · intro order
    rw [worldVert_eq_some htable fun k hk => storageWord_of_le (hwrapped k hk)]
    rfl

/-- The last vertex of the one cube. -/
theorem worldVert_of_one_draw :
    (worldVert .little (.replicate 80 0) 0 35).isSome := by
  have hvalid : validWorldPacket (.replicate 80 0) 80 (.replicate 16 0) [⟨36, 1, 0, 0⟩] := by
    decide
  have hread := @worldVert_of_valid _ _ _ _ hvalid ⟨36, 1, 0, 0⟩ (List.mem_singleton_self _) 0 35
    (by decide) (by decide)
  exact hread.2.2 .little

end Vulkan
end EngineKit
