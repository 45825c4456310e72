import EngineKit.Lib.Records
import EngineKit.Render.Mesh

/-!
# The indices of a mesh

An index of a mesh is a `u32` of its index bytes and names one of its vertices. `try_insert` checks
how many bytes of either there are; what the index bytes say is not looked at. So a mesh that is
taken has its indices in range exactly if they were in range of the vertex bytes it came with
(`tryInsert_indices_iff`).
-/

set_option autoImplicit false

namespace EngineKit
namespace Render

open Lib Ui

/-- The slot of the handle that an insertion returns has the record. -/
theorem SlotTable.holds_insert {R : Type} {t table : SlotTable R} {room : Bool} {record : R}
    {handle : Handle} (h : t.insert room record = (.ok handle, table)) :
    table.Holds handle record := by
  unfold insert at h
  split at h
  · exact absurd (Prod.mk.inj h).1 (by simp)
  · next index taken htake =>
    unfold fillSlot at h
    split at h
    · exact absurd (Prod.mk.inj h).1 (by simp)
    · next slot hslot =>
      obtain ⟨hhandle, rfl⟩ := Prod.mk.inj h
      obtain rfl := Except.ok.inj hhandle
      exact List.getElem?_set_self (List.getElem?_eq_some_iff.mp hslot).1

/-- The index bytes of a record. -/
def MeshTable.indicesOf (t : MeshTable) (record : MeshRecord) : List UInt8 :=
  cut t.indexData record.indexOffset record.indexBytes

/-- An insertion that succeeds has made its record, and put its bytes where the record says. -/
theorem MeshTable.tryInsert_eq_ok {t t' : MeshTable} {room : Bool} {mesh : MeshInput}
    {handle : Handle} (h : t.tryInsert room mesh = (.ok handle, t')) :
    ∃ record, t.record mesh = .ok record ∧ t'.Holds handle record ∧
      t'.indicesOf record = mesh.indexBytes := by
  unfold tryInsert at h
  split at h
  · exact absurd (Prod.mk.inj h).1 (by simp)
  · next record hrecord =>
    split at h
    · exact absurd (Prod.mk.inj h).1 (by simp)
    · next handle' table hinsert =>
      obtain ⟨hhandle, rfl⟩ := Prod.mk.inj h
      obtain rfl := Except.ok.inj hhandle
      refine ⟨record, hrecord, SlotTable.holds_insert hinsert, ?_⟩
      obtain ⟨-, -, -, -, hoffset, hbytes, -⟩ := MeshTable.record_eq_ok hrecord
      rw [indicesOf, hoffset, hbytes]
      have hcut := cut_append_right t.indexData mesh.indexBytes 0 mesh.indexBytes.length
      rw [Nat.add_zero, cut_whole rfl] at hcut
      exact hcut

/-- **When an accepted mesh has its indices in range.** The record is in the table under the handle,
    and all its indices name vertices of it exactly if, in the mesh that was handed over, the
    vertex of every index ends inside the vertex bytes. -/
theorem MeshTable.tryInsert_indices_iff {t t' : MeshTable} {room : Bool} {mesh : MeshInput}
    {handle : Handle} (h : t.tryInsert room mesh = (.ok handle, t')) :
    ∃ record, t'.Holds handle record ∧ t'.indicesOf record = mesh.indexBytes ∧
      ((∀ k < record.indexCount.toNat,
        (wordAt (t'.indicesOf record) k).toNat < record.vertexCount.toNat) ↔
      ∀ k < mesh.indexBytes.length / 4,
        ((wordAt mesh.indexBytes k).toNat + 1) * mesh.vertexStride.toNat
          ≤ mesh.vertexBytes.length) := by
  obtain ⟨record, hrecord, hholds, hindices⟩ := tryInsert_eq_ok h
  refine ⟨record, hholds, hindices, ?_⟩
  have hstride : 0 < mesh.vertexStride.toNat := by
    simp only [MeshTable.record, bind_eq_ok] at hrecord
    obtain ⟨_, hvalid, -⟩ := hrecord
    unfold validateMeshInput at hvalid
    split at hvalid
    · cases hvalid
    · next hformat =>
      rw [not_or, UInt32.not_lt, UInt32.le_iff_toNat_le] at hformat
      exact Nat.lt_of_lt_of_le (by decide) hformat.1
  obtain ⟨-, -, -, -, -, -, -, -, hvertexCount, hindexCount⟩ := record_eq_ok hrecord
  rw [hindices, hvertexCount, hindexCount]
  refine forall₂_congr ?_
  intro k _
  rw [Nat.lt_iff_add_one_le, Nat.le_div_iff_mul_le hstride]

/-- The bytes of the corner name its own vertices, so the indices read from the table do. -/
theorem MeshTable.tryInsert_indices_corner : ∃ t' record,
    (cornerTable (2 ^ 32)).tryInsert true corner = (.ok ⟨0, 1⟩, t') ∧ t'.Holds ⟨0, 1⟩ record ∧
      ∀ k < record.indexCount.toNat,
        (wordAt (t'.indicesOf record) k).toNat < record.vertexCount.toNat := by
  obtain ⟨t', hinsert, -⟩ := Corners.tryInsert (n := 0)
    (t := cornerTable (2 ^ 32)) ⟨rfl, rfl, rfl, rfl, rfl, rfl, rfl⟩ (Nat.two_pow_pos 32)
  obtain ⟨record, hholds, -, hiff⟩ := MeshTable.tryInsert_indices_iff hinsert
  exact ⟨t', record, hinsert, hholds, hiff.mpr (by decide)⟩

/-- A mesh of one vertex, and the index of a second one. -/
def farIndex : MeshInput := { corner with indexBytes := [1, 0, 0, 0] }

/-- It is accepted. -/
theorem MeshTable.tryInsert_farIndex : ∃ t' record,
    (cornerTable 1).tryInsert true farIndex = (.ok ⟨0, 1⟩, t') ∧ t'.Holds ⟨0, 1⟩ record ∧
      record.vertexCount = 1 ∧ record.indexCount = 1 ∧ wordAt (t'.indicesOf record) 0 = 1 := by
  have hvalid : validateMeshInput farIndex = .ok () := by decide +kernel
  obtain ⟨record, hrecord⟩ : ∃ record, (cornerTable 1).record farIndex = .ok record :=
    MeshTable.record_of_fits hvalid (by decide) (by decide) (by decide) (by decide) (by decide)
      (by decide) (by decide)
  obtain ⟨-, -, -, -, -, -, -, -, hvertexCount, hindexCount⟩ := MeshTable.record_eq_ok hrecord
  obtain ⟨t', hinsert⟩ : ∃ t', (cornerTable 1).tryInsert true farIndex = (.ok ⟨0, 1⟩, t') := by
    simp only [MeshTable.tryInsert, hrecord]
    exact ⟨_, rfl⟩
  obtain ⟨record', hrecord', hholds, hindices⟩ := MeshTable.tryInsert_eq_ok hinsert
  obtain rfl := Except.ok.inj (hrecord.symm.trans hrecord')
  refine ⟨t', record, hinsert, hholds, ?_, ?_, ?_⟩
  · exact UInt32.toNat_inj.mp hvertexCount
  · exact UInt32.toNat_inj.mp hindexCount
  · rw [hindices]
    decide

end Render
end EngineKit
