import Mathlib.Algebra.Order.BigOperators.Group.List
import Mathlib.Algebra.Order.Group.Nat
import EngineKit.Render.Mesh

/-!
# What a mesh table has room for

A table is made for so many meshes and so many bytes of them. The meshes are counted as they come
and go, the bytes only as they come: `remove` frees a slot and leaves its mesh's bytes in the two
arrays, so that of the maxima in bytes each mesh ever inserted has used up its part for good
(`MeshHistory.Wf`). A table full of the bytes of meshes that are gone refuses a mesh that the
meshes in it leave room for (`refuses_after_remove`), and `capacity_fair_iff` is when it does not.

The runs are any runs, also those that come to the slot no handle can name, so the slots' own
invariant (`SlotTable.Wf`) is not there to be used. What is counted needs less
(`SlotTable.Counted`).

The records that `remove` answers with are kept in the history, because the code forgets them: the
bytes that are lost are the bytes of those records, and the condition of `capacity_fair_iff` is
about them. It could not be read off the table, which does not tell a byte in use from one that is
not.

The sums are of any function of a record (`total`). The count, the vertex bytes and the index bytes
are three of them, and what an insertion or a removal does is said once for all.
-/

set_option autoImplicit false

namespace EngineKit
namespace Render

open Lib Ui

/-! ## Sums over the records in use -/

namespace SlotTable

variable {R : Type}

/-- What a slot adds to a sum over records. -/
def weigh (f : R → Nat) (slot : Slot R) : Nat := slot.record.elim 0 f

/-- The sum over the records in use. -/
def total (f : R → Nat) (t : SlotTable R) : Nat := (t.slots.map (weigh f)).sum

/-- The number of records in use. -/
def inUse (t : SlotTable R) : Nat := t.total fun _ => 1

/-- **Every slot is free or in use.** -/
structure Counted (t : SlotTable R) : Prop where
  nodup : t.free.Nodup
  dead : ∀ i ∈ t.free, ∃ generation, t.slots[i.toNat]? = some ⟨generation, none⟩
  count : t.free.length + t.inUse = t.slots.length

/-- An empty table has no slots. -/
theorem Counted.new : (⟨[], []⟩ : SlotTable R).Counted :=
  ⟨List.nodup_nil, List.forall_mem_nil _, rfl⟩

theorem Counted.len {t : SlotTable R} (h : t.Counted) : t.len = t.inUse := by
  rw [SlotTable.len, ← h.count, Nat.add_sub_cancel_left]

/-- One summand is replaced. -/
theorem sum_map_set {α : Type} (w : α → Nat) {xs : List α} {i : Nat} {x : α}
    (h : xs[i]? = some x) (y : α) :
    ((xs.set i y).map w).sum + w x = (xs.map w).sum + w y := by
  induction xs generalizing i with
  | nil => simp at h
  | cons a xs ih =>
    cases i with
    | zero =>
      obtain rfl : a = x := by simpa using h
      simp only [List.set_cons_zero, List.map_cons, List.sum_cons]
      omega
    | succ i =>
      have hrest := ih (i := i) (by simpa using h)
      simp only [List.set_cons_succ, List.map_cons, List.sum_cons]
      omega

theorem total_set (f : R → Nat) {t : SlotTable R} {i : Nat} {slot : Slot R}
    (h : t.slots[i]? = some slot) (slot' : Slot R) (free : List UInt32) :
    (⟨t.slots.set i slot', free⟩ : SlotTable R).total f + weigh f slot =
      t.total f + weigh f slot' := sum_map_set (weigh f) h slot'

theorem total_append (f : R → Nat) (t : SlotTable R) (slot : Slot R) (free : List UInt32) :
    (⟨t.slots ++ [slot], free⟩ : SlotTable R).total f = t.total f + weigh f slot := by
  simp only [total, List.map_append, List.map_singleton, List.sum_append, List.sum_singleton]

/-- With no record in use every sum is zero. -/
theorem total_eq_zero (f : R → Nat) {t : SlotTable R} (h : t.inUse = 0) : t.total f = 0 := by
  rw [total, List.sum_eq_zero_iff]
  intro n hn
  obtain ⟨slot, hslot, rfl⟩ := List.mem_map.mp hn
  have hone : weigh (fun _ => 1) slot = 0 :=
    List.sum_eq_zero_iff.mp h _ (List.mem_map_of_mem hslot)
  obtain ⟨generation, record⟩ := slot
  cases record with
  | none => rfl
  | some r => exact absurd hone (by simp [weigh])

/-- A free slot is taken as it is. -/
theorem Counted.insert_recycled {t : SlotTable R} (h : t.Counted) (room : Bool) (record : R)
    {index : UInt32} (hlast : t.free.getLast? = some index) :
    ∃ handle t', t.insert room record = (.ok handle, t') ∧ t'.Counted ∧
      ∀ f : R → Nat, t'.total f = t.total f + f record := by
  obtain ⟨rest, hfree⟩ := List.getLast?_eq_some_iff.mp hlast
  have hdrop : t.free.dropLast = rest := by rw [hfree, List.dropLast_concat]
  obtain ⟨generation, hslot⟩ := h.dead index (by simp [hfree])
  have hnd := h.nodup
  rw [hfree, List.nodup_append] at hnd
  have hsum (f : R → Nat) : (⟨t.slots.set index.toNat ⟨generation, some record⟩, rest⟩ :
      SlotTable R).total f = t.total f + f record := by
    simpa [weigh] using total_set f hslot ⟨generation, some record⟩ rest
  refine ⟨⟨index, generation⟩, ⟨t.slots.set index.toNat ⟨generation, some record⟩, rest⟩,
    ?_, ⟨hnd.1, ?_, ?_⟩, hsum⟩
  · simp only [insert, takeSlot, hlast, fillSlot, hslot, hdrop]
  · intro i hi
    obtain ⟨g, hg⟩ := h.dead i (by simp [hfree, show i ∈ rest from hi])
    have hne : index.toNat ≠ i.toNat := fun heq =>
      hnd.2.2 i hi index List.mem_cons_self (UInt32.toNat_inj.mp heq).symm
    exact ⟨g, (List.getElem?_set_ne hne).trans hg⟩
  · have hcount := h.count
    rw [hfree, List.length_append, List.length_singleton] at hcount
    show rest.length + total _ _ = (t.slots.set _ _).length
    rw [hsum, List.length_set, ← hcount, inUse]
    omega

/-- A slot is added at the end. -/
theorem Counted.insert_grown {t : SlotTable R} (h : t.Counted) (record : R) (hfree : t.free = [])
    (hsmall : t.slots.length < 2 ^ 32) :
    ∃ handle t', t.insert true record = (.ok handle, t') ∧ t'.Counted ∧
      ∀ f : R → Nat, t'.total f = t.total f + f record := by
  have hindex : (UInt32.ofNat t.slots.length).toNat = t.slots.length :=
    UInt32.toNat_ofNat_of_lt' hsmall
  have htry : u32TryFrom t.slots.length = some (UInt32.ofNat t.slots.length) := if_pos hsmall
  have hsum (f : R → Nat) := total_append f t ⟨INITIAL_GENERATION, some record⟩ []
  refine ⟨⟨UInt32.ofNat t.slots.length, INITIAL_GENERATION⟩,
    ⟨t.slots ++ [⟨INITIAL_GENERATION, some record⟩], []⟩, ?_,
    ⟨List.nodup_nil, List.forall_mem_nil _, ?_⟩, hsum⟩
  · simp [insert, takeSlot, htry, fillSlot, hfree, hindex]
  · have hcount := h.count
    rw [hfree, List.length_nil, Nat.zero_add] at hcount
    show 0 + total _ _ = (t.slots ++ [_]).length
    rw [hsum, List.length_append, List.length_singleton, ← hcount, Nat.zero_add]
    rfl

/-- **An insertion** fails and changes nothing, or adds its record to every sum. -/
theorem Counted.insert_cases {t : SlotTable R} (h : t.Counted) (room : Bool) (record : R) :
    (∃ e, t.insert room record = (.error e, t) ∧ e ≠ .capacityExceeded) ∨
      ∃ handle t', t.insert room record = (.ok handle, t') ∧ t'.Counted ∧
        ∀ f : R → Nat, t'.total f = t.total f + f record := by
  cases hlast : t.free.getLast? with
  | some index => exact .inr (h.insert_recycled room record hlast)
  | none =>
    by_cases hsmall : t.slots.length < 2 ^ 32
    · cases room with
      | false =>
        have htry : u32TryFrom t.slots.length = some (UInt32.ofNat t.slots.length) := if_pos hsmall
        refine .inl ⟨.allocationFailed, ?_, by decide⟩
        simp [insert, takeSlot, hlast, htry]
      | true => exact .inr (h.insert_grown record (List.getLast?_eq_none_iff.mp hlast) hsmall)
    · have htry : u32TryFrom t.slots.length = none := if_neg hsmall
      refine .inl ⟨.integerOverflow, ?_, by decide⟩
      simp [insert, takeSlot, hlast, htry]

/-- A table with nothing in it takes a record: its slots are free, or it has none. -/
theorem Counted.insert_empty {t : SlotTable R} (h : t.Counted) (hempty : t.inUse = 0)
    (record : R) : ∃ handle t', t.insert true record = (.ok handle, t') := by
  cases hlast : t.free.getLast? with
  | some index =>
    obtain ⟨handle, t', hrun, -⟩ := h.insert_recycled true record hlast
    exact ⟨handle, t', hrun⟩
  | none =>
    have hfree : t.free = [] := List.getLast?_eq_none_iff.mp hlast
    have hcount := h.count
    rw [hfree, hempty] at hcount
    have hsmall : t.slots.length < 2 ^ 32 := by
      rw [← hcount]
      decide
    obtain ⟨handle, t', hrun, -⟩ := h.insert_grown record hfree hsmall
    exact ⟨handle, t', hrun⟩

/-- The empty table needs room for its first slot. -/
theorem room_of_insert_empty {room : Bool} {record : R} {handle : Handle}
    (h : ((⟨[], []⟩ : SlotTable R).insert room record).1 = .ok handle) : room = true := by
  cases room with
  | false => cases h
  | true => rfl

/-- **A removal** fails and changes nothing, or takes its record out of every sum. -/
theorem Counted.remove_cases {t : SlotTable R} (h : t.Counted) (room : Bool) (handle : Handle) :
    (∃ e, t.remove room handle = (.error e, t)) ∨
      ∃ record t', t.remove room handle = (.ok record, t') ∧ t'.Counted ∧
        ∀ f : R → Nat, t'.total f + f record = t.total f := by
  rcases t.remove_eq room handle with herror | ⟨record, hr, hrun⟩
  · exact .inl herror
  · have hnot : handle.index ∉ t.free := by
      intro hin
      obtain ⟨generation, hdead⟩ := h.dead _ hin
      have heq := Option.some.inj (hdead.symm.trans hr)
      exact absurd (congrArg Slot.record heq) (by simp)
    have hsum (f : R → Nat) : (⟨t.slots.set handle.index.toNat
        ⟨nextGeneration handle.generation, none⟩, t.free ++ [handle.index]⟩ :
        SlotTable R).total f + f record = t.total f := by
      simpa [weigh] using total_set f hr ⟨nextGeneration handle.generation, none⟩
        (t.free ++ [handle.index])
    have hlt := (List.getElem?_eq_some_iff.mp hr).1
    refine .inr ⟨record, _, hrun, ⟨?_, ?_, ?_⟩, hsum⟩
    · refine h.nodup.append (List.nodup_singleton _) ?_
      intro i hi hmem
      exact hnot (List.mem_singleton.mp hmem ▸ hi)
    · intro i hi
      -- The slot that is freed, or another one of the list.
      by_cases heq : i = handle.index
      · exact ⟨nextGeneration handle.generation, by
          rw [getElem?_set_slot hlt, if_pos heq]⟩
      · obtain ⟨g, hg⟩ := h.dead i (by simpa [heq] using hi)
        exact ⟨g, by rw [getElem?_set_slot hlt, if_neg heq, hg]⟩
    · have hone := hsum fun _ => 1
      have hcount := h.count
      show (t.free ++ [handle.index]).length + total _ (⟨t.slots.set handle.index.toNat
        ⟨nextGeneration handle.generation, none⟩, t.free ++ [handle.index]⟩ : SlotTable R) =
        (t.slots.set _ _).length
      rw [List.length_append, List.length_singleton, List.length_set, ← hcount, inUse, ← hone]
      omega

end SlotTable

/-! ## The bytes of the meshes -/

namespace MeshTable

/-- The bytes of the meshes in the table. -/
def liveVertexBytes (t : MeshTable) : Nat := t.toSlotTable.total MeshRecord.vertexBytes

def liveIndexBytes (t : MeshTable) : Nat := t.toSlotTable.total MeshRecord.indexBytes

/-- The empty table of the same maxima. -/
def cleared (t : MeshTable) : MeshTable :=
  { t with slots := [], free := [], vertexData := [], indexData := [] }

/-- **Capacity is about the meshes in the table.** One is refused only where they leave no room,
    and where there is none of them what an empty table accepts is accepted. -/
structure Fair (t : MeshTable) (mesh : MeshInput) : Prop where
  refused (room : Bool) : (t.tryInsert room mesh).1 = .error .capacityExceeded →
    t.inUse = t.maxMeshes ∨
      t.maxVertexBytes < t.liveVertexBytes + mesh.vertexBytes.length ∨
      t.maxIndexBytes < t.liveIndexBytes + mesh.indexBytes.length
  emptied (room : Bool) (handle : Handle) : t.inUse = 0 →
    (t.cleared.tryInsert room mesh).1 = .ok handle →
      ∃ handle', (t.tryInsert room mesh).1 = .ok handle'

/-- What `try_insert` refuses a valid mesh for. -/
theorem record_eq_capacityExceeded {t : MeshTable} {mesh : MeshInput}
    (hvalid : validateMeshInput mesh = .ok ())
    (hvertex : t.vertexData.length + mesh.vertexBytes.length < 2 ^ 64)
    (hindex : t.indexData.length + mesh.indexBytes.length < 2 ^ 64) :
    t.record mesh = .error .capacityExceeded ↔
      t.maxMeshes ≤ t.len ∨ t.maxVertexBytes < t.vertexData.length + mesh.vertexBytes.length ∨
        t.maxIndexBytes < t.indexData.length + mesh.indexBytes.length := by
  simp only [record, hvalid, checkedAdd_of_lt hvertex, checkedAdd_of_lt hindex, orIntegerOverflow,
    failIf, bind, Except.bind]
  -- The three maxima in the order of the source; the count and the two sums are within their types.
  by_cases hfull : t.maxMeshes ≤ t.len
  · simp [hfull]
  · simp only [eq_false hfull, false_or]
    by_cases hbytes : t.maxVertexBytes < t.vertexData.length + mesh.vertexBytes.length ∨
        t.maxIndexBytes < t.indexData.length + mesh.indexBytes.length
    · simp [hbytes]
    · simp only [eq_false hbytes, iff_false]
      cases u32TryFrom (mesh.vertexBytes.length / mesh.vertexStride.toNat) with
      | none => simp
      | some vertexCount =>
        cases u32TryFrom (mesh.indexBytes.length / 4) with
        | none => simp
        | some indexCount => simp

/-- The answer of an insertion is the refusal, or that of the slots. -/
theorem tryInsert_fst (room : Bool) (t : MeshTable) (mesh : MeshInput) :
    (t.tryInsert room mesh).1 =
      match t.record mesh with
      | .error e => .error e
      | .ok record => (t.toSlotTable.insert room record).1 := by
  unfold tryInsert
  cases t.record mesh with
  | error e => rfl
  | ok record =>
    cases hrun : t.toSlotTable.insert room record with
    | mk answer table => cases answer <;> simp only [hrun]

end MeshTable

/-! ## Runs -/

/-- A table and the records `remove` has answered with, in order. -/
structure MeshHistory where
  table : MeshTable
  removed : List MeshRecord

namespace MeshHistory

def step (s : MeshHistory) : MeshOp → MeshHistory
  | .tryInsert room mesh => { s with table := (s.table.tryInsert room mesh).2 }
  | .remove room handle =>
    match s.table.remove room handle with
    | (.error _, table) => { s with table }
    | (.ok record, table) => ⟨table, s.removed ++ [record]⟩

abbrev steps : MeshHistory → MeshOp → MeshHistory → Prop := fun s op t => t = s.step op

def removedVertexBytes (s : MeshHistory) : Nat := (s.removed.map MeshRecord.vertexBytes).sum

def removedIndexBytes (s : MeshHistory) : Nat := (s.removed.map MeshRecord.indexBytes).sum

/-- **The books of the arrays**: the meshes in the table and those removed have all their bytes
    in them. -/
structure Wf (s : MeshHistory) : Prop where
  slots : s.table.toSlotTable.Counted
  vertexData : s.table.vertexData.length = s.table.liveVertexBytes + s.removedVertexBytes
  indexData : s.table.indexData.length = s.table.liveIndexBytes + s.removedIndexBytes
  meshes : s.table.inUse ≤ s.table.maxMeshes
  vertexFits : s.table.vertexData.length ≤ s.table.maxVertexBytes
  indexFits : s.table.indexData.length ≤ s.table.maxIndexBytes
  vertexSmall : s.table.maxVertexBytes < 2 ^ 63
  indexSmall : s.table.maxIndexBytes < 2 ^ 63

/-- The meshes in the table leave the new one no room, or those removed leave it room too. -/
def Spares (s : MeshHistory) (mesh : MeshInput) : Prop :=
  s.table.inUse = s.table.maxMeshes ∨
    s.table.maxVertexBytes < s.table.liveVertexBytes + mesh.vertexBytes.length ∨
    s.table.maxIndexBytes < s.table.liveIndexBytes + mesh.indexBytes.length ∨
    s.table.liveVertexBytes + s.removedVertexBytes + mesh.vertexBytes.length ≤
        s.table.maxVertexBytes ∧
      s.table.liveIndexBytes + s.removedIndexBytes + mesh.indexBytes.length ≤
        s.table.maxIndexBytes

section Wf

variable {s t : MeshHistory}

/-- A new table has no bytes and no records. -/
theorem Wf.new {room : Bool} {maxMeshes maxVertexBytes maxIndexBytes : Nat} {t : MeshTable}
    (hnew : MeshTable.tryWithCapacity room maxMeshes maxVertexBytes maxIndexBytes = .ok t)
    (hvertex : maxVertexBytes < 2 ^ 63) (hindex : maxIndexBytes < 2 ^ 63) :
    (⟨t, []⟩ : MeshHistory).Wf := by
  unfold MeshTable.tryWithCapacity at hnew
  split at hnew
  · obtain rfl := Except.ok.inj hnew
    exact ⟨.new, rfl, rfl, Nat.zero_le _, Nat.zero_le _, Nat.zero_le _, hvertex, hindex⟩
  · cases hnew

/-- **An insertion** adds the bytes of its mesh to the arrays and to the table. -/
theorem Wf.tryInsert (h : s.Wf) (room : Bool) (mesh : MeshInput) :
    (s.step (.tryInsert room mesh)).Wf := by
  simp only [step, MeshTable.tryInsert]
  -- A mesh that is refused leaves the table; one that is not may still find no slot, and its bytes
  -- are written only after that.
  cases hrecord : s.table.record mesh with
  | error e => exact h
  | ok r =>
    have hkept : ¬ (s.table.maxMeshes ≤ s.table.len) ∧
        s.table.vertexData.length + mesh.vertexBytes.length ≤ s.table.maxVertexBytes ∧
        s.table.indexData.length + mesh.indexBytes.length ≤ s.table.maxIndexBytes := by
      obtain ⟨hv, hi, -⟩ := MeshTable.record_eq_ok hrecord
      have hvalid : validateMeshInput mesh = .ok () := by
        simp only [MeshTable.record, bind_eq_ok] at hrecord
        exact hrecord.choose_spec.1
      have hnot := (MeshTable.record_eq_capacityExceeded hvalid hv hi).not.mp (by simp [hrecord])
      push Not at hnot
      exact ⟨Nat.not_le.mpr hnot.1, hnot.2⟩
    obtain ⟨-, -, -, hvb, -, hib, -⟩ := MeshTable.record_eq_ok hrecord
    rcases h.slots.insert_cases room r with ⟨e, hrun, -⟩ | ⟨handle, table, hrun, hslots, hsum⟩
    · simp only [hrun]
      exact h
    · simp only [hrun]
      have hvertex := hsum MeshRecord.vertexBytes
      have hindex := hsum MeshRecord.indexBytes
      have hmeshes := hsum fun _ => 1
      rw [hvb] at hvertex
      rw [hib] at hindex
      rw [h.slots.len] at hkept
      obtain ⟨hlt, hfitv, hfiti⟩ := hkept
      refine ⟨hslots, ?_, ?_, ?_, ?_, ?_, h.vertexSmall, h.indexSmall⟩
      · have hold := h.vertexData
        show (s.table.vertexData ++ mesh.vertexBytes).length = table.total _ + s.removedVertexBytes
        rw [List.length_append, hold, hvertex, MeshTable.liveVertexBytes]
        omega
      · have hold := h.indexData
        show (s.table.indexData ++ mesh.indexBytes).length = table.total _ + s.removedIndexBytes
        rw [List.length_append, hold, hindex, MeshTable.liveIndexBytes]
        omega
      · exact hmeshes.trans_le (Nat.succ_le_of_lt (Nat.not_le.mp hlt))
      · exact List.length_append.trans_le hfitv
      · exact List.length_append.trans_le hfiti

/-- **A removal** leaves the arrays, and the history has the bytes. -/
theorem Wf.remove (h : s.Wf) (room : Bool) (handle : Handle) :
    (s.step (.remove room handle)).Wf := by
  simp only [step, MeshTable.remove]
  -- Nothing is removed, or a record moves from the table to the history.
  rcases h.slots.remove_cases room handle with ⟨e, hrun⟩ | ⟨r, table, hrun, hslots, hsum⟩
  · simp only [hrun]
    exact h
  · simp only [hrun]
    have hvertex := hsum MeshRecord.vertexBytes
    have hindex := hsum MeshRecord.indexBytes
    have hmeshes := hsum fun _ => 1
    refine ⟨hslots, ?_, ?_, ?_, h.vertexFits, h.indexFits, h.vertexSmall, h.indexSmall⟩
    · have hold := h.vertexData
      rw [MeshTable.liveVertexBytes, ← hvertex, removedVertexBytes] at hold
      simp only [MeshTable.liveVertexBytes, removedVertexBytes, List.map_append, List.map_singleton,
        List.sum_append, List.sum_singleton]
      omega
    · have hold := h.indexData
      rw [MeshTable.liveIndexBytes, ← hindex, removedIndexBytes] at hold
      simp only [MeshTable.liveIndexBytes, removedIndexBytes, List.map_append, List.map_singleton,
        List.sum_append, List.sum_singleton]
      omega
    · exact (Nat.le_of_lt (Nat.lt_of_succ_le hmeshes.le)).trans h.meshes

/-- The books of any run. -/
theorem Wf.run (h : s.Wf) (hr : Reaches steps s t) : t.Wf := by
  refine hr.invariant Wf h ?_
  rintro u op _ hwf rfl
  cases op with
  | tryInsert room mesh => exact hwf.tryInsert room mesh
  | remove room handle => exact hwf.remove room handle

section Fair

variable {mesh : MeshInput}

/-- What `try_insert` refuses a valid mesh for, in the books' terms. -/
theorem Wf.refuses_iff (h : s.Wf) (hvalid : validateMeshInput mesh = .ok ())
    (hv : mesh.vertexBytes.length < 2 ^ 63) (hi : mesh.indexBytes.length < 2 ^ 63) (room : Bool) :
    (s.table.tryInsert room mesh).1 = .error .capacityExceeded ↔
      s.table.inUse = s.table.maxMeshes ∨
        s.table.maxVertexBytes <
          s.table.liveVertexBytes + s.removedVertexBytes + mesh.vertexBytes.length ∨
        s.table.maxIndexBytes <
          s.table.liveIndexBytes + s.removedIndexBytes + mesh.indexBytes.length := by
  have hvertex := h.vertexFits
  have hindex := h.indexFits
  have hvsmall := h.vertexSmall
  have hismall := h.indexSmall
  have hmeshes : s.table.maxMeshes ≤ s.table.len ↔ s.table.inUse = s.table.maxMeshes := by
    rw [h.slots.len]
    exact ⟨fun hle => Nat.le_antisymm h.meshes hle, fun heq => heq.ge⟩
  have hrecord := MeshTable.record_eq_capacityExceeded (t := s.table) hvalid (by omega) (by omega)
  rw [hmeshes, h.vertexData, h.indexData] at hrecord
  rw [← hrecord, MeshTable.tryInsert_fst]
  cases hr : s.table.record mesh with
  | error e => simp
  | ok r =>
    rcases h.slots.insert_cases room r with ⟨e, hrun, hne⟩ | ⟨handle, table, hrun, -⟩
    · simp [hrun, hne]
    · simp [hrun]

/-- **A table with no mesh in it** accepts a mesh the empty one accepts, if the bytes left behind
    leave it room. -/
theorem Wf.accepts (h : s.Wf)
    (hvertex : s.table.liveVertexBytes + s.removedVertexBytes + mesh.vertexBytes.length ≤
      s.table.maxVertexBytes)
    (hindex : s.table.liveIndexBytes + s.removedIndexBytes + mesh.indexBytes.length ≤
      s.table.maxIndexBytes)
    {room : Bool} {handle : Handle} (hempty : s.table.inUse = 0)
    (hcleared : (s.table.cleared.tryInsert room mesh).1 = .ok handle) :
    ∃ handle', (s.table.tryInsert room mesh).1 = .ok handle' := by
  rw [MeshTable.tryInsert_fst] at hcleared ⊢
  cases hr : s.table.cleared.record mesh with
  | error e =>
    rw [hr] at hcleared
    cases hcleared
  | ok r =>
    rw [hr] at hcleared
    have hvalid : validateMeshInput mesh = .ok () := by
      simp only [MeshTable.record, bind_eq_ok] at hr
      exact hr.choose_spec.1
    obtain ⟨hv0, hi0, -, -, -, -, -, -, hvertexCount, hindexCount⟩ := MeshTable.record_eq_ok hr
    have hpos : ¬ s.table.maxMeshes ≤ 0 := by
      have hnot := (MeshTable.record_eq_capacityExceeded hvalid hv0 hi0).not.mp (by simp [hr])
      exact fun hle => hnot (.inl hle)
    have hvsmall := h.vertexSmall
    have hismall := h.indexSmall
    obtain ⟨r', hr'⟩ : ∃ r', s.table.record mesh = .ok r' := by
      refine MeshTable.record_of_fits hvalid ?_ ?_ ?_ (by omega) (by omega) ?_ ?_
      · rw [h.slots.len, hempty]
        exact Nat.not_le.mp hpos
      · rwa [h.vertexData]
      · rwa [h.indexData]
      · exact hvertexCount ▸ r.vertexCount.toNat_lt
      · exact hindexCount ▸ r.indexCount.toNat_lt
    obtain rfl := SlotTable.room_of_insert_empty hcleared
    obtain ⟨made, table, hrun⟩ := h.slots.insert_empty hempty r'
    rw [hr']
    exact ⟨made, by simp only [hrun]⟩

/-- **Capacity is about the meshes in the table** if and only if the bytes of those removed have
    room beside them, in every run. No vector and no slice is longer than `isize::MAX` bytes. -/
theorem capacity_fair_iff {room : Bool} {maxMeshes maxVertexBytes maxIndexBytes : Nat}
    {table : MeshTable}
    (hnew : MeshTable.tryWithCapacity room maxMeshes maxVertexBytes maxIndexBytes = .ok table)
    (hvertex : maxVertexBytes < 2 ^ 63) (hindex : maxIndexBytes < 2 ^ 63)
    (hr : Reaches steps ⟨table, []⟩ s) (hvalid : validateMeshInput mesh = .ok ())
    (hv : mesh.vertexBytes.length < 2 ^ 63) (hi : mesh.indexBytes.length < 2 ^ 63) :
    s.table.Fair mesh ↔ s.Spares mesh := by
  have h := (Wf.new hnew hvertex hindex).run hr
  constructor
  · intro hfair
    -- A mesh that is refused only for the bytes of those removed shows that the table is not fair.
    by_contra hspares
    simp only [Spares, not_or, not_and_or, Nat.not_lt, Nat.not_le] at hspares
    obtain ⟨hmeshes, hlivev, hlivei, hspent⟩ := hspares
    have hrefused := (h.refuses_iff hvalid hv hi true).mpr (.inr hspent)
    rcases hfair.refused true hrefused with hfull | hfull | hfull
    · exact hmeshes hfull
    · exact Nat.not_lt.mpr hlivev hfull
    · exact Nat.not_lt.mpr hlivei hfull
  · intro hspares
    constructor
    · intro room hrefused
      rw [h.refuses_iff hvalid hv hi] at hrefused
      -- Refused, by one of the maxima: the condition says which of them those in the table are to
      -- blame for.
      rcases hspares with hfull | hfull | hfull | ⟨hfitv, hfiti⟩
      · exact .inl hfull
      · exact .inr (.inl hfull)
      · exact .inr (.inr hfull)
      · omega
    · intro room handle hempty hcleared
      have hvzero : s.table.liveVertexBytes = 0 := SlotTable.total_eq_zero _ hempty
      have hizero : s.table.liveIndexBytes = 0 := SlotTable.total_eq_zero _ hempty
      have hnot : ¬ (s.table.cleared.tryInsert room mesh).1 = .error .capacityExceeded := by
        rw [hcleared]
        simp
      rw [Wf.refuses_iff (s := ⟨s.table.cleared, []⟩)
        ⟨.new, rfl, rfl, Nat.zero_le _, Nat.zero_le _, Nat.zero_le _, h.vertexSmall, h.indexSmall⟩
        hvalid hv hi] at hnot
      simp only [not_or, Nat.not_lt] at hnot
      obtain ⟨hmeshes, hfitv, hfiti⟩ := hnot
      have hfit0v : mesh.vertexBytes.length ≤ s.table.maxVertexBytes := Nat.le_of_add_left_le hfitv
      have hfit0i : mesh.indexBytes.length ≤ s.table.maxIndexBytes := Nat.le_of_add_left_le hfiti
      rcases hspares with hfull | hfull | hfull | ⟨hspentv, hspenti⟩
      · exact absurd (hempty.symm.trans hfull) hmeshes
      · omega
      · omega
      · exact h.accepts hspentv hspenti hempty hcleared

/-- A table with room for the bytes of two corners: after the first was inserted and removed a
    corner is accepted, after the second it is not. -/
theorem capacity_fair_corner : ∃ table once twice,
    MeshTable.tryWithCapacity true 1 24 8 = .ok table ∧ Reaches steps ⟨table, []⟩ once ∧
      once.table.inUse = 0 ∧ once.table.Fair corner ∧ Reaches steps once twice ∧
        twice.table.inUse = 0 ∧ ¬ twice.table.Fair corner := by
  obtain ⟨table, hnew⟩ : ∃ table, MeshTable.tryWithCapacity true 1 24 8 = .ok table := ⟨_, rfl⟩
  let reuse (handle : Handle) (s : MeshHistory) : MeshHistory :=
    (s.step (.tryInsert true corner)).step (.remove true handle)
  have hreuse (handle : Handle) (s : MeshHistory) : Reaches steps s (reuse handle s) :=
    .tail (.single ⟨.tryInsert true corner, rfl⟩) ⟨.remove true handle, rfl⟩
  let once := reuse ⟨0, 1⟩ ⟨table, []⟩
  let twice := reuse ⟨0, 2⟩ once
  have honce : Reaches steps ⟨table, []⟩ once := hreuse ⟨0, 1⟩ _
  have htwice : Reaches steps once twice := hreuse ⟨0, 2⟩ once
  have hstates : (once.table.inUse = 0 ∧ once.Spares corner) ∧
      twice.table.inUse = 0 ∧ ¬ twice.Spares corner := by
    obtain rfl := Except.ok.inj hnew
    unfold Spares
    decide +kernel
  obtain ⟨⟨hempty, hspares⟩, hempty', hspent⟩ := hstates
  have hfair {s : MeshHistory} (hr : Reaches steps ⟨table, []⟩ s) :
      s.table.Fair corner ↔ s.Spares corner :=
    capacity_fair_iff hnew (by decide) (by decide) hr validate_corner (by decide) (by decide)
  exact ⟨table, once, twice, hnew, honce, hempty, (hfair honce).mpr hspares, htwice, hempty',
    mt (hfair (honce.trans htwice)).mp hspent⟩

/-- **A mesh refused by an empty table.** The first corner's bytes fill the table for good: once
    it has been removed there is room for a mesh and for no bytes. -/
theorem refuses_after_remove : ∃ table s, MeshTable.tryWithCapacity true 1 12 4 = .ok table ∧
    Reaches steps ⟨table, []⟩ s ∧ s.table.inUse = 0 ∧
      (s.table.tryInsert true corner).1 = .error .capacityExceeded ∧
      (table.tryInsert true corner).1 = .ok ⟨0, 1⟩ := by
  refine ⟨cornerTable 1,
    ((⟨cornerTable 1, []⟩ : MeshHistory).step (.tryInsert true corner)).step
      (.remove true ⟨0, 1⟩), rfl, ?_, ?_, ?_, ?_⟩
  · exact .tail (.single ⟨.tryInsert true corner, rfl⟩) ⟨.remove true ⟨0, 1⟩, rfl⟩
  · decide +kernel
  · decide +kernel
  · decide +kernel

end Fair

end Wf

end MeshHistory

end Render
end EngineKit
