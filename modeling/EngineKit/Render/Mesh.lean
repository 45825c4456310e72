import EngineKit.Render.SlotTable
import EngineKit.Ui.Paint

/-!
# Meshes and materials

`MeshTable` is slots of records over two byte arrays: inserting a mesh copies its bytes behind the
others, and its record says where. Removing one frees its slot and leaves its bytes where they
are. `MaterialTable` is the slots alone.

The laws of the two tables are those of their slots (`Render/SlotTable.lean`), and for meshes the
arrays' invariant `MeshTable.Wf`: every record's ranges lie inside the arrays, and no two meet.

Both tables can hand out the slot numbered `u32::MAX`, whose handle they then reject, so the laws
are those of runs that do not come to it (`MeshLife.Nameable`). `fills_up` is a run that does.

The laws are stated twice over and proved once. `Lawful` speaks of the table as its callers see it,
through `get` and the two accessors of bytes; `Wf` and `SlotLife` speak of slots, records and
offsets. The step between them is that every step of a table is a step of its slots or leaves them
alone (`slots_step`), so a run of the table is a run of the slots, where a handle is live or stale
for reasons that have nothing to do with meshes. What is left for this module are the bytes.

Bytes are never moved, and the arrays never get shorter. So a record that was right when it was made
stays right, and the proof needs no more of a later step than that the arrays have grown at the end
(`Stored.mono`). This is also why the table can be full although meshes were removed from it.
-/

set_option autoImplicit false

namespace EngineKit
namespace Render

open Lib Ui

/-! ## The mesh table -/

structure MeshRecord where
  vertexOffset : Nat
  vertexBytes : Nat
  vertexStride : UInt32
  vertexCount : UInt32
  indexOffset : Nat
  indexBytes : Nat
  indexCount : UInt32
  bounds : Vector Float32 4

structure MeshTable extends SlotTable MeshRecord where
  vertexData : List UInt8
  indexData : List UInt8
  maxMeshes : Nat
  maxVertexBytes : Nat
  maxIndexBytes : Nat

def orIntegerOverflow {α : Type} : Option α → Except Renderer3dError α
  | some x => .ok x
  | none => .error .integerOverflow

@[simp] theorem orIntegerOverflow_eq_ok {α : Type} {o : Option α} {x : α} :
    orIntegerOverflow o = .ok x ↔ o = some x := by
  cases o <;> simp [orIntegerOverflow]

/-- `if c { return Err(error); }`. -/
def failIf (c : Prop) [Decidable c] (error : Renderer3dError) : Except Renderer3dError Unit :=
  if c then .error error else .ok ()

/-- The mesh a caller hands over. -/
structure MeshInput where
  vertexBytes : List UInt8
  vertexStride : UInt32
  indexBytes : List UInt8
  bounds : Vector Float32 4

def validateMeshInput (mesh : MeshInput) : Except Renderer3dError Unit :=
  if mesh.vertexStride < 12 ∨ mesh.vertexStride.toNat % 4 ≠ 0 ∨ mesh.vertexBytes = [] ∨
      mesh.vertexBytes.length % mesh.vertexStride.toNat ≠ 0 then
    .error .invalidVertexFormat
  else if mesh.indexBytes = [] ∨ mesh.indexBytes.length % 4 ≠ 0 then .error .invalidIndexData
  else if ¬ mesh.bounds.all Float32.isFinite ∨ mesh.bounds[3] < 0 then .error .invalidBounds
  else .ok ()

namespace MeshTable

/-- `room` is whether the three reservations succeed. -/
def tryWithCapacity (room : Bool) (maxMeshes maxVertexBytes maxIndexBytes : Nat) :
    Except Renderer3dError MeshTable :=
  if room then
    .ok { slots := [], free := [], vertexData := [], indexData := [], maxMeshes, maxVertexBytes,
          maxIndexBytes }
  else .error .allocationFailed

/-- `try_insert` up to its record: every check that does not concern the slot. -/
def record (t : MeshTable) (mesh : MeshInput) : Except Renderer3dError MeshRecord := do
  validateMeshInput mesh
  failIf (t.maxMeshes ≤ t.len) .capacityExceeded
  let vertexEnd ← orIntegerOverflow (checkedAdd t.vertexData.length mesh.vertexBytes.length)
  let indexEnd ← orIntegerOverflow (checkedAdd t.indexData.length mesh.indexBytes.length)
  failIf (t.maxVertexBytes < vertexEnd ∨ t.maxIndexBytes < indexEnd) .capacityExceeded
  let vertexCount ←
    orIntegerOverflow (u32TryFrom (mesh.vertexBytes.length / mesh.vertexStride.toNat))
  let indexCount ← orIntegerOverflow (u32TryFrom (mesh.indexBytes.length / 4))
  .ok
    { vertexOffset := t.vertexData.length
      vertexBytes := mesh.vertexBytes.length
      vertexStride := mesh.vertexStride
      vertexCount
      indexOffset := t.indexData.length
      indexBytes := mesh.indexBytes.length
      indexCount
      bounds := mesh.bounds }

def tryInsert (room : Bool) (t : MeshTable) (mesh : MeshInput) :
    Except Renderer3dError Handle × MeshTable :=
  match t.record mesh with
  | .error e => (.error e, t)
  | .ok record =>
    match t.toSlotTable.insert room record with
    | (.error e, table) => (.error e, { t with toSlotTable := table })
    | (.ok handle, table) =>
      (.ok handle,
        { t with
          toSlotTable := table
          vertexData := t.vertexData ++ mesh.vertexBytes
          indexData := t.indexData ++ mesh.indexBytes })

def get (t : MeshTable) (handle : Handle) : Except Renderer3dError MeshRecord :=
  t.toSlotTable.get handle

/-- `data.get(start..end)`. -/
def slice (data : List UInt8) (start stop : Nat) : Except Renderer3dError (List UInt8) :=
  if start ≤ stop ∧ stop ≤ data.length then .ok ((data.drop start).take (stop - start))
  else .error .invalidHandle

def vertexBytes (t : MeshTable) (handle : Handle) : Except Renderer3dError (List UInt8) := do
  let record ← t.get handle
  let stop ← orIntegerOverflow (checkedAdd record.vertexOffset record.vertexBytes)
  slice t.vertexData record.vertexOffset stop

def indexBytes (t : MeshTable) (handle : Handle) : Except Renderer3dError (List UInt8) := do
  let record ← t.get handle
  let stop ← orIntegerOverflow (checkedAdd record.indexOffset record.indexBytes)
  slice t.indexData record.indexOffset stop

def remove (room : Bool) (t : MeshTable) (handle : Handle) :
    Except Renderer3dError MeshRecord × MeshTable :=
  let (answer, table) := t.toSlotTable.remove room handle
  (answer, { t with toSlotTable := table })

end MeshTable

/-! ## The material table -/

structure MaterialRecord where
  baseColor : Vector Float32 4
  metallic : Float32
  roughness : Float32

structure MaterialTable extends SlotTable MaterialRecord where
  maxMaterials : Nat

namespace MaterialTable

def tryWithCapacity (room : Bool) (maxMaterials : Nat) : Except Renderer3dError MaterialTable :=
  if room then .ok { slots := [], free := [], maxMaterials } else .error .allocationFailed

/-- The check `try_insert` starts with. -/
def refuses (t : MaterialTable) (record : MaterialRecord) : Bool :=
  decide (t.maxMaterials ≤ t.len) || ! record.baseColor.all Float32.isFinite ||
    ! record.metallic.isFinite || ! record.roughness.isFinite ||
    ! (decide (0 ≤ record.metallic) && decide (record.metallic ≤ 1)) ||
    ! (decide (0 ≤ record.roughness) && decide (record.roughness ≤ 1))

def tryInsert (room : Bool) (t : MaterialTable) (record : MaterialRecord) :
    Except Renderer3dError Handle × MaterialTable :=
  if t.refuses record then (.error .capacityExceeded, t)
  else
    let (answer, table) := t.toSlotTable.insert room record
    (answer, { t with toSlotTable := table })

/-- Unlike a mesh's, a material's record is not looked at before its generation is. -/
def get (t : MaterialTable) (handle : Handle) : Except Renderer3dError MaterialRecord :=
  if ¬ handle.isValid then .error .invalidHandle
  else
    match t.slots[handle.index.toNat]? with
    | none => .error .invalidHandle
    | some slot =>
      if slot.generation ≠ handle.generation then .error .invalidHandle
      else
        match slot.record with
        | none => .error .invalidHandle
        | some record => .ok record

def remove (room : Bool) (t : MaterialTable) (handle : Handle) :
    Except Renderer3dError MaterialRecord × MaterialTable :=
  let (answer, table) := t.toSlotTable.remove room handle
  (answer, { t with toSlotTable := table })

theorem get_eq (t : MaterialTable) (handle : Handle) : t.get handle = t.toSlotTable.get handle := by
  unfold get SlotTable.get SlotTable.validSlot
  split
  · rfl
  · cases t.slots[handle.index.toNat]? with
    | none => rfl
    | some slot =>
      obtain ⟨generation, record⟩ := slot
      by_cases hgen : generation = handle.generation
      · cases record <;> simp [hgen]
      · simp [hgen]

end MaterialTable

/-! ## The arrays -/

section Mesh

variable {t : MeshTable}

/-- What `try_insert` writes down of a mesh: where its bytes go, how many they are, and how many
    vertices and indices that makes. -/
theorem MeshTable.record_eq_ok {mesh : MeshInput} {record : MeshRecord}
    (h : t.record mesh = .ok record) :
    t.vertexData.length + mesh.vertexBytes.length < 2 ^ 64 ∧
      t.indexData.length + mesh.indexBytes.length < 2 ^ 64 ∧
      record.vertexOffset = t.vertexData.length ∧
      record.vertexBytes = mesh.vertexBytes.length ∧
      record.indexOffset = t.indexData.length ∧ record.indexBytes = mesh.indexBytes.length ∧
      record.vertexStride = mesh.vertexStride ∧ record.bounds = mesh.bounds ∧
      record.vertexCount.toNat = mesh.vertexBytes.length / mesh.vertexStride.toNat ∧
      record.indexCount.toNat = mesh.indexBytes.length / 4 := by
  simp only [MeshTable.record, bind_eq_ok, orIntegerOverflow_eq_ok] at h
  obtain ⟨-, -, -, -, vertexEnd, hvertex, indexEnd, hindex, -, -, vertexCount, hvertexCount,
    indexCount, hindexCount, hrecord⟩ := h
  obtain rfl := Except.ok.inj hrecord
  have hfits {a b c : Nat} (hsum : checkedAdd a b = some c) : a + b < 2 ^ 64 := by
    unfold checkedAdd at hsum
    split at hsum
    · assumption
    · cases hsum
  exact ⟨hfits hvertex, hfits hindex, rfl, rfl, rfl, rfl, rfl, rfl,
    toNat_of_u32TryFrom hvertexCount, toNat_of_u32TryFrom hindexCount⟩

/-- A mesh the checks accept and the table has room for gets a record. -/
theorem MeshTable.record_of_fits {mesh : MeshInput} (hvalid : validateMeshInput mesh = .ok ())
    (hlen : t.len < t.maxMeshes)
    (hvertex : t.vertexData.length + mesh.vertexBytes.length ≤ t.maxVertexBytes)
    (hindex : t.indexData.length + mesh.indexBytes.length ≤ t.maxIndexBytes)
    (hmaxVertex : t.maxVertexBytes < 2 ^ 64) (hmaxIndex : t.maxIndexBytes < 2 ^ 64)
    (hvertexCount : mesh.vertexBytes.length / mesh.vertexStride.toNat < 2 ^ 32)
    (hindexCount : mesh.indexBytes.length / 4 < 2 ^ 32) : ∃ r, t.record mesh = .ok r := by
  have hfull : ¬ t.maxMeshes ≤ t.len := Nat.not_le.mpr hlen
  have hbytes : ¬ (t.maxVertexBytes < t.vertexData.length + mesh.vertexBytes.length ∨
      t.maxIndexBytes < t.indexData.length + mesh.indexBytes.length) := by omega
  have hv := checkedAdd_of_lt (hvertex.trans_lt hmaxVertex)
  have hi := checkedAdd_of_lt (hindex.trans_lt hmaxIndex)
  simp only [MeshTable.record, hvalid, failIf, if_neg hfull, hv, hi, orIntegerOverflow, u32TryFrom,
    if_pos hvertexCount, if_pos hindexCount, bind, Except.bind, if_neg hbytes]
  exact ⟨_, rfl⟩

/-- Two ranges without a byte in common. -/
def Apart (offset bytes offset' bytes' : Nat) : Prop :=
  offset + bytes ≤ offset' ∨ offset' + bytes' ≤ offset

/-- **The arrays' invariant.** `inside` and `apart` quantify over handles and not over slots: a slot
    without a record has no range to speak of, and two slots never answer to one handle. -/
structure MeshTable.Wf (t : MeshTable) : Prop where
  slots : t.toSlotTable.Wf
  vertexSmall : t.vertexData.length < 2 ^ 64
  indexSmall : t.indexData.length < 2 ^ 64
  inside (handle : Handle) (r : MeshRecord) : t.Holds handle r →
    r.vertexOffset + r.vertexBytes ≤ t.vertexData.length ∧
      r.indexOffset + r.indexBytes ≤ t.indexData.length
  apart (x y : Handle) (r r' : MeshRecord) : t.Holds x r → t.Holds y r' → x ≠ y →
    Apart r.vertexOffset r.vertexBytes r'.vertexOffset r'.vertexBytes ∧
      Apart r.indexOffset r.indexBytes r'.indexOffset r'.indexBytes

/-- A new table has nothing to be inside of. -/
theorem MeshTable.Wf.tryWithCapacity {room : Bool} {maxMeshes maxVertexBytes maxIndexBytes : Nat}
    (h : MeshTable.tryWithCapacity room maxMeshes maxVertexBytes maxIndexBytes = .ok t) :
    t.Wf ∧ t.slots = [] := by
  unfold MeshTable.tryWithCapacity at h
  split at h
  · obtain rfl := Except.ok.inj h
    have hnone (handle : Handle) (r : MeshRecord) :
        ¬ (⟨[], []⟩ : SlotTable MeshRecord).Holds handle r := by simp [SlotTable.Holds]
    exact ⟨⟨.new, Nat.two_pow_pos 64, Nat.two_pow_pos 64, fun x r hr => absurd hr (hnone x r),
      fun x _ r _ hr => absurd hr (hnone x r)⟩, rfl⟩
  · cases h

theorem Apart.symm {a b c d : Nat} (h : Apart a b c d) : Apart c d a b := Or.symm h

/-- **An insertion** fails and changes nothing, or its slot takes the record of the bytes it puts
    behind the others. -/
theorem MeshTable.Wf.tryInsert_cases (h : t.Wf) {room : Bool} {mesh : MeshInput}
    (hroom : t.free = [] → t.slots.length = 2 ^ 32 - 1 →
      room = false ∨ ∃ e, t.record mesh = .error e) :
    (∃ e, t.tryInsert room mesh = (.error e, t)) ∨
      ∃ record handle t', t.record mesh = .ok record ∧
        t.tryInsert room mesh = (.ok handle, t') ∧ t'.Wf ∧
        t.toSlotTable.insert room record = (.ok handle, t'.toSlotTable) ∧
        t'.Holds handle record ∧ t'.vertexData = t.vertexData ++ mesh.vertexBytes ∧
        t'.indexData = t.indexData ++ mesh.indexBytes ∧
        (t.free = [] → t.slots.length = 2 ^ 32 - 1 → room = false) := by
  -- Every check that concerns the bytes comes before the slot is taken.
  cases hrecord : t.record mesh with
  | error e => exact .inl ⟨e, by simp only [MeshTable.tryInsert, hrecord]⟩
  | ok r =>
    obtain ⟨hvertex, hindex, hvo, hvb, hio, hib, -⟩ := MeshTable.record_eq_ok hrecord
    have hslot (hfree : t.free = []) (hfull : t.slots.length = 2 ^ 32 - 1) : room = false := by
      rcases hroom hfree hfull with hroom | ⟨e, herror⟩
      · exact hroom
      · rw [hrecord] at herror
        cases herror
    rcases h.slots.insert_cases hslot r with ⟨e, hrun⟩ |
      ⟨handle, table, hrun, hwf, -, hpoint⟩
    · exact .inl ⟨e, by simp only [MeshTable.tryInsert, hrecord, hrun]⟩
    · have hnew : table.Holds handle r := by rw [SlotTable.Holds, hpoint, if_pos rfl]
      have hold {x : Handle} {r' : MeshRecord} (hx : table.Holds x r') (hne : x ≠ handle) :
          t.Holds x r' := by
        have hindex : x.index ≠ handle.index := fun heq => hne (hx.eq_of_index hnew heq)
        rw [SlotTable.Holds, hpoint, if_neg hindex] at hx
        exact hx
      refine .inr ⟨r, handle,
        { t with
          toSlotTable := table
          vertexData := t.vertexData ++ mesh.vertexBytes
          indexData := t.indexData ++ mesh.indexBytes },
        rfl, by simp only [MeshTable.tryInsert, hrecord, hrun], ?_, hrun, hnew, rfl, rfl, hslot⟩
      -- the new record's ranges are the arrays' new ends
      have hapart {x : Handle} {r' : MeshRecord} (hx : t.Holds x r') :
          Apart r'.vertexOffset r'.vertexBytes r.vertexOffset r.vertexBytes ∧
            Apart r'.indexOffset r'.indexBytes r.indexOffset r.indexBytes := by
        obtain ⟨hv, hi⟩ := h.inside x r' hx
        exact ⟨.inl (hvo ▸ hv), .inl (hio ▸ hi)⟩
      constructor
      · exact hwf
      · rw [List.length_append]
        exact hvertex
      · rw [List.length_append]
        exact hindex
      · intro x r' hx
        rw [List.length_append, List.length_append]
        -- The new range begins where the old arrays end, and every old one ends there or before.
        by_cases heq : x = handle
        · subst heq
          obtain rfl := SlotTable.Holds.unique hx hnew
          omega
        · obtain ⟨hv, hi⟩ := h.inside x r' (hold hx heq)
          omega
      · intro x y r₁ r₂ hx hy hne
        by_cases hxh : x = handle
        · subst hxh
          obtain rfl := SlotTable.Holds.unique hx hnew
          obtain ⟨hv, hi⟩ := hapart (hold hy (Ne.symm hne))
          exact ⟨hv.symm, hi.symm⟩
        · by_cases hyh : y = handle
          · subst hyh
            obtain rfl := SlotTable.Holds.unique hy hnew
            exact hapart (hold hx hxh)
          · exact h.apart x y r₁ r₂ (hold hx hxh) (hold hy hyh) hne

/-- A removal changes the slots only, as a removal from them. -/
theorem MeshTable.Wf.remove (h : t.Wf) (room : Bool) (handle : Handle) :
    (t.remove room handle).2.Wf := by
  unfold MeshTable.remove
  rcases h.slots.remove_cases room handle with ⟨e, hrun⟩ | ⟨r, table, hrun, hwf, -, hpoint⟩
  · rw [hrun]
    exact h
  · rw [hrun]
    have hold {x : Handle} {r' : MeshRecord} (hx : table.Holds x r') : t.Holds x r' := by
      by_cases heq : x.index = handle.index
      · rw [SlotTable.Holds, hpoint, if_pos heq] at hx
        exact absurd (Option.some.inj hx) (by simp)
      · rw [SlotTable.Holds, hpoint, if_neg heq] at hx
        exact hx
    exact ⟨hwf, h.vertexSmall, h.indexSmall, fun x r' hx => h.inside x r' (hold hx),
      fun x y r₁ r₂ hx hy hne => h.apart x y r₁ r₂ (hold hx) (hold hy) hne⟩

/-- A range inside an array is a slice of it. -/
theorem slice_eq_ok {data : List UInt8} {start bytes : Nat} (h : start + bytes ≤ data.length) :
    MeshTable.slice data start (start + bytes) = .ok ((data.drop start).take bytes) := by
  rw [MeshTable.slice, if_pos ⟨Nat.le_add_right .., h⟩, Nat.add_sub_cancel_left]

/-- The bytes of a record in use. -/
theorem MeshTable.Wf.bytes (h : t.Wf) {handle : Handle} {r : MeshRecord} (hr : t.Holds handle r) :
    t.vertexBytes handle = .ok ((t.vertexData.drop r.vertexOffset).take r.vertexBytes) ∧
      t.indexBytes handle = .ok ((t.indexData.drop r.indexOffset).take r.indexBytes) := by
  obtain ⟨hv, hi⟩ := h.inside handle r hr
  have hvertex := h.vertexSmall
  have hindex := h.indexSmall
  have hget : t.get handle = .ok r := h.slots.get_eq_ok.mpr hr
  constructor
  · refine bind_eq_ok.mpr ⟨r, hget, bind_eq_ok.mpr ⟨_, ?_, slice_eq_ok hv⟩⟩
    exact orIntegerOverflow_eq_ok.mpr (checkedAdd_of_lt (by omega))
  · refine bind_eq_ok.mpr ⟨r, hget, bind_eq_ok.mpr ⟨_, ?_, slice_eq_ok hi⟩⟩
    exact orIntegerOverflow_eq_ok.mpr (checkedAdd_of_lt (by omega))

end Mesh

/-! ## Runs of the mesh table -/

inductive MeshOp where
  | tryInsert (room : Bool) (mesh : MeshInput)
  | remove (room : Bool) (handle : Handle)

/-- A table and the handles it has handed out, in order. -/
structure MeshLife where
  table : MeshTable
  issued : List Handle

namespace MeshLife

def step (s : MeshLife) : MeshOp → MeshLife
  | .tryInsert room mesh =>
    match s.table.tryInsert room mesh with
    | (.error _, table) => { s with table }
    | (.ok handle, table) => ⟨table, s.issued ++ [handle]⟩
  | .remove room handle => { s with table := (s.table.remove room handle).2 }

/-- The step does not come to the slot no handle can name. -/
def Nameable (s : MeshLife) : MeshOp → Prop
  | .tryInsert room mesh => s.table.free = [] → s.table.slots.length = 2 ^ 32 - 1 →
      room = false ∨ ∃ e, s.table.record mesh = .error e
  | .remove _ _ => True

/-- The step does not take the handle's mesh out. -/
def Keeps (handle : Handle) (s : MeshLife) : MeshOp → Prop
  | .tryInsert _ _ => True
  | .remove room other => other = handle → ∃ e, (s.table.remove room other).1 = .error e

abbrev anySteps : MeshLife → MeshOp → MeshLife → Prop := fun s op t => t = s.step op

abbrev steps : MeshLife → MeshOp → MeshLife → Prop := Guarded Nameable anySteps

def slots (s : MeshLife) : SlotLife MeshRecord := ⟨s.table.toSlotTable, s.issued⟩

variable {s t : MeshLife}

/-- The guard is needed for insertions only. -/
theorem wf_step (h : s.table.Wf) {op : MeshOp} (hop : s.Nameable op) : (s.step op).table.Wf := by
  cases op with
  | tryInsert room mesh =>
    rcases h.tryInsert_cases hop with ⟨e, hrun⟩ |
      ⟨r, handle, t', -, hrun, hwf, -⟩
    · simp only [step, hrun]
      exact h
    · simp only [step, hrun]
      exact hwf
  | remove room handle => exact h.remove room handle

theorem wf_run (h : s.table.Wf) (hr : Reaches steps s t) : t.table.Wf := by
  refine hr.invariant (fun s => s.table.Wf) h ?_
  rintro s op _ hwf ⟨hop, rfl⟩
  exact wf_step hwf hop

/-- **A step of the table** is a step of its slots, or leaves them alone; and the arrays only
    grow. -/
theorem slots_step (h : s.table.Wf) {op : MeshOp} (hop : s.Nameable op) :
    (s.table.vertexData <+: (s.step op).table.vertexData ∧
      s.table.indexData <+: (s.step op).table.indexData) ∧
      ((s.step op).slots = s.slots ∨
        ∃ op', s.slots.Nameable op' ∧ (∀ handle, s.Keeps handle op → s.slots.Keeps handle op') ∧
          (s.step op).slots = s.slots.step op') := by
  cases op with
  | tryInsert room mesh =>
    rcases h.tryInsert_cases hop with ⟨e, hrun⟩ |
      ⟨r, handle, t', -, hrun, -, hslots, -, hvertex, hindex, hop'⟩
    · simp only [step, hrun]
      exact ⟨⟨List.prefix_rfl, List.prefix_rfl⟩, .inl trivial⟩
    · simp only [step, hrun]
      refine ⟨⟨hvertex ▸ List.prefix_append .., hindex ▸ List.prefix_append ..⟩,
        .inr ⟨.insert room r, hop', fun _ _ => trivial, ?_⟩⟩
      simp only [slots, SlotLife.step, hslots]
  | remove room handle =>
    exact ⟨⟨List.prefix_rfl, List.prefix_rfl⟩,
      .inr ⟨.remove room handle, trivial, fun _ hkeeps => hkeeps, rfl⟩⟩

/-- A run of the table, seen from its slots. -/
theorem slots_run (h : s.table.Wf) (hr : Reaches steps s t) :
    Reaches SlotLife.steps s.slots t.slots := by
  refine (hr.invariant (fun u => u.table.Wf ∧ Reaches SlotLife.steps s.slots u.slots)
    ⟨h, .refl⟩ ?_).2
  rintro u op _ ⟨hwf, hrun⟩ ⟨hop, rfl⟩
  refine ⟨wf_step hwf hop, ?_⟩
  rcases (slots_step hwf hop).2 with hsame | ⟨op', hop', -, hstep⟩
  · rw [hsame]
    exact hrun
  · exact hrun.tail ⟨op', hop', hstep⟩

/-- What a mesh's handle yields: the bytes put in, and a record of them. -/
def Yields (t : MeshTable) (handle : Handle) (mesh : MeshInput) (record : MeshRecord) : Prop :=
  t.vertexBytes handle = .ok mesh.vertexBytes ∧ t.indexBytes handle = .ok mesh.indexBytes ∧
    t.get handle = .ok record

/-- A record and the bytes it stands for. -/
def Stored (t : MeshTable) (mesh : MeshInput) (r : MeshRecord) : Prop :=
  (t.vertexData.drop r.vertexOffset).take r.vertexBytes = mesh.vertexBytes ∧
    (t.indexData.drop r.indexOffset).take r.indexBytes = mesh.indexBytes ∧
    r.vertexOffset + r.vertexBytes ≤ t.vertexData.length ∧
    r.indexOffset + r.indexBytes ≤ t.indexData.length

/-- What is read from an array is read from any longer one. -/
theorem take_drop_extend {xs ys : List UInt8} (h : xs <+: ys) {start bytes : Nat}
    (hle : start + bytes ≤ xs.length) :
    (ys.drop start).take bytes = (xs.drop start).take bytes := by
  obtain ⟨zs, rfl⟩ := h
  rw [List.drop_append_of_le_length (by omega), List.take_append_of_le_length]
  rw [List.length_drop]
  omega

/-- The arrays grow at the end, and what lies further in front is not moved. -/
theorem Stored.mono {t t' : MeshTable} {mesh : MeshInput} {r : MeshRecord} (h : Stored t mesh r)
    (hvertex : t.vertexData <+: t'.vertexData) (hindex : t.indexData <+: t'.indexData) :
    Stored t' mesh r := by
  obtain ⟨hv, hi, hvle, hile⟩ := h
  refine ⟨?_, ?_, hvle.trans hvertex.length_le, hile.trans hindex.length_le⟩
  · rw [take_drop_extend hvertex hvle, hv]
  · rw [take_drop_extend hindex hile, hi]

/-- **A mesh in the table** stays there, with its bytes, until it is removed. -/
theorem stored_run (h : s.table.Wf) {handle : Handle} {mesh : MeshInput} {r : MeshRecord}
    (hr : s.table.Holds handle r) (hstored : Stored s.table mesh r)
    (hrun : Reaches (Guarded (Keeps handle) steps) s t) :
    Yields t.table handle mesh r := by
  have hinv := hrun.invariant
    (fun u => u.table.Wf ∧ u.table.Holds handle r ∧ Stored u.table mesh r) ⟨h, hr, hstored⟩ (by
      rintro u op _ ⟨hwf, hr, hstored⟩ ⟨hkeeps, hop, rfl⟩
      obtain ⟨⟨hvertex, hindex⟩, hslots⟩ := slots_step hwf hop
      refine ⟨wf_step hwf hop, ?_, hstored.mono hvertex hindex⟩
      rcases hslots with hsame | ⟨op', hop', hkeep, hstep⟩
      · exact (congrArg (fun life => life.table.Holds handle r) hsame).mpr hr
      · refine (congrArg (fun life => life.table.Holds handle r) hstep).mpr ?_
        exact SlotLife.holds_step hwf.slots hop' hr (hkeep handle hkeeps))
  obtain ⟨hwf, hr, hv, hi, -, -⟩ := hinv
  obtain ⟨hvertex, hindex⟩ := hwf.bytes hr
  exact ⟨hv ▸ hvertex, hi ▸ hindex, hwf.slots.get_eq_ok.mpr hr⟩

/-! ### The laws of mesh handles -/

/-- The record says what was put in. -/
structure Describes (mesh : MeshInput) (r : MeshRecord) : Prop where
  vertexBytes : r.vertexBytes = mesh.vertexBytes.length
  vertexStride : r.vertexStride = mesh.vertexStride
  vertexCount : r.vertexCount.toNat = mesh.vertexBytes.length / mesh.vertexStride.toNat
  indexBytes : r.indexBytes = mesh.indexBytes.length
  indexCount : r.indexCount.toNat = mesh.indexBytes.length / 4
  bounds : r.bounds = mesh.bounds

/-- No call accepts the handle. -/
structure Rejects (t : MeshTable) (handle : Handle) : Prop where
  get : t.get handle = .error .invalidHandle
  vertexBytes : t.vertexBytes handle = .error .invalidHandle
  indexBytes : t.indexBytes handle = .error .invalidHandle
  remove (room : Bool) : t.remove room handle = (.error .invalidHandle, t)

/-- **The laws**, in one state of a run: an inserted mesh is there until it is removed; meshes in
    use lie apart, in distinct slots that `len` counts; a removed handle is rejected until its
    slot has been handed out `2 ^ 32 - 1` times; a failed call changes nothing. -/
structure Lawful (s : MeshLife) : Prop where
  yields (room : Bool) (mesh : MeshInput) (handle : Handle) (t' : MeshTable) :
    s.Nameable (.tryInsert room mesh) → s.table.tryInsert room mesh = (.ok handle, t') →
      ∃ r, Describes mesh r ∧
        ∀ u, Reaches (Guarded (Keeps handle) steps) (s.step (.tryInsert room mesh)) u →
          Yields u.table handle mesh r
  apart (x y : Handle) (r r' : MeshRecord) : s.table.get x = .ok r → s.table.get y = .ok r' →
    x ≠ y →
      (Apart r.vertexOffset r.vertexBytes r'.vertexOffset r'.vertexBytes ∧
        Apart r.indexOffset r.indexBytes r'.indexOffset r'.indexBytes)
  inside (x : Handle) (r : MeshRecord) : s.table.get x = .ok r →
    (r.vertexOffset + r.vertexBytes ≤ s.table.vertexData.length ∧
      r.indexOffset + r.indexBytes ≤ s.table.indexData.length)
  live : ∃ handles : List Handle, (∀ x, x ∈ handles ↔ ∃ r, s.table.get x = .ok r) ∧
    (handles.map Handle.index).Nodup ∧ handles.length = s.table.len
  stale (room : Bool) (handle : Handle) (r : MeshRecord) :
    (s.table.remove room handle).1 = .ok r →
      ∀ u, Reaches steps (s.step (.remove room handle)) u →
        u.slots.issues handle.index < s.slots.issues handle.index + (2 ^ 32 - 1) →
          Rejects u.table handle
  insertAtomic (room : Bool) (mesh : MeshInput) (e : Renderer3dError) :
    s.Nameable (.tryInsert room mesh) → (s.table.tryInsert room mesh).1 = .error e →
      (s.table.tryInsert room mesh).2 = s.table
  removeAtomic (room : Bool) (handle : Handle) (e : Renderer3dError) :
    (s.table.remove room handle).1 = .error e → (s.table.remove room handle).2 = s.table

/-- All four calls look at the handle before anything else. -/
theorem rejects_of_not_holds {t : MeshTable} {handle : Handle} (h : ∀ r, ¬ t.Holds handle r) :
    Rejects t handle := by
  have hget : t.get handle = .error .invalidHandle := SlotTable.get_eq_error h
  refine ⟨hget, ?_, ?_, ?_⟩
  · rw [MeshTable.vertexBytes, hget]
    rfl
  · rw [MeshTable.indexBytes, hget]
    rfl
  · intro room
    rcases t.validSlot_cases handle with hnone | ⟨r, hr, -⟩
    · simp only [MeshTable.remove, SlotTable.remove, hnone]
    · exact absurd hr (h r)

/-- From the insertion on, whatever else is inserted or removed. -/
theorem yields_of_tryInsert (h : s.table.Wf) {room : Bool} {mesh : MeshInput} {handle : Handle}
    {t' : MeshTable} (hop : s.Nameable (.tryInsert room mesh))
    (hinsert : s.table.tryInsert room mesh = (.ok handle, t')) :
    ∃ r, Describes mesh r ∧
      ∀ u, Reaches (Guarded (Keeps handle) steps) (s.step (.tryInsert room mesh)) u →
        Yields u.table handle mesh r := by
  -- The record lies where the bytes were put, and stays for as long as the handle's slot is not
  -- emptied.
  rcases h.tryInsert_cases hop with ⟨e, hrun⟩ |
    ⟨r, made, t₁, hrecord, hrun, hwf, -, hr, hvertex, hindex, -⟩
  · rw [hrun] at hinsert
    cases hinsert
  · obtain ⟨hmade, rfl⟩ := Prod.mk.inj (hrun.symm.trans hinsert)
    obtain rfl := Except.ok.inj hmade
    obtain ⟨-, -, hvo, hvb, hio, hib, hstride, hbounds, hvc, hic⟩ :=
      MeshTable.record_eq_ok hrecord
    have hstep : s.step (.tryInsert room mesh) = ⟨t₁, s.issued ++ [made]⟩ := by
      simp only [step, hrun]
    refine ⟨r, ⟨hvb, hstride, hvc, hib, hic, hbounds⟩, ?_⟩
    intro u hu
    rw [hstep] at hu
    refine stored_run (s := ⟨t₁, s.issued ++ [made]⟩) hwf hr ?_ hu
    refine ⟨?_, ?_, ?_, ?_⟩
    · show (t₁.vertexData.drop _).take _ = _
      rw [hvertex, hvo, hvb, List.drop_left, List.take_length]
    · show (t₁.indexData.drop _).take _ = _
      rw [hindex, hio, hib, List.drop_left, List.take_length]
    · show _ ≤ t₁.vertexData.length
      rw [hvertex, hvo, hvb, List.length_append]
    · show _ ≤ t₁.indexData.length
      rw [hindex, hio, hib, List.length_append]

/-- Each law in its own right; none needs another. -/
theorem lawful_of_wf (h : s.table.Wf) : s.Lawful where
  yields _ _ _ _ hop hinsert := yields_of_tryInsert h hop hinsert
  apart x y r r' hx hy hne :=
    h.apart x y r r' (h.slots.get_eq_ok.mp hx) (h.slots.get_eq_ok.mp hy) hne
  inside x r hx := h.inside x r (h.slots.get_eq_ok.mp hx)
  live := by
    obtain ⟨hmem, hnd, hlen⟩ := h.slots.live_spec
    refine ⟨s.table.live, fun x => (hmem x).trans ?_, hnd, hlen⟩
    exact exists_congr fun r => h.slots.get_eq_ok.symm
  stale room handle r hremoved u hu hfew := by
    have hwf : (s.step (.remove room handle)).table.Wf :=
      wf_step h (show s.Nameable (.remove room handle) from trivial)
    exact rejects_of_not_holds
      (SlotLife.not_holds_of_removed (s := s.slots) h.slots hremoved (slots_run hwf hu) hfew)
  insertAtomic room mesh e hop herror := by
    rcases h.tryInsert_cases hop with ⟨e', hrun⟩ | ⟨r, handle, t', -, hrun, -⟩
    · rw [hrun]
    · rw [hrun] at herror
      cases herror
  removeAtomic room handle e herror := by
    unfold MeshTable.remove at herror ⊢
    rcases h.slots.remove_cases room handle with ⟨e', hrun⟩ | ⟨r, table, hrun, -⟩
    · rw [hrun]
    · rw [hrun] at herror
      cases herror

end MeshLife

/-! ## Runs of the material table -/

inductive MaterialOp where
  | tryInsert (room : Bool) (record : MaterialRecord)
  | remove (room : Bool) (handle : Handle)

structure MaterialLife where
  table : MaterialTable
  issued : List Handle

/-- **An insertion** fails and changes nothing, or it is an insertion into the slots. -/
theorem MaterialTable.tryInsert_cases {t : MaterialTable} (h : t.toSlotTable.Wf) {room : Bool}
    {record : MaterialRecord} (hroom : t.free = [] → t.slots.length = 2 ^ 32 - 1 →
      room = false ∨ t.refuses record = true) :
    (∃ e, t.tryInsert room record = (.error e, t)) ∨
      ∃ handle t', t.tryInsert room record = (.ok handle, t') ∧
        t.toSlotTable.insert room record = (.ok handle, t'.toSlotTable) ∧
        t'.toSlotTable.Wf ∧ t'.Holds handle record ∧
        (t.free = [] → t.slots.length = 2 ^ 32 - 1 → room = false) := by
  unfold MaterialTable.tryInsert
  split
  · exact .inl ⟨_, rfl⟩
  · next hpasses =>
    have hslot (hfree : t.free = []) (hfull : t.slots.length = 2 ^ 32 - 1) : room = false :=
      (hroom hfree hfull).resolve_right hpasses
    rcases h.insert_cases hslot record with ⟨e, hrun⟩ |
      ⟨handle, table, hrun, hwf, -, hpoint⟩
    · exact .inl ⟨e, by rw [hrun]⟩
    · refine .inr ⟨handle, { t with toSlotTable := table }, by rw [hrun], hrun, hwf, ?_, hslot⟩
      show table.slots[handle.index.toNat]? = _
      rw [hpoint, if_pos rfl]

namespace MaterialLife

def step (s : MaterialLife) : MaterialOp → MaterialLife
  | .tryInsert room record =>
    match s.table.tryInsert room record with
    | (.error _, table) => { s with table }
    | (.ok handle, table) => ⟨table, s.issued ++ [handle]⟩
  | .remove room handle => { s with table := (s.table.remove room handle).2 }

/-- The step does not come to the slot no handle can name. -/
def Nameable (s : MaterialLife) : MaterialOp → Prop
  | .tryInsert room record => s.table.free = [] → s.table.slots.length = 2 ^ 32 - 1 →
      room = false ∨ s.table.refuses record = true
  | .remove _ _ => True

def Keeps (handle : Handle) (s : MaterialLife) : MaterialOp → Prop
  | .tryInsert _ _ => True
  | .remove room other => other = handle → ∃ e, (s.table.remove room other).1 = .error e

abbrev steps : MaterialLife → MaterialOp → MaterialLife → Prop :=
  Guarded Nameable fun s op t => t = s.step op

def slots (s : MaterialLife) : SlotLife MaterialRecord := ⟨s.table.toSlotTable, s.issued⟩

variable {s t : MaterialLife}

theorem slots_step (h : s.table.toSlotTable.Wf) {op : MaterialOp} (hop : s.Nameable op) :
    (s.step op).slots = s.slots ∨
      ∃ op', s.slots.Nameable op' ∧ (∀ handle, s.Keeps handle op → s.slots.Keeps handle op') ∧
        (s.step op).slots = s.slots.step op' := by
  cases op with
  | tryInsert room record =>
    rcases MaterialTable.tryInsert_cases h hop with ⟨e, hrun⟩ |
      ⟨handle, t', hrun, hslots, -, -, hop'⟩
    · simp only [step, hrun]
      exact .inl trivial
    · refine .inr ⟨.insert room record, hop', fun _ _ => trivial, ?_⟩
      simp only [step, hrun, slots, SlotLife.step, hslots]
  | remove room handle =>
    exact .inr ⟨.remove room handle, trivial, fun _ hkeeps => hkeeps, rfl⟩

theorem wf_step (h : s.table.toSlotTable.Wf) {op : MaterialOp} (hop : s.Nameable op) :
    (s.step op).table.toSlotTable.Wf := by
  rcases slots_step h hop with hsame | ⟨op', hop', -, hstep⟩
  · exact (congrArg (fun life => life.table.Wf) hsame).mpr h
  · exact (congrArg (fun life => life.table.Wf) hstep).mpr (SlotLife.wf_step h hop')

theorem slots_run (h : s.table.toSlotTable.Wf) (hr : Reaches steps s t) :
    Reaches SlotLife.steps s.slots t.slots := by
  refine (hr.invariant (fun u => u.table.toSlotTable.Wf ∧ Reaches SlotLife.steps s.slots u.slots)
    ⟨h, .refl⟩ ?_).2
  rintro u op _ ⟨hwf, hrun⟩ ⟨hop, rfl⟩
  refine ⟨wf_step hwf hop, ?_⟩
  rcases slots_step hwf hop with hsame | ⟨op', hop', -, hstep⟩
  · rw [hsame]
    exact hrun
  · exact hrun.tail ⟨op', hop', hstep⟩

theorem wf_run (h : s.table.toSlotTable.Wf) (hr : Reaches steps s t) : t.table.toSlotTable.Wf :=
  SlotLife.wf_run (s := s.slots) (t := t.slots) h (slots_run h hr)

/-- A material in the table stays there until it is removed. -/
theorem holds_run (h : s.table.toSlotTable.Wf) {handle : Handle} {record : MaterialRecord}
    (hr : s.table.Holds handle record) (hrun : Reaches (Guarded (Keeps handle) steps) s t) :
    t.table.get handle = .ok record := by
  have hinv := hrun.invariant
    (fun u => u.table.toSlotTable.Wf ∧ u.table.Holds handle record) ⟨h, hr⟩ (by
      rintro u op _ ⟨hwf, hr⟩ ⟨hkeeps, hop, rfl⟩
      refine ⟨wf_step hwf hop, ?_⟩
      rcases slots_step hwf hop with hsame | ⟨op', hop', hkeep, hstep⟩
      · exact (congrArg (fun life => life.table.Holds handle record) hsame).mpr hr
      · refine (congrArg (fun life => life.table.Holds handle record) hstep).mpr ?_
        exact SlotLife.holds_step hwf hop' hr (hkeep handle hkeeps))
  rw [MaterialTable.get_eq]
  exact hinv.1.get_eq_ok.mpr hinv.2

/-- **The laws**, as those of meshes. -/
structure Lawful (s : MaterialLife) : Prop where
  yields (room : Bool) (record : MaterialRecord) (handle : Handle) (t' : MaterialTable) :
    s.Nameable (.tryInsert room record) → s.table.tryInsert room record = (.ok handle, t') →
      ∀ u, Reaches (Guarded (Keeps handle) steps) (s.step (.tryInsert room record)) u →
        u.table.get handle = .ok record
  live : ∃ handles : List Handle, (∀ x, x ∈ handles ↔ ∃ r, s.table.get x = .ok r) ∧
    (handles.map Handle.index).Nodup ∧ handles.length = s.table.len
  stale (room : Bool) (handle : Handle) (r : MaterialRecord) :
    (s.table.remove room handle).1 = .ok r →
      ∀ u, Reaches steps (s.step (.remove room handle)) u →
        u.slots.issues handle.index < s.slots.issues handle.index + (2 ^ 32 - 1) →
          u.table.get handle = .error .invalidHandle ∧
            ∀ room', u.table.remove room' handle = (.error .invalidHandle, u.table)
  insertAtomic (room : Bool) (record : MaterialRecord) (e : Renderer3dError) :
    s.Nameable (.tryInsert room record) → (s.table.tryInsert room record).1 = .error e →
      (s.table.tryInsert room record).2 = s.table
  removeAtomic (room : Bool) (handle : Handle) (e : Renderer3dError) :
    (s.table.remove room handle).1 = .error e → (s.table.remove room handle).2 = s.table

theorem lawful_of_wf (h : s.table.toSlotTable.Wf) : s.Lawful where
  yields room record handle t' hop hinsert u hu := by
    rcases MaterialTable.tryInsert_cases h hop with ⟨e, hrun⟩ |
      ⟨made, t₁, hrun, -, hwf, hr, -⟩
    · rw [hrun] at hinsert
      cases hinsert
    · obtain ⟨hmade, rfl⟩ := Prod.mk.inj (hrun.symm.trans hinsert)
      obtain rfl := Except.ok.inj hmade
      have hstep : s.step (.tryInsert room record) = ⟨t₁, s.issued ++ [made]⟩ := by
        simp only [step, hrun]
      rw [hstep] at hu
      exact holds_run (s := ⟨t₁, s.issued ++ [made]⟩) hwf hr hu
  live := by
    obtain ⟨hmem, hnd, hlen⟩ := h.live_spec
    refine ⟨s.table.live, fun x => (hmem x).trans ?_, hnd, hlen⟩
    refine exists_congr ?_
    intro r
    rw [MaterialTable.get_eq]
    exact h.get_eq_ok.symm
  stale room handle r hremoved u hu hfew := by
    have hwf : (s.step (.remove room handle)).table.toSlotTable.Wf :=
      wf_step h (show s.Nameable (.remove room handle) from trivial)
    have hnot := SlotLife.not_holds_of_removed (s := s.slots) h hremoved (slots_run hwf hu) hfew
    refine ⟨?_, ?_⟩
    · rw [MaterialTable.get_eq]
      exact SlotTable.get_eq_error hnot
    · intro room'
      rcases u.table.validSlot_cases handle with hnone | ⟨r', hr, -⟩
      · simp only [MaterialTable.remove, SlotTable.remove, hnone]
      · exact absurd hr (hnot r')
  insertAtomic room record e hop herror := by
    rcases MaterialTable.tryInsert_cases h hop with ⟨e', hrun⟩ | ⟨handle, t', hrun, -⟩
    · rw [hrun]
    · rw [hrun] at herror
      cases herror
  removeAtomic room handle e herror := by
    unfold MaterialTable.remove at herror ⊢
    rcases h.remove_cases room handle with ⟨e', hrun⟩ | ⟨r, table, hrun, -⟩
    · rw [hrun]
    · rw [hrun] at herror
      cases herror

end MaterialLife

/-! ## Tables that fill up -/

/-- One triangle's corner: 12 bytes of vertices and 4 of indices. -/
def corner : MeshInput := ⟨List.replicate 12 0, 12, List.replicate 4 0, ⟨#[0, 0, 0, 1], rfl⟩⟩

/-- The empty table of so many meshes, with room for as many corners. -/
def cornerTable (n : Nat) : MeshTable :=
  { slots := [], free := [], vertexData := [], indexData := [], maxMeshes := n,
    maxVertexBytes := 12 * n, maxIndexBytes := 4 * n }

theorem validate_corner : validateMeshInput corner = .ok () := by decide +kernel

/-- A table of corners only, none removed. -/
structure Corners (n : Nat) (t : MeshTable) : Prop where
  length : t.slots.length = n
  free : t.free = []
  vertexData : t.vertexData.length = 12 * n
  indexData : t.indexData.length = 4 * n
  maxMeshes : t.maxMeshes = 2 ^ 32
  maxVertexBytes : t.maxVertexBytes = 12 * 2 ^ 32
  maxIndexBytes : t.maxIndexBytes = 4 * 2 ^ 32

/-- Each insertion of a corner takes one slot more, up to the very last. -/
theorem Corners.tryInsert {n : Nat} {t : MeshTable} (h : Corners n t) (hn : n < 2 ^ 32) :
    ∃ t', t.tryInsert true corner = (.ok ⟨UInt32.ofNat n, 1⟩, t') ∧ Corners (n + 1) t' := by
  have hlen : t.len = n := by rw [SlotTable.len, h.length, h.free]; rfl
  have hv : corner.vertexBytes.length = 12 := rfl
  have hi : corner.indexBytes.length = 4 := rfl
  obtain ⟨r, hrecord⟩ : ∃ r, t.record corner = .ok r := by
    refine MeshTable.record_of_fits validate_corner ?_ ?_ ?_ ?_ ?_ (by decide) (by decide)
    · rw [hlen, h.maxMeshes]
      exact hn
    · rw [hv, h.vertexData, h.maxVertexBytes]
      omega
    · rw [hi, h.indexData, h.maxIndexBytes]
      omega
    · rw [h.maxVertexBytes]
      decide
    · rw [h.maxIndexBytes]
      decide
  have hindex : (UInt32.ofNat n).toNat = n := UInt32.toNat_ofNat_of_lt' hn
  have hslots : t.toSlotTable.insert true r =
      (.ok ⟨UInt32.ofNat n, 1⟩, ⟨t.slots ++ [⟨1, some r⟩], []⟩) := by
    have htry : u32TryFrom n = some (UInt32.ofNat n) := if_pos hn
    simp [SlotTable.insert, SlotTable.takeSlot, SlotTable.fillSlot, h.free, h.length, htry, hindex,
      INITIAL_GENERATION]
  refine ⟨{ t with
    toSlotTable := ⟨t.slots ++ [⟨1, some r⟩], []⟩
    vertexData := t.vertexData ++ corner.vertexBytes
    indexData := t.indexData ++ corner.indexBytes }, ?_, ?_⟩
  · simp only [MeshTable.tryInsert, hrecord, hslots]
  · constructor
    · show (t.slots ++ _).length = _
      rw [List.length_append, h.length, List.length_singleton]
    · rfl
    · show (t.vertexData ++ _).length = _
      rw [List.length_append, h.vertexData, hv]
      omega
    · show (t.indexData ++ _).length = _
      rw [List.length_append, h.indexData, hi]
      omega
    · exact h.maxMeshes
    · exact h.maxVertexBytes
    · exact h.maxIndexBytes

/-- As many corners as wanted. -/
theorem reaches_corners (n : Nat) (hn : n ≤ 2 ^ 32) :
    ∃ s, Reaches MeshLife.anySteps ⟨cornerTable (2 ^ 32), []⟩ s ∧ Corners n s.table := by
  induction n with
  | zero => exact ⟨_, .refl, rfl, rfl, rfl, rfl, rfl, rfl, rfl⟩
  | succ n ih =>
    obtain ⟨s, hs, hcorners⟩ := ih (by omega)
    obtain ⟨t', hinsert, hnext⟩ := hcorners.tryInsert (by omega)
    refine ⟨_, hs.tail ⟨.tryInsert true corner, rfl⟩, ?_⟩
    simp only [MeshLife.step, hinsert]
    exact hnext

/-- **Handles keep the laws** in every run of either table that does not come to the slot numbered
    `u32::MAX`. -/
theorem handles_lawful {room : Bool} {maxMeshes maxVertexBytes maxIndexBytes : Nat}
    {meshes : MeshTable}
    (hmeshes : MeshTable.tryWithCapacity room maxMeshes maxVertexBytes maxIndexBytes = .ok meshes)
    {roomMaterials : Bool} {maxMaterials : Nat} {materials : MaterialTable}
    (hmaterials : MaterialTable.tryWithCapacity roomMaterials maxMaterials = .ok materials) :
    (∀ s, Reaches MeshLife.steps ⟨meshes, []⟩ s → s.Lawful) ∧
      ∀ s, Reaches MaterialLife.steps ⟨materials, []⟩ s → s.Lawful := by
  refine ⟨?_, ?_⟩
  · intro s hr
    exact MeshLife.lawful_of_wf (MeshLife.wf_run (MeshTable.Wf.tryWithCapacity hmeshes).1 hr)
  · intro s hr
    refine MaterialLife.lawful_of_wf (MaterialLife.wf_run ?_ hr)
    unfold MaterialTable.tryWithCapacity at hmaterials
    split at hmaterials
    · rw [← Except.ok.inj hmaterials]
      exact .new
    · cases hmaterials

/-- The first mesh of a table of 2^32 slots reads back as it was inserted. -/
theorem handles_lawful_corner : ∃ handle t',
    (cornerTable (2 ^ 32)).tryInsert true corner = (.ok handle, t') ∧
      t'.vertexBytes handle = .ok corner.vertexBytes ∧
      MaterialLife.Lawful ⟨⟨⟨[], []⟩, 1⟩, []⟩ := by
  have hnew : MeshTable.tryWithCapacity true (2 ^ 32) (12 * 2 ^ 32) (4 * 2 ^ 32) =
    .ok (cornerTable (2 ^ 32)) := rfl
  have hnew' : MaterialTable.tryWithCapacity true 1 = .ok ⟨⟨[], []⟩, 1⟩ := rfl
  obtain ⟨hmeshes, hmaterials⟩ := handles_lawful hnew hnew'
  have hmesh := hmeshes ⟨cornerTable (2 ^ 32), []⟩ .refl
  obtain ⟨t', hinsert, -⟩ := Corners.tryInsert (n := 0)
    (t := cornerTable (2 ^ 32)) ⟨rfl, rfl, rfl, rfl, rfl, rfl, rfl⟩
    (Nat.two_pow_pos 32)
  obtain ⟨r, -, hyields⟩ :=
    hmesh.yields true corner _ t' (fun _ hfull => absurd hfull (by decide)) hinsert
  have hstep : MeshLife.step ⟨cornerTable (2 ^ 32), []⟩ (.tryInsert true corner) =
      ⟨t', [⟨UInt32.ofNat 0, 1⟩]⟩ := by
    simp only [MeshLife.step, hinsert, List.nil_append]
  refine ⟨_, t', hinsert, ?_, hmaterials ⟨⟨⟨[], []⟩, 1⟩, []⟩ .refl⟩
  exact (hyields ⟨t', [⟨UInt32.ofNat 0, 1⟩]⟩ (hstep ▸ .refl)).1

/-- **A handle that yields nothing.** Of `2 ^ 32` meshes the last goes into the slot numbered
    `u32::MAX`, and its handle is rejected as soon as it is returned. -/
theorem fills_up : ∃ table s handle t',
    MeshTable.tryWithCapacity true (2 ^ 32) (12 * 2 ^ 32) (4 * 2 ^ 32) = .ok table ∧
      Reaches MeshLife.anySteps ⟨table, []⟩ s ∧
      s.table.tryInsert true corner = (.ok handle, t') ∧
      t'.get handle = .error .invalidHandle := by
  obtain ⟨s, hs, hcorners⟩ := reaches_corners (2 ^ 32 - 1) (by omega)
  obtain ⟨t', hinsert, -⟩ := hcorners.tryInsert (by omega)
  refine ⟨cornerTable (2 ^ 32), s, _, t', rfl, hs, hinsert, ?_⟩
  have hvalid : ¬ (⟨UInt32.ofNat (2 ^ 32 - 1), 1⟩ : Handle).isValid := by decide
  rw [MeshTable.get, SlotTable.get, SlotTable.validSlot, if_pos hvalid]

end Render
end EngineKit
