import Mathlib.Data.List.Nodup
import EngineKit.Lib.LittleEndian
import EngineKit.Lib.Reach

/-!
# Slots with generations

The mesh table and the material table keep their records the same way: a slot for each record, a
generation for each slot, and a list of the slots that are free. A handle is a slot and its
generation when the record went in; taking the record out moves the slot to its next generation,
so that the handle is dead. Generations are 32-bit and wrap, leaving out 0: after `2 ^ 32 - 1`
removals a slot is back where it was.

`SlotTable.Holds` is the table as a relation between handles and records, and `insert_cases` and
`remove_cases` say what the two operations do to the slots, pointwise. Everything about runs is
derived from these.

The slot numbered `u32::MAX` is one the tables can hand out and no handle can name
(`Handle.isValid`), so a table is well formed (`SlotTable.Wf`) as long as it has not come to that
slot.

Two things are proved of a run, and they are about different handles. A handle in use keeps its
record until it is removed (`holds_step`). A handle that was removed ages: its slot has been handed
out `k` times since, and is `k + 1` generations on, whether it is free or in use again (`Aged`).
Generations count up and come round, so the number of times is what decides, and not what is in the
slot.
-/

set_option autoImplicit false

namespace EngineKit
namespace Render

open Lib

inductive Renderer3dError where
  | capacityExceeded
  | allocationFailed
  | invalidHandle
  | invalidVertexFormat
  | invalidIndexData
  | invalidBounds
  | integerOverflow
  | invalidView
  | invalidPass
deriving DecidableEq

/-- `MeshHandle` and `MaterialHandle`. -/
structure Handle where
  index : UInt32
  generation : UInt32
deriving DecidableEq

def Handle.isValid (handle : Handle) : Bool :=
  handle.index != 0xFFFFFFFF && handle.generation != 0

structure Slot (R : Type) where
  generation : UInt32
  record : Option R

structure SlotTable (R : Type) where
  slots : List (Slot R)
  free : List UInt32

def INITIAL_GENERATION : UInt32 := 1

def nextGeneration (generation : UInt32) : UInt32 :=
  ((u32CheckedAdd generation 1).filter fun value => value != 0).getD 1

namespace SlotTable

variable {R : Type}

def len (t : SlotTable R) : Nat := t.slots.length - t.free.length

/-- The slot a new record goes to. `room` is whether `try_reserve` finds memory for another. -/
def takeSlot (room : Bool) (t : SlotTable R) :
    Except Renderer3dError (UInt32 × SlotTable R) :=
  match t.free.getLast? with
  | some index => .ok (index, { t with free := t.free.dropLast })
  | none =>
    match u32TryFrom t.slots.length with
    | none => .error .integerOverflow
    | some index =>
      if room then .ok (index, { t with slots := t.slots ++ [⟨INITIAL_GENERATION, none⟩] })
      else .error .allocationFailed

def fillSlot (t : SlotTable R) (index : UInt32) (record : R) :
    Except Renderer3dError Handle × SlotTable R :=
  match t.slots[index.toNat]? with
  | none => (.error .invalidHandle, t)
  | some slot =>
    (.ok ⟨index, slot.generation⟩,
      { t with slots := t.slots.set index.toNat { slot with record := some record } })

/-- The end of `try_insert`, once a record has been made. -/
def insert (room : Bool) (t : SlotTable R) (record : R) :
    Except Renderer3dError Handle × SlotTable R :=
  match t.takeSlot room with
  | .error e => (.error e, t)
  | .ok (index, t) => t.fillSlot index record

def validSlot (t : SlotTable R) (handle : Handle) : Except Renderer3dError (Slot R) :=
  if ¬ handle.isValid then .error .invalidHandle
  else
    match t.slots[handle.index.toNat]? with
    | none => .error .invalidHandle
    | some slot =>
      if slot.generation ≠ handle.generation ∨ slot.record.isNone then .error .invalidHandle
      else .ok slot

def get (t : SlotTable R) (handle : Handle) : Except Renderer3dError R :=
  match t.validSlot handle with
  | .error e => .error e
  | .ok slot =>
    match slot.record with
    | none => .error .invalidHandle
    | some record => .ok record

/-- `room` is whether the free list can grow. -/
def remove (room : Bool) (t : SlotTable R) (handle : Handle) :
    Except Renderer3dError R × SlotTable R :=
  match t.validSlot handle with
  | .error e => (.error e, t)
  | .ok slot =>
    if ¬ room then (.error .allocationFailed, t)
    else
      match slot.record with
      | none => (.error .invalidHandle, t)
      | some record =>
        (.ok record,
          { slots := t.slots.set handle.index.toNat ⟨nextGeneration slot.generation, none⟩
            free := t.free ++ [handle.index] })

/-! ## The table as a relation -/

/-- The handle's slot is at its generation, and has the record. -/
def Holds (t : SlotTable R) (handle : Handle) (record : R) : Prop :=
  t.slots[handle.index.toNat]? = some ⟨handle.generation, some record⟩

/-- A handle has one record. -/
theorem Holds.unique {t : SlotTable R} {handle : Handle} {record record' : R}
    (h : t.Holds handle record) (h' : t.Holds handle record') : record = record' := by
  have heq := Option.some.inj (h.symm.trans h')
  exact Option.some.inj (congrArg Slot.record heq)

/-- A slot is one handle's. -/
theorem Holds.eq_of_index {t : SlotTable R} {x y : Handle} {record record' : R}
    (hx : t.Holds x record) (hy : t.Holds y record') (h : x.index = y.index) : x = y := by
  obtain ⟨i, g⟩ := x
  obtain ⟨j, g'⟩ := y
  obtain rfl : i = j := h
  have heq := Option.some.inj (hx.symm.trans hy)
  have hg : g = g' := congrArg Slot.generation heq
  rw [hg]

structure Wf (t : SlotTable R) : Prop where
  small : t.slots.length < 2 ^ 32
  nodup : t.free.Nodup
  free_lt : ∀ i ∈ t.free, i.toNat < t.slots.length
  dead (i : UInt32) (slot : Slot R) : t.slots[i.toNat]? = some slot →
    (slot.record = none ↔ i ∈ t.free)
  positive : ∀ slot ∈ t.slots, slot.generation ≠ 0

/-- The empty table has no slots. -/
theorem Wf.new : (⟨[], []⟩ : SlotTable R).Wf :=
  ⟨Nat.two_pow_pos 32, List.nodup_nil, List.forall_mem_nil _, fun _ _ h => absurd h (by simp),
    List.forall_mem_nil _⟩

theorem ne_max_of_lt {i : UInt32} {n : Nat} (hi : i.toNat < n) (hn : n < 2 ^ 32) :
    i ≠ 0xFFFFFFFF := by
  rintro rfl
  have hmax : (0xFFFFFFFF : UInt32).toNat = 2 ^ 32 - 1 := rfl
  omega

section Get

variable {t : SlotTable R}

theorem Wf.isValid (h : t.Wf) {handle : Handle} {slot : Slot R}
    (hslot : t.slots[handle.index.toNat]? = some slot)
    (hgen : slot.generation = handle.generation) : handle.isValid = true := by
  have hlt := (List.getElem?_eq_some_iff.mp hslot).1
  have hindex := ne_max_of_lt hlt h.small
  have hpos := h.positive slot (List.mem_of_getElem? hslot)
  rw [hgen] at hpos
  simp [Handle.isValid, hindex, hpos]

/-- What `valid_slot` accepts. -/
theorem Wf.validSlot_of_holds (h : t.Wf) {handle : Handle} {record : R}
    (hr : t.Holds handle record) :
    t.validSlot handle = .ok ⟨handle.generation, some record⟩ := by
  have hvalid := h.isValid hr rfl
  have hslot : t.slots[handle.index.toNat]? = some ⟨handle.generation, some record⟩ := hr
  simp [validSlot, hvalid, hslot]

/-- A handle is accepted for the record it holds, or refused. -/
theorem validSlot_cases (t : SlotTable R) (handle : Handle) :
    t.validSlot handle = .error .invalidHandle ∨
      ∃ record, t.Holds handle record ∧
        t.validSlot handle = .ok ⟨handle.generation, some record⟩ := by
  unfold validSlot
  -- An invalid handle, no slot of that number, another generation, or no record.
  split
  · exact .inl rfl
  · cases hslot : t.slots[handle.index.toNat]? with
    | none => exact .inl rfl
    | some slot =>
      simp only
      split
      · exact .inl rfl
      · next hlive =>
        push Not at hlive
        obtain ⟨hgen, hrecord⟩ := hlive
        obtain ⟨generation, record⟩ := slot
        obtain rfl : generation = handle.generation := hgen
        cases record with
        | none => exact absurd rfl hrecord
        | some record => exact .inr ⟨record, hslot, rfl⟩

/-- **`get`** reads the relation, and rejects every other handle. -/
theorem Wf.get_eq_ok (h : t.Wf) {handle : Handle} {record : R} :
    t.get handle = .ok record ↔ t.Holds handle record := by
  constructor
  · intro hget
    unfold get at hget
    rcases t.validSlot_cases handle with hnone | ⟨found, hfound, hslot⟩
    · rw [hnone] at hget
      cases hget
    · rw [hslot] at hget
      rw [← Except.ok.inj hget]
      exact hfound
  · intro hr
    rw [get, h.validSlot_of_holds hr]

theorem get_eq_error {handle : Handle} (h : ∀ record, ¬ t.Holds handle record) :
    t.get handle = .error .invalidHandle := by
  unfold get
  rcases t.validSlot_cases handle with hnone | ⟨record, hr, -⟩
  · rw [hnone]
  · exact absurd hr (h record)

end Get

/-! ## The two operations on the slots -/

/-- Writing a slot, by its number. -/
theorem getElem?_set_slot {slots : List (Slot R)} {index : UInt32}
    (h : index.toNat < slots.length) (slot : Slot R) (i : UInt32) :
    (slots.set index.toNat slot)[i.toNat]? =
      if i = index then some slot else slots[i.toNat]? := by
  by_cases hi : i = index
  · rw [if_pos hi, hi, List.getElem?_set_self h]
  · have hne : index.toNat ≠ i.toNat := fun heq => hi (UInt32.toNat_inj.mp heq).symm
    rw [if_neg hi, List.getElem?_set_ne hne]

/-- Adding a slot, by its number. -/
theorem getElem?_append_slot {slots : List (Slot R)} (h : slots.length < 2 ^ 32) (slot : Slot R)
    (i : UInt32) :
    (slots ++ [slot])[i.toNat]? =
      if i = UInt32.ofNat slots.length then some slot else slots[i.toNat]? := by
  have hindex : (UInt32.ofNat slots.length).toNat = slots.length := UInt32.toNat_ofNat_of_lt' h
  by_cases hi : i = UInt32.ofNat slots.length
  · rw [if_pos hi, hi, hindex, List.getElem?_concat_length]
  · have hne : i.toNat ≠ slots.length := fun heq => hi (by rw [← heq, UInt32.ofNat_toNat])
    rw [if_neg hi, List.getElem?_append]
    split
    · rfl
    · rw [List.getElem?_eq_none (by simp; omega), List.getElem?_eq_none (by omega)]

/-- The slot freed last takes a record. -/
theorem Wf.recycle {t : SlotTable R} (h : t.Wf) {rest : List UInt32} {index : UInt32}
    (hfree : t.free = rest ++ [index]) (record : R) :
    ∃ generation, t.slots[index.toNat]? = some ⟨generation, none⟩ ∧
      (⟨t.slots.set index.toNat ⟨generation, some record⟩, rest⟩ : SlotTable R).Wf := by
  have hmem : index ∈ t.free := by simp [hfree]
  have hlt := h.free_lt index hmem
  obtain ⟨⟨generation, old⟩, hslot⟩ : ∃ slot, t.slots[index.toNat]? = some slot :=
    ⟨_, List.getElem?_eq_getElem hlt⟩
  obtain rfl : old = none := (h.dead index _ hslot).mpr hmem
  have hnd : (rest ++ [index]).Nodup := hfree ▸ h.nodup
  have hnot : index ∉ rest := fun hin =>
    (List.nodup_append.mp hnd).2.2 index hin index (List.mem_singleton_self index) rfl
  have hsub (i : UInt32) (hi : i ∈ rest) : i ∈ t.free := by simp [hfree, hi]
  refine ⟨generation, hslot, ?_⟩
  constructor
  · exact (List.length_set ..).trans_lt h.small
  · exact hnd.sublist (List.sublist_append_left rest [index])
  · intro i hi
    exact (h.free_lt i (hsub i hi)).trans_eq (List.length_set ..).symm
  · intro i slot hi
    rw [getElem?_set_slot hlt] at hi
    -- The slot that takes the record is on the list no more; the others are as they were.
    by_cases heq : i = index
    · rw [if_pos heq] at hi
      rw [← Option.some.inj hi, heq]
      exact iff_of_false (by simp) hnot
    · rw [if_neg heq] at hi
      rw [h.dead i slot hi, hfree]
      simp [heq]
  · intro slot hin
    cases List.mem_or_eq_of_mem_set hin with
    | inl hold => exact h.positive slot hold
    | inr hnew =>
      rw [hnew]
      exact h.positive ⟨generation, none⟩ (List.mem_of_getElem? hslot)

/-- One slot more takes a record. -/
theorem Wf.grow {t : SlotTable R} (h : t.Wf) (hfree : t.free = [])
    (hroom : t.slots.length + 1 < 2 ^ 32) (record : R) :
    (⟨t.slots ++ [⟨INITIAL_GENERATION, some record⟩], []⟩ : SlotTable R).Wf := by
  constructor
  · rw [List.length_append]
    exact hroom
  · exact List.nodup_nil
  · exact List.forall_mem_nil _
  · intro i slot hi
    rw [getElem?_append_slot h.small] at hi
    by_cases heq : i = UInt32.ofNat t.slots.length
    · rw [if_pos heq] at hi
      rw [← Option.some.inj hi]
      exact iff_of_false (by simp) List.not_mem_nil
    · rw [if_neg heq] at hi
      rw [h.dead i slot hi, hfree]
  · intro slot hin
    cases List.mem_append.mp hin with
    | inl hold => exact h.positive slot hold
    | inr hnew =>
      rw [List.mem_singleton.mp hnew]
      show INITIAL_GENERATION ≠ 0
      decide

/-- **An insertion** fails and changes nothing, or it fills a slot that held no record: a free one,
    or one more. -/
theorem Wf.insert_cases {t : SlotTable R} (h : t.Wf)
    {room : Bool} (hroom : t.free = [] → t.slots.length = 2 ^ 32 - 1 → room = false) (record : R) :
    (∃ e, t.insert room record = (.error e, t)) ∨
      ∃ handle t', t.insert room record = (.ok handle, t') ∧ t'.Wf ∧
        (t.slots[handle.index.toNat]? = some ⟨handle.generation, none⟩ ∨
          t.slots[handle.index.toNat]? = none) ∧
        ∀ i : UInt32, t'.slots[i.toNat]? =
          if i = handle.index then some ⟨handle.generation, some record⟩
          else t.slots[i.toNat]? := by
  -- The slot freed last, or one at the end, or no memory.
  cases hlast : t.free.getLast? with
  | some index =>
    obtain ⟨rest, hfree⟩ := List.getLast?_eq_some_iff.mp hlast
    have hdrop : t.free.dropLast = rest := by rw [hfree, List.dropLast_concat]
    have hlt := h.free_lt index (by simp [hfree])
    obtain ⟨generation, hslot, hwf⟩ := h.recycle hfree record
    refine .inr ⟨⟨index, generation⟩, _, ?_, hwf, .inl hslot, getElem?_set_slot hlt _⟩
    simp only [insert, takeSlot, hlast, fillSlot, hslot, hdrop]
  | none =>
    have hfree : t.free = [] := List.getLast?_eq_none_iff.mp hlast
    have hsmall := h.small
    have hindex : (UInt32.ofNat t.slots.length).toNat = t.slots.length :=
      UInt32.toNat_ofNat_of_lt' hsmall
    have htry : u32TryFrom t.slots.length = some (UInt32.ofNat t.slots.length) := if_pos hsmall
    cases room with
    | false => exact .inl ⟨.allocationFailed, by simp [insert, takeSlot, hlast, htry]⟩
    | true =>
      have hne : t.slots.length ≠ 2 ^ 32 - 1 := fun hfull =>
        absurd (hroom hfree hfull) (by decide)
      refine .inr ⟨⟨UInt32.ofNat t.slots.length, INITIAL_GENERATION⟩, _, ?_,
        h.grow hfree (by omega) record, .inr ?_, getElem?_append_slot hsmall _⟩
      · simp [insert, takeSlot, htry, fillSlot, hfree, hindex]
      · rw [hindex]
        exact List.getElem?_eq_none (Nat.le_refl _)

/-- The next generation, counted from 1 and coming round. -/
theorem toNat_nextGeneration {generation : UInt32} (h : generation ≠ 0) :
    (nextGeneration generation).toNat = generation.toNat % (2 ^ 32 - 1) + 1 := by
  have hlt := generation.toNat_lt
  have hpos : 0 < generation.toNat := by
    refine Nat.pos_of_ne_zero fun h0 => h ?_
    exact UInt32.toNat_inj.mp h0
  have hone : (1 : UInt32).toNat = 1 := rfl
  unfold nextGeneration u32CheckedAdd u32TryFrom
  rw [hone]
  -- The last generation is followed by 1, because 0 is left out.
  split
  · next hfits =>
    have hsucc : (UInt32.ofNat (generation.toNat + 1)).toNat = generation.toNat + 1 :=
      UInt32.toNat_ofNat_of_lt' hfits
    have hne : UInt32.ofNat (generation.toNat + 1) ≠ 0 := by
      intro h0
      rw [h0] at hsucc
      exact absurd hsucc (by simp)
    rw [Option.filter_some, if_pos (by simpa using hne), Option.getD_some, hsucc,
      Nat.mod_eq_of_lt (by omega)]
  · have hmax : generation.toNat = 2 ^ 32 - 1 := by omega
    rw [hmax]
    rfl

theorem nextGeneration_ne_zero {generation : UInt32} (h : generation ≠ 0) :
    nextGeneration generation ≠ 0 := by
  intro h0
  have hnat := toNat_nextGeneration h
  rw [h0] at hnat
  exact absurd hnat (by simp)

/-- The slot of the handle removed is emptied, moved to its next generation and freed. -/
theorem remove_eq (t : SlotTable R) (room : Bool) (handle : Handle) :
    (∃ e, t.remove room handle = (.error e, t)) ∨
      ∃ record, t.Holds handle record ∧ t.remove room handle =
        (.ok record, ⟨t.slots.set handle.index.toNat ⟨nextGeneration handle.generation, none⟩,
          t.free ++ [handle.index]⟩) := by
  unfold remove
  rcases t.validSlot_cases handle with hnone | ⟨record, hr, hvalid⟩
  · exact .inl ⟨_, by rw [hnone]⟩
  · rw [hvalid]
    cases room with
    | false => exact .inl ⟨.allocationFailed, rfl⟩
    | true => exact .inr ⟨record, hr, rfl⟩

/-- **A removal** fails and changes nothing, or it takes the record of its handle out and moves
    the slot to its next generation. -/
theorem Wf.remove_cases {t : SlotTable R} (h : t.Wf) (room : Bool) (handle : Handle) :
    (∃ e, t.remove room handle = (.error e, t)) ∨
      ∃ record t', t.remove room handle = (.ok record, t') ∧ t'.Wf ∧ t.Holds handle record ∧
        ∀ i : UInt32, t'.slots[i.toNat]? =
          if i = handle.index then some ⟨nextGeneration handle.generation, none⟩
          else t.slots[i.toNat]? := by
  -- The slot becomes free: it has no record, and stands at the end of the list.
  rcases t.remove_eq room handle with herror | ⟨record, hr, hrun⟩
  · exact .inl herror
  · have hlt := (List.getElem?_eq_some_iff.mp hr).1
    have hpos : handle.generation ≠ 0 :=
      h.positive ⟨handle.generation, some record⟩ (List.mem_of_getElem? hr)
    have hnot : handle.index ∉ t.free := fun hin => by
      have := (h.dead handle.index _ hr).mpr hin
      exact absurd this (by simp)
    refine .inr ⟨record, _, hrun, ?_, hr, getElem?_set_slot hlt _⟩
    constructor
    · exact (List.length_set ..).trans_lt h.small
    · rw [List.nodup_append]
      refine ⟨h.nodup, List.nodup_singleton _, fun a ha b hb heq => hnot ?_⟩
      rw [← List.mem_singleton.mp hb, ← heq]
      exact ha
    · intro i hi
      refine Nat.lt_of_lt_of_eq ?_ (List.length_set ..).symm
      cases List.mem_append.mp hi with
      | inl hold => exact h.free_lt i hold
      | inr hnew => exact (List.mem_singleton.mp hnew) ▸ hlt
    · intro i slot hi
      rw [getElem?_set_slot hlt] at hi
      by_cases heq : i = handle.index
      · rw [if_pos heq] at hi
        rw [← Option.some.inj hi, heq]
        exact iff_of_true rfl (by simp)
      · rw [if_neg heq] at hi
        rw [h.dead i slot hi]
        simp [heq]
    · intro slot hin
      cases List.mem_or_eq_of_mem_set hin with
      | inl hold => exact h.positive slot hold
      | inr hnew =>
        rw [hnew]
        exact nextGeneration_ne_zero hpos

/-! ## What is live -/

/-- The handle of the record in a slot. -/
def handleAt (t : SlotTable R) (i : Nat) : Option Handle :=
  match t.slots[i]? with
  | some ⟨generation, some _⟩ => some ⟨UInt32.ofNat i, generation⟩
  | _ => none

/-- The handles of the records, in the order of their slots. -/
def live (t : SlotTable R) : List Handle := (List.range t.slots.length).filterMap t.handleAt

theorem handleAt_isSome {t : SlotTable R} {i : Nat} {slot : Slot R}
    (h : t.slots[i]? = some slot) : (t.handleAt i).isSome = slot.record.isSome := by
  obtain ⟨generation, record⟩ := slot
  cases record <;> simp [handleAt, h]

/-- The handle of a slot is the one that holds its record. -/
theorem handleAt_eq_some {t : SlotTable R} (hsmall : t.slots.length < 2 ^ 32) {i : Nat}
    {handle : Handle} :
    t.handleAt i = some handle ↔ handle.index.toNat = i ∧ ∃ record, t.Holds handle record := by
  constructor
  · intro h
    unfold handleAt at h
    split at h
    · next generation record hslot =>
      have hlt := (List.getElem?_eq_some_iff.mp hslot).1
      have hindex : (UInt32.ofNat i).toNat = i := UInt32.toNat_ofNat_of_lt' (hlt.trans hsmall)
      obtain rfl := Option.some.inj h
      refine ⟨hindex, record, ?_⟩
      rw [Holds, hindex]
      exact hslot
    · cases h
  · intro hall
    obtain ⟨rfl, record, hr⟩ := hall
    have hslot : t.slots[handle.index.toNat]? = some ⟨handle.generation, some record⟩ := hr
    simp [handleAt, hslot]

/-- **The handles in use** name distinct slots, and `len` counts them. -/
theorem Wf.live_spec {t : SlotTable R} (h : t.Wf) :
    (∀ handle, handle ∈ t.live ↔ ∃ record, t.Holds handle record) ∧
      (t.live.map Handle.index).Nodup ∧ t.live.length = t.len := by
  have hmem (handle : Handle) : handle ∈ t.live ↔ ∃ record, t.Holds handle record := by
    rw [live, List.mem_filterMap]
    constructor
    · intro hex
      obtain ⟨i, -, hi⟩ := hex
      exact ((handleAt_eq_some h.small).mp hi).2
    · intro hex
      obtain ⟨record, hr⟩ := hex
      refine ⟨handle.index.toNat, ?_, (handleAt_eq_some h.small).mpr ⟨rfl, record, hr⟩⟩
      exact List.mem_range.mpr (List.getElem?_eq_some_iff.mp hr).1
  refine ⟨hmem, ?_, ?_⟩
  · have hsorted : t.live.Pairwise fun x y => x.index.toNat < y.index.toNat := by
      refine List.Pairwise.filterMap _ ?_ List.pairwise_lt_range
      intro i j hlt x hx y hy
      rw [((handleAt_eq_some h.small).mp hx).1, ((handleAt_eq_some h.small).mp hy).1]
      exact hlt
    refine List.pairwise_map.mpr (hsorted.imp ?_)
    intro x y hlt heq
    rw [heq] at hlt
    exact absurd hlt (Nat.lt_irrefl _)
  · -- the other slots are those on the free list
    have hdead : ((List.range t.slots.length).filter fun i => ¬ (t.handleAt i).isSome).Perm
        (t.free.map UInt32.toNat) := by
      rw [List.perm_ext_iff_of_nodup (List.nodup_range.filter _)
        (h.nodup.map fun _ _ heq => UInt32.toNat_inj.mp heq)]
      intro i
      rw [List.mem_filter, List.mem_range, List.mem_map]
      constructor
      · intro hall
        obtain ⟨hlt, hnone⟩ := hall
        have hslot := List.getElem?_eq_getElem hlt
        have hindex : (UInt32.ofNat i).toNat = i := UInt32.toNat_ofNat_of_lt' (hlt.trans h.small)
        refine ⟨UInt32.ofNat i, ?_, hindex⟩
        have hslot' : t.slots[(UInt32.ofNat i).toNat]? = some t.slots[i] := by rw [hindex, hslot]
        rw [← h.dead (UInt32.ofNat i) _ hslot']
        simpa [handleAt_isSome hslot] using hnone
      · intro hex
        obtain ⟨index, hin, rfl⟩ := hex
        have hlt := h.free_lt index hin
        have hslot := List.getElem?_eq_getElem hlt
        refine ⟨hlt, ?_⟩
        have hrecord := (h.dead index _ hslot).mpr hin
        simp [handleAt_isSome hslot, hrecord]
    have hsplit := List.length_eq_countP_add_countP (fun i => (t.handleAt i).isSome)
      (l := List.range t.slots.length)
    have hcount := hdead.length_eq
    rw [List.length_map, ← List.countP_eq_length_filter] at hcount
    rw [live, List.length_filterMap_eq_countP, len]
    rw [List.length_range] at hsplit
    simp only [decide_not, Bool.decide_eq_true] at hcount
    simp only [Bool.not_eq_true, Bool.decide_eq_false] at hsplit
    omega

/-! ## How long a handle stays dead -/

/-- So many generations on. -/
theorem toNat_iterate {generation : UInt32} (h : generation ≠ 0) (k : Nat) :
    (nextGeneration^[k] generation) ≠ 0 ∧
      (nextGeneration^[k] generation).toNat =
        (generation.toNat - 1 + k) % (2 ^ 32 - 1) + 1 := by
  induction k with
  | zero =>
    have hlt := generation.toNat_lt
    have hpos : generation.toNat ≠ 0 := fun h0 => h (UInt32.toNat_inj.mp h0)
    refine ⟨h, ?_⟩
    rw [Function.iterate_zero, id, Nat.add_zero, Nat.mod_eq_of_lt (by omega)]
    omega
  | succ k ih =>
    obtain ⟨hne, hnat⟩ := ih
    rw [Function.iterate_succ_apply']
    refine ⟨nextGeneration_ne_zero hne, ?_⟩
    rw [toNat_nextGeneration hne, hnat]
    omega

/-- A slot is back at a generation after `2 ^ 32 - 1` removals, and not before. -/
theorem iterate_ne {generation : UInt32} (h : generation ≠ 0) {k : Nat} (hpos : 0 < k)
    (hlt : k < 2 ^ 32 - 1) : nextGeneration^[k] generation ≠ generation := by
  intro heq
  have hnat := (toNat_iterate h k).2
  have hmax := generation.toNat_lt
  have hgen : generation.toNat ≠ 0 := fun h0 => h (UInt32.toNat_inj.mp h0)
  rw [heq] at hnat
  omega

/-- The handle's record was removed, and its slot has been handed out `k` times since. -/
def Aged (t : SlotTable R) (handle : Handle) (k : Nat) : Prop :=
  t.slots[handle.index.toNat]? = some ⟨nextGeneration^[k + 1] handle.generation, none⟩ ∨
    0 < k ∧ ∃ record, t.slots[handle.index.toNat]? =
      some ⟨nextGeneration^[k] handle.generation, some record⟩

/-- A handle that has aged less than once round holds nothing. -/
theorem Aged.not_holds {t : SlotTable R} {handle : Handle} {k : Nat} (h : t.Aged handle k)
    (hgen : handle.generation ≠ 0) (hk : k < 2 ^ 32 - 1) (record : R) :
    ¬ t.Holds handle record := by
  intro hr
  rcases h with hdead | ⟨hpos, other, hlive⟩
  · exact absurd (Option.some.inj (hr.symm.trans hdead)) (by simp)
  · have heq := Option.some.inj (hr.symm.trans hlive)
    exact iterate_ne hgen hpos hk (congrArg Slot.generation heq).symm

end SlotTable

/-! ## Runs -/

inductive SlotOp (R : Type) where
  | insert (room : Bool) (record : R)
  | remove (room : Bool) (handle : Handle)

/-- A table and the handles it has handed out, in order. -/
structure SlotLife (R : Type) where
  table : SlotTable R
  issued : List Handle

namespace SlotLife

variable {R : Type}

def step (s : SlotLife R) : SlotOp R → SlotLife R
  | .insert room record =>
    match s.table.insert room record with
    | (.error _, table) => { s with table }
    | (.ok handle, table) => ⟨table, s.issued ++ [handle]⟩
  | .remove room handle => { s with table := (s.table.remove room handle).2 }

/-- The step does not come to the slot no handle can name. -/
def Nameable (s : SlotLife R) : SlotOp R → Prop
  | .insert room _ => s.table.free = [] → s.table.slots.length = 2 ^ 32 - 1 → room = false
  | .remove _ _ => True

/-- The step does not take the handle's record out. -/
def Keeps (handle : Handle) (s : SlotLife R) : SlotOp R → Prop
  | .insert _ _ => True
  | .remove room other => other = handle → ∃ e, (s.table.remove room other).1 = .error e

/-- The steps of a run that stays nameable. -/
abbrev steps : SlotLife R → SlotOp R → SlotLife R → Prop :=
  Guarded Nameable fun s op t => t = s.step op

/-- How often a slot has been handed out. -/
def issues (s : SlotLife R) (index : UInt32) : Nat :=
  s.issued.countP fun handle => handle.index = index

variable {s t : SlotLife R}

/-- A step that stays nameable keeps the table well formed. -/
theorem wf_step (h : s.table.Wf) {op : SlotOp R} (hop : s.Nameable op) : (s.step op).table.Wf := by
  cases op with
  | insert room record =>
    rcases h.insert_cases hop record with ⟨e, hrun⟩ | ⟨handle, t', hrun, hwf, -, -⟩
    · simp only [step, hrun]
      exact h
    · simp only [step, hrun]
      exact hwf
  | remove room handle =>
    rcases h.remove_cases room handle with ⟨e, hrun⟩ | ⟨record, t', hrun, hwf, -, -⟩
    · simp only [step, hrun]
      exact h
    · simp only [step, hrun]
      exact hwf

theorem wf_run (h : s.table.Wf) (hr : Reaches steps s t) : t.table.Wf := by
  refine hr.invariant (fun s => s.table.Wf) h ?_
  rintro s op _ hwf ⟨hop, rfl⟩
  exact wf_step hwf hop

/-- A record stays with its handle as long as the handle is not removed. -/
theorem holds_step (h : s.table.Wf) {op : SlotOp R} (hop : s.Nameable op) {handle : Handle}
    {record : R} (hr : s.table.Holds handle record) (hkeeps : s.Keeps handle op) :
    (s.step op).table.Holds handle record := by
  -- An insertion fills a slot that was empty, so not this one.
  cases op with
  | insert room new =>
    rcases h.insert_cases hop new with ⟨e, hrun⟩ | ⟨made, t', hrun, -, hempty, hpoint⟩
    · simp only [step, hrun]
      exact hr
    · have hne : handle.index ≠ made.index := by
        intro heq
        rw [SlotTable.Holds, heq] at hr
        rcases hempty with hnone | hnone <;> rw [hnone] at hr <;> exact absurd hr (by simp)
      simp only [step, hrun, SlotTable.Holds]
      rw [hpoint, if_neg hne]
      exact hr
  | remove room other =>
    rcases h.remove_cases room other with ⟨e, hrun⟩ | ⟨taken, t', hrun, -, hother, hpoint⟩
    · simp only [step, hrun]
      exact hr
    · have hne : handle.index ≠ other.index := by
        intro heq
        obtain ⟨e, herror⟩ := hkeeps (hr.eq_of_index hother heq).symm
        rw [hrun] at herror
        cases herror
      simp only [step, hrun, SlotTable.Holds]
      rw [hpoint, if_neg hne]
      exact hr

/-- **A step ages a dead handle** by one when it hands the slot out, and otherwise leaves it as
    it is. -/
theorem aged_step (h : s.table.Wf) {op : SlotOp R} (hop : s.Nameable op) {handle : Handle}
    {k : Nat} (hk : s.table.Aged handle k) :
    ∃ more, (s.step op).issues handle.index = s.issues handle.index + more ∧
      (s.step op).table.Aged handle (k + more) := by
  -- Handing the slot out ages the handle. Emptying it does not, and moves the slot one generation
  -- on.
  cases op with
  | insert room record =>
    rcases h.insert_cases hop record with ⟨e, hrun⟩ | ⟨made, t', hrun, -, hempty, hpoint⟩
    · refine ⟨0, by simp only [step, hrun, issues, Nat.add_zero], ?_⟩
      simpa only [step, hrun, Nat.add_zero] using hk
    · by_cases heq : handle.index = made.index
      · -- the slot was dead, so the insertion takes it at the generation it had come to
        have hgen : nextGeneration^[k + 1] handle.generation = made.generation := by
          rcases hk with hdead | ⟨-, other, hlive⟩
          · rw [heq] at hdead
            rcases hempty with hnone | hnone
            · exact congrArg Slot.generation (Option.some.inj (hdead.symm.trans hnone))
            · exact absurd (hdead.symm.trans hnone) (by simp)
          · rw [heq] at hlive
            rcases hempty with hnone | hnone <;>
              exact absurd (hlive.symm.trans hnone) (by simp)
        refine ⟨1, ?_, .inr ⟨Nat.succ_pos k, record, ?_⟩⟩
        · simp [step, hrun, issues, List.countP_append, heq]
        · simp only [step, hrun]
          rw [hpoint, if_pos heq, hgen]
      · refine ⟨0, ?_, ?_⟩
        · simp [step, hrun, issues, List.countP_append, Ne.symm heq]
        · simpa only [step, hrun, SlotTable.Aged, hpoint, if_neg heq, Nat.add_zero] using hk
  | remove room other =>
    rcases h.remove_cases room other with ⟨e, hrun⟩ | ⟨taken, t', hrun, -, hother, hpoint⟩
    · exact ⟨0, rfl, by simpa only [step, hrun, Nat.add_zero] using hk⟩
    · refine ⟨0, rfl, ?_⟩
      by_cases heq : handle.index = other.index
      · -- only a live slot can be emptied, and it moves on by one
        rcases hk with hdead | ⟨-, record, hlive⟩
        · rw [heq] at hdead
          exact absurd (Option.some.inj (hother.symm.trans hdead)) (by simp)
        · rw [heq] at hlive
          have hgen : other.generation = nextGeneration^[k] handle.generation :=
            congrArg Slot.generation (Option.some.inj (hother.symm.trans hlive))
          refine .inl ?_
          simp only [step, hrun]
          rw [hpoint, if_pos heq, hgen, Nat.add_zero, Function.iterate_succ_apply']
      · simpa only [step, hrun, SlotTable.Aged, hpoint, if_neg heq, Nat.add_zero] using hk

/-- A run ages a dead handle by as often as its slot was handed out. -/
theorem aged_run (h : s.table.Wf) {handle : Handle} (hk : s.table.Aged handle 0)
    (hrun : Reaches steps s t) :
    ∃ k, t.issues handle.index = s.issues handle.index + k ∧ t.table.Aged handle k := by
  refine (hrun.invariant (fun u => u.table.Wf ∧
    ∃ k, u.issues handle.index = s.issues handle.index + k ∧ u.table.Aged handle k)
    ⟨h, 0, rfl, hk⟩ ?_).2
  rintro u op _ ⟨hwf, k, hcount, hk⟩ ⟨hop, rfl⟩
  obtain ⟨more, hmore, hk⟩ := aged_step hwf hop hk
  exact ⟨wf_step hwf hop, k + more, by rw [hmore, hcount, Nat.add_assoc], hk⟩

/-- **A removed handle stays dead** until its slot has been handed out `2 ^ 32 - 1` times more. -/
theorem not_holds_of_removed (h : s.table.Wf) {handle : Handle} {room : Bool} {record : R}
    (hremoved : (s.table.remove room handle).1 = .ok record)
    (hrun : Reaches steps (s.step (.remove room handle)) t)
    (hfew : t.issues handle.index < s.issues handle.index + (2 ^ 32 - 1)) (other : R) :
    ¬ t.table.Holds handle other := by
  rcases h.remove_cases room handle with ⟨e, hcall⟩ | ⟨taken, t', hcall, hwf, hr, hpoint⟩
  · rw [hcall] at hremoved
    cases hremoved
  · have hgen : handle.generation ≠ 0 :=
      h.positive ⟨handle.generation, some taken⟩ (List.mem_of_getElem? hr)
    have hstep : s.step (.remove room handle) = ⟨t', s.issued⟩ := by simp only [step, hcall]
    have hk : (s.step (.remove room handle)).table.Aged handle 0 := by
      rw [hstep]
      refine .inl ?_
      rw [hpoint, if_pos rfl]
      rfl
    have hnameable : s.Nameable (.remove room handle) := trivial
    obtain ⟨k, hcount, haged⟩ := aged_run (wf_step h hnameable) hk hrun
    have hsame : (s.step (.remove room handle)).issues handle.index = s.issues handle.index := by
      rw [hstep]
      rfl
    exact haged.not_holds hgen (by omega) other

end SlotLife

end Render
end EngineKit
