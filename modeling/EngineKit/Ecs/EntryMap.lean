import Mathlib.Data.Set.Card
import EngineKit.Lib.Answers
import EngineKit.Ecs.Presence

/-!
# Storages are finite maps

What a component storage is for, said without its vectors: a finite map from entity indices to a
generation and a value (`EntryMap`). An insertion overwrites the entry of its index, a removal
takes it out if the generation is the handle's.

`IsMap s m` says everything there is to say about a storage that holds the map `m`: what it
answers, how many values it keeps, which presence bits are set, and that `sparse` matches the
entries with the packed positions, one to one. A new storage holds the empty map, and the two
operations keep a storage with its map (`IsMap.step`).
-/

set_option autoImplicit false

namespace EngineKit
namespace Ecs

open Lib

/-- What each index has: the generation it was inserted at, and the value. -/
abbrev EntryMap (T : Type) := UInt32 → Option (UInt32 × T)

namespace EntryMap

variable {T : Type}

def empty : EntryMap T := fun _ => none

def get (m : EntryMap T) (entity : Entity) : Option T :=
  (m entity.index).bind fun owned => if owned.1 = entity.generation then some owned.2 else none

def insert (m : EntryMap T) (entity : Entity) (value : T) : EntryMap T :=
  Function.update m entity.index (some (entity.generation, value))

def remove (m : EntryMap T) (entity : Entity) : EntryMap T :=
  if (m.get entity).isSome then Function.update m entity.index none else m

/-- The indices that have something. -/
def indices (m : EntryMap T) : Set UInt32 := {i | (m i).isSome}

end EntryMap

/-- A call that changes a storage. -/
inductive StorageCall (T : Type) where
  | insert (entity : Entity) (value : T)
  | remove (entity : Entity)

inductive StorageAnswer (T : Type) where
  | inserted (result : Except StorageError Unit)
  | removed (value : Option T)

/-- All four allocations of an insertion succeed. -/
def InsertRoom.all : InsertRoom := ⟨true, true, true, true⟩

namespace StorageCall

variable {T : Type}

/-- The call on a storage. -/
def run (s : ComponentStorage T) : StorageCall T → StorageAnswer T × ComponentStorage T
  | insert entity value =>
    let (result, s) := s.tryInsert InsertRoom.all entity value
    (.inserted result, s)
  | remove entity =>
    let (value, s) := s.remove entity
    (.removed value, s)

/-- What it does to the map. -/
def onMap (m : EntryMap T) : StorageCall T → StorageAnswer T × EntryMap T
  | insert entity value => (.inserted (.ok ()), m.insert entity value)
  | remove entity => (.removed (m.get entity), m.remove entity)

end StorageCall

namespace ComponentStorage

variable {T : Type} {s : ComponentStorage T} {m : EntryMap T}

/-! ## An insertion with room -/

theorem checkedAdd_index (i : UInt32) : checkedAdd i.toNat 1 = some (i.toNat + 1) :=
  checkedAdd_of_lt (by have := i.toNat_lt; omega)

theorem ensureIndex_room (s : ComponentStorage T) (entity : Entity) :
    ∃ s', s.ensureIndex InsertRoom.all entity = .ok s' := by
  unfold ensureIndex
  simp only [checkedAdd_index]
  split
  · exact ⟨_, if_pos ⟨rfl, rfl⟩⟩
  · exact ⟨s, rfl⟩

theorem tryReserve_room (bits : Bitset) (i : UInt32) :
    ∃ bits', bits.tryReserve true i.toNat = .ok bits' := by
  unfold Bitset.tryReserve
  simp only [checkedAdd_index]
  split
  · exact ⟨_, rfl⟩
  · exact ⟨bits, rfl⟩

/-- With room an insertion succeeds: no index of 32 bits overflows a position. -/
theorem tryInsert_room (s : ComponentStorage T) (entity : Entity) (value : T) :
    (s.tryInsert InsertRoom.all entity value).1 = .ok () := by
  obtain ⟨s', hensure⟩ := s.ensureIndex_room entity
  obtain ⟨bits, hbits⟩ := tryReserve_room s'.presence entity.index
  have hroom : s'.presence.tryReserve InsertRoom.all.presence entity.index.toNat = .ok bits := hbits
  simp only [tryInsert, hensure, hroom]
  unfold place
  split
  · rfl
  · rfl

/-! ## A storage that holds a map -/

/-- `s` is `m`, laid out in vectors. -/
structure IsMap (s : ComponentStorage T) (m : EntryMap T) : Prop where
  get (entity : Entity) : s.get entity = m.get entity
  contains (entity : Entity) : s.contains entity = (m.get entity).isSome
  generationAt (i : UInt32) : s.generationAt i = (m i).map Prod.fst
  len : s.len = m.indices.ncard
  presence (n : Nat) : s.presence.test n = true ↔ ∃ i ∈ m.indices, i.toNat = n
  /-- `sparse` names a position for the indices with an entry and for no others. -/
  sparse (i : UInt32) : (s.posOf i).isSome = (m i).isSome
  /-- No two of them share one, and none of the positions is left over. -/
  positions : Set.BijOn s.posOf m.indices {p | ∃ k < s.len, p = some (UInt32.ofNat k)}
  dense (i p : UInt32) : s.posOf i = some p → s.dense[p.toNat]? = (m i).map Prod.snd

/-- What the operations keep: the storage is in order, and its entries are the map's. -/
structure Holds (s : ComponentStorage T) (m : EntryMap T) : Prop where
  wf : s.Wf
  narrow : s.presence.Narrow
  entry (i : UInt32) : s.entry i = m i

theorem Holds.empty : (new : ComponentStorage T).Holds EntryMap.empty where
  wf := Wf.new
  narrow n hn := absurd hn (by simp [ComponentStorage.new, Bitset.test_new])
  entry i := entry_of_posOf_none rfl

section Owned

variable {owners : List UInt32}

theorem Owned.isSome_posOf (h : s.Owned owners) (i : UInt32) :
    (s.posOf i).isSome = (s.entry i).isSome := by
  cases hp : s.posOf i with
  | none =>
    rw [entry_of_posOf_none hp]
    rfl
  | some p =>
    obtain ⟨generation, value, -, -, hentry⟩ := h.entry_of_posOf hp
    rw [hentry]
    rfl

theorem Owned.dense_of_posOf (h : s.Owned owners) {i p : UInt32} (hp : s.posOf i = some p) :
    s.dense[p.toNat]? = (s.entry i).map Prod.snd := by
  obtain ⟨generation, value, -, hval, hentry⟩ := h.entry_of_posOf hp
  rw [hentry, hval]
  rfl

/-- `sparse`, on the indices that have a position. -/
theorem Owned.bijOn_posOf (h : s.Owned owners) :
    Set.BijOn s.posOf {i | (s.posOf i).isSome} {p | ∃ k < s.len, p = some (UInt32.ofNat k)} := by
  refine ⟨?_, ?_, ?_⟩
  · intro i hi
    obtain ⟨p, hp⟩ := Option.isSome_iff_exists.mp hi
    exact ⟨p.toNat, h.lt_dense hp, by rw [hp, UInt32.ofNat_toNat]⟩
  · intro i hi j _ heq
    obtain ⟨p, hp⟩ := Option.isSome_iff_exists.mp hi
    exact h.eq_of_posOf hp (heq.symm.trans hp)
  · rintro _ ⟨k, hk, rfl⟩
    -- the owner of position `k`
    obtain ⟨i, hi⟩ : ∃ i, owners[k]? = some i :=
      ⟨_, List.getElem?_eq_getElem (h.dense ▸ hk)⟩
    obtain ⟨p, hp, rfl⟩ := Option.map_eq_some_iff.mp ((h.inverse.iff i k).mpr hi)
    refine ⟨i, ?_, by rw [hp, UInt32.ofNat_toNat]⟩
    show (s.posOf i).isSome
    rw [hp]
    rfl

theorem Owned.ncard (h : s.Owned owners) : s.len = {i | (s.posOf i).isSome}.ncard := by
  have hset : {i | (s.posOf i).isSome} = (owners.toFinset : Set UInt32) := by
    ext i
    rw [Finset.mem_coe, List.mem_toFinset, h.inverse.mem_iff, Option.isSome_map]
    rfl
  rw [hset, Set.ncard_coe_finset, List.toFinset_card_of_nodup h.inverse.nodup]
  exact h.dense

end Owned

/-- **The layout** of a storage whose entries are `m`'s. -/
theorem Holds.isMap (h : s.Holds m) : s.IsMap m := by
  obtain ⟨owners, howned⟩ := h.wf
  have hentries : s.entry = m := funext h.entry
  have hsome (i : UInt32) : (s.posOf i).isSome = (m i).isSome := by
    rw [howned.isSome_posOf, h.entry]
  have hindices : {i | (s.posOf i).isSome} = m.indices := by
    ext i
    show (s.posOf i).isSome = true ↔ (m i).isSome = true
    rw [hsome]
  have hget (entity : Entity) : s.get entity = m.get entity := by
    refine Option.ext ?_
    intro value
    rw [howned.get_eq_some_iff, h.entry, EntryMap.get]
    cases m entity.index with
    | none => simp
    | some owned =>
      rw [Option.bind_some, Option.some.injEq, Prod.ext_iff]
      simp
  constructor
  · exact hget
  · intro entity
    rw [Bool.eq_iff_iff, howned.contains_iff, Option.isSome_iff_exists]
    exact exists_congr fun value => by rw [← hget, howned.get_eq_some_iff]
  · intro i
    rw [howned.generationAt_eq, h.entry]
  · rw [← hindices]
    exact howned.ncard
  · intro n
    constructor
    · intro hn
      have hi : (UInt32.ofNat n).toNat = n := UInt32.toNat_ofNat_of_lt' (h.narrow n hn)
      refine ⟨UInt32.ofNat n, ?_, hi⟩
      show (m _).isSome
      rw [← hsome, ← howned.presence, hi]
      exact hn
    · intro hex
      obtain ⟨i, hi, rfl⟩ := hex
      rw [howned.presence, hsome]
      exact hi
  · exact hsome
  · rw [← hindices]
    exact howned.bijOn_posOf
  · intro i p hp
    rw [howned.dense_of_posOf hp, h.entry]

/-! ## The calls -/

theorem Holds.insert (h : s.Holds m) (entity : Entity) (value : T) :
    (s.tryInsert InsertRoom.all entity value).2.Holds (m.insert entity value) := by
  obtain ⟨hwf, hok, -⟩ := tryInsert_spec h.wf InsertRoom.all entity value
  refine ⟨hwf, Narrow.tryInsert h.narrow _ _ _, ?_⟩
  intro i
  rw [hok (s.tryInsert_room entity value) i, h.entry, EntryMap.insert, Function.update_apply]

theorem Holds.remove (h : s.Holds m) (entity : Entity) :
    (s.remove entity).1 = m.get entity ∧ (s.remove entity).2.Holds (m.remove entity) := by
  obtain ⟨hvalue, hwf, hentry⟩ := remove_spec h.wf entity
  have hget := h.isMap.get entity
  refine ⟨hvalue.trans hget, hwf, Narrow.remove h.narrow _, ?_⟩
  intro i
  rw [hentry, h.entry, hget, EntryMap.remove]
  cases m.get entity with
  | none => simp
  | some value => simp [Function.update_apply]

theorem Holds.step (h : s.Holds m) (c : StorageCall T) :
    (c.run s).1 = (c.onMap m).1 ∧ (c.run s).2.Holds (c.onMap m).2 := by
  cases c with
  | insert entity value =>
    refine ⟨?_, h.insert entity value⟩
    simp only [StorageCall.run, StorageCall.onMap, tryInsert_room]
  | remove entity =>
    obtain ⟨hvalue, hafter⟩ := h.remove entity
    refine ⟨?_, hafter⟩
    simp only [StorageCall.run, StorageCall.onMap, hvalue]

/-- **A storage is a finite map.** Over any calls with any handles it answers what the map
    answers, and it is the map they lead to. -/
theorem isMap_of_calls (calls : List (StorageCall T)) :
    (answers StorageCall.run new calls).1 = (answers StorageCall.onMap EntryMap.empty calls).1 ∧
      (answers StorageCall.run new calls).2.IsMap
        (answers StorageCall.onMap EntryMap.empty calls).2 := by
  obtain ⟨hanswers, hholds⟩ :=
    answers_sim Holds (fun s m c hc => Holds.step hc c) Holds.empty calls
  exact ⟨hanswers, hholds.isMap⟩

end ComponentStorage
end Ecs
end EngineKit
