import EngineKit.Ecs.Storage

/-!
# The world

A `World` is an entity table, one component storage for each registered component type, and the
set of live slots. Component types are keys `C`, and `Val c` is the type of the values of
component `c`: a storage in a slot is a pair of a key and a storage of its values, and reading it
back at a key (`downcast`) succeeds at that key only. A `ComponentId` is a hint the world never
reads.

Reading a component for writing gives the value and what the world becomes when another is
written. The two query drivers hand the values of their candidates to a closure, which may keep a
state of its own (`σ`) between calls.
-/

set_option autoImplicit false

namespace EngineKit
namespace Ecs

open Lib

structure ComponentId where
  raw : UInt32
deriving DecidableEq

inductive WorldError where
  | entity (error : EntityError)
  | entityNotAlive
  | storage (error : StorageError)
deriving DecidableEq

structure World (C : Type) (Val : C → Type) where
  entities : Entities
  slots : List (Option (Σ c, ComponentStorage (Val c)))
  byType : C → Option Nat
  alive : Bitset

/-! ## Query drivers -/

structure WorldPair (A B : Type) where
  storageA : ComponentStorage A
  storageB : ComponentStorage B

structure WorldSingle (T : Type) where
  storage : ComponentStorage T

section Drivers

variable {A B T σ : Type}

/-- One candidate of `WorldPair::for_each`. -/
def WorldPair.visit (f : σ → Entity → A → B → σ × A × B) (run : WorldPair A B × σ)
    (index : UInt32) : WorldPair A B × σ :=
  let (pair, st) := run
  match pair.storageA.generationAt index with
  | none => run
  | some generation =>
    let entity : Entity := ⟨index, generation⟩
    if pair.storageA.contains entity ∧ pair.storageB.contains entity then
      match pair.storageA.getMut entity, pair.storageB.getMut entity with
      | some (a, putA), some (b, putB) =>
        let (st, a, b) := f st entity a b
        (⟨putA a, putB b⟩, st)
      | _, _ => run
    else run

def WorldPair.forEach (pair : WorldPair A B) (candidates : List UInt32)
    (f : σ → Entity → A → B → σ × A × B) (st : σ) : WorldPair A B × σ :=
  candidates.foldl (WorldPair.visit f) (pair, st)

/-- One candidate of `WorldSingle::for_each`. -/
def WorldSingle.visit (f : σ → Entity → T → σ × T) (run : WorldSingle T × σ) (index : UInt32) :
    WorldSingle T × σ :=
  let (single, st) := run
  match single.storage.generationAt index with
  | none => run
  | some generation =>
    let entity : Entity := ⟨index, generation⟩
    if single.storage.contains entity then
      match single.storage.getMut entity with
      | some (value, put) =>
        let (st, value) := f st entity value
        (⟨put value⟩, st)
      | none => run
    else run

def WorldSingle.forEach (single : WorldSingle T) (candidates : List UInt32)
    (f : σ → Entity → T → σ × T) (st : σ) : WorldSingle T × σ :=
  candidates.foldl (WorldSingle.visit f) (single, st)

end Drivers

namespace World

variable {C : Type} [DecidableEq C] {Val : C → Type}

def new : World C Val := ⟨Entities.new, [], fun _ => none, Bitset.new 0⟩

/-! ## The entity table -/

/-- `bits` and `table` are whether the allocations of the live set and the entity table succeed. -/
def trySpawn (bits table : Bool) (w : World C Val) : Except WorldError Entity × World C Val :=
  match w.alive.tryReserve bits (usizeSaturatingAdd w.entities.watermark 1) with
  | .error .invalidIndex => (.error (.entity .indexOverflow), w)
  | .error .allocationFailed => (.error (.entity .allocationFailed), w)
  | .ok alive =>
    match w.entities.tryCreate table with
    | .error e => (.error (.entity e), { w with alive })
    | .ok (entity, entities) =>
      (.ok entity, { w with entities, alive := (alive.set entity.index.toNat).1 })

/-- `storage.remove_entity(entity)` on a slot. -/
def removeEntity (entity : Entity) (slot : Σ c, ComponentStorage (Val c)) :
    Σ c, ComponentStorage (Val c) :=
  ⟨slot.1, (slot.2.remove entity).2⟩

def tryDespawn (room : Bool) (w : World C Val) (entity : Entity) :
    Except WorldError Bool × World C Val :=
  match w.entities.tryDestroy room entity with
  | .error e => (.error (.entity e), w)
  | .ok (false, _) => (.ok false, w)
  | .ok (true, entities) =>
    (.ok true,
      { w with entities
               alive := (w.alive.clear entity.index.toNat).1
               slots := w.slots.map (Option.map (removeEntity entity)) })

def IsAlive (w : World C Val) (entity : Entity) : Prop := w.entities.IsAlive entity

instance (w : World C Val) (entity : Entity) : Decidable (w.IsAlive entity) :=
  inferInstanceAs (Decidable (w.entities.IsAlive entity))

def entityCount (w : World C Val) : Nat := w.entities.live

/-! ## Components -/

def slotIndex (w : World C Val) (c : C) : Option Nat := w.byType c

/-- `downcast_ref::<ComponentStorage<T>>()`. -/
def downcast (c : C) : (Σ d, ComponentStorage (Val d)) → Option (ComponentStorage (Val c))
  | ⟨d, s⟩ => if h : d = c then some (h ▸ s) else none

/-- The storage in slot `i`, if it is one of `c`'s values. -/
def storageAt (w : World C Val) (i : Nat) (c : C) : Option (ComponentStorage (Val c)) :=
  w.slots[i]?.join.bind (downcast c)

def setStorage (w : World C Val) (i : Nat) (c : C) (s : ComponentStorage (Val c)) : World C Val :=
  { w with slots := w.slots.set i (some ⟨c, s⟩) }

def registerComponent (w : World C Val) (c : C) : ComponentId × World C Val :=
  match w.byType c with
  | some i => (⟨UInt32.ofNat i⟩, w)
  | none =>
    let i := w.slots.length
    (⟨UInt32.ofNat i⟩,
      { w with slots := w.slots ++ [some ⟨c, ComponentStorage.new⟩]
               byType := Function.update w.byType c (some i) })

def tryInsertTyped (room : InsertRoom) (w : World C Val) (_id : ComponentId) (c : C)
    (entity : Entity) (value : Val c) : Except WorldError Unit × World C Val :=
  if ¬ w.IsAlive entity then (.error .entityNotAlive, w)
  else
    match w.slotIndex c with
    | none => (.ok (), w)
    | some i =>
      match w.storageAt i c with
      | none => (.ok (), w)
      | some s =>
        match s.tryInsert room entity value with
        | (.ok (), s) => (.ok (), w.setStorage i c s)
        | (.error e, s) => (.error (.storage e), w.setStorage i c s)

def tryInsert (room : InsertRoom) (w : World C Val) (c : C) (entity : Entity) (value : Val c) :
    Except WorldError Unit × World C Val :=
  if ¬ w.IsAlive entity then (.error .entityNotAlive, w)
  else
    let (id, w) := w.registerComponent c
    w.tryInsertTyped room id c entity value

def get (w : World C Val) (c : C) (entity : Entity) : Option (Val c) := do
  let i ← w.slotIndex c
  let s ← w.storageAt i c
  s.get entity

def getMut (w : World C Val) (c : C) (entity : Entity) :
    Option (Val c × (Val c → World C Val)) := do
  let i ← w.slotIndex c
  let s ← w.storageAt i c
  let (value, put) ← s.getMut entity
  some (value, fun written => w.setStorage i c (put written))

def remove (w : World C Val) (c : C) (entity : Entity) : Option (Val c) × World C Val :=
  match w.slotIndex c with
  | none => (none, w)
  | some i =>
    match w.storageAt i c with
    | none => (none, w)
    | some s =>
      let (value, s) := s.remove entity
      (value, w.setStorage i c s)

def count (w : World C Val) (c : C) : Nat :=
  match w.slotIndex c with
  | none => 0
  | some i => ((w.storageAt i c).map ComponentStorage.len).getD 0

/-! ## Queries -/

/-- The two storages, and the world once the driver is done with them. -/
def pair (w : World C Val) (a b : C) :
    Option (WorldPair (Val a) (Val b) × (WorldPair (Val a) (Val b) → World C Val)) := do
  let ia ← w.slotIndex a
  let ib ← w.slotIndex b
  if ia = ib then none
  else do
    let storageA ← w.storageAt ia a
    let storageB ← w.storageAt ib b
    some (⟨storageA, storageB⟩, fun p => (w.setStorage ia a p.storageA).setStorage ib b p.storageB)

/-- The storage, and the world once the driver is done with it. -/
def single (w : World C Val) (c : C) :
    Option (WorldSingle (Val c) × (WorldSingle (Val c) → World C Val)) := do
  let i ← w.slotIndex c
  let storage ← w.storageAt i c
  some (⟨storage⟩, fun s => w.setStorage i c s.storage)

end World

end Ecs
end EngineKit
