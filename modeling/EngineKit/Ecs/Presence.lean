import EngineKit.Ecs.Alive

/-!
# How far presence goes

A query reads a storage's presence by the word and keeps the indices it finds in 32 bits. An index
beyond them would come back as another's, so none is ever set: every bit of every storage of a
reachable world is an entity's (`World.Reachable.narrow`).

The invariant is a bound on positions and not on lengths, because lengths do not keep to it: the
words of a `Bitset` come in blocks of 64, and reserving room for an index appends zero words beyond
it. It says nothing about who is alive either, which is the business of `Counted` and `LiveIn`; it
asks only what is left to ask once a bit is known to be set. Only `place` sets a bit, and it has the
index as a `u32`, so each call of the world keeps the bound for a reason that is local to the
storage it writes to. Calls that hand out references are in the list of steps as well: what is
written through them stays within the dense list.
-/

set_option autoImplicit false

namespace EngineKit
namespace Ecs

open Lib

/-- Every bit is at an index that 32 bits hold. -/
def Bitset.Narrow (bits : Bitset) : Prop := ∀ n, bits.test n = true → n < 2 ^ 32

namespace Bitset

variable {bits : Bitset}

/-- A bit that was not there before is the index itself, which is a `u32`. -/
theorem Narrow.set (h : bits.Narrow) (index : UInt32) : (bits.set index.toNat).1.Narrow := by
  intro n hn
  rw [test_set _ (index.toNat_lt.trans (by decide)), Bool.or_eq_true, decide_eq_true_eq] at hn
  rcases hn with rfl | hn
  · exact index.toNat_lt
  · exact h n hn

/-- Clearing takes bits away and adds none. -/
theorem Narrow.clear (h : bits.Narrow) (index : Nat) : (bits.clear index).1.Narrow := by
  intro n hn
  rw [test_clear, Bool.and_eq_true] at hn
  exact h n hn.2

end Bitset

namespace ComponentStorage

variable {T : Type} {s : ComponentStorage T}

/-- On every path: refused at the sparse list, refused at the reservation, overwritten in place, or
    appended. -/
theorem Narrow.tryInsert (h : s.presence.Narrow) (room : InsertRoom) (entity : Entity) (value : T) :
    (s.tryInsert room entity value).2.presence.Narrow := by
  unfold ComponentStorage.tryInsert
  cases hensure : s.ensureIndex room entity with
  -- refused before the presence is touched
  | error e => exact h
  | ok s₁ =>
    -- the sparse list has grown; the presence is the one from before
    have hsame : s₁.presence = s.presence := by
      unfold ensureIndex at hensure
      cases hneed : checkedAdd entity.index.toNat 1 with
      | none =>
        rw [hneed] at hensure
        exact absurd hensure (by simp)
      | some need =>
        simp only [hneed] at hensure
        split at hensure
        · split at hensure
          · obtain rfl := Except.ok.inj hensure
            rfl
          · exact absurd hensure (by simp)
        · obtain rfl := Except.ok.inj hensure
          rfl
    simp only
    -- `tryReserve` appends zero words, which set no bit, however far it goes
    cases hreserve : s₁.presence.tryReserve room.presence entity.index.toNat with
    | error e => cases e <;> exact hsame ▸ h
    | ok presence =>
      have hnarrow : presence.Narrow := by
        intro n hn
        rw [Bitset.test_tryReserve hreserve, hsame] at hn
        exact h n hn
      simp only [place]
      split
      · exact hnarrow.set entity.index
      · split
        · exact hnarrow.set entity.index
        · exact hnarrow

theorem Narrow.remove (h : s.presence.Narrow) (entity : Entity) :
    (s.remove entity).2.presence.Narrow := by
  unfold ComponentStorage.remove
  split
  · exact h
  · split
    · exact h
    · exact h.clear _

/-- Writing through a reference leaves the presence as it is. -/
theorem presence_getMut {entity : Entity} {value : T} {put : T → ComponentStorage T}
    (hget : s.getMut entity = some (value, put)) (written : T) :
    (put written).presence = s.presence := by
  unfold getMut at hget
  split at hget
  · exact absurd hget (by simp)
  · obtain ⟨p, -, hput⟩ := Option.bind_eq_some_iff.mp hget
    obtain ⟨found, -, heq⟩ := Option.map_eq_some_iff.mp hput
    obtain ⟨rfl, rfl⟩ := Prod.mk.inj heq
    rfl

end ComponentStorage

open ComponentStorage

section Drivers

variable {A B T σ : Type}

/-- A query writes values, and leaves who has one as it is. -/
theorem WorldPair.presence_forEach (f : σ → Entity → A → B → σ × A × B) (candidates : List UInt32)
    (p : WorldPair A B) (st : σ) :
    (p.forEach candidates f st).1.storageA.presence = p.storageA.presence ∧
      (p.forEach candidates f st).1.storageB.presence = p.storageB.presence :=
  forEach_keeps (I := fun s => s.presence = p.storageA.presence)
    (J := fun s => s.presence = p.storageB.presence)
    (fun hget hs written => (presence_getMut hget written).trans hs)
    (fun hget hs written => (presence_getMut hget written).trans hs) f candidates st rfl rfl

theorem WorldSingle.presence_forEach (f : σ → Entity → T → σ × T) (candidates : List UInt32)
    (p : WorldSingle T) (st : σ) :
    (p.forEach candidates f st).1.storage.presence = p.storage.presence :=
  forEach_keeps (I := fun s => s.presence = p.storage.presence)
    (fun hget hs written => (presence_getMut hget written).trans hs) f candidates st rfl

end Drivers

namespace World

variable {C : Type} {Val : C → Type} {w : World C Val}

/-- Every storage's presence is narrow. -/
def Narrow (w : World C Val) : Prop :=
  ∀ (i : Nat) (c : C) (s : ComponentStorage (Val c)), w.slots[i]? = some (some ⟨c, s⟩) →
    s.presence.Narrow

/-- One slot is written, and the others keep theirs. -/
theorem Narrow.setStorage (h : w.Narrow) (i : Nat) {c : C} {s : ComponentStorage (Val c)}
    (hs : s.presence.Narrow) : (w.setStorage i c s).Narrow := by
  intro j d t ht
  have hset : (w.slots.set i (some ⟨c, s⟩))[j]? = some (some ⟨d, t⟩) := ht
  rw [List.getElem?_set] at hset
  split at hset
  · split at hset
    · cases hset
      exact hs
    · exact absurd hset (by simp)
  · exact h j d t hset

/-- A new entity has no components: the storages are as they were. -/
theorem Narrow.trySpawn (h : w.Narrow) (bits table : Bool) : (w.trySpawn bits table).2.Narrow := by
  rcases w.trySpawn_cases bits table with ⟨error, alive, hspawn, -⟩ |
    ⟨entity, entities, alive, -, hspawn, -⟩
  · rw [hspawn]
    exact h
  · rw [hspawn]
    exact h

/-- Despawning clears one bit in every storage. -/
theorem Narrow.tryDespawn (h : w.Narrow) (room : Bool) (entity : Entity) :
    (w.tryDespawn room entity).2.Narrow := by
  rcases w.tryDespawn_cases room entity with ⟨answer, -, hsame⟩ | ⟨entities, -, hdespawn⟩
  · rw [hsame]
    exact h
  · rw [hdespawn]
    intro i c s hs
    have hmap : (w.slots.map (Option.map (removeEntity entity)))[i]? = some (some ⟨c, s⟩) := hs
    rw [List.getElem?_map] at hmap
    obtain ⟨slot, hslot, hremoved⟩ := Option.map_eq_some_iff.mp hmap
    obtain ⟨⟨d, t⟩, rfl, hpair⟩ := Option.map_eq_some_iff.mp hremoved
    cases hpair
    exact ComponentStorage.Narrow.remove (h i d t hslot) entity

variable [DecidableEq C]

/-- A new storage has no bits at all. -/
theorem Narrow.registerComponent (h : w.Narrow) (c : C) : (w.registerComponent c).2.Narrow := by
  unfold World.registerComponent
  split
  · exact h
  · intro i d s hs
    have hpush : (w.slots ++ [some ⟨c, ComponentStorage.new⟩])[i]? = some (some ⟨d, s⟩) := hs
    rw [getElem?_push] at hpush
    split at hpush
    · cases hpush
      intro n hn
      rw [show (ComponentStorage.new : ComponentStorage (Val c)).presence = Bitset.new 0 from rfl,
        Bitset.test_new] at hn
      exact absurd hn (by simp)
    · exact h i d s hpush

theorem Narrow.tryInsertTyped (h : w.Narrow) (room : InsertRoom) (id : ComponentId) (c : C)
    (entity : Entity) (value : Val c) : (w.tryInsertTyped room id c entity value).2.Narrow := by
  rcases w.tryInsertTyped_cases room id c entity value with hsame | ⟨-, i, s, hs, hput⟩
  · exact hsame.symm ▸ h
  · rw [hput]
    exact h.setStorage i
      (ComponentStorage.Narrow.tryInsert (h i c s (storageAt_eq_some_iff.mp hs)) room entity value)

theorem Narrow.tryInsert (h : w.Narrow) (room : InsertRoom) (c : C) (entity : Entity)
    (value : Val c) : (w.tryInsert room c entity value).2.Narrow := by
  unfold World.tryInsert
  split
  · exact h
  · exact (h.registerComponent c).tryInsertTyped room _ c entity value

theorem Narrow.remove (h : w.Narrow) (c : C) (entity : Entity) : (w.remove c entity).2.Narrow := by
  rcases w.remove_cases c entity with hsame | ⟨i, s, hs, hput⟩
  · exact hsame.symm ▸ h
  · rw [hput]
    exact h.setStorage i
      (ComponentStorage.Narrow.remove (h i c s (storageAt_eq_some_iff.mp hs)) entity)

/-- **One step keeps every storage narrow.** The cases are the calls of the world; where a closure
    or a reference writes, what it writes is a value, and the presence is the storage's own. -/
theorem Narrow.step {w' : World C Val} (h : w.Narrow) (hstep : Step w w') : w'.Narrow := by
  cases hstep with
  | trySpawn bits table => exact h.trySpawn bits table
  | tryDespawn room entity => exact h.tryDespawn room entity
  | registerComponent c => exact h.registerComponent c
  | tryInsert room c entity value => exact h.tryInsert room c entity value
  | tryInsertTyped room id c entity value => exact h.tryInsertTyped room id c entity value
  | remove c entity => exact h.remove c entity
  | getMut hget written =>
    obtain ⟨i, s, borrowed, write, hs, hborrow, rfl⟩ := getMut_cases hget
    refine h.setStorage i ?_
    rw [presence_getMut hborrow]
    exact h i _ s (storageAt_eq_some_iff.mp hs)
  | single hquery f candidates st =>
    obtain ⟨i, hs, rfl⟩ := single_cases hquery
    refine h.setStorage i ?_
    rw [WorldSingle.presence_forEach]
    exact h i _ _ (storageAt_eq_some_iff.mp hs)
  | pair hquery f candidates st =>
    obtain ⟨ia, ib, -, -, -, hsa, hsb, rfl⟩ := pair_cases hquery
    obtain ⟨hsameA, hsameB⟩ := WorldPair.presence_forEach f candidates _ st
    refine (h.setStorage ia ?_).setStorage ib ?_
    · rw [hsameA]
      exact h ia _ _ (storageAt_eq_some_iff.mp hsa)
    · rw [hsameB]
      exact h ib _ _ (storageAt_eq_some_iff.mp hsb)

/-- **Every bit of every storage is an entity's index.** -/
theorem Reachable.narrow (hw : Reachable w) : w.Narrow :=
  hw.invariant Narrow (fun _ _ _ hs => absurd hs (by simp [World.new]))
    fun _ _ _ h hstep => h.step hstep

end World

end Ecs
end EngineKit
