import EngineKit.Lib.Reach
import EngineKit.Ecs.World

/-!
# Components belong to live entities

A world hides a dead entity's components in two ways that have to agree: despawning removes the
entity from every storage, and a storage answers only to the generation that inserted. The
invariant is `World.Inv`: every storage is well formed, and each entry of it has the generation of
the entity that is alive in that slot (`ComponentStorage.LiveIn`). One lemma for each operation
says it is kept.

A step of a world is any public operation that changes it, with any arguments and any outcome of
its allocations (`World.Step`); writes through references and query drivers are steps like the
others. `World.components_of_live` is what holds of every world such steps lead to.

The agreement is stated of entries and not of values, since queries write values all the time: what
has to stay is at which index there is an entry, and of which generation. `SameKeys` is that two
storages agree so far, and a write through a reference keeps it whatever is written. The presence
bits, the sparse and the dense list are dealt with once, in `Wf`, and are not looked at here.

`alive` is in the invariant because it is kept beside the table: a query walks its words and not the
table's slots.
-/

set_option autoImplicit false

namespace EngineKit
namespace Ecs

open Lib

/-! ## Storages against the table -/

namespace ComponentStorage

variable {T : Type} {s s' : ComponentStorage T} {table : Entities}

/-- Every entry is of the entity alive in its slot. -/
def LiveIn (s : ComponentStorage T) (table : Entities) : Prop :=
  ∀ i generation value, s.entry i = some (generation, value) → table.current i = some generation

/-- An empty storage owes nothing. -/
theorem LiveIn.new : (new : ComponentStorage T).LiveIn table := by
  intro i generation value hentry
  exact absurd hentry (by simp [entry, posOf, ComponentStorage.new])

/-- The same indices, at the same generations. -/
def SameKeys (s s' : ComponentStorage T) : Prop :=
  s'.Wf ∧ ∀ i, (s'.entry i).map Prod.fst = (s.entry i).map Prod.fst

theorem SameKeys.refl (h : s.Wf) : SameKeys s s := ⟨h, fun _ => rfl⟩

theorem SameKeys.trans {s'' : ComponentStorage T} (h : SameKeys s s') (h' : SameKeys s' s'') :
    SameKeys s s'' := ⟨h'.1, fun i => (h'.2 i).trans (h.2 i)⟩

theorem SameKeys.liveIn (h : SameKeys s s') (hlive : s.LiveIn table) : s'.LiveIn table := by
  intro i generation value hentry
  have hkey := h.2 i
  rw [hentry] at hkey
  obtain ⟨⟨_, value'⟩, hold, rfl⟩ := Option.map_eq_some_iff.mp hkey.symm
  exact hlive i _ value' hold

/-- What is written through a reference is a value. -/
theorem SameKeys.getMut (h : s.Wf) {entity : Entity} {value : T} {put : T → ComponentStorage T}
    (hget : s.getMut entity = some (value, put)) (written : T) : SameKeys s (put written) := by
  obtain ⟨hentry, hput⟩ := getMut_spec h hget
  obtain ⟨hwf, hafter⟩ := hput written
  refine ⟨hwf, ?_⟩
  intro i
  rw [hafter i]
  split
  · next hi => rw [hi, hentry]; rfl
  · rfl

/-- The entity is alive, so the entry that is added or overwritten is of the generation of its
    slot. -/
theorem LiveIn.tryInsert (h : s.Wf) (hlive : s.LiveIn table) {entity : Entity}
    (halive : table.IsAlive entity) (room : InsertRoom) (value : T) :
    (s.tryInsert room entity value).2.LiveIn table := by
  obtain ⟨-, hok, herror⟩ := tryInsert_spec h room entity value
  intro i generation value' hentry
  by_cases hdone : (s.tryInsert room entity value).1 = .ok ()
  · rw [hok hdone i] at hentry
    split at hentry
    · next hi =>
      obtain ⟨rfl, -⟩ := Prod.mk.inj (Option.some.inj hentry)
      rw [hi]
      exact (table.isAlive_iff entity).mp halive
    · exact hlive i generation value' hentry
  · rw [herror hdone i] at hentry
    exact hlive i generation value' hentry

/-- Fewer entries. -/
theorem LiveIn.remove (h : s.Wf) (hlive : s.LiveIn table) (entity : Entity) :
    (s.remove entity).2.LiveIn table := by
  intro i generation value hentry
  rw [(remove_spec h entity).2.2 i] at hentry
  split at hentry
  · exact absurd hentry (by simp)
  · exact hlive i generation value hentry

/-- Removing the entity that is alive in a slot leaves the slot's index without an entry. -/
theorem entry_remove_alive (h : s.Wf) (hlive : s.LiveIn table) {entity : Entity}
    (halive : table.IsAlive entity) (i : UInt32) :
    (s.remove entity).2.entry i = if i = entity.index then none else s.entry i := by
  rw [(remove_spec h entity).2.2 i]
  by_cases hi : i = entity.index
  · rw [if_pos hi, hi]
    cases hentry : s.entry entity.index with
    | none => rw [ite_self]
    | some owned =>
      obtain ⟨generation, value⟩ := owned
      -- an entry there is the live entity's own, so the removal took it
      have hcurrent := hlive _ _ _ hentry
      rw [(table.isAlive_iff entity).mp halive, Option.some.injEq] at hcurrent
      obtain ⟨owners, howned⟩ := h
      have hget : s.get entity = some value :=
        howned.get_eq_some_iff.mpr (by rw [hentry, hcurrent])
      rw [hget, if_pos ⟨rfl, rfl⟩]
  · rw [if_neg hi, if_neg fun hand => hi hand.1]

end ComponentStorage

open ComponentStorage

section Drivers

variable {A B T σ : Type}

/-- What every write through a reference keeps of either storage, a pair query keeps. -/
theorem WorldPair.forEach_keeps {I : ComponentStorage A → Prop} {J : ComponentStorage B → Prop}
    (hI : ∀ {s entity value put}, s.getMut entity = some (value, put) → I s → ∀ written,
      I (put written))
    (hJ : ∀ {s entity value put}, s.getMut entity = some (value, put) → J s → ∀ written,
      J (put written))
    (f : σ → Entity → A → B → σ × A × B) (candidates : List UInt32) {p : WorldPair A B} (st : σ)
    (ha : I p.storageA) (hb : J p.storageB) :
    I (p.forEach candidates f st).1.storageA ∧ J (p.forEach candidates f st).1.storageB := by
  -- On the candidates. A candidate that is skipped leaves the pair, and one that is visited writes
  -- at most once to each storage.
  induction candidates generalizing p st with
  | nil => exact ⟨ha, hb⟩
  | cons index candidates ih =>
    suffices hvisit : I (visit f (p, st) index).1.storageA ∧
        J (visit f (p, st) index).1.storageB from
      ih (visit f (p, st) index).2 hvisit.1 hvisit.2
    simp only [visit]
    cases p.storageA.generationAt index with
    | none => exact ⟨ha, hb⟩
    | some generation =>
      simp only
      split
      · cases hgetA : p.storageA.getMut ⟨index, generation⟩ with
        | none => exact ⟨ha, hb⟩
        | some borrowA =>
          cases hgetB : p.storageB.getMut ⟨index, generation⟩ with
          | none => exact ⟨ha, hb⟩
          | some borrowB => exact ⟨hI hgetA ha _, hJ hgetB hb _⟩
      · exact ⟨ha, hb⟩

/-- And so for a single query. -/
theorem WorldSingle.forEach_keeps {I : ComponentStorage T → Prop}
    (hI : ∀ {s entity value put}, s.getMut entity = some (value, put) → I s → ∀ written,
      I (put written))
    (f : σ → Entity → T → σ × T) (candidates : List UInt32) {p : WorldSingle T} (st : σ)
    (h : I p.storage) : I (p.forEach candidates f st).1.storage := by
  induction candidates generalizing p st with
  | nil => exact h
  | cons index candidates ih =>
    suffices hvisit : I (visit f (p, st) index).1.storage from ih (visit f (p, st) index).2 hvisit
    simp only [visit]
    cases p.storage.generationAt index with
    | none => exact h
    | some generation =>
      simp only
      split
      · cases hget : p.storage.getMut ⟨index, generation⟩ with
        | none => exact h
        | some borrow => exact hI hget h _
      · exact h

/-- A pair query changes values, not who has them. -/
theorem WorldPair.forEach_sameKeys (f : σ → Entity → A → B → σ × A × B) (candidates : List UInt32)
    {p : WorldPair A B} (st : σ) (ha : p.storageA.Wf) (hb : p.storageB.Wf) :
    SameKeys p.storageA (p.forEach candidates f st).1.storageA ∧
      SameKeys p.storageB (p.forEach candidates f st).1.storageB :=
  forEach_keeps (fun hget hs written => hs.trans (.getMut hs.1 hget written))
    (fun hget hs written => hs.trans (.getMut hs.1 hget written)) f candidates st
    (SameKeys.refl ha) (SameKeys.refl hb)

/-- A single query changes values, not who has them. -/
theorem WorldSingle.forEach_sameKeys (f : σ → Entity → T → σ × T) (candidates : List UInt32)
    {p : WorldSingle T} (st : σ) (h : p.storage.Wf) :
    SameKeys p.storage (p.forEach candidates f st).1.storage :=
  forEach_keeps (fun hget hs written => hs.trans (.getMut hs.1 hget written)) f candidates st
    (SameKeys.refl h)

end Drivers

/-! ## The invariant -/

namespace World

variable {C : Type} {Val : C → Type}

/-- **The invariant.** `byType` and the slots are two ways to one storage, and the code looks a type
    up by the first and despawns over the second, so they have to be inverse to each other. -/
structure Inv (w : World C Val) : Prop where
  entities : w.entities.Wf
  alive (i : UInt32) : w.alive.test i.toNat = (w.entities.current i).isSome
  byType (c : C) (i : Nat) : w.byType c = some i ↔ ∃ s, w.slots[i]? = some (some ⟨c, s⟩)
  wf {i : Nat} {c : C} {s : ComponentStorage (Val c)} : w.slots[i]? = some (some ⟨c, s⟩) → s.Wf
  live {i : Nat} {c : C} {s : ComponentStorage (Val c)} :
    w.slots[i]? = some (some ⟨c, s⟩) → s.LiveIn w.entities

theorem Inv.new : (new : World C Val).Inv where
  entities := Entities.Wf.new
  alive i := Bitset.test_new 0 i.toNat
  byType c i := by simp [World.new]
  wf h := absurd h (by simp [World.new])
  live h := absurd h (by simp [World.new])

/-! ## The entity table -/

section Table

variable {w : World C Val}

/-- **What a spawn does.** It is refused, and at most the live set has grown; or the entity table
    hands out an entity, which joins the live set. -/
theorem trySpawn_cases (w : World C Val) (bits table : Bool) :
    (∃ error alive, w.trySpawn bits table = (.error error, { w with alive }) ∧
      ∀ i, alive.test i = w.alive.test i) ∨
    ∃ entity entities, ∃ alive : Bitset, w.entities.tryCreate table = .ok (entity, entities) ∧
      w.trySpawn bits table =
        (.ok entity, { w with entities, alive := (alive.set entity.index.toNat).1 }) ∧
      ∀ i, alive.test i = w.alive.test i := by
  unfold World.trySpawn
  cases hreserve : w.alive.tryReserve bits (usizeSaturatingAdd w.entities.watermark 1) with
  | error e =>
    refine Or.inl ?_
    cases e with
    | invalidIndex => exact ⟨_, w.alive, rfl, fun _ => rfl⟩
    | allocationFailed => exact ⟨_, w.alive, rfl, fun _ => rfl⟩
  | ok alive =>
    have hgrown := Bitset.test_tryReserve hreserve
    cases hcreate : w.entities.tryCreate table with
    | error e => exact Or.inl ⟨_, alive, rfl, hgrown⟩
    | ok created => exact Or.inr ⟨created.1, created.2, alive, rfl, rfl, hgrown⟩

/-- **What a despawn does.** It changes nothing and does not answer `true`; or the entity table
    takes the entity back, and every storage drops it. -/
theorem tryDespawn_cases (w : World C Val) (room : Bool) (entity : Entity) :
    (∃ answer, answer ≠ .ok true ∧ w.tryDespawn room entity = (answer, w)) ∨
    ∃ entities, w.entities.tryDestroy room entity = .ok (true, entities) ∧
      w.tryDespawn room entity =
        (.ok true,
          { w with entities
                   alive := (w.alive.clear entity.index.toNat).1
                   slots := w.slots.map (Option.map (removeEntity entity)) }) := by
  unfold World.tryDespawn
  cases hdestroy : w.entities.tryDestroy room entity with
  | error e => exact Or.inl ⟨_, by simp, rfl⟩
  | ok destroyed =>
    obtain ⟨done, entities⟩ := destroyed
    cases done with
    | false => exact Or.inl ⟨_, by simp, rfl⟩
    | true => exact Or.inr ⟨entities, rfl, rfl⟩

/-- A refused spawn may have grown the live set, which tests as before. -/
theorem Inv.trySpawn (h : w.Inv) (bits table : Bool) : (w.trySpawn bits table).2.Inv := by
  rcases w.trySpawn_cases bits table with
    ⟨error, alive, hspawn, hgrown⟩ | ⟨entity, entities, alive, hcreate, hspawn, hgrown⟩
  · rw [hspawn]
    exact ⟨h.entities, fun i => (hgrown _).trans (h.alive i), h.byType, h.wf, h.live⟩
  · obtain ⟨hwf, hnone, hcurrent⟩ := Entities.tryCreate_spec h.entities hcreate
    rw [hspawn]
    refine ⟨hwf, ?_, h.byType, h.wf, ?_⟩
    · intro i
      show (alive.set entity.index.toNat).1.test i.toNat = (entities.current i).isSome
      rw [Bitset.test_set _ (entity.index.toNat_lt.trans (by decide)), hgrown, h.alive, hcurrent]
      by_cases hi : i = entity.index
      · simp [hi]
      · have hne : ¬ i.toNat = entity.index.toNat := fun heq => hi (UInt32.toNat_inj.mp heq)
        simp [hi, hne]
    · intro i c s hs j generation value hentry
      -- the slot was empty, so no entry is of its index
      have hold := h.live hs j generation value hentry
      have hj : j ≠ entity.index := by
        intro hj
        rw [hj, hnone] at hold
        exact absurd hold (by simp)
      show entities.current j = some generation
      rw [hcurrent, if_neg hj, hold]

/-- What a despawn that found its entity alive leaves: no entry of its slot in any storage, and
    every other entry as it was. -/
theorem slot_after_despawn (h : w.Inv) {entity : Entity} (halive : w.IsAlive entity) {i : Nat}
    {c : C} {s' : ComponentStorage (Val c)}
    (hs : (w.slots.map (Option.map (removeEntity entity)))[i]? = some (some ⟨c, s'⟩)) :
    ∃ s, w.slots[i]? = some (some ⟨c, s⟩) ∧ s'.Wf ∧
      ∀ j, s'.entry j = if j = entity.index then none else s.entry j := by
  rw [List.getElem?_map, Option.map_eq_some_iff] at hs
  obtain ⟨slot, hslot, hremoved⟩ := hs
  obtain ⟨⟨d, s⟩, rfl, heq⟩ := Option.map_eq_some_iff.mp hremoved
  cases heq
  exact ⟨s, hslot, (remove_spec (h.wf hslot) entity).2.1,
    entry_remove_alive (h.wf hslot) (h.live hslot) halive⟩

/-- The three that a despawn changes, it changes at the same index. -/
theorem Inv.tryDespawn (h : w.Inv) (room : Bool) (entity : Entity) :
    (w.tryDespawn room entity).2.Inv := by
  rcases w.tryDespawn_cases room entity with
    ⟨answer, -, hdespawn⟩ | ⟨entities, hdestroy, hdespawn⟩
  · rw [hdespawn]
    exact h
  · obtain ⟨hwf, hdone, hcurrent, -⟩ := Entities.tryDestroy_spec h.entities hdestroy
    have halive : w.IsAlive entity := hdone.mp rfl
    rw [hdespawn]
    refine ⟨hwf, ?_, ?_, ?_, ?_⟩
    · intro i
      show (w.alive.clear entity.index.toNat).1.test i.toNat = (entities.current i).isSome
      rw [Bitset.test_clear, h.alive, hcurrent rfl]
      by_cases hi : i = entity.index
      · simp [hi]
      · have hne : ¬ i.toNat = entity.index.toNat := fun heq => hi (UInt32.toNat_inj.mp heq)
        simp [hi, hne]
    · intro c i
      show w.byType c = some i ↔
        ∃ s, (w.slots.map (Option.map (removeEntity entity)))[i]? = some (some ⟨c, s⟩)
      rw [h.byType]
      constructor
      · intro ⟨s, hs⟩
        exact ⟨(s.remove entity).2, by rw [List.getElem?_map, hs]; rfl⟩
      · intro ⟨s', hs'⟩
        obtain ⟨s, hs, -⟩ := slot_after_despawn h halive hs'
        exact ⟨s, hs⟩
    · intro i c s' hs
      obtain ⟨-, -, hwf', -⟩ := slot_after_despawn h halive hs
      exact hwf'
    · intro i c s' hs
      obtain ⟨s, hslot, -, hentry⟩ := slot_after_despawn h halive hs
      intro j generation value hj
      rw [hentry] at hj
      show entities.current j = some generation
      rw [hcurrent rfl]
      split at hj
      · exact absurd hj (by simp)
      · next hne => rw [if_neg hne, h.live hslot j generation value hj]

/-- A storage answers with the generation that is alive. -/
theorem Inv.isAlive_of_get (h : w.Inv) {i : Nat} {c : C} {s : ComponentStorage (Val c)}
    (hs : w.slots[i]? = some (some ⟨c, s⟩)) {entity : Entity} {value : Val c}
    (hget : s.get entity = some value) : w.IsAlive entity := by
  obtain ⟨owners, howned⟩ := h.wf hs
  exact (w.entities.isAlive_iff entity).mpr (h.live hs _ _ _ (howned.get_eq_some_iff.mp hget))

/-- **A new entity has no components**, although its slot may have had another before. -/
theorem Inv.get_spawned (h : w.Inv) {bits table : Bool} {entity : Entity} {w' : World C Val}
    (hspawn : w.trySpawn bits table = (.ok entity, w')) {i : Nat} {c : C}
    {s : ComponentStorage (Val c)} (hs : w'.slots[i]? = some (some ⟨c, s⟩)) :
    s.get entity = none := by
  rcases w.trySpawn_cases bits table with
    ⟨error, alive, hrefused, -⟩ | ⟨entity', entities, alive, hcreate, hspawned, -⟩
  · exact absurd (congrArg Prod.fst (hrefused.symm.trans hspawn)) (by simp)
  · obtain ⟨hentity, rfl⟩ := Prod.mk.inj (hspawned.symm.trans hspawn)
    obtain rfl := Except.ok.inj hentity
    obtain ⟨-, hnone, -⟩ := Entities.tryCreate_spec h.entities hcreate
    -- The table hands out an empty slot or a new one, so by the invariant no entry is of its index.
    -- the storages are those of before, when the slot was empty
    have hslot : w.slots[i]? = some (some ⟨c, s⟩) := hs
    obtain ⟨owners, howned⟩ := h.wf hslot
    refine Option.eq_none_iff_forall_ne_some.mpr ?_
    intro value hget
    have hcurrent := h.live hslot _ _ _ (howned.get_eq_some_iff.mp hget)
    rw [hnone] at hcurrent
    exact absurd hcurrent (by simp)

/-- **And a despawned one leaves none behind.** -/
theorem Inv.entry_despawned (h : w.Inv) {room : Bool} {entity : Entity} {w' : World C Val}
    (hdespawn : w.tryDespawn room entity = (.ok true, w')) {i : Nat} {c : C}
    {s : ComponentStorage (Val c)} (hs : w'.slots[i]? = some (some ⟨c, s⟩)) :
    s.entry entity.index = none := by
  rcases w.tryDespawn_cases room entity with
    ⟨answer, hanswer, hsame⟩ | ⟨entities, hdestroy, hdespawned⟩
  · exact absurd (congrArg Prod.fst (hsame.symm.trans hdespawn)) hanswer
  · obtain ⟨-, hdone, -⟩ := Entities.tryDestroy_spec h.entities hdestroy
    obtain ⟨-, rfl⟩ := Prod.mk.inj (hdespawned.symm.trans hdespawn)
    obtain ⟨s₀, -, -, hentry⟩ := slot_after_despawn h (hdone.mp rfl) hs
    rw [hentry, if_pos rfl]

end Table

/-! ## Components -/

section Components

variable [DecidableEq C] {w : World C Val}

theorem storageAt_eq_some_iff {i : Nat} {c : C} {s : ComponentStorage (Val c)} :
    w.storageAt i c = some s ↔ w.slots[i]? = some (some ⟨c, s⟩) := by
  unfold storageAt
  cases w.slots[i]? with
  | none => simp
  | some slot =>
    cases slot with
    | none => simp
    | some pair =>
      obtain ⟨d, s'⟩ := pair
      simp only [Option.join_some, Option.bind_some, downcast]
      by_cases hd : d = c
      · subst hd
        simp
      · simp [hd]

theorem storageAt_setStorage_self {i : Nat} {c : C} {s₀ : ComponentStorage (Val c)}
    (hs : w.storageAt i c = some s₀) (s : ComponentStorage (Val c)) :
    (w.setStorage i c s).storageAt i c = some s := by
  rw [storageAt_eq_some_iff] at hs ⊢
  exact List.getElem?_set_self (List.getElem?_eq_some_iff.mp hs).1

theorem storageAt_setStorage_ne {i j : Nat} (hij : i ≠ j) {c : C}
    (s : ComponentStorage (Val c)) (d : C) :
    (w.setStorage i c s).storageAt j d = w.storageAt j d := by
  show ((w.slots.set i _)[j]?).join.bind _ = _
  rw [List.getElem?_set_ne hij]
  rfl

/-! What each operation does to the storages: nothing, or one of them is replaced. -/

theorem tryInsertTyped_cases (w : World C Val) (room : InsertRoom) (id : ComponentId) (c : C)
    (entity : Entity) (value : Val c) :
    (w.tryInsertTyped room id c entity value).2 = w ∨
      w.IsAlive entity ∧ ∃ i s, w.storageAt i c = some s ∧
        (w.tryInsertTyped room id c entity value).2 =
          w.setStorage i c (s.tryInsert room entity value).2 := by
  unfold World.tryInsertTyped
  split
  · exact .inl rfl
  · next halive =>
    cases w.slotIndex c with
    | none => exact .inl rfl
    | some i =>
      simp only
      cases hs : w.storageAt i c with
      | none => exact .inl rfl
      | some s =>
        refine .inr ⟨not_not.mp halive, i, s, hs, ?_⟩
        simp only
        cases s.tryInsert room entity value with
        | mk result s' => cases result <;> rfl

theorem remove_cases (w : World C Val) (c : C) (entity : Entity) :
    (w.remove c entity).2 = w ∨ ∃ i s, w.storageAt i c = some s ∧
      (w.remove c entity).2 = w.setStorage i c (s.remove entity).2 := by
  unfold World.remove
  cases w.slotIndex c with
  | none => exact .inl rfl
  | some i =>
    simp only
    cases hs : w.storageAt i c with
    | none => exact .inl rfl
    | some s => exact .inr ⟨i, s, hs, rfl⟩

theorem getMut_cases {c : C} {entity : Entity} {value : Val c} {put : Val c → World C Val}
    (hget : w.getMut c entity = some (value, put)) :
    ∃ i s borrowed write, w.storageAt i c = some s ∧ s.getMut entity = some (borrowed, write) ∧
      put = fun written => w.setStorage i c (write written) := by
  simp only [World.getMut, Option.bind_eq_bind, Option.bind_eq_some_iff, Option.some.injEq,
    Prod.mk.injEq, Prod.exists] at hget
  obtain ⟨i, -, s, hs, borrowed, write, hborrow, -, rfl⟩ := hget
  exact ⟨i, s, borrowed, write, hs, hborrow, rfl⟩

theorem single_cases {c : C} {query : WorldSingle (Val c)}
    {done : WorldSingle (Val c) → World C Val} (hquery : w.single c = some (query, done)) :
    ∃ i, w.storageAt i c = some query.storage ∧
      done = fun p => w.setStorage i c p.storage := by
  simp only [World.single, Option.bind_eq_bind, Option.bind_eq_some_iff, Option.some.injEq,
    Prod.mk.injEq] at hquery
  obtain ⟨i, -, s, hs, rfl, rfl⟩ := hquery
  exact ⟨i, hs, rfl⟩

/-- A pair is of two registered types, in slots of their own. -/
theorem pair_cases {a b : C} {query : WorldPair (Val a) (Val b)}
    {done : WorldPair (Val a) (Val b) → World C Val} (hquery : w.pair a b = some (query, done)) :
    ∃ ia ib, w.slotIndex a = some ia ∧ w.slotIndex b = some ib ∧ ia ≠ ib ∧
      w.storageAt ia a = some query.storageA ∧ w.storageAt ib b = some query.storageB ∧
      done = fun p => (w.setStorage ia a p.storageA).setStorage ib b p.storageB := by
  simp only [World.pair, Option.bind_eq_bind, Option.bind_eq_some_iff] at hquery
  obtain ⟨ia, hia, ib, hib, hquery⟩ := hquery
  split at hquery
  · exact absurd hquery (by simp)
  · next hne =>
    obtain ⟨sa, hsa, hquery⟩ := Option.bind_eq_some_iff.mp hquery
    obtain ⟨sb, hsb, hquery⟩ := Option.bind_eq_some_iff.mp hquery
    obtain ⟨rfl, rfl⟩ := Prod.mk.inj (Option.some.inj hquery)
    exact ⟨ia, ib, hia, hib, hne, hsa, hsb, rfl⟩

/-- Replacing a storage by one that is in order keeps the invariant. -/
theorem Inv.setStorage (h : w.Inv) {i : Nat} {c : C}
    {s s' : ComponentStorage (Val c)} (hs : w.storageAt i c = some s) (hwf : s'.Wf)
    (hlive : s'.LiveIn w.entities) : (w.setStorage i c s').Inv := by
  have hslot := storageAt_eq_some_iff.mp hs
  have hin := (List.getElem?_eq_some_iff.mp hslot).1
  have hset (j : Nat) : (w.setStorage i c s').slots[j]?
      = if i = j then some (some ⟨c, s'⟩) else w.slots[j]? := by
    show (w.slots.set i _)[j]? = _
    rw [List.getElem?_set, if_pos hin]
  refine ⟨h.entities, h.alive, ?_, ?_, ?_⟩
  · intro d j
    show w.byType d = some j ↔ _
    rw [h.byType, hset]
    split
    · next hj =>
      subst hj
      rw [hslot]
      constructor
      · intro ⟨t, ht⟩
        cases ht
        exact ⟨s', rfl⟩
      · intro ⟨t, ht⟩
        cases ht
        exact ⟨s, rfl⟩
    · rfl
  · intro j d t ht
    rw [hset] at ht
    split at ht
    · cases ht
      exact hwf
    · exact h.wf ht
  · intro j d t ht
    rw [hset] at ht
    split at ht
    · cases ht
      exact hlive
    · exact h.live ht

/-- The new slot is behind the others, so no old position is moved. -/
theorem Inv.registerComponent (h : w.Inv) (c : C) : (w.registerComponent c).2.Inv := by
  unfold World.registerComponent
  cases hc : w.byType c with
  | some i => exact h
  | none =>
    have hslots (j : Nat) := getElem?_push w.slots
      (some ⟨c, (ComponentStorage.new : ComponentStorage (Val c))⟩) j
    have hout : w.slots[w.slots.length]? = none := List.getElem?_eq_none (Nat.le_refl _)
    refine ⟨h.entities, h.alive, ?_, ?_, ?_⟩
    · intro d j
      show Function.update w.byType c (some w.slots.length) d = some j ↔
        ∃ t, (w.slots ++ [_])[j]? = some (some ⟨d, t⟩)
      rw [Function.update_apply, hslots]
      by_cases hj : j = w.slots.length
      · rw [if_pos hj]
        split
        · next hd =>
          subst hd
          exact iff_of_true (by rw [hj]) ⟨ComponentStorage.new, rfl⟩
        · next hd =>
          refine iff_of_false (?_) fun ⟨t, ht⟩ => ?_
          · intro hbad
            obtain ⟨t, ht⟩ := (h.byType d j).mp hbad
            rw [hj, hout] at ht
            exact absurd ht (by simp)
          · cases ht
            exact hd rfl
      · rw [if_neg hj, ← h.byType]
        split
        · next hd =>
          rw [hd, hc]
          exact iff_of_false (fun hbad => hj (Option.some.inj hbad).symm) (by simp)
        · rfl
    · intro j d t ht
      rw [hslots] at ht
      split at ht
      · cases ht
        exact Wf.new
      · exact h.wf ht
    · intro j d t ht
      rw [hslots] at ht
      split at ht
      · cases ht
        exact LiveIn.new
      · exact h.live ht

theorem Inv.tryInsertTyped (h : w.Inv) (room : InsertRoom) (id : ComponentId) (c : C)
    (entity : Entity) (value : Val c) : (w.tryInsertTyped room id c entity value).2.Inv := by
  rcases w.tryInsertTyped_cases room id c entity value with hsame | ⟨halive, i, s, hs, hput⟩
  · exact hsame.symm ▸ h
  · have hslot := storageAt_eq_some_iff.mp hs
    rw [hput]
    exact h.setStorage hs (tryInsert_spec (h.wf hslot) room entity value).1
      ((h.live hslot).tryInsert (h.wf hslot) halive room value)

theorem Inv.tryInsert (h : w.Inv) (room : InsertRoom) (c : C) (entity : Entity) (value : Val c) :
    (w.tryInsert room c entity value).2.Inv := by
  unfold World.tryInsert
  split
  · exact h
  · exact (h.registerComponent c).tryInsertTyped room _ c entity value

theorem Inv.remove (h : w.Inv) (c : C) (entity : Entity) : (w.remove c entity).2.Inv := by
  rcases w.remove_cases c entity with hsame | ⟨i, s, hs, hput⟩
  · exact hsame.symm ▸ h
  · have hslot := storageAt_eq_some_iff.mp hs
    rw [hput]
    exact h.setStorage hs (remove_spec (h.wf hslot) entity).2.1
      ((h.live hslot).remove (h.wf hslot) entity)

theorem Inv.setStorage_sameKeys (h : w.Inv) {i : Nat} {c : C} {s s' : ComponentStorage (Val c)}
    (hs : w.storageAt i c = some s) (hsame : SameKeys s s') : (w.setStorage i c s').Inv :=
  h.setStorage hs hsame.1 (hsame.liveIn (h.live (storageAt_eq_some_iff.mp hs)))

theorem Inv.getMut (h : w.Inv) {c : C} {entity : Entity} {value : Val c} {put : Val c → World C Val}
    (hget : w.getMut c entity = some (value, put)) (written : Val c) : (put written).Inv := by
  obtain ⟨i, s, borrowed, write, hs, hborrow, rfl⟩ := getMut_cases hget
  exact h.setStorage_sameKeys hs (.getMut (h.wf (storageAt_eq_some_iff.mp hs)) hborrow written)

theorem Inv.single (h : w.Inv) {c : C} {query : WorldSingle (Val c)}
    {done : WorldSingle (Val c) → World C Val} (hquery : w.single c = some (query, done))
    {σ : Type} (f : σ → Entity → Val c → σ × Val c) (candidates : List UInt32) (st : σ) :
    (done (query.forEach candidates f st).1).Inv := by
  obtain ⟨i, hs, rfl⟩ := single_cases hquery
  exact h.setStorage_sameKeys hs
    (WorldSingle.forEach_sameKeys f candidates st (h.wf (storageAt_eq_some_iff.mp hs)))

theorem Inv.pair (h : w.Inv) {a b : C} {query : WorldPair (Val a) (Val b)}
    {done : WorldPair (Val a) (Val b) → World C Val} (hquery : w.pair a b = some (query, done))
    {σ : Type} (f : σ → Entity → Val a → Val b → σ × Val a × Val b) (candidates : List UInt32)
    (st : σ) : (done (query.forEach candidates f st).1).Inv := by
  obtain ⟨ia, ib, -, -, hne, hsa, hsb, rfl⟩ := pair_cases hquery
  obtain ⟨hsameA, hsameB⟩ := WorldPair.forEach_sameKeys f candidates st
    (h.wf (storageAt_eq_some_iff.mp hsa)) (h.wf (storageAt_eq_some_iff.mp hsb))
  refine (h.setStorage_sameKeys hsa hsameA).setStorage_sameKeys ?_ hsameB
  exact (storageAt_setStorage_ne hne _ b).trans hsb

end Components

/-! ## Every reachable world -/

section Runs

variable [DecidableEq C]

/-- One public operation that changes the world. -/
inductive Step : World C Val → World C Val → Prop
  | trySpawn (w : World C Val) (bits table : Bool) : Step w (w.trySpawn bits table).2
  | tryDespawn (w : World C Val) (room : Bool) (entity : Entity) :
      Step w (w.tryDespawn room entity).2
  | registerComponent (w : World C Val) (c : C) : Step w (w.registerComponent c).2
  | tryInsert (w : World C Val) (room : InsertRoom) (c : C) (entity : Entity) (value : Val c) :
      Step w (w.tryInsert room c entity value).2
  | tryInsertTyped (w : World C Val) (room : InsertRoom) (id : ComponentId) (c : C)
      (entity : Entity) (value : Val c) : Step w (w.tryInsertTyped room id c entity value).2
  | remove (w : World C Val) (c : C) (entity : Entity) : Step w (w.remove c entity).2
  | getMut {w : World C Val} {c : C} {entity : Entity} {value : Val c} {put : Val c → World C Val}
      (h : w.getMut c entity = some (value, put)) (written : Val c) : Step w (put written)
  | single {w : World C Val} {c : C} {query : WorldSingle (Val c)}
      {done : WorldSingle (Val c) → World C Val} (h : w.single c = some (query, done))
      {σ : Type} (f : σ → Entity → Val c → σ × Val c) (candidates : List UInt32) (st : σ) :
      Step w (done (query.forEach candidates f st).1)
  | pair {w : World C Val} {a b : C} {query : WorldPair (Val a) (Val b)}
      {done : WorldPair (Val a) (Val b) → World C Val} (h : w.pair a b = some (query, done))
      {σ : Type} (f : σ → Entity → Val a → Val b → σ × Val a × Val b) (candidates : List UInt32)
      (st : σ) : Step w (done (query.forEach candidates f st).1)

/-- The worlds some run of operations leads to. -/
abbrev Reachable (w : World C Val) : Prop :=
  Reaches (fun (w : World C Val) (_ : Unit) w' => Step w w') new w

/-- **One step keeps the invariant.** -/
theorem Inv.step {w w' : World C Val} (h : w.Inv) (hstep : Step w w') : w'.Inv := by
  cases hstep with
  | trySpawn bits table => exact h.trySpawn bits table
  | tryDespawn room entity => exact h.tryDespawn room entity
  | registerComponent c => exact h.registerComponent c
  | tryInsert room c entity value => exact h.tryInsert room c entity value
  | tryInsertTyped room id c entity value => exact h.tryInsertTyped room id c entity value
  | remove c entity => exact h.remove c entity
  | getMut hget written => exact h.getMut hget written
  | single hquery f candidates st => exact h.single hquery f candidates st
  | pair hquery f candidates st => exact h.pair hquery f candidates st

theorem Reachable.inv {w : World C Val} (hw : Reachable w) : w.Inv :=
  hw.invariant Inv Inv.new fun _ _ _ h hstep => h.step hstep

variable {w : World C Val}

theorem Inv.count_le (h : w.Inv) (c : C) : w.count c ≤ w.entityCount := by
  unfold count
  cases w.slotIndex c with
  | none => exact Nat.zero_le _
  | some i =>
    simp only
    cases hs : w.storageAt i c with
    | none => exact Nat.zero_le _
    | some s =>
      have hslot := storageAt_eq_some_iff.mp hs
      obtain ⟨owners, howned⟩ := h.wf hslot
      show s.dense.length ≤ w.entities.live
      rw [howned.dense]
      refine h.entities.length_le_live howned.inverse.nodup ?_
      intro j hj
      rw [howned.inverse.mem_iff, Option.isSome_map] at hj
      obtain ⟨p, hp⟩ := Option.isSome_iff_exists.mp hj
      obtain ⟨generation, value, -, -, hentry⟩ := howned.entry_of_posOf hp
      rw [h.live hslot j generation value hentry]
      simp

/-- **Components belong to live entities.** In every reachable world a storage answers only to
    handles of live entities; an entity just spawned has no component, one just despawned leaves
    none, and no component is on more entities than are alive. -/
theorem components_of_live (hw : Reachable w) :
    (∀ (i : Nat) (c : C) (s : ComponentStorage (Val c)), w.slots[i]? = some (some ⟨c, s⟩) →
        ∀ entity value, s.get entity = some value → w.IsAlive entity) ∧
      (∀ bits table entity (w' : World C Val), w.trySpawn bits table = (.ok entity, w') →
        ∀ (i : Nat) (c : C) (s : ComponentStorage (Val c)), w'.slots[i]? = some (some ⟨c, s⟩) →
          s.get entity = none) ∧
      (∀ room entity (w' : World C Val), w.tryDespawn room entity = (.ok true, w') →
        ∀ (i : Nat) (c : C) (s : ComponentStorage (Val c)), w'.slots[i]? = some (some ⟨c, s⟩) →
          s.entry entity.index = none) ∧
      ∀ c, w.count c ≤ w.entityCount := by
  have h := hw.inv
  refine ⟨fun i c s hs entity value hget => h.isAlive_of_get hs hget, ?_, ?_, h.count_le⟩
  · intro bits table entity w' hspawn i c s hs
    exact h.get_spawned hspawn hs
  · intro room entity w' hdespawn i c s hs
    exact h.entry_despawned hdespawn hs

/-- One entity with a number on it. -/
def oneCounter : World Unit fun _ => Nat :=
  ((new.trySpawn true true).2.tryInsert ⟨true, true, true, true⟩ () ⟨0, 0⟩ 7).2

/-- As many numbers as entities: the bound is reached. -/
theorem oneCounter_counted :
    oneCounter.count () = 1 ∧ oneCounter.count () ≤ oneCounter.entityCount :=
  ⟨rfl, (components_of_live (.tail (.single ⟨(), .trySpawn new true true⟩)
    ⟨(), .tryInsert _ ⟨true, true, true, true⟩ () ⟨0, 0⟩ 7⟩)).2.2.2 ()⟩

end Runs

end World

end Ecs
end EngineKit
