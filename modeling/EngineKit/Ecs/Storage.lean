import EngineKit.Ecs.Bitset
import EngineKit.Ecs.Entity

/-!
# Component storage

The values of one component type, packed in `dense`. `sparse` gives an entity index its position
there, `generations` the generation of the entity that inserted it, and `presence` is the set of
indices that have one.

Read as a map, a storage gives some indices a generation and a value (`ComponentStorage.entry`),
and the operations are characterised by that map: `tryInsert_ok`, `tryInsert_error`,
`remove_spec`, `getMut_spec`. They hold of the storages the operations build, in which positions
and owners are inverse to each other (`ComponentStorage.Wf`); there no index the code would panic
on is read, and no position outgrows the 32 bits it is kept in.

The owners of the packed values are not in the storage. A removal has to find the owner of the last
value, and searches `sparse` for it; that the search finds one, and no other, is what `Owned` is
for. It keeps them as a list beside the values, and positions and owners as two maps inverse to each
other. What the operations do to the list is what they do to the values: a value is pushed behind
the others, or the last one is moved into the gap.
-/

set_option autoImplicit false

namespace EngineKit
namespace Ecs

open Lib

inductive StorageError where
  | indexOverflow
  | allocationFailed
deriving DecidableEq

structure ComponentStorage (T : Type) where
  sparse : List (Option UInt32)
  generations : List UInt32
  dense : List T
  presence : Bitset

/-- Whether each of the four allocations of an insertion succeeds. -/
structure InsertRoom where
  sparse : Bool
  generations : Bool
  presence : Bool
  dense : Bool

namespace ComponentStorage

variable {T : Type}

def new : ComponentStorage T := ⟨[], [], [], Bitset.new 0⟩

/-- `self.sparse[idx]`. -/
def posOf (s : ComponentStorage T) (index : UInt32) : Option UInt32 := s.sparse[index.toNat]?.join

/-- The check `get`, `get_mut` and `remove` start with. -/
def Stale (s : ComponentStorage T) (entity : Entity) : Prop :=
  s.sparse.length ≤ entity.index.toNat ∨
    s.generations[entity.index.toNat]? ≠ some entity.generation

instance (s : ComponentStorage T) (entity : Entity) : Decidable (s.Stale entity) :=
  inferInstanceAs (Decidable (_ ∨ _))

def ensureIndex (room : InsertRoom) (s : ComponentStorage T) (entity : Entity) :
    Except StorageError (ComponentStorage T) :=
  match checkedAdd entity.index.toNat 1 with
  | none => .error .indexOverflow
  | some need =>
    if s.sparse.length < need then
      if room.sparse ∧ room.generations then
        .ok { s with sparse := resize s.sparse need none
                     generations := resize s.generations need 0 }
      else .error .allocationFailed
    else .ok s

/-- `self.generations[idx] = entity.generation`, over the reserved presence bits. -/
def stamped (s : ComponentStorage T) (presence : Bitset) (entity : Entity) : ComponentStorage T :=
  { s with presence, generations := s.generations.set entity.index.toNat entity.generation }

/-- The arm of `try_insert` for an index that has a position. -/
def written (s : ComponentStorage T) (index pos : UInt32) (value : T) : ComponentStorage T :=
  { s with dense := s.dense.set pos.toNat value
           presence := (s.presence.set index.toNat).1 }

/-- The arm of `try_insert` for an index that has none: the value goes behind the others. -/
def pushed (s : ComponentStorage T) (index : UInt32) (value : T) : ComponentStorage T :=
  { s with dense := s.dense ++ [value]
           sparse := s.sparse.set index.toNat (some (UInt32.ofNat s.dense.length))
           presence := (s.presence.set index.toNat).1 }

/-- The `match` on `self.sparse[idx]` that ends `try_insert`. -/
def place (room : InsertRoom) (s : ComponentStorage T) (index : UInt32) (value : T) :
    Except StorageError Unit × ComponentStorage T :=
  match s.posOf index with
  | some pos => (.ok (), s.written index pos value)
  | none =>
    if room.dense then (.ok (), s.pushed index value) else (.error .allocationFailed, s)

def tryInsert (room : InsertRoom) (s : ComponentStorage T) (entity : Entity) (value : T) :
    Except StorageError Unit × ComponentStorage T :=
  match s.ensureIndex room entity with
  | .error e => (.error e, s)
  | .ok s =>
    match s.presence.tryReserve room.presence entity.index.toNat with
    | .error .invalidIndex => (.error .indexOverflow, s)
    | .error .allocationFailed => (.error .allocationFailed, s)
    | .ok presence => (s.stamped presence entity).place room entity.index value

/-- `sparse` once the last value has moved to `pos`: its owner's pointer follows. -/
def repointed (s : ComponentStorage T) (pos : UInt32) : List (Option UInt32) :=
  if pos.toNat = s.dense.length - 1 then s.sparse
  else
    match s.sparse.findIdx? fun p => p == some (UInt32.ofNat (s.dense.length - 1)) with
    | some moved => s.sparse.set moved (some pos)
    | none => s.sparse

/-- The storage without the value at `pos`, which is `index`'s. -/
def removed (s : ComponentStorage T) (index pos : UInt32) : ComponentStorage T :=
  { s with dense := swapRemove s.dense pos.toNat
           sparse := (s.repointed pos).set index.toNat none
           presence := (s.presence.clear index.toNat).1 }

def remove (s : ComponentStorage T) (entity : Entity) : Option T × ComponentStorage T :=
  if s.Stale entity then (none, s)
  else
    match s.posOf entity.index with
    | none => (none, s)
    | some pos => (s.dense[pos.toNat]?, s.removed entity.index pos)

def get (s : ComponentStorage T) (entity : Entity) : Option T :=
  if s.Stale entity then none
  else (s.posOf entity.index).bind fun pos => s.dense[pos.toNat]?

/-- The value behind the reference, and the storage once another is written through it. -/
def getMut (s : ComponentStorage T) (entity : Entity) :
    Option (T × (T → ComponentStorage T)) :=
  if s.Stale entity then none
  else (s.posOf entity.index).bind fun pos =>
    (s.dense[pos.toNat]?).map fun value =>
      (value, fun written => { s with dense := s.dense.set pos.toNat written })

def contains (s : ComponentStorage T) (entity : Entity) : Bool :=
  !decide (s.Stale entity) && (s.posOf entity.index).isSome

def generationAt (s : ComponentStorage T) (index : UInt32) : Option UInt32 :=
  if index.toNat < s.sparse.length ∧ (s.posOf index).isSome then s.generations[index.toNat]?
  else none

def len (s : ComponentStorage T) : Nat := s.dense.length

/-! ## The storage as a map -/

/-- The generation and the value an index has. -/
def entry (s : ComponentStorage T) (index : UInt32) : Option (UInt32 × T) :=
  (s.posOf index).bind fun pos =>
    (s.dense[pos.toNat]?).bind fun value =>
      (s.generations[index.toNat]?).map fun generation => (generation, value)

/-- `owners` are the indices of the packed values, in their order. -/
structure Owned (s : ComponentStorage T) (owners : List UInt32) : Prop where
  generations : s.generations.length = s.sparse.length
  dense : s.dense.length = owners.length
  inverse : Inverse (fun i => (s.posOf i).map UInt32.toNat) owners
  presence (i : UInt32) : s.presence.test i.toNat = (s.posOf i).isSome

def Wf (s : ComponentStorage T) : Prop := ∃ owners, s.Owned owners

/-- An empty storage has no owners. -/
theorem Wf.new : (new : ComponentStorage T).Wf :=
  ⟨[], rfl, rfl, Inverse.empty, fun i => Bitset.test_new 0 i.toNat⟩

section Owned

variable {s : ComponentStorage T} {owners : List UInt32}

/-- A position is read off the table, so the index is in it. -/
theorem lt_of_posOf {i p : UInt32} (h : s.posOf i = some p) : i.toNat < s.sparse.length := by
  by_contra hout
  rw [posOf, List.getElem?_eq_none (Nat.not_lt.mp hout)] at h
  exact absurd h (by simp)

/-- A position is one of a value. -/
theorem Owned.lt_dense (h : s.Owned owners) {i p : UInt32} (hp : s.posOf i = some p) :
    p.toNat < s.dense.length := by
  rw [h.dense]
  exact h.inverse.lt (i := i) (by rw [hp]; rfl)

/-- No two indices have one position. -/
theorem Owned.eq_of_posOf (h : s.Owned owners) {i j p : UInt32} (hi : s.posOf i = some p)
    (hj : s.posOf j = some p) : i = j :=
  h.inverse.eq_of_pos (k := p.toNat) (by rw [hi]; rfl) (by rw [hj]; rfl)

/-- What an index with a position has. -/
theorem Owned.entry_of_posOf (h : s.Owned owners) {i p : UInt32} (hp : s.posOf i = some p) :
    ∃ generation value, s.generations[i.toNat]? = some generation ∧
      s.dense[p.toNat]? = some value ∧ s.entry i = some (generation, value) := by
  have hi : i.toNat < s.generations.length := by rw [h.generations]; exact lt_of_posOf hp
  refine ⟨_, _, List.getElem?_eq_getElem hi, List.getElem?_eq_getElem (h.lt_dense hp), ?_⟩
  simp [entry, hp, List.getElem?_eq_getElem hi, List.getElem?_eq_getElem (h.lt_dense hp)]

/-- Without a position there is no entry. -/
theorem entry_of_posOf_none {i : UInt32} (hp : s.posOf i = none) : s.entry i = none := by
  rw [entry, hp]
  rfl

/-- `get` is the map, at the generation of the handle. -/
theorem Owned.get_eq_some_iff (h : s.Owned owners) {entity : Entity} {value : T} :
    s.get entity = some value ↔ s.entry entity.index = some (entity.generation, value) := by
  cases hp : s.posOf entity.index with
  | none => simp [get, hp, entry_of_posOf_none hp]
  | some p =>
    obtain ⟨generation, value', hgen, hval, hentry⟩ := h.entry_of_posOf hp
    have hin : ¬ s.sparse.length ≤ entity.index.toNat := Nat.not_le.mpr (lt_of_posOf hp)
    rw [hentry]
    by_cases heq : generation = entity.generation
    · simp [get, Stale, hin, hgen, heq, hp, hval]
    · simp [get, Stale, hgen, heq]

/-- `contains` is the map too. -/
theorem Owned.contains_iff (h : s.Owned owners) {entity : Entity} :
    s.contains entity = true ↔ ∃ value, s.entry entity.index = some (entity.generation, value) := by
  cases hp : s.posOf entity.index with
  | none => simp [contains, hp, entry_of_posOf_none hp]
  | some p =>
    obtain ⟨generation, value', hgen, hval, hentry⟩ := h.entry_of_posOf hp
    have hin : ¬ s.sparse.length ≤ entity.index.toNat := Nat.not_le.mpr (lt_of_posOf hp)
    rw [hentry]
    by_cases heq : generation = entity.generation
    · simp [contains, Stale, hin, hgen, heq, hp]
    · simp [contains, Stale, hgen, heq]

/-- `generation_at` is the map too. -/
theorem Owned.generationAt_eq (h : s.Owned owners) (i : UInt32) :
    s.generationAt i = (s.entry i).map Prod.fst := by
  cases hp : s.posOf i with
  | none => simp [generationAt, hp, entry_of_posOf_none hp]
  | some p =>
    obtain ⟨generation, value', hgen, hval, hentry⟩ := h.entry_of_posOf hp
    simp [generationAt, hp, lt_of_posOf hp, hentry, hgen]

end Owned

/-! ## What an insertion does, step by step

An insertion may fail after it has grown some tables, and after it has stamped the generation of the
index. Neither is seen in the map: a larger table has no more positions, and an index without a
value has no entry, whatever its generation.
-/

section Steps

variable {s s' : ComponentStorage T} {owners : List UInt32}

/-- The map depends on an index's position, the value there and the index's generation. -/
theorem entry_congr {i j : UInt32} (hp : s'.posOf i = s.posOf j)
    (hd : ∀ p, s.posOf j = some p → s'.dense[p.toNat]? = s.dense[p.toNat]?)
    (hg : ∀ p, s.posOf j = some p → s'.generations[i.toNat]? = s.generations[j.toNat]?) :
    s'.entry i = s.entry j := by
  rw [entry, entry, hp]
  cases hj : s.posOf j with
  | none => rfl
  | some p => rw [Option.bind_some, Option.bind_some, hd p hj, hg p hj]

theorem join_resize {xs : List (Option UInt32)} {n : Nat} (h : xs.length ≤ n) (k : Nat) :
    (resize xs n none)[k]?.join = xs[k]?.join := by
  rw [getElem?_resize_of_le h]
  split
  · cases xs[k]? with
    | none => rfl
    | some o => rfl
  · rw [List.getElem?_eq_none (by omega)]

/-- **Growing** changes nothing of the map. -/
theorem Owned.ensureIndex_spec (h : s.Owned owners) {room : InsertRoom} {entity : Entity}
    (hok : s.ensureIndex room entity = .ok s') :
    s'.Owned owners ∧ entity.index.toNat < s'.sparse.length ∧ ∀ i, s'.entry i = s.entry i := by
  unfold ensureIndex at hok
  -- The index may be too large, and each of the tables may have to grow; growing adds no position.
  cases hneed : checkedAdd entity.index.toNat 1 with
  | none => rw [hneed] at hok; exact absurd hok (by simp)
  | some need =>
    have hsucc := eq_of_checkedAdd hneed
    simp only [hneed] at hok
    by_cases hlt : s.sparse.length < need
    · rw [if_pos hlt] at hok
      split at hok
      · have hpos (i : UInt32) : s'.posOf i = s.posOf i := by
          rw [← Except.ok.inj hok]
          exact join_resize hlt.le i.toNat
        obtain rfl := Except.ok.inj hok
        refine ⟨⟨?_, h.dense, by simpa only [hpos] using h.inverse, fun i => ?_⟩, ?_, fun i => ?_⟩
        · show (resize _ _ _).length = (resize _ _ _).length
          rw [length_resize, length_resize]
        · rw [hpos i]
          exact h.presence i
        · show _ < (resize _ _ _).length
          rw [length_resize]
          omega
        · refine entry_congr (hpos i) (fun _ _ => rfl) ?_
          intro p hp
          have hi := lt_of_posOf hp
          have hgen := List.getElem?_eq_getElem (h.generations ▸ hi)
          show (resize _ _ _)[_]? = _
          rw [getElem?_resize_of_le (h.generations ▸ hlt.le), if_pos (hi.trans hlt), hgen]
          rfl
      · exact absurd hok (by simp)
    · rw [if_neg hlt] at hok
      obtain rfl := Except.ok.inj hok
      exact ⟨h, by omega, fun _ => rfl⟩

/-- Stamping a generation on an index leaves the others as they are. -/
theorem Owned.stamped (h : s.Owned owners) {presence : Bitset} (entity : Entity)
    (hpresence : ∀ i, presence.test i = s.presence.test i) :
    (s.stamped presence entity).Owned owners ∧
      ∀ i, i ≠ entity.index → (s.stamped presence entity).entry i = s.entry i := by
  refine ⟨⟨?_, h.dense, h.inverse, fun i => (hpresence _).trans (h.presence i)⟩, ?_⟩
  · exact (List.length_set ..).trans h.generations
  · intro i hi
    have hne : entity.index.toNat ≠ i.toNat := fun heq => hi (UInt32.toNat_inj.mp heq).symm
    exact entry_congr rfl (fun _ _ => rfl) fun _ _ => List.getElem?_set_ne hne

/-- Writing the value of an index that has one. -/
theorem Owned.entry_write (h : s.Owned owners) {index p generation : UInt32}
    (hp : s.posOf index = some p) (hgen : s.generations[index.toNat]? = some generation)
    (value : T) (i : UInt32) :
    entry { s with dense := s.dense.set p.toNat value } i
      = if i = index then some (generation, value) else s.entry i := by
  by_cases hi : i = index
  · subst hi
    have hset := List.getElem?_set_self (h.lt_dense hp) (a := value)
    have hpos : posOf { s with dense := s.dense.set p.toNat value } i = some p := hp
    simp [entry, hpos, hgen, hset]
  · rw [if_neg hi]
    refine entry_congr rfl (?_) fun _ _ => rfl
    intro q hq
    have hne : p.toNat ≠ q.toNat := fun heq =>
      hi (h.eq_of_posOf hq (UInt32.toNat_inj.mp heq ▸ hp))
    exact List.getElem?_set_ne hne

theorem Owned.write (h : s.Owned owners) (p : UInt32) (value : T) :
    Owned { s with dense := s.dense.set p.toNat value } owners :=
  ⟨h.generations, (List.length_set ..).trans h.dense, h.inverse, h.presence⟩

theorem join_set {sparse : List (Option UInt32)} {index : UInt32}
    (h : index.toNat < sparse.length) (o : Option UInt32) (i : UInt32) :
    (sparse.set index.toNat o)[i.toNat]?.join
      = if i = index then o else sparse[i.toNat]?.join := by
  by_cases hi : i = index
  · rw [if_pos hi, hi, List.getElem?_set_self h]
    rfl
  · have hne : index.toNat ≠ i.toNat := fun heq => hi (UInt32.toNat_inj.mp heq).symm
    rw [if_neg hi, List.getElem?_set_ne hne]

/-- An index without a value leaves a position free below `2 ^ 32`. -/
theorem Owned.length_lt (h : s.Owned owners) {index : UInt32} (hp : s.posOf index = none) :
    s.dense.length < 2 ^ 32 := by
  have hnot : index ∉ owners := by
    rw [h.inverse.mem_iff, hp]
    simp
  have hnd : (index :: owners).Nodup := List.nodup_cons.mpr ⟨hnot, h.inverse.nodup⟩
  have hcount := length_le_of_nodup (n := 2 ^ 32) (hnd.map fun _ _ heq => UInt32.toNat_inj.mp heq)
    (fun n hn => by
      obtain ⟨i, -, rfl⟩ := List.mem_map.mp hn
      exact i.toNat_lt)
  rw [List.length_map, List.length_cons] at hcount
  rw [h.dense]
  omega

/-- A value behind the others has its index behind their owners. -/
theorem Owned.pushed (h : s.Owned owners) {index : UInt32} (hin : index.toNat < s.sparse.length)
    (hp : s.posOf index = none) (value : T) :
    (s.pushed index value).Owned (owners ++ [index]) := by
  have hlast : (UInt32.ofNat s.dense.length).toNat = s.dense.length :=
    UInt32.toNat_ofNat_of_lt' (h.length_lt hp)
  have hpos : (fun i => ((s.pushed index value).posOf i).map UInt32.toNat)
      = Function.update (fun i => (s.posOf i).map UInt32.toNat) index (some owners.length) := by
    funext i
    rw [posOf, ComponentStorage.pushed, join_set hin, Function.update_apply]
    -- The index that is pushed has the last place, and the others have theirs.
    split
    · rw [Option.map_some, hlast, h.dense]
    · rfl
  refine ⟨?_, ?_, ?_, ?_⟩
  · exact h.generations.trans (List.length_set ..).symm
  · show (s.dense ++ [value]).length = (owners ++ [index]).length
    rw [List.length_append, List.length_append, h.dense]
    rfl
  · rw [hpos]
    exact h.inverse.push (Option.map_eq_none_iff.mpr hp)
  · intro i
    rw [posOf, ComponentStorage.pushed, join_set hin, Bitset.test_set _ (by
      have := index.toNat_lt; omega), h.presence]
    by_cases hi : i = index
    · simp [hi]
    · have hne : ¬ i.toNat = index.toNat := fun heq => hi (UInt32.toNat_inj.mp heq)
      simp [hi, hne, posOf]

/-- It is the entry of its index, and no other entry changes. -/
theorem Owned.entry_pushed (h : s.Owned owners) {index generation : UInt32}
    (hin : index.toNat < s.sparse.length) (hp : s.posOf index = none)
    (hgen : s.generations[index.toNat]? = some generation) (value : T) (i : UInt32) :
    (s.pushed index value).entry i
      = if i = index then some (generation, value) else s.entry i := by
  have hlast : (UInt32.ofNat s.dense.length).toNat = s.dense.length :=
    UInt32.toNat_ofNat_of_lt' (h.length_lt hp)
  have hpos := join_set hin (some (UInt32.ofNat s.dense.length)) i
  by_cases hi : i = index
  · rw [if_pos hi] at hpos ⊢
    subst hi
    have hposOf : (s.pushed i value).posOf i = some (UInt32.ofNat s.dense.length) := hpos
    have hval : (s.pushed i value).dense[(UInt32.ofNat s.dense.length).toNat]? = some value := by
      rw [hlast]
      exact List.getElem?_concat_length
    have hgen' : (s.pushed i value).generations[i.toNat]? = some generation := hgen
    rw [entry, hposOf, Option.bind_some, hval, Option.bind_some, hgen', Option.map_some]
  · rw [if_neg hi] at hpos ⊢
    refine entry_congr hpos (?_) fun _ _ => rfl
    intro p hp'
    exact List.getElem?_append_left (h.lt_dense hp')

/-- What is placed is the map's value of the index, and a failure leaves it without one. -/
theorem Owned.place_spec (h : s.Owned owners) {index generation : UInt32}
    (hin : index.toNat < s.sparse.length) (hgen : s.generations[index.toNat]? = some generation)
    (room : InsertRoom) (value : T) :
    (s.place room index value).2.Wf ∧
      ((s.place room index value).1 = .ok () → ∀ i, (s.place room index value).2.entry i
        = if i = index then some (generation, value) else s.entry i) ∧
      ((s.place room index value).1 ≠ .ok () →
        (s.place room index value).2 = s ∧ s.posOf index = none) := by
  -- The index has a value, which is overwritten; or it has none, and gets one if there is memory.
  cases hp : s.posOf index with
  | some p =>
    have hplace : s.place room index value = (.ok (), s.written index p value) := by
      simp only [place, hp]
    rw [hplace]
    refine ⟨⟨owners, ?_⟩, fun _ => h.entry_write hp hgen value, fun hne => absurd rfl hne⟩
    have hwrite := h.write p value
    refine ⟨hwrite.generations, hwrite.dense, hwrite.inverse, ?_⟩
    intro i
    show (s.presence.set index.toNat).1.test i.toNat = (s.posOf i).isSome
    rw [Bitset.test_set _ (index.toNat_lt.trans (by decide)), h.presence]
    by_cases hi : i = index
    · simp [hi, hp]
    · have hne : ¬ i.toNat = index.toNat := fun heq => hi (UInt32.toNat_inj.mp heq)
      simp [hne]
  | none =>
    cases hroom : room.dense with
    | true =>
      have hplace : s.place room index value = (.ok (), s.pushed index value) := by
        simp only [place, hp, hroom, if_true]
      rw [hplace]
      exact ⟨⟨_, h.pushed hin hp value⟩, fun _ => h.entry_pushed hin hp hgen value,
        fun hne => absurd rfl hne⟩
    | false =>
      have hplace : s.place room index value = (.error .allocationFailed, s) := by
        simp [place, hp, hroom]
      rw [hplace]
      exact ⟨⟨owners, h⟩, fun hok => absurd hok (by simp), fun _ => ⟨rfl, rfl⟩⟩

/-- The owner of the last position is the one index a removal repoints. -/
theorem Owned.join_repointed (h : s.Owned owners) {index p : UInt32}
    (hp : s.posOf index = some p) (i : UInt32) :
    (s.repointed p)[i.toNat]?.join
      = if (s.posOf i).map UInt32.toNat = some (s.dense.length - 1) then some p
        else s.posOf i := by
  have hlt := h.lt_dense hp
  unfold repointed
  by_cases hlast : p.toNat = s.dense.length - 1
  · -- nothing moved: the owner of the last position is `index` itself
    rw [if_pos hlast, ← hlast]
    split
    · next hi =>
      obtain ⟨q, hq, heq⟩ := Option.map_eq_some_iff.mp hi
      rw [← UInt32.toNat_inj.mp heq, ← hq]
      rfl
    · rfl
  · rw [if_neg hlast]
    obtain ⟨j, hj⟩ : ∃ j, owners[s.dense.length - 1]? = some j :=
      ⟨_, List.getElem?_eq_getElem (by rw [← h.dense]; omega)⟩
    have hjlast := (h.inverse.iff j _).mpr hj
    obtain ⟨q, hq, hqlast⟩ := Option.map_eq_some_iff.mp hjlast
    have hofNat : UInt32.ofNat (s.dense.length - 1) = q := by rw [← hqlast, UInt32.ofNat_toNat]
    have hfind : s.sparse.findIdx? (fun p => p == some (UInt32.ofNat (s.dense.length - 1)))
        = some j.toNat := by
      have hjq : s.sparse[j.toNat]? = some (some q) := Option.join_eq_some_iff.mp hq
      obtain ⟨hjlt, hjget⟩ := List.getElem?_eq_some_iff.mp hjq
      rw [List.findIdx?_eq_some_iff_getElem, hofNat]
      refine ⟨hjlt, by simp [hjget], ?_⟩
      intro m hm hmq
      -- an earlier match would be a second owner of the last position
      have hmlt : m < s.sparse.length := hm.trans hjlt
      have hmget : s.sparse[m] = some q := by simpa using hmq
      have hmj : (UInt32.ofNat m).toNat = m := UInt32.toNat_ofNat_of_lt' (hm.trans j.toNat_lt)
      have hmpos : s.posOf (UInt32.ofNat m) = some q := by
        rw [posOf, hmj, List.getElem?_eq_getElem (hm.trans hjlt), hmget]
        rfl
      rw [← h.eq_of_posOf hmpos hq, hmj] at hm
      exact absurd hm (Nat.lt_irrefl _)
    simp only [hfind]
    rw [join_set (lt_of_posOf hq)]
    by_cases hi : i = j
    · rw [if_pos hi, hi, if_pos hjlast]
    · have hne : (s.posOf i).map UInt32.toNat ≠ some (s.dense.length - 1) := fun hilast =>
        hi (h.inverse.eq_of_pos hilast hjlast)
      rw [if_neg hi, if_neg hne]
      rfl

theorem length_repointed (s : ComponentStorage T) (p : UInt32) :
    (s.repointed p).length = s.sparse.length := by
  unfold repointed
  split
  · rfl
  · split
    · exact List.length_set ..
    · rfl

theorem Owned.posOf_removed (h : s.Owned owners) {index p : UInt32}
    (hp : s.posOf index = some p) (i : UInt32) :
    (s.removed index p).posOf i
      = if i = index then none
        else if (s.posOf i).map UInt32.toNat = some (s.dense.length - 1) then some p
        else s.posOf i := by
  rw [← h.join_repointed hp, ← join_set (by rw [length_repointed]; exact lt_of_posOf hp)]
  rfl

/-- A removal moves the last owner with its value. -/
theorem Owned.removed (h : s.Owned owners) {index p : UInt32} (hp : s.posOf index = some p) :
    (s.removed index p).Owned (swapRemove owners p.toNat) := by
  have hpos : (fun i => ((s.removed index p).posOf i).map UInt32.toNat)
      = fun i => if i = index then none
        else if (s.posOf i).map UInt32.toNat = some (owners.length - 1) then some p.toNat
        else (s.posOf i).map UInt32.toNat := by
    funext i
    rw [h.posOf_removed hp, h.dense]
    split
    · rfl
    · split <;> rfl
  have hlt := h.lt_dense hp
  refine ⟨?_, ?_, ?_, ?_⟩
  · show s.generations.length = ((s.repointed p).set _ _).length
    rw [List.length_set, length_repointed, h.generations]
  · show (swapRemove s.dense p.toNat).length = _
    rw [length_swapRemove hlt, length_swapRemove (h.dense ▸ hlt), h.dense]
  · rw [hpos]
    exact h.inverse.swapRemove (by rw [hp]; rfl)
  · intro i
    show (s.presence.clear index.toNat).1.test i.toNat = _
    rw [Bitset.test_clear, h.presence, h.posOf_removed hp]
    by_cases hi : i = index
    · simp [hi]
    · have hne : ¬ i.toNat = index.toNat := fun heq => hi (UInt32.toNat_inj.mp heq)
      rw [if_neg hi]
      split
      · next hlast =>
        obtain ⟨q, hq, -⟩ := Option.map_eq_some_iff.mp hlast
        simp [hne, hq]
      · simp [hne]

/-- It takes the entry of its index, and no other entry changes. -/
theorem Owned.entry_removed (h : s.Owned owners) {index p : UInt32}
    (hp : s.posOf index = some p) (i : UInt32) :
    (s.removed index p).entry i = if i = index then none else s.entry i := by
  have hpos := h.posOf_removed hp i
  have hlt := h.lt_dense hp
  -- The index itself has nothing any more; another one has what it had, at the place it had or in
  -- the gap.
  by_cases hi : i = index
  · rw [if_pos hi] at hpos ⊢
    exact entry_of_posOf_none hpos
  · rw [if_neg hi] at hpos ⊢
    cases hq : s.posOf i with
    | none =>
      rw [hq, Option.map_none, if_neg (by simp)] at hpos
      rw [entry_of_posOf_none hpos, entry_of_posOf_none hq]
    | some q =>
      have hqlt := h.lt_dense hq
      have hne : q.toNat ≠ p.toNat := fun heq =>
        hi (h.eq_of_posOf (UInt32.toNat_inj.mp heq ▸ hq) hp)
      have hdense (r : UInt32) : (s.removed index p).dense[r.toNat]?
          = if r.toNat < s.dense.length - 1
            then (if r.toNat = p.toNat then s.dense[s.dense.length - 1]? else s.dense[r.toNat]?)
            else none := getElem?_swapRemove hlt r.toNat
      simp only [hq, Option.map_some, Option.some.injEq] at hpos
      by_cases hlast : q.toNat = s.dense.length - 1
      · -- `i`'s value was the last one and has moved to `p`
        rw [if_pos hlast] at hpos
        rw [entry, entry, hpos, hq, Option.bind_some, Option.bind_some, hdense,
          if_pos (by omega), if_pos rfl, hlast]
        rfl
      · rw [if_neg hlast] at hpos
        rw [entry, entry, hpos, hq, Option.bind_some, Option.bind_some, hdense,
          if_pos (by omega), if_neg hne]
        rfl

end Steps

/-! ## The operations on the map -/

section Operations

variable {s s' : ComponentStorage T}

/-- **An insertion** gives its index the handle's generation and the value, and changes nothing
    else; one that fails changes nothing. -/
theorem tryInsert_spec (h : s.Wf) (room : InsertRoom) (entity : Entity) (value : T) :
    (s.tryInsert room entity value).2.Wf ∧
      ((s.tryInsert room entity value).1 = .ok () → ∀ i,
        (s.tryInsert room entity value).2.entry i
          = if i = entity.index then some (entity.generation, value) else s.entry i) ∧
      ((s.tryInsert room entity value).1 ≠ .ok () → ∀ i,
        (s.tryInsert room entity value).2.entry i = s.entry i) := by
  obtain ⟨owners, h⟩ := h
  -- Growing comes first, then the presence bit, then the stamp; what fails has written no value.
  cases hensure : s.ensureIndex room entity with
  | error e =>
    have hrun : s.tryInsert room entity value = (.error e, s) := by simp only [tryInsert, hensure]
    rw [hrun]
    exact ⟨⟨owners, h⟩, fun hok => absurd hok (by simp), fun _ _ => rfl⟩
  | ok s₁ =>
    obtain ⟨h₁, hin, hentry⟩ := h.ensureIndex_spec hensure
    cases hreserve : s₁.presence.tryReserve room.presence entity.index.toNat with
    | error e =>
      obtain ⟨e', hrun⟩ : ∃ e', s.tryInsert room entity value = (.error e', s₁) := by
        cases e with
        | allocationFailed => exact ⟨.allocationFailed, by simp only [tryInsert, hensure, hreserve]⟩
        | invalidIndex => exact ⟨.indexOverflow, by simp only [tryInsert, hensure, hreserve]⟩
      rw [hrun]
      exact ⟨⟨owners, h₁⟩, fun hok => absurd hok (by simp), fun _ => hentry⟩
    | ok presence =>
      obtain ⟨h₂, hstamp⟩ := h₁.stamped entity (Bitset.test_tryReserve hreserve)
      have hgen : (s₁.stamped presence entity).generations[entity.index.toNat]?
          = some entity.generation := List.getElem?_set_self (h₁.generations ▸ hin)
      obtain ⟨hwf, hok, herror⟩ := h₂.place_spec hin hgen room value
      simp only [tryInsert, hensure, hreserve]
      refine ⟨hwf, ?_, ?_⟩
      · intro hdone i
        rw [hok hdone i]
        split
        · rfl
        · next hi => exact (hstamp i hi).trans (hentry i)
      · intro hfail i
        obtain ⟨hsame, hp⟩ := herror hfail
        rw [hsame]
        by_cases hi : i = entity.index
        · -- the stamp is all a failed push leaves, on an index without a value
          have hp' : s₁.posOf entity.index = none := hp
          rw [hi, entry_of_posOf_none hp, ← hentry, entry_of_posOf_none hp']
        · exact (hstamp i hi).trans (hentry i)

/-- **A write through `get_mut`** changes the one value it borrows. -/
theorem getMut_spec (h : s.Wf) {entity : Entity} {value : T} {put : T → ComponentStorage T}
    (hget : s.getMut entity = some (value, put)) :
    s.entry entity.index = some (entity.generation, value) ∧
      ∀ written, (put written).Wf ∧ ∀ i, (put written).entry i
        = if i = entity.index then some (entity.generation, written) else s.entry i := by
  obtain ⟨owners, h⟩ := h
  unfold getMut at hget
  by_cases hstale : s.Stale entity
  · rw [if_pos hstale] at hget
    exact absurd hget (by simp)
  · rw [if_neg hstale] at hget
    obtain ⟨p, hp, hput⟩ := Option.bind_eq_some_iff.mp hget
    obtain ⟨found, hfound, heq⟩ := Option.map_eq_some_iff.mp hput
    obtain ⟨rfl, rfl⟩ := Prod.mk.inj heq
    have hgen : s.generations[entity.index.toNat]? = some entity.generation := by
      by_contra hne
      exact hstale (.inr hne)
    have hentry := h.entry_of_posOf hp
    refine ⟨by simp [entry, hp, hfound, hgen], fun written => ⟨⟨owners, h.write p written⟩, ?_⟩⟩
    exact h.entry_write hp hgen written

/-- There is something to write where there is something to read. -/
theorem getMut_isSome (s : ComponentStorage T) (entity : Entity) :
    (s.getMut entity).isSome = (s.get entity).isSome := by
  unfold getMut get
  split
  · rfl
  · cases s.posOf entity.index with
    | none => rfl
    | some p => rw [Option.bind_some, Option.bind_some, Option.isSome_map]

/-- **A removal** takes the value of a current handle, its index's entry and no other. -/
theorem remove_spec (h : s.Wf) (entity : Entity) :
    (s.remove entity).1 = s.get entity ∧ (s.remove entity).2.Wf ∧
      ∀ i, (s.remove entity).2.entry i
        = if i = entity.index ∧ (s.get entity).isSome then none else s.entry i := by
  obtain ⟨owners, h⟩ := h
  -- A stale handle takes nothing; one that is not may still find no value at its index.
  by_cases hstale : s.Stale entity
  · have hrun : s.remove entity = (none, s) := by simp only [remove, if_pos hstale]
    have hget : s.get entity = none := by simp only [get, if_pos hstale]
    rw [hrun, hget]
    exact ⟨rfl, ⟨owners, h⟩, fun i => by simp⟩
  · cases hp : s.posOf entity.index with
    | none =>
      have hrun : s.remove entity = (none, s) := by simp only [remove, if_neg hstale, hp]
      have hget : s.get entity = none := by simp [get, hp]
      rw [hrun, hget]
      exact ⟨rfl, ⟨owners, h⟩, fun i => by simp⟩
    | some p =>
      have hrun : s.remove entity = (s.dense[p.toNat]?, s.removed entity.index p) := by
        simp only [remove, if_neg hstale, hp]
      have hget : s.get entity = s.dense[p.toNat]? := by
        simp only [get, if_neg hstale, hp, Option.bind_some]
      obtain ⟨_, value, -, hval, -⟩ := h.entry_of_posOf hp
      rw [hrun, hget, hval]
      refine ⟨rfl, ⟨_, h.removed hp⟩, ?_⟩
      intro i
      simpa using h.entry_removed hp i

end Operations

end ComponentStorage

end Ecs
end EngineKit
