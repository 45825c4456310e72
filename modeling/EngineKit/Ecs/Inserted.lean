import EngineKit.Ecs.EntryMap
import EngineKit.Ecs.Query

/-!
# What an insertion reports

A caller learns from the answer of an insertion whether the value is on the entity now:
`Truthful` says that `Ok` means it is, that nothing else moved, and that an error means nothing
moved at all.

`try_insert` registers the type on first use and tells the truth. `try_insert_typed` finds the
slot by the type as well, and falls through when there is none: it answers `Ok` and drops the
value. So it tells the truth exactly of the types registered in this world, whatever the id
(`insertions_truthful_iff`).
-/

set_option autoImplicit false

namespace EngineKit
namespace Ecs

open Lib

namespace ComponentStorage

variable {T : Type} {s : ComponentStorage T} {table : Entities}

/-- An insertion for a live entity is seen by its handle and by no other. -/
theorem get_tryInsert (h : s.Wf) (hlive : s.LiveIn table) {entity : Entity}
    (halive : table.IsAlive entity) {room : InsertRoom} {value : T}
    (hok : (s.tryInsert room entity value).1 = .ok ()) (other : Entity) :
    (s.tryInsert room entity value).2.get other
      = if other = entity then some value else s.get other := by
  obtain ⟨hwf, hentry, -⟩ := tryInsert_spec h room entity value
  obtain ⟨owners, howned⟩ := h
  obtain ⟨owners', howned'⟩ := hwf
  refine Option.ext ?_
  intro found
  rw [howned'.get_eq_some_iff, hentry hok]
  by_cases hi : other.index = entity.index
  · rw [if_pos hi, Option.some.injEq, Prod.mk.injEq]
    by_cases hother : other = entity
    · rw [if_pos hother, hother, Option.some.injEq]
      exact and_iff_right rfl
    · -- a handle of another generation of this slot had nothing before, the entity being alive
      have hgen : entity.generation ≠ other.generation := by
        intro hgen
        apply hother
        cases other
        cases entity
        simp only at hi hgen
        rw [hi, hgen]
      rw [if_neg hother, howned.get_eq_some_iff]
      refine iff_of_false (fun hand => hgen hand.1) ?_
      intro hold
      have hcurrent := hlive _ _ _ hold
      rw [hi, (table.isAlive_iff entity).mp halive] at hcurrent
      exact hgen (Option.some.inj hcurrent)
  · have hother : other ≠ entity := fun heq => hi (heq ▸ rfl)
    rw [if_neg hi, if_neg hother, howned.get_eq_some_iff]

/-- One that fails is not seen. -/
theorem get_tryInsert_error (h : s.Wf) {entity : Entity} {room : InsertRoom} {value : T}
    (herror : (s.tryInsert room entity value).1 ≠ .ok ()) (other : Entity) :
    (s.tryInsert room entity value).2.get other = s.get other := by
  obtain ⟨hwf, -, hentry⟩ := tryInsert_spec h room entity value
  obtain ⟨owners, howned⟩ := h
  obtain ⟨owners', howned'⟩ := hwf
  refine Option.ext ?_
  intro found
  rw [howned'.get_eq_some_iff, hentry herror, howned.get_eq_some_iff]

end ComponentStorage

open ComponentStorage

namespace World

variable {C : Type} [DecidableEq C] {Val : C → Type} {w : World C Val}

/-- What the answer of an insertion of `value` as `entity`'s component `c` has to say of the
    components after it. -/
def Truthful (w : World C Val) (c : C) (entity : Entity) (value : Val c)
    (done : Except WorldError Unit × World C Val) : Prop :=
  (done.1 = .ok () → done.2.get c entity = some value ∧
    ∀ d other, d ≠ c ∨ other ≠ entity → done.2.get d other = w.get d other) ∧
  (done.1 ≠ .ok () → ∀ d other, done.2.get d other = w.get d other)

/-! ## Reading a component -/

theorem get_eq (w : World C Val) (c : C) (entity : Entity) :
    w.get c entity
      = (w.slotIndex c).bind fun i => (w.storageAt i c).bind fun s => s.get entity := rfl

theorem get_of_storageAt {c : C} {i : Nat} {s : ComponentStorage (Val c)}
    (hi : w.slotIndex c = some i) (hs : w.storageAt i c = some s) (entity : Entity) :
    w.get c entity = s.get entity := by
  rw [get_eq, hi, Option.bind_some, hs, Option.bind_some]

theorem get_of_unregistered {c : C} (hc : w.slotIndex c = none) (entity : Entity) :
    w.get c entity = none := by
  rw [get_eq, hc, Option.bind_none]

theorem get_setStorage_self {c : C} {i : Nat} {s₀ : ComponentStorage (Val c)}
    (hi : w.slotIndex c = some i) (hs : w.storageAt i c = some s₀) (s : ComponentStorage (Val c))
    (entity : Entity) : (w.setStorage i c s).get c entity = s.get entity :=
  get_of_storageAt (w := w.setStorage i c s) hi (storageAt_setStorage_self hs s) entity

theorem Inv.get_setStorage_ne (h : w.Inv) {c d : C} (hd : d ≠ c) {i : Nat}
    (hi : w.slotIndex c = some i) (s : ComponentStorage (Val c)) (entity : Entity) :
    (w.setStorage i c s).get d entity = w.get d entity := by
  rw [get_eq, get_eq]
  show (w.slotIndex d).bind _ = _
  cases hj : w.slotIndex d with
  | none => rfl
  | some j =>
    rw [Option.bind_some, Option.bind_some, storageAt_setStorage_ne (h.slot_ne hd hj hi).symm]

/-- Registering a type changes no component. -/
theorem Inv.get_registerComponent (h : w.Inv) (c d : C) (entity : Entity) :
    (w.registerComponent c).2.get d entity = w.get d entity := by
  unfold World.registerComponent
  cases hc : w.byType c with
  | some i => rfl
  | none =>
    rw [get_eq]
    show (Function.update w.byType c (some w.slots.length) d).bind _ = _
    by_cases hd : d = c
    · subst hd
      rw [Function.update_self, get_of_unregistered hc]
      have hnew : storageAt { w with
            slots := w.slots ++ [some ⟨d, (ComponentStorage.new : ComponentStorage (Val d))⟩]
            byType := Function.update w.byType d (some w.slots.length) } w.slots.length d
          = some ComponentStorage.new :=
        storageAt_eq_some_iff.mpr List.getElem?_concat_length
      rw [Option.bind_some, hnew, Option.bind_some]
      rfl
    · rw [Function.update_of_ne hd, get_eq]
      show (w.slotIndex d).bind _ = _
      cases hj : w.slotIndex d with
      | none => rfl
      | some j =>
        obtain ⟨s, hs⟩ := (h.byType d j).mp hj
        rw [Option.bind_some, Option.bind_some, storageAt_eq_some_iff.mpr hs,
          storageAt_eq_some_iff.mpr ((List.getElem?_append_left
            (List.getElem?_eq_some_iff.mp hs).1).trans hs)]

theorem slotIndex_registerComponent (w : World C Val) (c : C) :
    ∃ i, (w.registerComponent c).2.slotIndex c = some i := by
  unfold World.registerComponent
  cases hc : w.byType c with
  | some i => exact ⟨i, hc⟩
  | none => exact ⟨w.slots.length, Function.update_self ..⟩

/-! ## Insertions -/

/-- Of a registered type the answer is the storage's. -/
theorem tryInsertTyped_registered {entity : Entity} (halive : w.IsAlive entity) {c : C} {i : Nat}
    {s : ComponentStorage (Val c)} (hi : w.slotIndex c = some i) (hs : w.storageAt i c = some s)
    (room : InsertRoom) (id : ComponentId) (value : Val c) :
    ((w.tryInsertTyped room id c entity value).1 = .ok () ↔
        (s.tryInsert room entity value).1 = .ok ()) ∧
      (w.tryInsertTyped room id c entity value).2
        = w.setStorage i c (s.tryInsert room entity value).2 := by
  unfold World.tryInsertTyped
  rw [if_neg (not_not_intro halive)]
  simp only [hi, hs]
  cases s.tryInsert room entity value with
  | mk result s' =>
    cases result with
    | ok => exact ⟨iff_of_true rfl rfl, rfl⟩
    | error e => exact ⟨iff_of_false (by simp) (by simp), rfl⟩

/-- Of any other it is `Ok`, and nothing is inserted. -/
theorem tryInsertTyped_unregistered {entity : Entity} (halive : w.IsAlive entity) {c : C}
    (hc : w.slotIndex c = none) (room : InsertRoom) (id : ComponentId) (value : Val c) :
    w.tryInsertTyped room id c entity value = (.ok (), w) := by
  unfold World.tryInsertTyped
  rw [if_neg (not_not_intro halive)]
  simp only [hc]

theorem Inv.truthful_registered (h : w.Inv) {entity : Entity} (halive : w.IsAlive entity) {c : C}
    {i : Nat} (hi : w.slotIndex c = some i) (room : InsertRoom) (id : ComponentId)
    (value : Val c) :
    Truthful w c entity value (w.tryInsertTyped room id c entity value) := by
  obtain ⟨s, hs⟩ := h.exists_storageAt hi
  have hslot := storageAt_eq_some_iff.mp hs
  obtain ⟨hanswer, hput⟩ := tryInsertTyped_registered halive hi hs room id value
  have hsame (other : Entity) : w.get c other = s.get other := get_of_storageAt hi hs other
  unfold Truthful
  rw [Ne, hanswer, hput]
  refine ⟨?_, ?_⟩
  · intro hok
    have hget := get_tryInsert (h.wf hslot) (h.live hslot) halive hok
    refine ⟨by rw [get_setStorage_self hi hs, hget, if_pos rfl], ?_⟩
    intro d other hother
    by_cases hd : d = c
    · subst hd
      rw [get_setStorage_self hi hs, hget, if_neg (hother.resolve_left fun hne => hne rfl), hsame]
    · exact h.get_setStorage_ne hd hi _ other
  · intro herror d other
    by_cases hd : d = c
    · subst hd
      rw [get_setStorage_self hi hs, get_tryInsert_error (h.wf hslot) herror, hsame]
    · exact h.get_setStorage_ne hd hi _ other

theorem Inv.truthful_tryInsert (h : w.Inv) (room : InsertRoom) {entity : Entity}
    (halive : w.IsAlive entity) (c : C) (value : Val c) :
    Truthful w c entity value (w.tryInsert room c entity value) := by
  obtain ⟨i, hi⟩ := w.slotIndex_registerComponent c
  have hregistered : (w.registerComponent c).2.IsAlive entity := by
    unfold World.registerComponent
    cases w.byType c with
    | some i => exact halive
    | none => exact halive
  have htruth := (h.registerComponent c).truthful_registered hregistered hi room
    (w.registerComponent c).1 value
  unfold World.tryInsert
  rw [if_neg (not_not_intro halive)]
  unfold Truthful at htruth ⊢
  simpa only [h.get_registerComponent] using htruth

/-- **Which insertions tell the truth.** For a live entity of a reachable world `try_insert`
    always does, and `try_insert_typed` exactly of the types that have a slot in this world. -/
theorem insertions_truthful_iff (hw : Reachable w) {entity : Entity} (halive : w.IsAlive entity)
    (room : InsertRoom) (id : ComponentId) (c : C) (value : Val c) :
    (Truthful w c entity value (w.tryInsertTyped room id c entity value) ↔
        (w.slotIndex c).isSome) ∧
      Truthful w c entity value (w.tryInsert room c entity value) := by
  refine ⟨?_, hw.inv.truthful_tryInsert room halive c value⟩
  cases hc : w.slotIndex c with
  | some i => exact iff_of_true (hw.inv.truthful_registered halive hc room id value) rfl
  | none =>
    refine iff_of_false ?_ (by simp)
    intro htruth
    rw [tryInsertTyped_unregistered halive hc] at htruth
    have hget := (htruth.1 rfl).1
    rw [get_of_unregistered hc] at hget
    exact absurd hget (by simp)

/-- One entity, and no component type registered. -/
def lone : World Unit fun _ => Nat := (new.trySpawn true true).2

theorem reachable_lone : Reachable lone := .single ⟨(), .trySpawn new true true⟩

/-- The untyped insertion registers the type itself and is truthful; the typed one would not be
    here. -/
theorem insertions_lone : Truthful lone () ⟨0, 0⟩ 7 (lone.tryInsert InsertRoom.all () ⟨0, 0⟩ 7) :=
  (insertions_truthful_iff reachable_lone (by decide) InsertRoom.all ⟨0⟩ () 7).2

/-- An id of another world, for a type this one has not met. -/
theorem lone_insert_dropped : Reachable lone ∧ lone.IsAlive ⟨0, 0⟩ ∧
    (lone.tryInsertTyped InsertRoom.all ⟨0⟩ () ⟨0, 0⟩ 7).1 = .ok () ∧
    (lone.tryInsertTyped InsertRoom.all ⟨0⟩ () ⟨0, 0⟩ 7).2.get () ⟨0, 0⟩ = none ∧
    ¬ Truthful lone () ⟨0, 0⟩ 7 (lone.tryInsertTyped InsertRoom.all ⟨0⟩ () ⟨0, 0⟩ 7) := by
  refine ⟨reachable_lone, by decide, rfl, rfl, ?_⟩
  intro htruth
  exact absurd (htruth.1 rfl).1 (by decide)

end World

end Ecs
end EngineKit
