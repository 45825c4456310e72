import EngineKit.Lib.Reach
import EngineKit.Ecs.Entity

/-!
# What a handle is worth

Over the whole life of an entity table, under any calls with any handles: live, stale or made up.

A slot's generation is bumped when the slot is reused, not when its entity is destroyed. So a
handle that was destroyed is kept dead by the free list first, whose slot still carries its
generation, and by the generation afterwards, until that has come round: after `2 ^ 32` times the
slot was recycled. How often each was is what `Aged` adds to the table.

The counts are in the model only. A generation is its slot's count in 32 bits (`Inv.generations`),
so a handle can be dead for two reasons, and `Gone` has both: the slot is free since, or its count
has gone on, and then the generation differs as long as the count has not come round.
-/

set_option autoImplicit false

namespace EngineKit
namespace Ecs

open Lib

namespace Entities

/-- `Entities::iter`. -/
def iter (table : Entities) : List Entity :=
  table.generations.zipIdx.filterMap fun (generation, i) =>
    if UInt32.ofNat i ∈ table.free then none else some ⟨UInt32.ofNat i, generation⟩

section Iter

variable {table : Entities}

/-- **The iteration** lists the handles that are alive. -/
theorem Wf.mem_iter (h : table.Wf) (entity : Entity) :
    entity ∈ table.iter ↔ table.IsAlive entity := by
  unfold iter IsAlive
  rw [List.mem_filterMap]
  constructor
  · intro hex
    obtain ⟨⟨generation, i⟩, hmem, hsome⟩ := hex
    have hget := List.mem_zipIdx_iff_getElem?.mp hmem
    obtain ⟨hlt, -⟩ := List.getElem?_eq_some_iff.mp hget
    have hi : (UInt32.ofNat i).toNat = i := UInt32.toNat_ofNat_of_lt' (hlt.trans h.small)
    simp only at hsome
    split at hsome
    · exact absurd hsome (by simp)
    · next hfree =>
      obtain rfl := Option.some.inj hsome
      exact ⟨by rw [hi]; exact hget, hfree⟩
  · intro hall
    obtain ⟨hget, hfree⟩ := hall
    refine ⟨(entity.generation, entity.index.toNat), List.mem_zipIdx_iff_getElem?.mpr hget, ?_⟩
    simp only [UInt32.ofNat_toNat, if_neg hfree]

/-- In the order of their slots. -/
theorem Wf.iter_sorted (h : table.Wf) : table.iter.Pairwise fun a b => a.index < b.index := by
  have hslots : table.generations.zipIdx.Pairwise fun p q => p.2 < q.2 := by
    rw [← List.pairwise_map (f := Prod.snd) (R := (· < ·)), List.zipIdx_map_snd]
    exact List.pairwise_lt_range'
  have hbelow {p : UInt32 × Nat} (hp : p ∈ table.generations.zipIdx) : p.2 < 2 ^ 32 :=
    (List.mem_zipIdx' hp).1.trans h.small
  refine List.Pairwise.filterMap _ ?_ (List.Pairwise.and_mem.mp hslots)
  rintro ⟨g, i⟩ ⟨g', i'⟩ ⟨hi, hi', hlt⟩ entity hentity entity' hentity'
  simp only at hentity hentity'
  split at hentity
  · exact absurd hentity (by simp)
  · split at hentity'
    · exact absurd hentity' (by simp)
    · obtain rfl := Option.some.inj hentity
      obtain rfl := Option.some.inj hentity'
      show (UInt32.ofNat i).toNat < (UInt32.ofNat i').toNat
      rwa [UInt32.toNat_ofNat_of_lt' (hbelow hi), UInt32.toNat_ofNat_of_lt' (hbelow hi')]

/-- The handles of the iteration have slots of their own. -/
theorem Wf.iter_nodup (h : table.Wf) : (table.iter.map Entity.index).Nodup := by
  rw [List.Nodup, List.pairwise_map]
  exact h.iter_sorted.imp UInt32.ne_of_lt

/-- The slots of the handles and the free ones are all there are. -/
theorem Wf.length_iter (h : table.Wf) : table.iter.length = table.live := by
  have hdisjoint : ∀ a ∈ table.iter.map Entity.index, ∀ b ∈ table.free, a ≠ b := by
    intro a ha b hb heq
    obtain ⟨entity, hentity, rfl⟩ := List.mem_map.mp ha
    exact ((h.mem_iter entity).mp hentity).2 (heq ▸ hb)
  have hnodup : ((table.iter.map Entity.index ++ table.free).map UInt32.toNat).Nodup := by
    refine (List.nodup_append.mpr ⟨h.iter_nodup, h.nodup, hdisjoint⟩).map ?_
    intro i j heq
    exact UInt32.toNat_inj.mp heq
  have hmem (n : Nat) : n ∈ (table.iter.map Entity.index ++ table.free).map UInt32.toNat ↔
      n ∈ List.range table.generations.length := by
    simp only [List.mem_map, List.mem_append, List.mem_range]
    constructor
    · rintro ⟨slot, ⟨entity, hentity, rfl⟩ | hfree, rfl⟩
      · exact (List.getElem?_eq_some_iff.mp ((h.mem_iter entity).mp hentity).1).1
      · exact h.free_lt slot hfree
    · intro hn
      have hslot : (UInt32.ofNat n).toNat = n := UInt32.toNat_ofNat_of_lt' (hn.trans h.small)
      refine ⟨UInt32.ofNat n, ?_, hslot⟩
      by_cases hfree : UInt32.ofNat n ∈ table.free
      · exact .inr hfree
      · refine .inl ⟨⟨UInt32.ofNat n, table.generations[n]⟩, (h.mem_iter _).mpr ⟨?_, hfree⟩, rfl⟩
        rw [hslot]
        exact List.getElem?_eq_getElem hn
  have hlength := ((List.perm_ext_iff_of_nodup hnodup List.nodup_range).mpr hmem).length_eq
  rw [List.length_map, List.length_append, List.length_map, List.length_range] at hlength
  have hlive := h.live
  omega

end Iter

/-- **What a creation does.** It reuses the slot freed last, at the next generation, or with no
    free slot opens one. -/
theorem tryCreate_cases {room : Bool} {table table' : Entities} {entity : Entity}
    (hcreate : table.tryCreate room = .ok (entity, table')) :
    (∃ rest, table.free = rest ++ [entity.index] ∧
      entity.generation = nextGeneration (table.generations[entity.index.toNat]?.getD 0) ∧
      table' = ⟨table.generations.set entity.index.toNat entity.generation, rest,
        table.live + 1⟩) ∨
    (table.free = [] ∧ entity = ⟨UInt32.ofNat table.generations.length, 0⟩ ∧
      table' = { table with generations := table.generations ++ [0], live := table.live + 1 }) := by
  unfold tryCreate at hcreate
  -- A free slot, or one at the end.
  cases hlast : table.free.getLast? with
  | some slot =>
    obtain ⟨rest, hfree⟩ := List.getLast?_eq_some_iff.mp hlast
    simp only [hlast] at hcreate
    obtain ⟨rfl, rfl⟩ := Prod.mk.inj (Except.ok.inj hcreate)
    refine .inl ⟨rest, hfree, rfl, ?_⟩
    rw [hfree, List.dropLast_concat]
  | none =>
    simp only [hlast] at hcreate
    split at hcreate
    · exact absurd hcreate (by simp)
    · split at hcreate
      · obtain ⟨rfl, rfl⟩ := Prod.mk.inj (Except.ok.inj hcreate)
        exact .inr ⟨List.getLast?_eq_none_iff.mp hlast, rfl, rfl⟩
      · exact absurd hcreate (by simp)

/-- **What a destruction does.** Nothing, or it frees the slot of a live handle. -/
theorem tryDestroy_cases {room done : Bool} {table table' : Entities} {entity : Entity}
    (hdestroy : table.tryDestroy room entity = .ok (done, table')) :
    done = false ∧ table' = table ∨
    done = true ∧ table.IsAlive entity ∧
      table' = { table with free := table.free ++ [entity.index], live := table.live - 1 } := by
  unfold tryDestroy at hdestroy
  split at hdestroy
  · obtain ⟨rfl, rfl⟩ := Prod.mk.inj (Except.ok.inj hdestroy)
    exact .inl ⟨rfl, rfl⟩
  · next halive =>
    split at hdestroy
    · obtain ⟨rfl, rfl⟩ := Prod.mk.inj (Except.ok.inj hdestroy)
      exact .inr ⟨rfl, not_not.mp halive, rfl⟩
    · exact absurd hdestroy (by simp)

/-- A generation is the number of times its slot was recycled, as far as 32 bits hold it. -/
theorem nextGeneration_ofNat (count : Nat) :
    nextGeneration (UInt32.ofNat count) = UInt32.ofNat (count + 1) := by
  have hone : (1 : UInt32).toNat = 1 := rfl
  rw [← UInt32.toNat_inj, nextGeneration, u32CheckedAdd, u32TryFrom, hone, UInt32.toNat_ofNat',
    UInt32.toNat_ofNat']
  split
  · rw [Option.getD_some, UInt32.toNat_ofNat']
    omega
  · -- The generation was the last one.
    show 0 = _
    omega

/-! ## The life of a table -/

/-- A call, with whether the memory it needs is there. -/
inductive Call where
  | tryCreate (room : Bool)
  | tryDestroy (room : Bool) (entity : Entity)

/-- A table, and how many times each slot has been recycled. -/
structure Aged where
  table : Entities
  recycled : UInt32 → Nat

namespace Aged

def new : Aged := ⟨Entities.new, fun _ => 0⟩

def step (s : Aged) : Call → Aged
  | .tryCreate room =>
    match s.table.tryCreate room with
    | .ok (_, table) =>
      match s.table.free.getLast? with
      | some slot => ⟨table, Function.update s.recycled slot (s.recycled slot + 1)⟩
      | none => ⟨table, s.recycled⟩
    | .error _ => s
  | .tryDestroy room entity =>
    match s.table.tryDestroy room entity with
    | .ok (_, table) => ⟨table, s.recycled⟩
    | .error _ => s

/-- **One step.** Nothing, or a creation in a slot that is recycled, or in one that is opened, or a
    destruction. -/
theorem step_cases (s : Aged) (call : Call) :
    s.step call = s ∨
    (∃ rest slot, s.table.free = rest ++ [slot] ∧
      s.step call = ⟨⟨s.table.generations.set slot.toNat
        (nextGeneration (s.table.generations[slot.toNat]?.getD 0)), rest, s.table.live + 1⟩,
        Function.update s.recycled slot (s.recycled slot + 1)⟩) ∨
    (s.table.free = [] ∧ s.step call = ⟨{ s.table with
      generations := s.table.generations ++ [0], live := s.table.live + 1 }, s.recycled⟩) ∨
    ∃ entity, s.table.IsAlive entity ∧ s.step call = ⟨{ s.table with
      free := s.table.free ++ [entity.index], live := s.table.live - 1 }, s.recycled⟩ := by
  cases call with
  | tryCreate room =>
    simp only [step]
    cases hcreate : s.table.tryCreate room with
    | error error => exact .inl rfl
    | ok created =>
      obtain ⟨entity, table⟩ := created
      rcases tryCreate_cases hcreate with ⟨rest, hfree, hgeneration, rfl⟩ | ⟨hfree, -, rfl⟩
      · refine .inr (.inl ⟨rest, entity.index, hfree, ?_⟩)
        simp only [hfree, List.getLast?_concat, hgeneration]
      · refine .inr (.inr (.inl ⟨hfree, ?_⟩))
        simp only [hfree, List.getLast?_nil]
  | tryDestroy room entity =>
    simp only [step]
    cases hdestroy : s.table.tryDestroy room entity with
    | error error => exact .inl rfl
    | ok destroyed =>
      obtain ⟨done, table⟩ := destroyed
      rcases tryDestroy_cases hdestroy with ⟨-, rfl⟩ | ⟨-, halive, rfl⟩
      · exact .inl rfl
      · exact .inr (.inr (.inr ⟨entity, halive, rfl⟩))

/-- The table is well formed, and each slot's generation counts how often it was recycled. -/
structure Inv (s : Aged) : Prop where
  table : s.table.Wf
  generations (slot : UInt32) : slot.toNat < s.table.generations.length →
    s.table.generations[slot.toNat]? = some (UInt32.ofNat (s.recycled slot))
  fresh (slot : UInt32) : s.table.generations.length ≤ slot.toNat → s.recycled slot = 0

theorem Inv.new : new.Inv := ⟨Wf.new, nofun, fun _ _ => rfl⟩

/-- Any call keeps the table well formed. -/
theorem wf_step {s : Aged} (h : s.table.Wf) (call : Call) : (s.step call).table.Wf := by
  cases call with
  | tryCreate room =>
    simp only [step]
    cases hcreate : s.table.tryCreate room with
    | error error => exact h
    | ok created =>
      cases s.table.free.getLast? with
      | some slot => exact (tryCreate_spec h hcreate).1
      | none => exact (tryCreate_spec h hcreate).1
  | tryDestroy room entity =>
    simp only [step]
    cases hdestroy : s.table.tryDestroy room entity with
    | error error => exact h
    | ok destroyed => exact (tryDestroy_spec h hdestroy).1

/-- Any call keeps each generation the count of its slot. -/
theorem Inv.step {s : Aged} (h : s.Inv) (call : Call) : (s.step call).Inv := by
  refine ⟨wf_step h.table call, ?_, ?_⟩
  · intro slot hslot
    rcases s.step_cases call with hstep | ⟨rest, reused, hfree, hstep⟩ | ⟨-, hstep⟩ |
      ⟨entity, -, hstep⟩
    · rw [hstep] at hslot ⊢
      exact h.generations slot hslot
    · rw [hstep] at hslot ⊢
      simp only [List.length_set] at hslot
      have hreused : reused.toNat < s.table.generations.length :=
        h.table.free_lt reused (by rw [hfree]; exact List.mem_concat_self)
      by_cases heq : slot = reused
      · subst heq
        show (_ : List UInt32)[_]? = some (UInt32.ofNat (Function.update s.recycled slot _ slot))
        rw [Function.update_self, ← nextGeneration_ofNat, h.generations slot hslot]
        exact List.getElem?_set_self hslot
      · have hne : reused.toNat ≠ slot.toNat := fun hbad => heq (UInt32.toNat_inj.mp hbad).symm
        show (_ : List UInt32)[_]? = some (UInt32.ofNat (Function.update s.recycled reused _ slot))
        rw [Function.update_of_ne heq, List.getElem?_set_ne hne]
        exact h.generations slot hslot
    · rw [hstep] at hslot ⊢
      simp only [List.length_append, List.length_singleton] at hslot
      rcases Nat.lt_or_ge slot.toNat s.table.generations.length with hold | hnew
      · rw [List.getElem?_append_left hold]
        exact h.generations slot hold
      · have hlast : slot.toNat = s.table.generations.length := by omega
        show (_ ++ [0])[slot.toNat]? = some (UInt32.ofNat (s.recycled slot))
        rw [h.fresh slot hnew, hlast]
        exact List.getElem?_concat_length
    · rw [hstep] at hslot ⊢
      exact h.generations slot hslot
  · intro slot hslot
    rcases s.step_cases call with hstep | ⟨rest, reused, hfree, hstep⟩ | ⟨-, hstep⟩ |
      ⟨entity, -, hstep⟩
    · rw [hstep] at hslot ⊢
      exact h.fresh slot hslot
    · rw [hstep] at hslot ⊢
      simp only [List.length_set] at hslot
      have hreused : reused.toNat < s.table.generations.length :=
        h.table.free_lt reused (by rw [hfree]; exact List.mem_concat_self)
      have hne : slot ≠ reused := by
        rintro rfl
        omega
      show Function.update s.recycled reused _ slot = 0
      rw [Function.update_of_ne hne]
      exact h.fresh slot hslot
    · rw [hstep] at hslot ⊢
      simp only [List.length_append, List.length_singleton] at hslot
      exact h.fresh slot (by omega)
    · rw [hstep] at hslot ⊢
      exact h.fresh slot hslot

/-- A handle that was destroyed when its slot had been recycled `count` times. -/
structure Gone (entity : Entity) (count : Nat) (s : Aged) : Prop where
  generation : entity.generation = UInt32.ofNat count
  le : count ≤ s.recycled entity.index
  free : s.recycled entity.index = count → entity.index ∈ s.table.free

/-- It is gone at once. -/
theorem Gone.destroyed {s : Aged} (h : s.Inv) {room : Bool} {entity : Entity} {table : Entities}
    (hdestroy : s.table.tryDestroy room entity = .ok (true, table)) :
    Gone entity (s.recycled entity.index) ⟨table, s.recycled⟩ := by
  rcases tryDestroy_cases hdestroy with ⟨hfalse, -⟩ | ⟨-, ⟨hget, -⟩, rfl⟩
  · exact absurd hfalse (by simp)
  · have hslot := (List.getElem?_eq_some_iff.mp hget).1
    refine ⟨?_, Nat.le_refl _, fun _ => List.mem_concat_self⟩
    exact Option.some.inj (hget.symm.trans (h.generations entity.index hslot))

/-- Its slot stays free until it is recycled. -/
theorem Gone.step {s : Aged} {entity : Entity} {count : Nat} (h : Gone entity count s)
    (call : Call) : Gone entity count (s.step call) := by
  -- Reusing the handle's own slot adds to its count; nothing else takes it off the list.
  rcases s.step_cases call with hstep | ⟨rest, reused, hfree, hstep⟩ | ⟨-, hstep⟩ |
    ⟨other, -, hstep⟩
  · rwa [hstep]
  · rw [hstep]
    have hle := h.le
    by_cases heq : entity.index = reused
    · have hrecycled : Function.update s.recycled reused (s.recycled reused + 1) entity.index =
          s.recycled entity.index + 1 := by rw [← heq, Function.update_self]
      refine ⟨h.generation, ?_, ?_⟩
      · show count ≤ Function.update s.recycled reused _ entity.index
        omega
      · show Function.update s.recycled reused _ entity.index = count → _
        omega
    · have hrecycled : Function.update s.recycled reused (s.recycled reused + 1) entity.index =
          s.recycled entity.index := Function.update_of_ne heq _ _
      refine ⟨h.generation, ?_, ?_⟩
      · show count ≤ Function.update s.recycled reused _ entity.index
        omega
      · intro hsame
        have hin : entity.index ∈ rest ++ [reused] := hfree ▸ h.free (hrecycled.symm.trans hsame)
        rcases List.mem_append.mp hin with hrest | hlast
        · exact hrest
        · exact absurd (List.mem_singleton.mp hlast) heq
  · rw [hstep]
    exact ⟨h.generation, h.le, h.free⟩
  · rw [hstep]
    exact ⟨h.generation, h.le, fun hsame => List.mem_append_left _ (h.free hsame)⟩

/-- It is dead until the slot's generation has come round. -/
theorem Gone.dead {s : Aged} {entity : Entity} {count : Nat} (h : Gone entity count s)
    (hinv : s.Inv) (hround : s.recycled entity.index < count + 2 ^ 32) :
    ¬ s.table.IsAlive entity := by
  intro hall
  obtain ⟨hget, hfree⟩ := hall
  have hslot := (List.getElem?_eq_some_iff.mp hget).1
  have hgeneration : UInt32.ofNat (s.recycled entity.index) = UInt32.ofNat count := by
    rw [← h.generation]
    exact Option.some.inj ((hinv.generations entity.index hslot).symm.trans hget)
  have hmod := congrArg UInt32.toNat hgeneration
  rw [UInt32.toNat_ofNat', UInt32.toNat_ofNat'] at hmod
  have hle := h.le
  exact hfree (h.free (by omega))

/-- **Handles.** In every table that some calls lead to, the handles that `is_alive` accepts have
    slots of their own, below the watermark; the free slots are the others, each listed once; the
    handles are as many as `live` says, which is what the free list leaves of the watermark. And a
    handle that is destroyed is dead from then on, while its slot has been recycled less than
    `2 ^ 32` times since. -/
theorem handles {s : Aged} (hrun : Reaches (fun s call t => t = step s call) new s) :
    (∀ a b, s.table.IsAlive a → s.table.IsAlive b → a.index = b.index → a = b) ∧
      (∀ a, s.table.IsAlive a → a.index.toNat < s.table.watermark) ∧
      s.table.free.Nodup ∧
      (∀ slot, slot ∈ s.table.free ↔
        slot.toNat < s.table.watermark ∧ ∀ a, s.table.IsAlive a → a.index ≠ slot) ∧
      s.table.live = s.table.watermark - s.table.free.length ∧
      (∃ all : List Entity, all.Nodup ∧ (∀ a, a ∈ all ↔ s.table.IsAlive a) ∧
        all.length = s.table.live) ∧
      ∀ room entity table, s.table.tryDestroy room entity = .ok (true, table) →
        ∀ t, Reaches (fun s call t => t = step s call) ⟨table, s.recycled⟩ t →
          t.recycled entity.index < s.recycled entity.index + 2 ^ 32 →
            ¬ t.table.IsAlive entity := by
  have hinv : s.Inv := by
    refine hrun.invariant Inv Inv.new ?_
    rintro u call _ hu rfl
    exact hu.step call
  have hwf := hinv.table
  refine ⟨?_, ?_, hwf.nodup, ?_, ?_, ?_, ?_⟩
  · rintro ⟨i, g⟩ ⟨_, g'⟩ ⟨ha, -⟩ ⟨hb, -⟩ rfl
    have hsame : g = g' := Option.some.inj (ha.symm.trans hb)
    rw [hsame]
  · rintro a ⟨hget, -⟩
    exact (List.getElem?_eq_some_iff.mp hget).1
  · intro slot
    constructor
    · intro hfree
      refine ⟨hwf.free_lt slot hfree, ?_⟩
      rintro a ⟨-, hnot⟩ rfl
      exact hnot hfree
    · intro hall
      obtain ⟨hslot, hnone⟩ := hall
      by_contra hnot
      exact hnone ⟨slot, s.table.generations[slot.toNat]⟩
        ⟨List.getElem?_eq_getElem hslot, hnot⟩ rfl
  · have hlive := hwf.live
    unfold watermark
    omega
  · exact ⟨s.table.iter, List.Nodup.of_map _ hwf.iter_nodup, hwf.mem_iter, hwf.length_iter⟩
  · intro room entity table hdestroy t hlater hround
    have hgone : t.Inv ∧ Gone entity (s.recycled entity.index) t := by
      refine hlater.invariant (fun u => u.Inv ∧ Gone entity _ u) ⟨?_, .destroyed hinv hdestroy⟩ ?_
      · have hdestroyed : (⟨table, s.recycled⟩ : Aged) = s.step (.tryDestroy room entity) := by
          simp only [step, hdestroy]
        rw [hdestroyed]
        exact hinv.step _
      · rintro u call _ ⟨hu, hgone⟩ rfl
        exact ⟨hu.step call, hgone.step call⟩
    exact hgone.2.dead hgone.1 hround

/-- The first handle, destroyed and its slot recycled. -/
theorem handles_recycled :
    ¬ ([.tryCreate true, .tryDestroy true ⟨0, 0⟩, .tryCreate true].foldl step
      new).table.IsAlive ⟨0, 0⟩ :=
  (handles (Reaches.run step new [.tryCreate true])).2.2.2.2.2.2 true ⟨0, 0⟩ _ rfl _
    (Reaches.run step _ [.tryCreate true]) (by decide)

end Aged

end Entities

end Ecs
end EngineKit
