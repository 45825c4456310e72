import EngineKit.Lib.BitScan
import EngineKit.Ecs.Presence

/-!
# Queries

The walk over the live entities and the walk over those that have two components. Both scan words
of bits; the first then reads each generation from the entity table, the second collects the
candidates and lets a driver look each of them up in both storages.

In a reachable world the bits are right (`World.Inv`, `World.Narrow`), so the first walk is over
the live entities and every candidate of the second has both components, at one generation. The
driver's run over such candidates is the run of its closure over their values (`WorldPair.calls`),
and what it writes at one candidate is no other's (`WorldPair.forEach_spec`).
-/

set_option autoImplicit false

namespace EngineKit
namespace Ecs

open Lib

/-! ## Bits -/

/-- The indices a scan of a bitset's words visits. -/
theorem Bitset.mem_indices {bits : Bitset} {i : Nat} :
    i ∈ indices bits.words ↔ bits.test i = true := by
  rw [Lib.mem_indices, test]
  cases bits.words[i / 64]? with
  | none => simp
  | some word => simp [testBit_eq word (Nat.mod_lt i (by decide))]

/-- And those of the words two bitsets have in common. -/
theorem Bitset.mem_indices_and {bits bits' : Bitset} {i : Nat} :
    i ∈ indices (List.zipWith (· &&& ·) bits.words bits'.words) ↔
      bits.test i = true ∧ bits'.test i = true := by
  rw [Lib.mem_indices, test, test, List.getElem?_zipWith]
  cases bits.words[i / 64]? with
  | none => simp
  | some word =>
    cases bits'.words[i / 64]? with
    | none => simp
    | some word' =>
      simp [testBit_eq word (Nat.mod_lt i (by decide)),
        testBit_eq word' (Nat.mod_lt i (by decide))]

/-- A storage's presence is the indices that have an entry. -/
theorem ComponentStorage.Wf.test_presence {T : Type} {s : ComponentStorage T} (h : s.Wf)
    (i : UInt32) : s.presence.test i.toNat = (s.entry i).isSome := by
  obtain ⟨owners, howned⟩ := h
  rw [howned.presence]
  cases hp : s.posOf i with
  | none =>
    rw [entry_of_posOf_none hp]
    rfl
  | some p =>
    obtain ⟨generation, value, -, -, hentry⟩ := howned.entry_of_posOf hp
    rw [hentry]
    rfl

/-- `Entities::generation_at`. -/
def Entities.generationAt (table : Entities) (index : Nat) : Option UInt32 :=
  table.generations[index]?

namespace World

variable {C σ : Type} {Val : C → Type}

def forEachEntity (w : World C Val) (f : σ → Entity → σ) (st : σ) : σ :=
  eachIndex w.alive.words (fun st index =>
    match w.entities.generationAt index with
    | some generation => f st ⟨UInt32.ofNat index, generation⟩
    | none => st) st

/-- The indices go into a cleared `out`, which is sorted at the end. -/
def collectIntersection [DecidableEq C] (w : World C Val) (a b : C) : List UInt32 :=
  match w.slotIndex a, w.slotIndex b with
  | some ia, some ib =>
    match w.storageAt ia a, w.storageAt ib b with
    | some storageA, some storageB =>
      let words := List.zipWith (· &&& ·) storageA.presence.words storageB.presence.words
      (eachIndex words (fun out index => out ++ [UInt32.ofNat index]) []).mergeSort
    | _, _ => []
  | _, _ => []

/-! ## Live entities -/

section Live

variable {w : World C Val}

/-- The handle that the walk makes of a slot. -/
def handleAt (w : World C Val) (index : Nat) : Option Entity :=
  (w.entities.generationAt index).map fun generation => ⟨UInt32.ofNat index, generation⟩

/-- It names the slot, at the slot's own generation. -/
theorem Inv.handleAt_eq_some (h : w.Inv) {index : Nat} {entity : Entity}
    (hsome : w.handleAt index = some entity) :
    entity.index.toNat = index ∧
      w.entities.generations[entity.index.toNat]? = some entity.generation := by
  obtain ⟨generation, hget, rfl⟩ := Option.map_eq_some_iff.mp hsome
  have hlt := (List.getElem?_eq_some_iff.mp hget).1
  have hindex : (UInt32.ofNat index).toNat = index :=
    UInt32.toNat_ofNat_of_lt' (hlt.trans h.entities.small)
  exact ⟨hindex, hindex.symm ▸ hget⟩

/-- **The walk over the live entities** visits each of them once, in the order of their slots. -/
theorem Inv.forEachEntity (h : w.Inv) : ∃ visited : List Entity,
    visited.Pairwise (fun x y => x.index < y.index) ∧
      (∀ entity, entity ∈ visited ↔ w.IsAlive entity) ∧
      ∀ {σ : Type} (f : σ → Entity → σ) (st : σ), w.forEachEntity f st = visited.foldl f st := by
  refine ⟨(indices w.alive.words).filterMap w.handleAt, ?_, ?_, ?_⟩
  · refine List.Pairwise.filterMap w.handleAt ?_ (indices_sorted w.alive.words)
    intro i j hlt x hx y hy
    show x.index.toNat < y.index.toNat
    rwa [(h.handleAt_eq_some hx).1, (h.handleAt_eq_some hy).1]
  · intro entity
    rw [List.mem_filterMap]
    constructor
    · intro hex
      obtain ⟨index, hindex, hsome⟩ := hex
      obtain ⟨rfl, hget⟩ := h.handleAt_eq_some hsome
      refine ⟨hget, ?_⟩
      rw [Bitset.mem_indices, h.alive] at hindex
      intro hfree
      rw [Entities.current, if_pos hfree] at hindex
      exact absurd hindex (by simp)
    · intro halive
      refine ⟨entity.index.toNat, ?_, ?_⟩
      · rw [Bitset.mem_indices, h.alive, (w.entities.isAlive_iff entity).mp halive]
        rfl
      · show Option.map _ (w.entities.generations[_]?) = _
        rw [halive.1, Option.map_some, UInt32.ofNat_toNat]
  · intro σ f st
    rw [World.forEachEntity, eachIndex_eq, List.foldl_filterMap]
    congr 1
    funext st index
    simp only [handleAt]
    cases w.entities.generationAt index <;> rfl

end Live

/-! ## Candidates -/

section Candidates

variable [DecidableEq C] {w : World C Val}

omit [DecidableEq C] in
/-- Distinct component types have distinct slots. -/
theorem Inv.slot_ne (h : w.Inv) {a b : C} (hab : a ≠ b) {ia ib : Nat}
    (ha : w.slotIndex a = some ia) (hb : w.slotIndex b = some ib) : ia ≠ ib := by
  rintro rfl
  obtain ⟨sa, hsa⟩ := (h.byType a ia).mp ha
  obtain ⟨sb, hsb⟩ := (h.byType b ia).mp hb
  rw [hsa] at hsb
  cases hsb
  exact hab rfl

/-- A registered type has its storage. -/
theorem Inv.exists_storageAt (h : w.Inv) {c : C} {i : Nat} (hi : w.slotIndex c = some i) :
    ∃ s, w.storageAt i c = some s := by
  obtain ⟨s, hs⟩ := (h.byType c i).mp hi
  exact ⟨s, storageAt_eq_some_iff.mpr hs⟩

theorem Inv.get_eq_some_iff (h : w.Inv) {c : C} {i : Nat} {s : ComponentStorage (Val c)}
    (hi : w.slotIndex c = some i) (hs : w.storageAt i c = some s) {entity : Entity}
    {value : Val c} :
    w.get c entity = some value ↔ s.entry entity.index = some (entity.generation, value) := by
  obtain ⟨owners, howned⟩ := h.wf (storageAt_eq_some_iff.mp hs)
  rw [World.get, hi]
  show (w.storageAt i c).bind (fun s => s.get entity) = _ ↔ _
  rw [hs]
  exact howned.get_eq_some_iff

/-- Two worlds agree on a component if the storages agree on its entry. -/
theorem Inv.get_congr {w' : World C Val} (h : w.Inv) (h' : w'.Inv) {c : C} {i i' : Nat}
    {s s' : ComponentStorage (Val c)} (hi : w.slotIndex c = some i)
    (hs : w.storageAt i c = some s) (hi' : w'.slotIndex c = some i')
    (hs' : w'.storageAt i' c = some s') {entity : Entity}
    (hentry : ∀ value, s'.entry entity.index = some (entity.generation, value) ↔
      s.entry entity.index = some (entity.generation, value)) :
    w'.get c entity = w.get c entity := by
  refine Option.ext ?_
  intro value
  rw [h'.get_eq_some_iff hi' hs', h.get_eq_some_iff hi hs]
  exact hentry value

/-- The candidates, when both types are registered: sorted, and the indices with an entry in both
    storages. -/
theorem collectIntersection_spec (h : w.Inv) (hnarrow : w.Narrow) {a b : C} {ia ib : Nat}
    {sa : ComponentStorage (Val a)} {sb : ComponentStorage (Val b)}
    (ha : w.slotIndex a = some ia) (hb : w.slotIndex b = some ib)
    (hsa : w.storageAt ia a = some sa) (hsb : w.storageAt ib b = some sb) :
    (w.collectIntersection a b).Pairwise (· < ·) ∧
      ∀ i, i ∈ w.collectIntersection a b ↔ (sa.entry i).isSome ∧ (sb.entry i).isSome := by
  have hslotA := storageAt_eq_some_iff.mp hsa
  have hslotB := storageAt_eq_some_iff.mp hsb
  have hindex {n : Nat}
      (hn : n ∈ indices (List.zipWith (· &&& ·) sa.presence.words sb.presence.words)) :
      (UInt32.ofNat n).toNat = n :=
    UInt32.toNat_ofNat_of_lt' (hnarrow ia a sa hslotA n (Bitset.mem_indices_and.mp hn).1)
  have hsorted : ((indices (List.zipWith (· &&& ·) sa.presence.words sb.presence.words)).map
      UInt32.ofNat).Pairwise (· < ·) := by
    rw [List.pairwise_map]
    refine (List.Pairwise.and_mem.mp (indices_sorted _)).imp ?_
    rintro i j ⟨hi, hj, hlt⟩
    show (UInt32.ofNat i).toNat < (UInt32.ofNat j).toNat
    rwa [hindex hi, hindex hj]
  have heq : w.collectIntersection a b =
      (indices (List.zipWith (· &&& ·) sa.presence.words sb.presence.words)).map UInt32.ofNat := by
    simp only [collectIntersection, ha, hb, hsa, hsb]
    rw [eachIndex_eq, List.foldl_append_eq_append, List.nil_append, ← List.flatMap_def,
      ← List.map_eq_flatMap]
    refine List.mergeSort_of_pairwise (hsorted.imp ?_)
    intro i j hlt
    exact decide_eq_true (UInt32.le_of_lt hlt)
  rw [heq]
  refine ⟨hsorted, ?_⟩
  intro i
  rw [← (h.wf hslotA).test_presence, ← (h.wf hslotB).test_presence, ← Bitset.mem_indices_and,
    List.mem_map]
  constructor
  · intro hex
    obtain ⟨n, hn, rfl⟩ := hex
    rwa [hindex hn]
  · intro hi
    exact ⟨i.toNat, hi, UInt32.ofNat_toNat⟩

end Candidates

end World

/-! ## The driver -/

/-- Whose entry it is may write it. -/
theorem ComponentStorage.Wf.getMut_of_entry {T : Type} {s : ComponentStorage T} (h : s.Wf)
    {entity : Entity} {value : T}
    (hentry : s.entry entity.index = some (entity.generation, value)) :
    ∃ put, s.getMut entity = some (value, put) ∧ ∀ written, (put written).Wf ∧
      ∀ i, (put written).entry i
        = if i = entity.index then some (entity.generation, written) else s.entry i := by
  obtain ⟨owners, howned⟩ := h
  have hsome : (s.getMut entity).isSome := by
    rw [getMut_isSome, howned.get_eq_some_iff.mpr hentry]
    rfl
  obtain ⟨⟨found, put⟩, hget⟩ := Option.isSome_iff_exists.mp hsome
  obtain ⟨hfound, hput⟩ := getMut_spec ⟨owners, howned⟩ hget
  have hvalue : found = value :=
    congrArg Prod.snd (Option.some.inj (hfound.symm.trans hentry))
  exact ⟨put, hvalue ▸ hget, hput⟩

namespace WorldPair

variable {A B σ : Type} {p : WorldPair A B}

/-- The closure's calls over an entity's values each, in turn: its last state, and what it wrote. -/
def calls (f : σ → Entity → A → B → σ × A × B) :
    σ → List (Entity × A × B) → σ × List (Entity × A × B)
  | st, [] => (st, [])
  | st, (entity, a, b) :: rows =>
    let (st, a, b) := f st entity a b
    let (st, written) := calls f st rows
    (st, (entity, a, b) :: written)

theorem calls_map_fst (f : σ → Entity → A → B → σ × A × B) (st : σ)
    (rows : List (Entity × A × B)) :
    (calls f st rows).2.map Prod.fst = rows.map Prod.fst := by
  induction rows generalizing st with
  | nil => rfl
  | cons row rows ih =>
    show row.1 :: List.map Prod.fst (calls f _ rows).2 = _
    rw [ih]
    rfl

/-- The entity has these values in the two storages. -/
def Holds (p : WorldPair A B) (row : Entity × A × B) : Prop :=
  p.storageA.entry row.1.index = some (row.1.generation, row.2.1) ∧
    p.storageB.entry row.1.index = some (row.1.generation, row.2.2)

/-- The entities among the candidates that have both components, with their values. -/
def rows (p : WorldPair A B) (candidates : List UInt32) : List (Entity × A × B) :=
  candidates.filterMap fun i =>
    match p.storageA.entry i, p.storageB.entry i with
    | some (generation, a), some (_, b) => some (⟨i, generation⟩, a, b)
    | _, _ => none

section Rows

variable {candidates : List UInt32}

theorem mem_rows
    (hsame : ∀ i g g' a b, p.storageA.entry i = some (g, a) → p.storageB.entry i = some (g', b) →
      g = g')
    (hcandidates : ∀ i, i ∈ candidates ↔
      (p.storageA.entry i).isSome ∧ (p.storageB.entry i).isSome) (row : Entity × A × B) :
    row ∈ p.rows candidates ↔ p.Holds row := by
  rw [rows, List.mem_filterMap]
  constructor
  · intro hex
    obtain ⟨i, -, hsome⟩ := hex
    split at hsome
    · next generation a generation' b hA hB =>
      obtain rfl := Option.some.inj hsome
      obtain rfl := hsame i _ _ _ _ hA hB
      exact ⟨hA, hB⟩
    · exact absurd hsome (by simp)
  · intro hall
    obtain ⟨hA, hB⟩ := hall
    refine ⟨row.1.index, (hcandidates _).mpr ⟨by rw [hA]; rfl, by rw [hB]; rfl⟩, ?_⟩
    simp only [hA, hB]

/-- Each candidate has its row. -/
theorem map_index_rows (hcandidates : ∀ i, i ∈ candidates ↔
    (p.storageA.entry i).isSome ∧ (p.storageB.entry i).isSome) :
    (p.rows candidates).map (fun row => row.1.index) = candidates := by
  rw [rows, List.map_filterMap]
  conv_rhs => rw [← List.filterMap_some (l := candidates)]
  refine List.filterMap_congr ?_
  intro i hi
  obtain ⟨hA, hB⟩ := (hcandidates i).mp hi
  obtain ⟨entryA, hA⟩ := Option.isSome_iff_exists.mp hA
  obtain ⟨entryB, hB⟩ := Option.isSome_iff_exists.mp hB
  simp only [hA, hB]
  rfl

/-- The rows are in the order of the candidates. -/
theorem rows_sorted (hsorted : candidates.Pairwise (· < ·)) (hcandidates : ∀ i, i ∈ candidates ↔
    (p.storageA.entry i).isSome ∧ (p.storageB.entry i).isSome) :
    (p.rows candidates).Pairwise fun x y => x.1.index < y.1.index := by
  have hmap : ((p.rows candidates).map fun row => row.1.index).Pairwise (· < ·) := by
    rw [map_index_rows hcandidates]
    exact hsorted
  exact List.pairwise_map.mp hmap

end Rows

/-- One candidate that has both: the closure is called, and what it writes is the entity's. -/
theorem visit_spec (ha : p.storageA.Wf) (hb : p.storageB.Wf)
    (f : σ → Entity → A → B → σ × A × B) (st : σ) {entity : Entity} {a : A} {b : B}
    (h : p.Holds (entity, a, b)) :
    ∃ p', visit f (p, st) entity.index = (p', (f st entity a b).1) ∧
      p'.storageA.Wf ∧ p'.storageB.Wf ∧ p'.Holds (entity, (f st entity a b).2) ∧
      ∀ i, i ≠ entity.index →
        p'.storageA.entry i = p.storageA.entry i ∧ p'.storageB.entry i = p.storageB.entry i := by
  obtain ⟨hentryA, hentryB⟩ := h
  obtain ⟨putA, hgetA, hputA⟩ := ha.getMut_of_entry hentryA
  obtain ⟨putB, hgetB, hputB⟩ := hb.getMut_of_entry hentryB
  obtain ⟨ownersA, hownedA⟩ := ha
  obtain ⟨ownersB, hownedB⟩ := hb
  have hgeneration : p.storageA.generationAt entity.index = some entity.generation := by
    rw [hownedA.generationAt_eq, hentryA]
    rfl
  have hboth : p.storageA.contains entity ∧ p.storageB.contains entity :=
    ⟨hownedA.contains_iff.mpr ⟨a, hentryA⟩, hownedB.contains_iff.mpr ⟨b, hentryB⟩⟩
  refine ⟨⟨putA (f st entity a b).2.1, putB (f st entity a b).2.2⟩, ?_, (hputA _).1, (hputB _).1,
    ⟨?_, ?_⟩, ?_⟩
  · simp only [visit, hgeneration]
    rw [if_pos hboth]
    simp only [hgetA, hgetB]
  · rw [(hputA _).2, if_pos rfl]
  · rw [(hputB _).2, if_pos rfl]
  · intro i hi
    rw [(hputA _).2, (hputB _).2, if_neg hi, if_neg hi]
    exact ⟨rfl, rfl⟩

/-- **The driver's run** over entities that have both components is the closure's over their
    values: what it writes is theirs afterwards, and every other entry is as it was. -/
theorem forEach_spec (ha : p.storageA.Wf) (hb : p.storageB.Wf)
    (f : σ → Entity → A → B → σ × A × B) (st : σ) {rows : List (Entity × A × B)}
    (hdistinct : rows.Pairwise fun x y => x.1.index ≠ y.1.index)
    (hrows : ∀ row ∈ rows, p.Holds row) :
    (p.forEach (rows.map fun row => row.1.index) f st).2 = (calls f st rows).1 ∧
      (∀ row ∈ (calls f st rows).2,
        (p.forEach (rows.map fun row => row.1.index) f st).1.Holds row) ∧
      ∀ i, (∀ row ∈ rows, row.1.index ≠ i) →
        (p.forEach (rows.map fun row => row.1.index) f st).1.storageA.entry i
            = p.storageA.entry i ∧
          (p.forEach (rows.map fun row => row.1.index) f st).1.storageB.entry i
            = p.storageB.entry i := by
  induction rows generalizing p st with
  | nil => exact ⟨rfl, nofun, fun _ _ => ⟨rfl, rfl⟩⟩
  | cons row rows ih =>
    obtain ⟨entity, a, b⟩ := row
    obtain ⟨hfirst, hrest⟩ := List.pairwise_cons.mp hdistinct
    obtain ⟨p', hvisit, ha', hb', hholds, hothers⟩ :=
      visit_spec ha hb f st (hrows _ List.mem_cons_self)
    have hrun : p.forEach (((entity, a, b) :: rows).map fun row => row.1.index) f st =
        p'.forEach (rows.map fun row => row.1.index) f (f st entity a b).1 := by
      show List.foldl (visit f) (visit f (p, st) entity.index) _ = _
      rw [hvisit]
      rfl
    have hkept : ∀ row ∈ rows, p'.Holds row := by
      intro row hrow
      obtain ⟨hsameA, hsameB⟩ := hothers row.1.index (hfirst row hrow).symm
      obtain ⟨hrowA, hrowB⟩ := hrows row (List.mem_cons_of_mem _ hrow)
      exact ⟨hsameA.trans hrowA, hsameB.trans hrowB⟩
    obtain ⟨hstate, hwritten, hsame⟩ := ih ha' hb' (f st entity a b).1 hrest hkept
    rw [hrun]
    refine ⟨hstate, ?_, ?_⟩
    · intro row hrow
      rcases List.mem_cons.mp hrow with rfl | hrow
      · -- The later calls are at other entities.
        obtain ⟨hsameA, hsameB⟩ := hsame entity.index fun row hrow => (hfirst row hrow).symm
        exact ⟨hsameA.trans hholds.1, hsameB.trans hholds.2⟩
      · exact hwritten row hrow
    · intro i hi
      obtain ⟨hsameA, hsameB⟩ := hsame i fun row hrow => hi row (List.mem_cons_of_mem _ hrow)
      obtain ⟨holdA, holdB⟩ := hothers i (hi _ List.mem_cons_self).symm
      exact ⟨hsameA.trans holdA, hsameB.trans holdB⟩

/-- So a handle of no such entity, or a stale one of such a slot, has what it had. -/
theorem forEach_others (ha : p.storageA.Wf) (hb : p.storageB.Wf)
    (f : σ → Entity → A → B → σ × A × B) (st : σ) {rows : List (Entity × A × B)}
    (hdistinct : rows.Pairwise fun x y => x.1.index ≠ y.1.index) (hrows : ∀ row ∈ rows, p.Holds row)
    {entity : Entity} (hother : ∀ row ∈ rows, row.1 ≠ entity) :
    (∀ a, (p.forEach (rows.map fun row => row.1.index) f st).1.storageA.entry entity.index
        = some (entity.generation, a) ↔
      p.storageA.entry entity.index = some (entity.generation, a)) ∧
    ∀ b, (p.forEach (rows.map fun row => row.1.index) f st).1.storageB.entry entity.index
        = some (entity.generation, b) ↔
      p.storageB.entry entity.index = some (entity.generation, b) := by
  obtain ⟨-, hwritten, hsame⟩ := forEach_spec ha hb f st hdistinct hrows
  by_cases hslot : ∃ row ∈ rows, row.1.index = entity.index
  · obtain ⟨row, hrow, hindex⟩ := hslot
    obtain ⟨row', hrow', hsameRow⟩ : ∃ row' ∈ (calls f st rows).2, row'.1 = row.1 :=
      List.mem_map.mp (calls_map_fst f st rows ▸ List.mem_map_of_mem hrow)
    have hstale : row.1.generation ≠ entity.generation := by
      intro hgeneration
      refine hother row hrow ?_
      cases hentity : row.1
      rw [hentity] at hindex hgeneration
      cases entity
      rw [Entity.mk.injEq]
      exact ⟨hindex, hgeneration⟩
    obtain ⟨holdA, holdB⟩ := hrows row hrow
    obtain ⟨hnewA, hnewB⟩ := hwritten row' hrow'
    rw [hsameRow, hindex] at hnewA hnewB
    rw [hindex] at holdA holdB
    rw [holdA, holdB, hnewA, hnewB]
    refine ⟨fun a => iff_of_false ?_ ?_, fun b => iff_of_false ?_ ?_⟩
    all_goals
      intro heq
      exact hstale (congrArg Prod.fst (Option.some.inj heq))
  · obtain ⟨hsameA, hsameB⟩ := hsame entity.index fun row hrow hindex => hslot ⟨row, hrow, hindex⟩
    rw [hsameA, hsameB]
    exact ⟨fun _ => Iff.rfl, fun _ => Iff.rfl⟩

end WorldPair

/-! ## Pairs -/

namespace World

variable {C : Type} [DecidableEq C] {Val : C → Type} {w : World C Val}

/-- Both storages of a pair written back. -/
theorem storageAt_pair {a b : C} {ia ib : Nat} (hne : ia ≠ ib) {sa sa' : ComponentStorage (Val a)}
    {sb sb' : ComponentStorage (Val b)} (hsa : w.storageAt ia a = some sa)
    (hsb : w.storageAt ib b = some sb) :
    ((w.setStorage ia a sa').setStorage ib b sb').storageAt ia a = some sa' ∧
      ((w.setStorage ia a sa').setStorage ib b sb').storageAt ib b = some sb' :=
  ⟨(storageAt_setStorage_ne hne.symm _ a).trans (storageAt_setStorage_self hsa _),
    storageAt_setStorage_self ((storageAt_setStorage_ne hne _ b).trans hsb) _⟩

/-- The components of other types are the same. -/
theorem Inv.get_setStorage_pair (h : w.Inv) {a b c : C} {ia ib : Nat}
    (hia : w.slotIndex a = some ia) (hib : w.slotIndex b = some ib) (hca : c ≠ a) (hcb : c ≠ b)
    (sa : ComponentStorage (Val a)) (sb : ComponentStorage (Val b)) (entity : Entity) :
    ((w.setStorage ia a sa).setStorage ib b sb).get c entity = w.get c entity := by
  show (w.slotIndex c).bind _ = (w.slotIndex c).bind _
  cases hi : w.slotIndex c with
  | none => rfl
  | some i =>
    show Option.bind (storageAt _ i c) _ = Option.bind (storageAt _ i c) _
    rw [storageAt_setStorage_ne (h.slot_ne (Ne.symm hcb) hib hi),
      storageAt_setStorage_ne (h.slot_ne (Ne.symm hca) hia hi)]

/-- **A pair query over the candidates** calls its closure for the entities that have both
    components, in the order of their slots, on their own values; what it writes is what they have
    afterwards, and nothing else changes. -/
theorem Inv.pair_forEach (h : w.Inv) (hnarrow : w.Narrow) {a b : C} (hab : a ≠ b)
    {query : WorldPair (Val a) (Val b)} {done : WorldPair (Val a) (Val b) → World C Val}
    (hquery : w.pair a b = some (query, done)) : ∃ rows : List (Entity × Val a × Val b),
      rows.Pairwise (fun x y => x.1.index < y.1.index) ∧
      (∀ entity va vb, (entity, va, vb) ∈ rows ↔
        w.IsAlive entity ∧ w.get a entity = some va ∧ w.get b entity = some vb) ∧
      ∀ {σ : Type} (f : σ → Entity → Val a → Val b → σ × Val a × Val b) (st : σ),
        (query.forEach (w.collectIntersection a b) f st).2 = (WorldPair.calls f st rows).1 ∧
        (∀ row ∈ (WorldPair.calls f st rows).2,
          (done (query.forEach (w.collectIntersection a b) f st).1).get a row.1 = some row.2.1 ∧
          (done (query.forEach (w.collectIntersection a b) f st).1).get b row.1 = some row.2.2) ∧
        ∀ c entity, (c ≠ a ∧ c ≠ b ∨ ∀ row ∈ rows, row.1 ≠ entity) →
          (done (query.forEach (w.collectIntersection a b) f st).1).get c entity =
            w.get c entity := by
  obtain ⟨ia, ib, hia, hib, hne, hsa, hsb, rfl⟩ := pair_cases hquery
  obtain ⟨hsorted, hcandidates⟩ := collectIntersection_spec h hnarrow hia hib hsa hsb
  have hliveA := h.live (storageAt_eq_some_iff.mp hsa)
  have hliveB := h.live (storageAt_eq_some_iff.mp hsb)
  have hsame (i : UInt32) (g g' : UInt32) (va : Val a) (vb : Val b)
      (hA : query.storageA.entry i = some (g, va)) (hB : query.storageB.entry i = some (g', vb)) :
      g = g' := Option.some.inj ((hliveA i g va hA).symm.trans (hliveB i g' vb hB))
  have hmem := WorldPair.mem_rows hsame hcandidates
  have hindices := WorldPair.map_index_rows hcandidates
  have hrows := WorldPair.rows_sorted hsorted hcandidates
  refine ⟨query.rows (w.collectIntersection a b), hrows, ?_, ?_⟩
  · intro entity va vb
    rw [hmem, h.get_eq_some_iff hia hsa, h.get_eq_some_iff hib hsb]
    refine (and_iff_right_of_imp ?_).symm
    intro hall
    obtain ⟨hA, -⟩ := hall
    exact (w.entities.isAlive_iff entity).mpr (hliveA _ _ _ hA)
  · intro σ f st
    have hwfA := h.wf (storageAt_eq_some_iff.mp hsa)
    have hwfB := h.wf (storageAt_eq_some_iff.mp hsb)
    have hdistinct := hrows.imp UInt32.ne_of_lt
    have hspec := WorldPair.forEach_spec hwfA hwfB f st hdistinct fun row hrow => (hmem row).mp hrow
    have hothers := @WorldPair.forEach_others _ _ _ _ hwfA hwfB f st _ hdistinct
      fun row hrow => (hmem row).mp hrow
    rw [hindices] at hspec
    simp only [hindices] at hothers
    obtain ⟨hstate, hwritten, -⟩ := hspec
    have hinv := h.pair hquery f (w.collectIntersection a b) st
    set run := query.forEach (w.collectIntersection a b) f st
    obtain ⟨hnewA, hnewB⟩ :=
      @storageAt_pair _ _ _ w a b ia ib hne _ run.1.storageA _ run.1.storageB hsa hsb
    refine ⟨hstate, ?_, ?_⟩
    · intro row hrow
      obtain ⟨hA, hB⟩ := hwritten row hrow
      exact ⟨(hinv.get_eq_some_iff hia hnewA).mpr hA, (hinv.get_eq_some_iff hib hnewB).mpr hB⟩
    · intro c entity hc
      by_cases hca : c = a
      · subst hca
        have hother := hc.resolve_left fun hand => hand.1 rfl
        exact h.get_congr hinv hia hsa hia hnewA (hothers hother).1
      by_cases hcb : c = b
      · subst hcb
        have hother := hc.resolve_left fun hand => hand.2 rfl
        exact h.get_congr hinv hib hsb hib hnewB (hothers hother).2
      exact h.get_setStorage_pair hia hib hca hcb _ _ entity

/-- Without the one type or the other registered, no entity has both components. -/
theorem Inv.pair_none (h : w.Inv) {a b : C} (hab : a ≠ b) (hquery : w.pair a b = none)
    (entity : Entity) : w.get a entity = none ∨ w.get b entity = none := by
  cases hia : w.slotIndex a with
  | none =>
    refine .inl ?_
    rw [World.get, hia]
    rfl
  | some ia =>
    cases hib : w.slotIndex b with
    | none =>
      refine .inr ?_
      rw [World.get, hib]
      rfl
    | some ib =>
      obtain ⟨sa, hsa⟩ := h.exists_storageAt hia
      obtain ⟨sb, hsb⟩ := h.exists_storageAt hib
      have hsome : w.pair a b ≠ none := by
        simp [World.pair, hia, hib, hsa, hsb, h.slot_ne hab hia hib]
      exact absurd hquery hsome

/-- **Queries visit exactly the matching entities.** In every reachable world the walk over the
    live entities visits each of them once, in the order of their slots. And for two component
    types, a pair query over their candidates calls its closure once for each live entity that has
    both components, in the order of their slots, with the entity and its values, and what the
    closure writes is what it has afterwards; other entities, and other components, keep what they
    had. There is no such query only when no entity has both. -/
theorem queries (hw : Reachable w) {a b : C} (hab : a ≠ b) :
    (∃ visited : List Entity, visited.Pairwise (fun x y => x.index < y.index) ∧
      (∀ entity, entity ∈ visited ↔ w.IsAlive entity) ∧
      ∀ {σ : Type} (f : σ → Entity → σ) (st : σ),
        w.forEachEntity f st = visited.foldl f st) ∧
    (w.pair a b = none → ∀ entity, w.get a entity = none ∨ w.get b entity = none) ∧
    ∀ query done, w.pair a b = some (query, done) →
      ∃ rows : List (Entity × Val a × Val b),
        rows.Pairwise (fun x y => x.1.index < y.1.index) ∧
        (∀ entity va vb, (entity, va, vb) ∈ rows ↔
          w.IsAlive entity ∧ w.get a entity = some va ∧ w.get b entity = some vb) ∧
        ∀ {σ : Type} (f : σ → Entity → Val a → Val b → σ × Val a × Val b) (st : σ),
          (query.forEach (w.collectIntersection a b) f st).2 = (WorldPair.calls f st rows).1 ∧
          (∀ row ∈ (WorldPair.calls f st rows).2,
            (done (query.forEach (w.collectIntersection a b) f st).1).get a row.1 = some row.2.1 ∧
            (done (query.forEach (w.collectIntersection a b) f st).1).get b row.1 =
              some row.2.2) ∧
          ∀ c entity, (c ≠ a ∧ c ≠ b ∨ ∀ row ∈ rows, row.1 ≠ entity) →
            (done (query.forEach (w.collectIntersection a b) f st).1).get c entity =
              w.get c entity :=
  ⟨hw.inv.forEachEntity, hw.inv.pair_none hab,
    fun _ _ hquery => hw.inv.pair_forEach hw.narrow hab hquery⟩

/-- One entity with a number of each of two kinds. -/
def twoNumbers : World Bool fun _ => Nat :=
  (((new.trySpawn true true).2.tryInsert ⟨true, true, true, true⟩ true ⟨0, 0⟩ 7).2.tryInsert
    ⟨true, true, true, true⟩ false ⟨0, 0⟩ 5).2

/-- The closure is called for the entity, and with both of its numbers. -/
theorem queries_twoNumbers : ∃ query done, twoNumbers.pair true false = some (query, done) ∧
    ∃ rows, (⟨0, 0⟩, 7, 5) ∈ rows ∧
      ∀ {σ : Type} (f : σ → Entity → Nat → Nat → σ × Nat × Nat) (st : σ),
        (query.forEach (twoNumbers.collectIntersection true false) f st).2 =
          (WorldPair.calls f st rows).1 := by
  have hreachable : Reachable twoNumbers :=
    .tail (.tail (.single ⟨(), .trySpawn new true true⟩)
      ⟨(), .tryInsert _ ⟨true, true, true, true⟩ true ⟨0, 0⟩ 7⟩)
      ⟨(), .tryInsert _ ⟨true, true, true, true⟩ false ⟨0, 0⟩ 5⟩
  obtain ⟨query, done, hquery⟩ : ∃ query done, twoNumbers.pair true false = some (query, done) :=
    ⟨_, _, rfl⟩
  obtain ⟨rows, -, hrows, hrun⟩ := (queries hreachable (by decide)).2.2 query done hquery
  refine ⟨query, done, hquery, rows, (hrows _ _ _).mpr ⟨by decide, rfl, rfl⟩, ?_⟩
  intro σ f st
  exact (hrun f st).1

end World

end Ecs
end EngineKit
