import EngineKit.Ui.Walk

/-!
# The glyph atlas

`GlyphAtlas` of `src/subsystems/ui/text.rs`: a grid of places, 64 by 64 pixels each and 256 in a
row, handed out in turn. A slot has the size that was asked for, and nothing holds that against the
size of its place.

So slots keep apart as long as all of them fit their places, and with one size that does not there
is a run in which two overlap (`atlas_disjoint_iff`). Their generations are distinct in every run.
-/

set_option autoImplicit false

namespace EngineKit
namespace Ui

open Lib

structure AtlasSlot where
  generation : UInt32
  x : UInt16
  y : UInt16
  width : UInt16
  height : UInt16
deriving DecidableEq

structure GlyphAtlas where
  slots : List (Option AtlasSlot)
  capacity : Nat
  next : Nat
  sized : slots.length = capacity
  bounded : capacity ≤ 65536

namespace GlyphAtlas

/-- `room` says whether there is memory for the slots. -/
def tryNew (room : Bool) (config : PaintConfig) : Except UiError GlyphAtlas :=
  if room then
    .ok
      { slots := List.replicate (min config.maxGlyphs 65536) none
        capacity := min config.maxGlyphs 65536
        next := 0
        sized := List.length_replicate
        bounded := Nat.min_le_right _ _ }
  else .error .allocationFailed

/-- The slot at the place `index`. -/
def place (generation : UInt32) (index : Nat) (width height : UInt16) : AtlasSlot where
  generation := generation
  x := UInt16.ofNat (index % 256) * 64
  y := UInt16.ofNat (index / 256) * 64
  width := width
  height := height

/-- A generation that does not fit its type is counted all the same. -/
def allocate (atlas : GlyphAtlas) (width height : UInt16) : Except UiError AtlasSlot × GlyphAtlas :=
  if width = 0 ∨ height = 0 ∨ atlas.capacity = 0 then (.error .invalidValue, atlas)
  else
    match checkedAdd atlas.next 1 with
    | none => (.error .indexOverflow, atlas)
    | some next =>
      match u32TryFrom next with
      | none => (.error .indexOverflow, { atlas with next })
      | some generation =>
        let index := atlas.next % atlas.capacity
        let slot := place generation index width height
        (.ok slot,
          { atlas with
            slots := atlas.slots.set index (some slot)
            next := next
            sized := List.length_set.trans atlas.sized })

def evictGeneration (atlas : GlyphAtlas) (generation : UInt32) : Nat × GlyphAtlas :=
  let evicted (slot : Option AtlasSlot) := slot.any fun slot => slot.generation == generation
  (atlas.slots.countP evicted,
    { atlas with
      slots := atlas.slots.map fun slot => if evicted slot then none else slot
      sized := (List.length_map _).trans atlas.sized })

end GlyphAtlas

/-! ## What a slot covers -/

/-- The pixel is in `[x, x + width) × [y, y + height)`. -/
def AtlasSlot.Covers (slot : AtlasSlot) (px py : Nat) : Prop :=
  (slot.x.toNat ≤ px ∧ px < slot.x.toNat + slot.width.toNat) ∧
    slot.y.toNat ≤ py ∧ py < slot.y.toNat + slot.height.toNat

instance (slot : AtlasSlot) (px py : Nat) : Decidable (slot.Covers px py) :=
  inferInstanceAs (Decidable ((_ ∧ _) ∧ _))

/-- A slot that leaves its neighbours alone: each way it is as large as a place, or there is only
    one place that way. -/
def FitsPlace (capacity : Nat) (width height : UInt16) : Prop :=
  (width.toNat ≤ 64 ∨ capacity ≤ 1) ∧ (height.toNat ≤ 64 ∨ capacity ≤ 256)

theorem toNat_mul_place {n : Nat} (h : n < 256) : (UInt16.ofNat n * 64).toNat = n * 64 := by
  have hn : (UInt16.ofNat n).toNat = n := UInt16.toNat_ofNat_of_lt' (by change n < 65536; omega)
  have hplace : (64 : UInt16).toNat = 64 := rfl
  rw [UInt16.toNat_mul, hn, hplace]
  exact Nat.mod_eq_of_lt (by omega)

/-- Where the place of an index is. -/
theorem covers_place {generation : UInt32} {index : Nat} {width height : UInt16}
    (h : index < 65536) (px py : Nat) :
    (GlyphAtlas.place generation index width height).Covers px py ↔
      (index % 256 * 64 ≤ px ∧ px < index % 256 * 64 + width.toNat) ∧
        index / 256 * 64 ≤ py ∧ py < index / 256 * 64 + height.toNat := by
  have hx : (UInt16.ofNat (index % 256) * 64).toNat = index % 256 * 64 :=
    toNat_mul_place (Nat.mod_lt _ (by decide))
  have hy : (UInt16.ofNat (index / 256) * 64).toNat = index / 256 * 64 :=
    toNat_mul_place (by omega)
  simp only [AtlasSlot.Covers, GlyphAtlas.place, hx, hy]

/-- **Two slots that fit**, at two places. -/
theorem disjoint_of_fitsPlace {capacity i j : Nat} (hi : i < capacity) (hj : j < capacity)
    (hne : i ≠ j) (hbounded : capacity ≤ 65536) {g g' : UInt32}
    {width height width' height' : UInt16}
    (h : FitsPlace capacity width height) (h' : FitsPlace capacity width' height') (px py : Nat) :
    ¬ ((GlyphAtlas.place g i width height).Covers px py ∧
      (GlyphAtlas.place g' j width' height').Covers px py) := by
  rw [covers_place (by omega), covers_place (by omega)]
  obtain ⟨hwidth, hheight⟩ := h
  obtain ⟨hwidth', hheight'⟩ := h'
  intro hboth
  obtain ⟨⟨⟨hx, hx'⟩, hy, hy'⟩, ⟨kx, kx'⟩, ky, ky'⟩ := hboth
  by_cases hrow : i / 256 = j / 256
  · -- in one row: the columns differ
    have hcolumn : i % 256 ≠ j % 256 := by omega
    omega
  · omega

/-! ## Runs -/

inductive AtlasCall where
  | allocate (width height : UInt16)
  | evictGeneration (generation : UInt32)
deriving DecidableEq

namespace GlyphAtlas

def call (atlas : GlyphAtlas) : AtlasCall → GlyphAtlas
  | .allocate width height => (atlas.allocate width height).2
  | .evictGeneration generation => (atlas.evictGeneration generation).2

def run (atlas : GlyphAtlas) (calls : List AtlasCall) : GlyphAtlas := calls.foldl call atlas

/-- What is at an index: a slot in its place, of a size some call asked for, and of a generation
    that was counted when it was that index's turn. -/
def Ok (sizes : UInt16 → UInt16 → Prop) (atlas : GlyphAtlas) : Prop :=
  ∀ i slot, atlas.slots[i]? = some (some slot) →
    ∃ generation width height, slot = place generation i width height ∧
      sizes width height ∧ width ≠ 0 ∧ height ≠ 0 ∧
        ∃ turn, generation.toNat = turn + 1 ∧ turn % atlas.capacity = i

variable {sizes : UInt16 → UInt16 → Prop} {atlas : GlyphAtlas}

@[simp] theorem capacity_call (atlas : GlyphAtlas) (c : AtlasCall) :
    (atlas.call c).capacity = atlas.capacity := by
  cases c with
  | evictGeneration generation => rfl
  | allocate width height =>
    simp only [call, allocate]
    by_cases hzero : width = 0 ∨ height = 0 ∨ atlas.capacity = 0
    · rw [if_pos hzero]
    rw [if_neg hzero]
    cases checkedAdd atlas.next 1 with
    | none => rfl
    | some next =>
      cases hgeneration : u32TryFrom next with
      | none => simp only [hgeneration]
      | some generation => simp only [hgeneration]

theorem Ok.allocate (h : atlas.Ok sizes) {width height : UInt16} (hsize : sizes width height) :
    (atlas.call (.allocate width height)).Ok sizes := by
  simp only [call, GlyphAtlas.allocate]
  by_cases hzero : width = 0 ∨ height = 0 ∨ atlas.capacity = 0
  · rw [if_pos hzero]
    exact h
  rw [if_neg hzero]
  push Not at hzero
  obtain ⟨hwidth, hheight, -⟩ := hzero
  cases hnext : checkedAdd atlas.next 1 with
  | none => exact h
  | some next =>
    cases hgeneration : u32TryFrom next with
    | none =>
      -- The turn is taken, and no slot written.
      simp only [hgeneration]
      exact h
    | some generation =>
      simp only [hgeneration]
      intro i slot hslot
      rw [List.getElem?_set] at hslot
      by_cases hi : atlas.next % atlas.capacity = i
      · rw [if_pos hi] at hslot
        split at hslot
        · obtain rfl := Option.some.inj (Option.some.inj hslot)
          have hturn : generation.toNat = atlas.next + 1 := by
            rw [toNat_of_u32TryFrom hgeneration, eq_of_checkedAdd hnext]
          exact ⟨generation, width, height, hi ▸ rfl, hsize, hwidth, hheight, atlas.next, hturn, hi⟩
        · exact absurd hslot (by simp)
      · rw [if_neg hi] at hslot
        exact h i slot hslot

theorem Ok.evictGeneration (h : atlas.Ok sizes) (generation : UInt32) :
    (atlas.call (.evictGeneration generation)).Ok sizes := by
  intro i slot hslot
  change (atlas.slots.map _)[i]? = _ at hslot
  rw [List.getElem?_map, Option.map_eq_some_iff] at hslot
  obtain ⟨before, hbefore, hkept⟩ := hslot
  split at hkept
  · exact absurd hkept (by simp)
  · rw [hkept] at hbefore
    exact h i slot hbefore

theorem Ok.run (h : atlas.Ok sizes) {calls : List AtlasCall}
    (hcalls : ∀ width height, .allocate width height ∈ calls → sizes width height) :
    (atlas.run calls).Ok sizes := by
  induction calls generalizing atlas with
  | nil => exact h
  | cons c calls ih =>
    have hrest : ∀ width height, .allocate width height ∈ calls → sizes width height := by
      intro width height hmem
      exact hcalls width height (List.mem_cons_of_mem c hmem)
    cases c with
    | allocate width height =>
      exact ih (h.allocate (hcalls width height List.mem_cons_self)) hrest
    | evictGeneration generation => exact ih (h.evictGeneration generation) hrest

theorem Ok.tryNew {room : Bool} {config : PaintConfig}
    (h : GlyphAtlas.tryNew room config = .ok atlas) : atlas.Ok sizes := by
  cases room with
  | false => exact absurd h (by simp [GlyphAtlas.tryNew])
  | true =>
    cases h
    intro i slot hslot
    exact absurd (List.eq_of_mem_replicate (List.mem_of_getElem? hslot)) (by simp)

/-! ## Generations and places -/

/-- No two slots have one generation. -/
def DistinctGenerations (atlas : GlyphAtlas) : Prop :=
  ∀ (i j : Nat) (a b : AtlasSlot), i ≠ j →
    atlas.slots[i]? = some (some a) → atlas.slots[j]? = some (some b) →
      a.generation ≠ b.generation

/-- No two slots have a pixel in common. -/
def Apart (atlas : GlyphAtlas) : Prop :=
  ∀ (i j : Nat) (a b : AtlasSlot), i ≠ j →
    atlas.slots[i]? = some (some a) → atlas.slots[j]? = some (some b) →
      ∀ px py, ¬ (a.Covers px py ∧ b.Covers px py)

theorem Ok.distinctGenerations (h : atlas.Ok sizes) : atlas.DistinctGenerations := by
  intro i j a b hne ha hb heq
  obtain ⟨_, _, _, rfl, _, _, _, turn, hturn, hi⟩ := h i a ha
  obtain ⟨_, _, _, rfl, _, _, _, turn', hturn', hj⟩ := h j b hb
  have hgeneration := congrArg UInt32.toNat heq
  simp only [place, hturn, hturn', Nat.add_right_cancel_iff] at hgeneration
  exact hne (hi.symm.trans (hgeneration ▸ hj))

theorem Ok.apart (h : atlas.Ok sizes)
    (hfits : ∀ width height, sizes width height → width ≠ 0 → height ≠ 0 →
      FitsPlace atlas.capacity width height) : atlas.Apart := by
  intro i j a b hne ha hb px py
  have hi := (List.getElem?_eq_some_iff.mp ha).1
  have hj := (List.getElem?_eq_some_iff.mp hb).1
  rw [atlas.sized] at hi hj
  obtain ⟨_, width, height, rfl, hsize, hwidth, hheight, _⟩ := h i a ha
  obtain ⟨_, width', height', rfl, hsize', hwidth', hheight', _⟩ := h j b hb
  exact disjoint_of_fitsPlace hi hj hne atlas.bounded (hfits width height hsize hwidth hheight)
    (hfits width' height' hsize' hwidth' hheight') px py

/-! ## One size that does not fit -/

theorem capacity_run (atlas : GlyphAtlas) (calls : List AtlasCall) :
    (atlas.run calls).capacity = atlas.capacity := by
  induction calls generalizing atlas with
  | nil => rfl
  | cons c calls ih =>
    show ((atlas.call c).run calls).capacity = _
    rw [ih, capacity_call]

/-- The first time around, the turn is that of the next place. -/
theorem call_allocate_fresh {width height : UInt16} (hwidth : width ≠ 0) (hheight : height ≠ 0)
    (hnext : atlas.next < atlas.capacity) :
    (atlas.call (.allocate width height)).next = atlas.next + 1 ∧
      ∃ generation, (atlas.call (.allocate width height)).slots =
        atlas.slots.set atlas.next (some (place generation atlas.next width height)) := by
  have hbounded := atlas.bounded
  have hzero : ¬ (width = 0 ∨ height = 0 ∨ atlas.capacity = 0) := by
    simp [hwidth, hheight]
    omega
  have hturn : checkedAdd atlas.next 1 = some (atlas.next + 1) := checkedAdd_of_lt (by omega)
  have hgeneration : u32TryFrom (atlas.next + 1) = some (UInt32.ofNat (atlas.next + 1)) :=
    if_pos (by omega)
  simp only [call, allocate, if_neg hzero, hturn, hgeneration, Nat.mod_eq_of_lt hnext]
  exact ⟨trivial, _, rfl⟩

/-- **The first time around** the places are filled in order. -/
theorem run_replicate (hstart : atlas.next = 0) {width height : UInt16} (hwidth : width ≠ 0)
    (hheight : height ≠ 0) {n : Nat} (hn : n ≤ atlas.capacity) :
    (atlas.run (List.replicate n (.allocate width height))).next = n ∧
      ∀ i < n, ∃ generation,
        (atlas.run (List.replicate n (.allocate width height))).slots[i]? =
          some (some (place generation i width height)) := by
  induction n with
  | zero => exact ⟨hstart, by simp⟩
  | succ n ih =>
    obtain ⟨hnext, hslots⟩ := ih (by omega)
    have hstep : atlas.run (List.replicate (n + 1) (.allocate width height)) =
        (atlas.run (List.replicate n (.allocate width height))).call
          (.allocate width height) := by
      rw [List.replicate_succ', run, List.foldl_append]
      rfl
    rw [hstep]
    generalize hbefore : atlas.run (List.replicate n (.allocate width height)) = before at *
    have hcapacity : before.capacity = atlas.capacity := by rw [← hbefore, capacity_run]
    have hroom : before.next < before.capacity := by omega
    obtain ⟨hnext', generation, hslots'⟩ := call_allocate_fresh hwidth hheight hroom
    refine ⟨by omega, ?_⟩
    intro i hi
    rw [hslots', hnext, List.getElem?_set]
    by_cases hlast : n = i
    · have hlt : n < before.slots.length := by
        rw [before.sized]
        omega
      rw [if_pos hlast, if_pos hlt, ← hlast]
      exact ⟨generation, rfl⟩
    · rw [if_neg hlast]
      exact hslots i (by omega)

/-- **A size that does not fit** overlaps itself: at the first two places if it is too wide, at
    the first places of the first two rows if it is too high. -/
theorem exists_overlap (hstart : atlas.next = 0) {width height : UInt16} (hwidth : width ≠ 0)
    (hheight : height ≠ 0) (hfits : ¬ FitsPlace atlas.capacity width height) :
    ∃ n, ¬ (atlas.run (List.replicate n (.allocate width height))).Apart := by
  have hpos : width.toNat ≠ 0 ∧ height.toNat ≠ 0 := by
    rw [Ne, Ne, ← UInt16.toNat_zero, UInt16.toNat_inj, UInt16.toNat_inj]
    exact ⟨hwidth, hheight⟩
  by_cases hwide : width.toNat ≤ 64 ∨ atlas.capacity ≤ 1
  · -- Too high, with a second row to run into: 257 slots, the last below the first.
    have hhigh : 64 < height.toNat ∧ 256 < atlas.capacity := by
      simp only [FitsPlace, hwide, true_and] at hfits
      omega
    obtain ⟨_, hslots⟩ := run_replicate hstart hwidth hheight (n := 257) (by omega)
    obtain ⟨g, hfirst⟩ := hslots 0 (by decide)
    obtain ⟨g', hbelow⟩ := hslots 256 (by decide)
    refine ⟨257, ?_⟩
    intro hapart
    refine hapart 0 256 _ _ (by decide) hfirst hbelow 0 64 ?_
    rw [covers_place (by decide), covers_place (by decide)]
    omega
  · -- Too wide, with a second place beside the first.
    obtain ⟨_, hslots⟩ := run_replicate hstart hwidth hheight (n := 2) (by omega)
    obtain ⟨g, hfirst⟩ := hslots 0 (by decide)
    obtain ⟨g', hright⟩ := hslots 1 (by decide)
    refine ⟨2, ?_⟩
    intro hapart
    refine hapart 0 1 _ _ (by decide) hfirst hright 64 0 ?_
    rw [covers_place (by decide), covers_place (by decide)]
    omega

theorem next_tryNew {room : Bool} {config : PaintConfig}
    (h : tryNew room config = .ok atlas) : atlas.next = 0 := by
  cases room with
  | false => exact absurd h (by simp [tryNew])
  | true =>
    cases h
    rfl

/-- **When slots keep apart.** Generations are distinct in every run. Of the runs that ask for
    certain sizes only, all keep their slots apart exactly if each of the sizes fits. -/
theorem atlas_disjoint_iff {room : Bool} {config : PaintConfig} {atlas : GlyphAtlas}
    (hnew : tryNew room config = .ok atlas) (sizes : UInt16 → UInt16 → Prop) :
    (∀ calls, (atlas.run calls).DistinctGenerations) ∧
      ((∀ calls, (∀ width height, .allocate width height ∈ calls → sizes width height) →
          (atlas.run calls).Apart) ↔
        ∀ width height, sizes width height → width ≠ 0 → height ≠ 0 →
          FitsPlace atlas.capacity width height) := by
  constructor
  · intro calls
    have hok : atlas.Ok fun _ _ => True := .tryNew hnew
    exact (hok.run fun _ _ _ => trivial).distinctGenerations
  · constructor
    · intro hruns width height hsize hwidth hheight
      by_contra hfits
      obtain ⟨n, hoverlap⟩ := exists_overlap (next_tryNew hnew) hwidth hheight hfits
      refine hoverlap (hruns _ ?_)
      intro width' height' hmem
      cases List.eq_of_mem_replicate hmem
      exact hsize
    · intro hfits calls hcalls
      have hok : atlas.Ok sizes := .tryNew hnew
      refine (hok.run hcalls).apart ?_
      rw [capacity_run]
      exact hfits

/-- Two glyphs, and the other quotas as they are by default. -/
def twoGlyphs : PaintConfig := ⟨.defaults, 2, 8192, 8192, by decide⟩

/-- Glyphs of 8 by 8 pixels, allocated and evicted in any order. -/
theorem atlas_disjoint_eight :
    ∃ atlas, tryNew true twoGlyphs = .ok atlas ∧
      ∀ calls, (∀ width height, .allocate width height ∈ calls → width = 8 ∧ height = 8) →
        (atlas.run calls).Apart := by
  have hnew : tryNew true twoGlyphs = .ok _ := rfl
  refine ⟨_, hnew, (atlas_disjoint_iff hnew fun width height => width = 8 ∧ height = 8).2.mpr ?_⟩
  intro width height hsize _ _
  obtain ⟨rfl, rfl⟩ := hsize
  exact ⟨Or.inl (by decide), Or.inl (by decide)⟩

/-- **A slot one pixel too wide** covers the first pixel of the next. -/
theorem allocate_wide :
    ∃ atlas, tryNew true twoGlyphs = .ok atlas ∧
      (atlas.run [.allocate 65 1, .allocate 1 1]).slots =
        [some ⟨1, 0, 0, 65, 1⟩, some ⟨2, 64, 0, 1, 1⟩] ∧
      AtlasSlot.Covers ⟨1, 0, 0, 65, 1⟩ 64 0 ∧ AtlasSlot.Covers ⟨2, 64, 0, 1, 1⟩ 64 0 :=
  ⟨_, rfl, by decide, by decide, by decide⟩

end GlyphAtlas

end Ui
end EngineKit
