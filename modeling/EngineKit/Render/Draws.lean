import EngineKit.Lib.Runs
import EngineKit.Render.Present
import EngineKit.Ui.Walk

/-!
# Draws cover the paint list

`build_batches` cuts the paint list into its runs of equal batch keys (`finishBuild_cut`): the last
batch always ends where the next item is, so the key alone decides whether it takes the item. The
renderer draws one batch after another, so its draws are those runs.

The code compares a new item with the last batch in two respects, its key and where it ends. The
second is always true, and as long as that is not known a list could be cut in more places than its
keys change. So the invariant of the loop is a statement about all batches so far, `Cut`, from which
the end of the last one follows. `Cut` has only one solution for a list of keys, which is why
nothing has to be said of the batches themselves (`Covers.unique`).
-/

set_option autoImplicit false

namespace EngineKit
namespace Ui

open Lib Render

variable {F : Type}

/-- A batch as a run of keys. -/
def UiBatch.run (batch : UiBatch) : Run UiBatchKey :=
  ⟨batch.key, batch.first.toNat, batch.count.toNat⟩

/-- The numbers of a batch are those of its run. -/
theorem UiBatch.run_inj {a b : UiBatch} (h : a.run = b.run) : a = b := by
  obtain ⟨key, first, count⟩ := a
  obtain ⟨key', first', count'⟩ := b
  obtain ⟨rfl, hfirst, hcount⟩ := Run.mk.inj h
  obtain rfl := UInt32.toNat_inj.mp hfirst
  obtain rfl := UInt32.toNat_inj.mp hcount
  rfl

/-- A new batch is a new run, after a run of another key. -/
theorem openBatch_cut {config : UiConfig} {batches batches' : List UiBatch} {key : UiBatchKey}
    {index : UInt32} {keys : List UiBatchKey}
    (h : openBatch config batches key index = .ok batches')
    (hcut : Cut 0 keys (batches.map UiBatch.run)) (hindex : keys.length = index.toNat)
    (hlast : ∀ last ∈ batches.getLast?, last.key ≠ key) :
    Cut 0 (keys ++ [key]) (batches'.map UiBatch.run) := by
  unfold openBatch at h
  split at h
  · exact absurd h (by simp)
  · obtain rfl := Except.ok.inj h
    have hnew := hcut.start (k := key) (by
      intro r hr
      rw [List.getLast?_map] at hr
      obtain ⟨last, hmem, rfl⟩ := Option.map_eq_some_iff.mp hr
      exact hlast last hmem)
    rw [Nat.zero_add, hindex] at hnew
    rw [List.map_append]
    exact hnew

/-- **One item.** The last batch takes it exactly when the keys agree. -/
theorem pushBatch_cut {config : UiConfig} {batches batches' : List UiBatch} {index : Nat}
    {item : PaintItem F} {keys : List UiBatchKey}
    (h : pushBatch config batches index item = .ok batches') (hindex : index + 1 < 2 ^ 32)
    (hcut : Cut 0 keys (batches.map UiBatch.run)) (hlen : keys.length = index) :
    Cut 0 (keys ++ [item.key]) (batches'.map UiBatch.run) := by
  obtain ⟨i, hi, hcases⟩ := pushBatch_cases h
  obtain rfl : i.toNat = index := toNat_of_u32TryFrom hi
  -- the last batch ends at the item's index
  have hend {last : UiBatch} (hsplit : batches.dropLast ++ [last] = batches) :
      Cut 0 keys (batches.dropLast.map UiBatch.run ++ [last.run]) ∧
        last.first.toNat + last.count.toNat = i.toNat := by
    have hruns : batches.map UiBatch.run = batches.dropLast.map UiBatch.run ++ [last.run] := by
      rw [← List.map_singleton, ← List.map_append, hsplit]
    rw [hruns] at hcut
    have hstop := hcut.last
    rw [Nat.zero_add, hlen] at hstop
    exact ⟨hcut, hstop⟩
  -- No batch to take the item, or one of another key; or the last one grows.
  rcases hcases with ⟨hopen, hnot⟩ | ⟨last, hsplit, hkey, rfl⟩
  · refine openBatch_cut hopen hcut hlen fun last hlast heq => hnot last hlast ⟨heq, ?_⟩
    rw [u32CheckedAdd, (hend (List.dropLast_append_getLast? last hlast)).2]
    exact hi
  · obtain ⟨hsame, hstop⟩ := hend hsplit
    have hone : (1 : UInt32).toNat = 1 := rfl
    have hgrow := toNat_u32SaturatingAdd (show last.count.toNat + (1 : UInt32).toNat < 2 ^ 32 by
      omega)
    have hcut' : Cut 0 keys (batches.dropLast.map UiBatch.run ++
        [⟨item.key, last.first.toNat, last.count.toNat⟩]) := by
      rw [← hkey]
      exact hsame
    rw [List.map_append, List.map_singleton, UiBatch.run, hgrow, hone, hkey]
    exact hcut'.grow

/-- **All items**, in their order. -/
theorem buildBatches_cut {config : UiConfig} {items : List (PaintItem F)} {index : Nat}
    {batches batches' : List UiBatch} {keys : List UiBatchKey}
    (h : buildBatches config index items batches = .ok batches')
    (hindex : index + items.length < 2 ^ 32) (hcut : Cut 0 keys (batches.map UiBatch.run))
    (hlen : keys.length = index) :
    Cut 0 (keys ++ items.map PaintItem.key) (batches'.map UiBatch.run) := by
  induction items generalizing index batches keys with
  | nil =>
    obtain rfl := Except.ok.inj h
    rw [List.map_nil, List.append_nil]
    exact hcut
  | cons item items ih =>
    rw [List.length_cons] at hindex
    simp only [buildBatches, bind_eq_ok] at h
    obtain ⟨next, hpush, hrest⟩ := h
    have hnext := pushBatch_cut hpush (by omega) hcut hlen
    have := ih hrest (by omega) hnext (by rw [List.length_append, hlen]; rfl)
    rwa [List.append_assoc, List.singleton_append] at this

/-- **The batches of a finished list** are the runs of its items' keys. -/
theorem finishBuild_cut {list list' : UiPaintList F} {plan : UiUploadPlan}
    (h : list.finishBuild = .ok (list', plan)) :
    list'.items = list.items ∧ list'.clips = list.clips ∧
      Cut 0 (list'.items.map PaintItem.key) (list'.batches.map UiBatch.run) := by
  obtain ⟨batches, glyphs, rfl, hbatches, -, hitems, -⟩ := finishBuild_ok h
  have hlt := lt_of_u32TryFrom hitems
  exact ⟨rfl, rfl, buildBatches_cut hbatches (by omega) (.nil 0) rfl⟩

/-! ## Records -/

/-- What a record says of its item's batch key. The pass is not in it: it goes with the kind. -/
def UiRenderItem.Keyed (record : UiRenderItem F) (key : UiBatchKey) : Prop :=
  record.clip = key.clip ∧ record.texture = key.texture ∧ record.font = key.font ∧
    record.zIndex = key.zIndex ∧ record.kind = key.kind

section Records

variable [Scalar F]

/-- A record has what the shader needs of the key. -/
theorem renderItem_keyed (clips : List (UiClip F)) (item : PaintItem F) (count offset : UInt32) :
    (renderItem clips item count offset).Keyed item.key := by
  obtain ⟨node, rect, clip, zIndex, opacity, kind⟩ := item
  cases kind <;> exact ⟨rfl, rfl, rfl, rfl, rfl⟩

/-- The records of a snapshot, item by item. -/
theorem snapshotItems_records {clips : List (UiClip F)} {items : List (PaintItem F)}
    {out : List (UiRenderItem F)} {glyphs : List (Glyph F)}
    (hglyphs : glyphs.length + (items.map fun item => item.kind.glyphs.length).sum < 2 ^ 32) :
    ∃ records glyphs', snapshotItems clips items out glyphs = .ok (out ++ records, glyphs') ∧
      List.Forall₂ (fun item record => UiRenderItem.Keyed record (PaintItem.key item)) items
        records ∧
      records.map (fun record => record.glyphCount.toNat) =
        items.map fun item => item.kind.glyphs.length := by
  -- On the items, with the glyphs that are out already.
  induction items generalizing out glyphs with
  | nil => exact ⟨[], glyphs, by rw [List.append_nil]; rfl, .nil, rfl⟩
  | cons item items ih =>
    rw [List.map_cons, List.sum_cons] at hglyphs
    obtain ⟨offset, hoffset⟩ : ∃ n, u32TryFrom glyphs.length = some n := ⟨_, if_pos (by omega)⟩
    obtain ⟨count, hcount⟩ : ∃ n, u32TryFrom item.kind.glyphs.length = some n :=
      ⟨_, if_pos (by omega)⟩
    have hnat : (renderItem clips item count offset).glyphCount.toNat = item.kind.glyphs.length :=
      toNat_of_u32TryFrom hcount
    obtain ⟨records, glyphs', hcall, hkeyed, hcounts⟩ :=
      @ih (out ++ [renderItem clips item count offset]) (glyphs ++ item.kind.glyphs)
        (by rw [List.length_append]; omega)
    refine ⟨renderItem clips item count offset :: records, glyphs', ?_,
      .cons (renderItem_keyed clips item count offset) hkeyed, ?_⟩
    · rw [List.append_assoc, List.singleton_append] at hcall
      simp [snapshotItems, hoffset, hcount, orOverflow, bind, Except.bind, hcall]
    · rw [List.map_cons, List.map_cons, hnat, hcounts]

/-- **A finished list has a snapshot.** -/
theorem snapshot_of_finishBuild {list list' : UiPaintList F} {plan : UiUploadPlan}
    (h : list.finishBuild = .ok (list', plan)) :
    ∃ snapshot, list'.snapshot = .ok snapshot ∧ snapshot.batches = list'.batches ∧
      List.Forall₂ (fun item record => UiRenderItem.Keyed record (PaintItem.key item)) list'.items
        snapshot.items := by
  obtain ⟨batches, glyphs, rfl, -, hglyphs, hitems, hbatches, hcount, hupload⟩ := finishBuild_ok h
  have hsum := eq_of_checkedSum hglyphs
  have hlt := lt_of_u32TryFrom hcount
  obtain ⟨records, glyphs', hcall, hkeyed, hcounts⟩ :=
    @snapshotItems_records F _ list.clips list.items [] [] (by rw [List.length_nil]; omega)
  have hlen : records.length = list.items.length := hkeyed.length_eq.symm
  rw [List.nil_append] at hcall
  refine ⟨⟨records, batches, glyphs', plan⟩, ?_, rfl, hkeyed⟩
  simp [UiPaintList.snapshot, hcall, hcounts, hglyphs, hlen, hupload, hitems, hbatches, hcount,
    orOverflow, bind, Except.bind]

end Records

/-! ## Draws -/

/-- The items a draw shows. -/
def drawIndices (draw : UiDrawCommand) : List Nat :=
  List.range' draw.firstInstance.toNat draw.instanceCount.toNat

/-- A paint list, the snapshot of it and the draws of the snapshot: the batches are the runs of
    the items' keys, and the draws are the batches. -/
structure Covers (list : UiPaintList F) (snapshot : UiRenderSnapshot F)
    (draws : List UiDrawCommand) : Prop where
  runs : Cut 0 (list.items.map PaintItem.key) (list.batches.map UiBatch.run)
  unique (batches : List UiBatch) :
    Cut 0 (list.items.map PaintItem.key) (batches.map UiBatch.run) → batches = list.batches
  perBatch : List.Forall₂ (fun batch draw => draw.firstInstance = batch.first ∧
    draw.instanceCount = batch.count ∧ ∀ i ∈ drawIndices draw,
      ∃ record, snapshot.items[i]? = some record ∧ UiRenderItem.Keyed record batch.key)
    list.batches draws
  indices : draws.flatMap drawIndices = List.range list.items.length

/-- **The draws cover the paint list**, for every list that was built. -/
theorem draws_cover_list [Coord F] {scene : Scene F} {t : UiTree F} {list : UiPaintList F}
    {plan : UiUploadPlan} (h : buildWithResources scene t = .ok (list, plan)) :
    ∃ snapshot, list.snapshot = .ok snapshot ∧
      ∃ commandPlan, UiCommandPlan.tryBuild snapshot = .ok commandPlan ∧
      ∃ draws, UiCommandPlan.buildDrawCommands snapshot = .ok draws ∧
        Covers list snapshot draws := by
  simp only [buildWithResources, bind_eq_ok, monadLift_eq_ok] at h
  obtain ⟨_, -, order, -, p, -, q, -, hfinish⟩ := h
  obtain ⟨hitems, hclips, hcut⟩ := finishBuild_cut hfinish
  obtain ⟨hitemCount, hbatchCount⟩ := finishBuild_counts hfinish
  obtain ⟨snapshot, hsnap, hbatches, hkeyed⟩ := snapshot_of_finishBuild hfinish
  have hlen : snapshot.items.length = list.items.length := hkeyed.length_eq.symm
  have hdraw : Drawable snapshot := by
    refine ⟨?_, ?_, ?_, (UiPaintList.snapshot_spec hsnap).2.2⟩
    · rw [hbatches, hlen]
      exact finishBuild_tiles hfinish
    · rw [hlen]
      exact hitemCount
    · rw [hbatches]
      exact hbatchCount
  obtain ⟨commandPlan, hplan⟩ := tryBuild_of_drawable hdraw
  refine ⟨snapshot, hsnap, commandPlan, hplan, _, bind_eq_ok.mpr ⟨commandPlan, hplan, rfl⟩, hcut,
    fun batches hother => ?_, ?_, ?_⟩
  · exact List.map_injective_iff.mpr (fun _ _ => UiBatch.run_inj) (hother.unique hcut)
  · rw [hbatches, List.forall₂_map_right_iff, List.forall₂_same]
    intro batch hbatch
    refine ⟨rfl, rfl, ?_⟩
    intro i hi
    obtain ⟨j, hj, rfl⟩ := List.mem_range'.mp hi
    have hkey := (hcut.getElem? (List.mem_map_of_mem hbatch)).2 j hj
    rw [Nat.sub_zero, List.getElem?_map, Option.map_eq_some_iff] at hkey
    obtain ⟨item, hitem, hkey⟩ := hkey
    obtain ⟨hlt, rfl⟩ := List.getElem?_eq_some_iff.mp hitem
    have hrecord := hkeyed.get hlt (by rwa [hlen])
    rw [List.get_eq_getElem, List.get_eq_getElem, hkey] at hrecord
    refine ⟨_, ?_, hrecord⟩
    rw [Nat.one_mul]
    exact List.getElem?_eq_getElem _
  · have := hcut.indices
    rw [List.flatMap_map, List.length_map] at this
    rw [hbatches, List.flatMap_map, List.range_eq_range']
    exact this

/-- A root with a border, painted as two items. -/
theorem draws_cover_list_small : ∃ (scene : Scene Float32) (t : UiTree Float32)
    (list : UiPaintList Float32) (plan : UiUploadPlan),
    buildWithResources scene t = .ok (list, plan) ∧ list.items.length = 2 ∧
      ∃ snapshot, list.snapshot = .ok snapshot ∧
        ∃ commandPlan, UiCommandPlan.tryBuild snapshot = .ok commandPlan ∧
        ∃ draws, UiCommandPlan.buildDrawCommands snapshot = .ok draws ∧
          Covers list snapshot draws := by
  let style : UiStyle Float32 :=
    { UiStyle.defaults with borderWidth := 1, border := Vector.replicate 4 1 }
  let node : UiNode Float32 :=
    ⟨⟨0, 1⟩, none, [], { UiNodeContent.new .root with style }, ⟨0, 0, 320, 200⟩, false⟩
  let t : UiTree Float32 := ⟨[some node], [1], [], ⟨0, 1⟩, 1, ⟨4, 4, 16⟩⟩
  let scene : Scene Float32 :=
    ⟨⟨⟨8, 4096⟩, 16, 8, 8, by decide⟩, .ample, ⟨0, 0, 320, 200⟩, none⟩
  have hitems : (buildWithResources scene t).toOption.any
      (fun built => decide (built.1.items.length = 2)) = true := by decide +kernel
  obtain ⟨⟨list, plan⟩, hbuild, hlen⟩ := ok_of_any hitems
  exact ⟨scene, t, list, plan, hbuild, of_decide_eq_true hlen, draws_cover_list hbuild⟩

end Ui
end EngineKit
