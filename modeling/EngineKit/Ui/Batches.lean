import EngineKit.Ui.Paint

/-!
# Batches tile the paint list

`Tiles a batches b` says the batches cover the item indices from `a` up to `b` without a gap, an
overlap or an empty batch, each starting where the one before it ends. The renderer refuses a
snapshot whose batches do not tile its items, so this is what makes every snapshot the UI sends
one the renderer can draw: `build_batches` keeps it at each item (`pushBatch_tiles`), and
`snapshot` copies the batches as they are.
-/

set_option autoImplicit false

namespace EngineKit
namespace Ui

open Lib

/-- The batches cover the indices from the first number up to the second, in order. -/
inductive Tiles : Nat → List UiBatch → Nat → Prop where
  | nil (a : Nat) : Tiles a [] a
  | cons {a b : Nat} {batch : UiBatch} {batches : List UiBatch}
      (first : batch.first.toNat = a) (nonempty : 0 < batch.count.toNat)
      (rest : Tiles (a + batch.count.toNat) batches b) : Tiles a (batch :: batches) b

theorem Tiles.le {a b : Nat} {batches : List UiBatch} (h : Tiles a batches b) : a ≤ b := by
  induction h with
  | nil a => exact Nat.le_refl a
  | cons _ _ _ ih => omega

theorem Tiles.append {a b c : Nat} {xs ys : List UiBatch} (hxs : Tiles a xs b)
    (hys : Tiles b ys c) : Tiles a (xs ++ ys) c := by
  induction hxs with
  | nil a => exact hys
  | cons first nonempty _ ih => exact .cons first nonempty (ih hys)

theorem Tiles.of_append {a c : Nat} {xs ys : List UiBatch} (h : Tiles a (xs ++ ys) c) :
    ∃ b, Tiles a xs b ∧ Tiles b ys c := by
  induction xs generalizing a with
  | nil => exact ⟨a, .nil a, h⟩
  | cons x xs ih =>
    cases h with
    | cons first nonempty rest =>
      obtain ⟨b, hxs, hys⟩ := ih rest
      exact ⟨b, .cons first nonempty hxs, hys⟩

theorem tiles_singleton {a b : Nat} {batch : UiBatch} :
    Tiles a [batch] b ↔
      batch.first.toNat = a ∧ 0 < batch.count.toNat ∧ a + batch.count.toNat = b := by
  constructor
  · intro h
    cases h with
    | cons first nonempty rest =>
      cases rest with
      | nil => exact ⟨first, nonempty, rfl⟩
  · intro h
    obtain ⟨first, nonempty, rfl⟩ := h
    exact .cons first nonempty (.nil _)

variable {F : Type}

theorem openBatch_tiles {config : UiConfig} {batches batches' : List UiBatch} {key : UiBatchKey}
    {index : UInt32} (h : openBatch config batches key index = .ok batches')
    (ht : Tiles 0 batches index.toNat) : Tiles 0 batches' (index.toNat + 1) := by
  unfold openBatch at h
  split at h
  · exact absurd h (by simp)
  · obtain rfl := Except.ok.inj h
    exact ht.append (tiles_singleton.mpr ⟨rfl, Nat.one_pos, rfl⟩)

/-- The last batch takes the item, or a new one is opened because it cannot. -/
theorem pushBatch_cases {config : UiConfig} {batches batches' : List UiBatch} {index : Nat}
    {item : PaintItem F} (h : pushBatch config batches index item = .ok batches') :
    ∃ i, u32TryFrom index = some i ∧
      (openBatch config batches item.key i = .ok batches' ∧
          (∀ last, batches.getLast? = some last →
            ¬(last.key = item.key ∧ u32CheckedAdd last.first last.count = some i)) ∨
        ∃ last, batches.dropLast ++ [last] = batches ∧ last.key = item.key ∧
          batches' =
            batches.dropLast ++ [{ last with count := u32SaturatingAdd last.count 1 }]) := by
  simp only [pushBatch, bind_eq_ok, orOverflow_eq_ok] at h
  obtain ⟨i, hi, h⟩ := h
  refine ⟨i, hi, ?_⟩
  cases hlast : batches.getLast? with
  | none =>
    simp only [hlast] at h
    refine .inl ⟨h, ?_⟩
    intro last hmem
    cases hmem
  | some last =>
    simp only [hlast] at h
    split at h
    · next htakes =>
      exact .inr ⟨last, List.dropLast_append_getLast? last hlast, htakes.1, (Except.ok.inj h).symm⟩
    · next hnot =>
      refine .inl ⟨h, ?_⟩
      intro last' hmem
      obtain rfl := Option.some.inj hmem
      exact hnot

/-- **One item.** Whether the last batch takes it or a new one is opened, the batches reach one
    index further. -/
theorem pushBatch_tiles {config : UiConfig} {batches batches' : List UiBatch} {index : Nat}
    {item : PaintItem F} (h : pushBatch config batches index item = .ok batches')
    (hindex : index + 1 < 2 ^ 32) (ht : Tiles 0 batches index) :
    Tiles 0 batches' (index + 1) := by
  obtain ⟨i, hi, ⟨hopen, -⟩ | ⟨last, hsplit, -, rfl⟩⟩ := pushBatch_cases h
  · obtain rfl : i.toNat = index := toNat_of_u32TryFrom hi
    exact openBatch_tiles hopen ht
  · -- the last batch ends at the item's index, so it can grow by one
    obtain ⟨b, hinit, htail⟩ := Tiles.of_append (hsplit ▸ ht)
    obtain ⟨hfirst, hpos, hend⟩ := tiles_singleton.mp htail
    have hone : (1 : UInt32).toNat = 1 := rfl
    have hgrow := toNat_u32SaturatingAdd (show last.count.toNat + (1 : UInt32).toNat < 2 ^ 32 by
      omega)
    refine hinit.append (tiles_singleton.mpr ⟨hfirst, ?_⟩)
    change 0 < (u32SaturatingAdd last.count 1).toNat ∧
      b + (u32SaturatingAdd last.count 1).toNat = _
    omega

theorem buildBatches_tiles {config : UiConfig} {items : List (PaintItem F)} {index : Nat}
    {batches batches' : List UiBatch} (h : buildBatches config index items batches = .ok batches')
    (hindex : index + items.length < 2 ^ 32) (ht : Tiles 0 batches index) :
    Tiles 0 batches' (index + items.length) := by
  induction items generalizing index batches with
  | nil =>
    obtain rfl := Except.ok.inj h
    exact ht
  | cons item items ih =>
    rw [List.length_cons] at hindex
    simp only [buildBatches, bind_eq_ok] at h
    obtain ⟨next, hpush, hrest⟩ := h
    have hnext := pushBatch_tiles hpush (by omega) ht
    have := ih hrest (by omega) hnext
    rwa [List.length_cons, show index + (items.length + 1) = index + 1 + items.length by omega]

/-- A finished list is the list with its batches built, and what its plan counts fits. -/
theorem finishBuild_ok {list list' : UiPaintList F} {plan : UiUploadPlan}
    (h : list.finishBuild = .ok (list', plan)) :
    ∃ batches glyphs, list' = { list with batches } ∧
      buildBatches list.config 0 list.items [] = .ok batches ∧
      checkedSum 0 (list.items.map fun item => item.kind.glyphs.length) = some glyphs ∧
      u32TryFrom list.items.length = some plan.itemCount ∧
      u32TryFrom batches.length = some plan.batchCount ∧
      u32TryFrom glyphs = some plan.glyphCount ∧
      uploadSize list.items.length glyphs = some plan.uploadBytes := by
  simp only [UiPaintList.finishBuild, bind_eq_ok, orOverflow_eq_ok] at h
  obtain ⟨batches, hbatches, glyphs, hglyphs, itemCount, hitems, batchCount, hcount, glyphCount,
    htotal, uploadBytes, hupload, hlist⟩ := h
  split at hlist
  · exact absurd hlist (by simp)
  · obtain ⟨rfl, rfl⟩ := Prod.mk.inj (Except.ok.inj hlist)
    exact ⟨batches, glyphs, rfl, hbatches, hglyphs, hitems, hcount, htotal, hupload⟩

/-- A list the paint pass finished has its items tiled. -/
theorem finishBuild_tiles {list list' : UiPaintList F} {plan : UiUploadPlan}
    (h : list.finishBuild = .ok (list', plan)) : Tiles 0 list'.batches list'.items.length := by
  obtain ⟨batches, glyphs, rfl, hbatches, -, hitems, -⟩ := finishBuild_ok h
  have hlt := lt_of_u32TryFrom hitems
  simpa using buildBatches_tiles hbatches (by omega) (.nil 0)

end Ui
end EngineKit
