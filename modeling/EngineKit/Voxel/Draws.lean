import EngineKit.Lib.Records
import EngineKit.Voxel.Faces

/-!
# The draws

The quads of a frame are kept by directions, with one draw for each that has any. The draw of a
direction has the instances of its quads and no others (`drawn_layout`), and together they are a
packet that a presenter takes (`validWorldPacket_layout`).

A draw is found again by its first vertex, as the shader finds it: the vertices of direction `k`
start at `6 k`. So what is drawn with a direction does not depend on how many draws there are, nor
on their order, and `layout` may leave out the directions that have nothing in them.
-/

set_option autoImplicit false

namespace EngineKit
namespace Voxel

open Lib Vulkan

/-- The instances that are drawn with the vertices of a direction. -/
def drawn (upload : List VoxelInstance) (draws : List WorldDrawCommand) (k : Nat) :
    List VoxelInstance :=
  (draws.filter fun draw => draw.firstVertex = .ofNat k * 6).flatMap fun draw =>
    cut upload draw.firstInstance.toNat draw.instanceCount.toNat

/-- A draw of one of some directions, of instances that are there. -/
structure DrawWithin (directions instances : Nat) (draw : WorldDrawCommand) : Prop where
  vertexCount : draw.vertexCount = 6
  firstVertex : ∃ k < directions, draw.firstVertex = .ofNat k * 6
  instanceCount : draw.instanceCount ≠ 0
  instances : draw.firstInstance.toNat + draw.instanceCount.toNat ≤ instances

/-- The upload is the groups one after the other, and the draws give each group back. `s` is what
    the fold has after the groups so far. -/
structure LaidOut (groups : List (List VoxelInstance))
    (s : List VoxelInstance × List WorldDrawCommand) : Prop where
  upload : s.1 = groups.flatten
  draws : ∀ draw ∈ s.2, DrawWithin groups.length s.1.length draw
  drawn : ∀ k < groups.length, drawn s.1 s.2 k = groups[k]?.getD []

/-- Six directions have six first vertices, with the multiplication in 32 bits. -/
theorem firstVertex_inj {k k' : Nat} (hk : k < 6) (hk' : k' < 6)
    (h : UInt32.ofNat k * 6 = .ofNat k' * 6) : k = k' := by
  have hall : ∀ k < 6, ∀ k' < 6, UInt32.ofNat k * 6 = .ofNat k' * 6 → k = k' := by decide
  exact hall k hk k' hk' h

theorem getElem?_snoc {α : Type} (groups : List (List α)) (group : List α) (k : Nat) :
    (groups ++ [group])[k]?.getD [] =
      groups[k]?.getD [] ++ if k = groups.length then group else [] := by
  rw [List.getElem?_append]
  split
  · next hlt => rw [if_neg (Nat.ne_of_lt hlt), List.append_nil]
  · next hge =>
    rw [List.getElem?_eq_none (Nat.not_lt.mp hge), Option.getD_none, List.nil_append]
    split
    · next heq => rw [heq, Nat.sub_self]; rfl
    · next hne => rw [List.getElem?_eq_none]; rfl; rw [List.length_singleton]; omega

section LaidOut

variable {groups : List (List VoxelInstance)} {s : List VoxelInstance × List WorldDrawCommand}

/-- The draws before stay as they are. -/
theorem LaidOut.draws_before (h : LaidOut groups s) (group : List VoxelInstance) :
    ∀ draw ∈ s.2, DrawWithin (groups ++ [group]).length (s.1 ++ group).length draw := by
  intro draw hdraw
  obtain ⟨hvertices, ⟨k, hk, hfirst⟩, hcount, hinstances⟩ := h.draws draw hdraw
  rw [List.length_append, List.length_append, List.length_singleton]
  exact ⟨hvertices, ⟨k, Nat.lt_succ_of_lt hk, hfirst⟩, hcount,
    Nat.le_trans hinstances (Nat.le_add_right _ _)⟩

/-- The draws before draw what they drew, which is nothing of the new direction. -/
theorem LaidOut.drawn_before (h : LaidOut groups s) (hgroups : groups.length < 6)
    (group : List VoxelInstance) {k : Nat} (hk : k ≤ groups.length) :
    Voxel.drawn (s.1 ++ group) s.2 k = groups[k]?.getD [] := by
  have hold : Voxel.drawn (s.1 ++ group) s.2 k = Voxel.drawn s.1 s.2 k := by
    refine List.flatMap_congr ?_
    intro draw hdraw
    exact cut_append_left group (h.draws draw (List.mem_filter.mp hdraw).1).instances
  rw [hold]
  rcases Nat.eq_or_lt_of_le hk with rfl | hlt
  · rw [List.getElem?_eq_none (Nat.le_refl _), Option.getD_none, Voxel.drawn,
      List.flatMap_eq_nil_iff]
    intro draw hdraw
    obtain ⟨hmem, hsame⟩ := List.mem_filter.mp hdraw
    obtain ⟨k', hk', hfirst⟩ := (h.draws draw hmem).firstVertex
    have heq := firstVertex_inj (by omega) hgroups (hfirst.symm.trans (of_decide_eq_true hsame))
    omega
  · exact h.drawn k hlt

/-- **One direction more.** The total is kept below 2^32, so the first instance of the new draw is
    where the upload ends. -/
theorem LaidOut.snoc (h : LaidOut groups s) (hgroups : groups.length < 6)
    {group : List VoxelInstance} (htotal : s.1.length + group.length < 2 ^ 32) :
    LaidOut (groups ++ [group]) (layOut s (group, groups.length)) := by
  have hkeep := h.draws_before group
  have hdrawn {k : Nat} (hk : k ≤ groups.length) := h.drawn_before hgroups group hk
  rw [layOut]
  -- An empty direction gets no draw, and otherwise the new draw starts where the upload ends.
  split
  · next hempty =>
    obtain rfl := List.isEmpty_iff.mp hempty
    rw [List.append_nil] at hkeep
    refine ⟨by simpa using h.upload, hkeep, ?_⟩
    intro k hk
    rw [List.length_append, List.length_singleton] at hk
    have hlast := hdrawn (Nat.le_of_lt_succ hk)
    rw [List.append_nil] at hlast
    rw [hlast, getElem?_snoc, ite_self, List.append_nil]
  · next hempty =>
    have hlength : (UInt32.ofNat group.length).toNat = group.length :=
      UInt32.toNat_ofNat_of_lt' (by show _ < 2 ^ 32; omega)
    have hstart : (UInt32.ofNat s.1.length).toNat = s.1.length :=
      UInt32.toNat_ofNat_of_lt' (by show _ < 2 ^ 32; omega)
    refine ⟨by simpa using h.upload, ?_, ?_⟩
    · intro draw hdraw
      rcases List.mem_append.mp hdraw with hold | hnew
      · exact hkeep draw hold
      · obtain rfl := List.mem_singleton.mp hnew
        refine ⟨rfl, ⟨groups.length, by simp, rfl⟩, ?_, ?_⟩
        · intro hzero
          have hnone := congrArg UInt32.toNat hzero
          rw [hlength] at hnone
          exact hempty (List.isEmpty_iff.mpr (List.eq_nil_of_length_eq_zero hnone))
        · rw [hstart, hlength, List.length_append]
    · intro k hk
      rw [List.length_append, List.length_singleton] at hk
      rw [getElem?_snoc, ← hdrawn (Nat.le_of_lt_succ hk), Voxel.drawn, List.filter_append,
        List.flatMap_append]
      congr 1
      -- Of the new direction only the new draw is one; of the others it is none.
      by_cases heq : k = groups.length
      · rw [heq, if_pos rfl]
        simp [hstart, hlength, cut]
      · rw [if_neg heq, List.flatMap_eq_nil_iff]
        intro draw hdraw
        obtain ⟨hmem, hsame⟩ := List.mem_filter.mp hdraw
        obtain rfl := List.mem_singleton.mp hmem
        exact absurd (firstVertex_inj hgroups (by omega) (of_decide_eq_true hsame)) (Ne.symm heq)

end LaidOut

/-- All of them, from none. -/
theorem laidOut_layout {groups : List (List VoxelInstance)} (hsix : groups.length ≤ 6)
    (htotal : groups.flatten.length < 2 ^ 32) : LaidOut groups (layout groups) := by
  induction groups using List.reverseRecOn with
  | nil => exact ⟨rfl, nofun, nofun⟩
  | append_singleton groups group ih =>
    rw [List.length_append, List.length_singleton] at hsix
    rw [List.flatten_append, List.length_append, List.flatten_singleton] at htotal
    have hbefore := ih (Nat.le_of_succ_le hsix) (Nat.lt_of_le_of_lt (Nat.le_add_right _ _) htotal)
    rw [layout, List.zipIdx_append, List.foldl_append, Nat.zero_add]
    refine hbefore.snoc hsix ?_
    rw [hbefore.upload]
    exact htotal

/-- **The draw of a direction has the quads of that direction.** -/
theorem drawn_layout {groups : List (List VoxelInstance)} (hsix : groups.length ≤ 6)
    (htotal : groups.flatten.length < 2 ^ 32) {k : Nat} (hk : k < groups.length) :
    drawn (layout groups).1 (layout groups).2 k = groups[k]?.getD [] :=
  (laidOut_layout hsix htotal).drawn k hk

/-! ## A packet -/

/-- Twenty words. -/
theorem length_encode (scalars : Scalars) (quad : VoxelInstance) :
    (encode scalars quad).length = 80 :=
  length_flatMap_stride (w := 4) (fun _ => rfl) _

theorem length_encoded (scalars : Scalars) (quads : List VoxelInstance) :
    (quads.flatMap (encode scalars)).length = 80 * quads.length :=
  length_flatMap_stride (length_encode scalars) quads

/-- **What is laid out is a packet**, if there is anything in it and it has the room. -/
theorem validWorldPacket_layout {groups : List (List VoxelInstance)} (hsix : groups.length ≤ 6)
    {s : List VoxelInstance × List WorldDrawCommand} (h : LaidOut groups s)
    (hsome : s.1 ≠ []) {capacity : Nat} (hroom : 80 * s.1.length ≤ capacity)
    (hsmall : s.1.length < 2 ^ 32) {camera : Camera} (hcamera : camera.toList.all f32IsFinite)
    (scalars : Scalars) :
    validWorldPacket (s.1.flatMap (encode scalars)) capacity camera s.2 = true := by
  have hlength := length_encoded scalars s.1
  have hpos : 0 < s.1.length := List.length_pos_iff.mpr hsome
  have hdraws : s.2 ≠ [] := by
    intro hnone
    refine hsome ?_
    rw [h.upload, List.flatten_eq_nil_iff]
    intro group hgroup
    obtain ⟨k, hk, rfl⟩ := List.mem_iff_getElem.mp hgroup
    have hdrawn := h.drawn k hk
    rw [hnone, drawn, List.getElem?_eq_getElem hk, Option.getD_some] at hdrawn
    exact hdrawn.symm
  have hguard : ¬ ((s.1.flatMap (encode scalars)).isEmpty ∨
      capacity < (s.1.flatMap (encode scalars)).length ∨
      (s.1.flatMap (encode scalars)).length % GPU_INSTANCE_RECORD_SIZE ≠ 0 ∨
      ¬camera.toList.all f32IsFinite ∨ s.2.isEmpty) := by
    rw [hlength, not_or, not_or, not_or, not_or, not_not, not_not]
    refine ⟨?_, Nat.not_lt.mpr hroom, Nat.mul_mod_right 80 _, hcamera, ?_⟩
    · intro hempty
      rw [List.isEmpty_iff.mp hempty, List.length_nil] at hlength
      omega
    · exact fun hempty => hdraws (List.isEmpty_iff.mp hempty)
  rw [validWorldPacket, if_neg hguard, hlength]
  refine List.all_eq_true.mpr ?_
  intro draw hdraw
  obtain ⟨hvertices, ⟨k, hk, hfirst⟩, hcount, hinstances⟩ := h.draws draw hdraw
  have hvertex : ∀ k < 6, endsWithin (.ofNat k * 6) 6 36 = true := by decide
  have hsum : draw.firstInstance.toNat + draw.instanceCount.toNat < 2 ^ 32 :=
    Nat.lt_of_le_of_lt hinstances hsmall
  have hinstance : endsWithin draw.firstInstance draw.instanceCount
      (80 * s.1.length / GPU_INSTANCE_RECORD_SIZE) = true := by
    have hquotient : 80 * s.1.length / GPU_INSTANCE_RECORD_SIZE = s.1.length :=
      Nat.mul_div_cancel_left _ (by decide)
    rw [hquotient, endsWithin, u32CheckedAdd, u32TryFrom, if_pos hsum]
    refine decide_eq_true ?_
    rw [UInt32.toNat_ofNat_of_lt' hsum]
    exact hinstances
  simp only [hvertices, hfirst, hvertex k (by omega), hinstance, Bool.and_true, bne_iff_ne, ne_eq,
    Bool.and_eq_true, hcount, not_false_eq_true]
  decide

end Voxel
end EngineKit
