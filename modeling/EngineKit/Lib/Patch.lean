import Mathlib.Data.List.Basic

/-!
# Patching a mirror

A buffer that mirrors another one is kept up to date by *patches*: a patch says where it starts
and which elements to put there, and nothing about the rest. This file is about the two
operations a mirror is updated by, `resize` and `overwrite`, and about when a list of patches is
enough.

The answer is pointwise. A patch `Slices` a target when what it carries is what the target holds
there, and applying such patches can only make a buffer agree with the target in more places
(`agree_patchAll`). So a list of slices brings a buffer of the right length to the target as soon
as the buffer already agrees with it wherever no patch reaches (`patchAll_eq`).
-/

set_option autoImplicit false

namespace EngineKit
namespace Lib

variable {α : Type}

/-- `Vec::resize`: cut to `n` elements, or filled up to them. -/
def resize (xs : List α) (n : Nat) (fill : α) : List α :=
  xs.take n ++ List.replicate (n - xs.length) fill

/-- `xs[off..off + bs.len()].copy_from_slice(bs)`. -/
def overwrite (xs : List α) (off : Nat) (bs : List α) : List α :=
  xs.take off ++ (bs ++ xs.drop (off + bs.length))

/-- `<[T]>::get(start..stop)`. -/
def getRange (xs : List α) (start stop : Nat) : Option (List α) :=
  if start ≤ stop ∧ stop ≤ xs.length then some ((xs.take stop).drop start) else none

/-! ## The two operations, element by element -/

@[simp] theorem length_resize (xs : List α) (n : Nat) (fill : α) :
    (resize xs n fill).length = n := by
  simp only [resize, List.length_append, List.length_take, List.length_replicate]
  omega

theorem resize_of_length (xs : List α) {n : Nat} (fill : α) (h : xs.length = n) :
    resize xs n fill = xs := by
  subst h
  simp only [resize, List.take_length, Nat.sub_self, List.replicate_zero, List.append_nil]

theorem getElem?_resize {xs : List α} {n i : Nat} (fill : α) (hi : i < n)
    (hx : i < xs.length) : (resize xs n fill)[i]? = xs[i]? := by
  have hlt : i < (xs.take n).length := by rw [List.length_take]; omega
  rw [resize, List.getElem?_append_left hlt, List.getElem?_take_of_lt hi]

theorem overwrite_zero (xs bs : List α) : overwrite xs 0 bs = bs ++ xs.drop bs.length := by
  rw [overwrite, List.take_zero, List.nil_append, Nat.zero_add]

theorem length_overwrite {xs bs : List α} {off : Nat} (h : off + bs.length ≤ xs.length) :
    (overwrite xs off bs).length = xs.length := by
  simp only [overwrite, List.length_append, List.length_take, List.length_drop]
  omega

theorem getElem?_overwrite_inside {xs bs : List α} {off i : Nat}
    (h : off + bs.length ≤ xs.length) (hlo : off ≤ i) (hhi : i < off + bs.length) :
    (overwrite xs off bs)[i]? = bs[i - off]? := by
  have htake : (xs.take off).length = off := by rw [List.length_take]; omega
  rw [overwrite, List.getElem?_append_right (by omega), htake,
    List.getElem?_append_left (by omega)]

theorem getElem?_overwrite_outside {xs bs : List α} {off i : Nat}
    (h : off + bs.length ≤ xs.length) (hout : ¬(off ≤ i ∧ i < off + bs.length)) :
    (overwrite xs off bs)[i]? = xs[i]? := by
  have htake : (xs.take off).length = off := by rw [List.length_take]; omega
  rcases Nat.lt_or_ge i off with hlt | hge
  · rw [overwrite, List.getElem?_append_left (by omega), List.getElem?_take_of_lt hlt]
  · rw [overwrite, List.getElem?_append_right (by omega), htake,
      List.getElem?_append_right (by omega), List.getElem?_drop]
    congr 1
    omega

theorem getElem?_getRange {xs ys : List α} {start stop i : Nat}
    (h : getRange xs start stop = some ys) (hlo : start ≤ i) (hhi : i < stop) :
    ys[i - start]? = xs[i]? := by
  unfold getRange at h
  split at h
  · obtain rfl := Option.some.inj h
    rw [List.getElem?_drop, Nat.add_sub_cancel' hlo, List.getElem?_take_of_lt hhi]
  · exact absurd h (by simp)

theorem length_getRange {xs ys : List α} {start stop : Nat}
    (h : getRange xs start stop = some ys) :
    ys.length = stop - start ∧ start ≤ stop ∧ stop ≤ xs.length := by
  unfold getRange at h
  split at h
  · next hb =>
    obtain rfl := Option.some.inj h
    refine ⟨?_, hb⟩
    rw [List.length_drop, List.length_take]
    omega
  · exact absurd h (by simp)

/-! ## Patches -/

/-- Put `bytes` at `offset`, and leave the rest. -/
structure Patch (α : Type) where
  offset : Nat
  bytes : List α
deriving DecidableEq

namespace Patch

def Touches (p : Patch α) (i : Nat) : Prop :=
  p.offset ≤ i ∧ i < p.offset + p.bytes.length

instance (p : Patch α) (i : Nat) : Decidable (p.Touches i) :=
  inferInstanceAs (Decidable (_ ∧ _))

/-- The patch lies in the target and carries what the target holds there. -/
structure Slices (p : Patch α) (target : List α) : Prop where
  fits : p.offset + p.bytes.length ≤ target.length
  same : ∀ i, p.Touches i → p.bytes[i - p.offset]? = target[i]?

theorem slices_self (target : List α) : (⟨0, target⟩ : Patch α).Slices target :=
  ⟨by simp, fun _ _ => rfl⟩

theorem slices_cut {target : List α} {start stop : Nat} (hlt : start ≤ stop)
    (hle : stop ≤ target.length) :
    (⟨start, (target.take stop).drop start⟩ : Patch α).Slices target := by
  have hlen : ((target.take stop).drop start).length = stop - start := by
    rw [List.length_drop, List.length_take]
    omega
  refine ⟨by simp only [hlen]; omega, ?_⟩
  intro i hi
  have hhi : i < start + (stop - start) := by simpa only [hlen] using hi.2
  exact getElem?_getRange (if_pos ⟨hlt, hle⟩) hi.1 (by omega)

end Patch

def patchAll (xs : List α) (ps : List (Patch α)) : List α :=
  ps.foldl (fun xs p => overwrite xs p.offset p.bytes) xs

@[simp] theorem patchAll_cons (xs : List α) (p : Patch α) (ps : List (Patch α)) :
    patchAll xs (p :: ps) = patchAll (overwrite xs p.offset p.bytes) ps := rfl

section Slices

variable {xs target : List α} {p : Patch α} {ps : List (Patch α)} {i : Nat}

/-- **One slice.** After it the buffer agrees with the target wherever the patch reaches and
    wherever it agreed before. -/
theorem agree_overwrite (hlen : xs.length = target.length) (hp : p.Slices target)
    (h : p.Touches i ∨ xs[i]? = target[i]?) :
    (overwrite xs p.offset p.bytes)[i]? = target[i]? := by
  have hfits : p.offset + p.bytes.length ≤ xs.length := hlen ▸ hp.fits
  by_cases hi : p.Touches i
  · rw [getElem?_overwrite_inside hfits hi.1 hi.2, hp.same i hi]
  · rw [getElem?_overwrite_outside hfits hi]
    exact h.resolve_left hi

theorem agree_patchAll (hlen : xs.length = target.length) (hps : ∀ p ∈ ps, p.Slices target)
    (h : (∃ p ∈ ps, p.Touches i) ∨ xs[i]? = target[i]?) :
    (patchAll xs ps)[i]? = target[i]? := by
  induction ps generalizing xs with
  | nil =>
    cases h with
    | inl h => obtain ⟨_, hmem, _⟩ := h; cases hmem
    | inr h => exact h
  | cons p ps ih =>
    have hp : p.Slices target := hps p List.mem_cons_self
    have hlen' : (overwrite xs p.offset p.bytes).length = target.length := by
      rw [length_overwrite (hlen ▸ hp.fits), hlen]
    rw [patchAll_cons]
    refine ih hlen' (fun q hq => hps q (List.mem_cons_of_mem _ hq)) ?_
    cases h with
    | inr h => exact .inr (agree_overwrite hlen hp (.inr h))
    | inl h =>
      obtain ⟨q, hq, hi⟩ := h
      cases List.mem_cons.mp hq with
      | inl heq => exact .inr (agree_overwrite hlen hp (.inl (heq ▸ hi)))
      | inr hq => exact .inl ⟨q, hq, hi⟩

theorem length_patchAll (hlen : xs.length = target.length) (hps : ∀ p ∈ ps, p.Slices target) :
    (patchAll xs ps).length = target.length := by
  induction ps generalizing xs with
  | nil => exact hlen
  | cons p ps ih =>
    have hp : p.Slices target := hps p List.mem_cons_self
    rw [patchAll_cons]
    refine ih ?_ fun q hq => hps q (List.mem_cons_of_mem _ hq)
    rw [length_overwrite (hlen ▸ hp.fits), hlen]

/-- **The patch rule.** Slices of the target bring a buffer of its length to the target when the
    buffer already agrees with it wherever none of them reaches. -/
theorem patchAll_eq (hlen : xs.length = target.length) (hps : ∀ p ∈ ps, p.Slices target)
    (hrest : ∀ i < target.length, (∃ p ∈ ps, p.Touches i) ∨ xs[i]? = target[i]?) :
    patchAll xs ps = target := by
  apply List.ext_getElem?
  intro i
  rcases Nat.lt_or_ge i target.length with hi | hi
  · exact agree_patchAll hlen hps (hrest i hi)
  · have hpast : (patchAll xs ps).length ≤ i := by
      rw [length_patchAll hlen hps]
      exact hi
    rw [List.getElem?_eq_none hi, List.getElem?_eq_none hpast]

theorem patchAll_self (hps : ∀ p ∈ ps, p.Slices xs) : patchAll xs ps = xs :=
  patchAll_eq rfl hps fun _ _ => .inr rfl

end Slices

end Lib
end EngineKit
