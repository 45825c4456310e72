import EngineKit.Lib.Patch
import EngineKit.Lib.Records

/-!
# Native words, and fields written one behind the other

A host and a device that share memory share a byte order, and nothing says which. `u32ToNe` is
`u32::to_ne_bytes` with the order as a parameter, and `neWordAt` the read that goes with it.

An encoder that copies fields into a buffer behind a moving cursor has overwritten one stretch of
it with all the fields, end to end (`writeFields_eq`). So what a table of records looks like in a
buffer is a question about `List.flatMap`, and not about the order of the copies.
-/

set_option autoImplicit false

namespace EngineKit
namespace Lib

/-! ## The byte order of a machine -/

inductive ByteOrder where
  | little
  | big
deriving DecidableEq

/-- `u32::to_ne_bytes`. -/
def u32ToNe (order : ByteOrder) (x : UInt32) : List UInt8 :=
  match order with
  | .little => u32ToLe x
  | .big => (u32ToLe x).reverse

def u32OfNe (order : ByteOrder) (bs : List UInt8) : UInt32 :=
  match order with
  | .little => u32OfLe bs
  | .big => u32OfLe bs.reverse

variable (order : ByteOrder)

@[simp] theorem length_u32ToNe (x : UInt32) : (u32ToNe order x).length = 4 := by
  cases order with
  | little => exact length_u32ToLe x
  | big => exact (List.length_reverse).trans (length_u32ToLe x)

@[simp] theorem u32OfNe_u32ToNe (x : UInt32) : u32OfNe order (u32ToNe order x) = x := by
  cases order with
  | little => exact u32OfLe_u32ToLe x
  | big => rw [u32ToNe, u32OfNe, List.reverse_reverse, u32OfLe_u32ToLe]

/-- The `k`-th 32-bit word of a byte stream, as the machine reads it. -/
def neWordAt (bytes : List UInt8) (k : Nat) : UInt32 := u32OfNe order (cut bytes (4 * k) 4)

theorem neWordAt_flatMap {words : List UInt32} {k : Nat} {x : UInt32} (rest : List UInt8)
    (h : words[k]? = some x) : neWordAt order (words.flatMap (u32ToNe order) ++ rest) k = x := by
  have hcut : cut (words.flatMap (u32ToNe order) ++ rest) (4 * k + 0) 4
      = cut (u32ToNe order x) 0 4 :=
    cut_flatMap_stride (length_u32ToNe order) h rest (Nat.zero_add 4).le
  rw [Nat.add_zero, cut_whole (length_u32ToNe order x)] at hcut
  rw [neWordAt, hcut, u32OfNe_u32ToNe]

/-- A word of a part of the stream that starts on a word. -/
theorem neWordAt_cut (bytes : List UInt8) (start : Nat) {words k : Nat} (hk : k < words) :
    neWordAt order (cut bytes (4 * start) (4 * words)) k = neWordAt order bytes (start + k) := by
  rw [neWordAt, cut_cut _ _ (by omega), neWordAt, Nat.mul_add]

/-! ## Fields behind a cursor -/

section Fields

variable {α : Type}

/-- The copies of an encoder whose cursor moves behind each field it has written. -/
def writeFields : List α → Nat → List (List α) → List α
  | out, _, [] => out
  | out, offset, field :: fields =>
    writeFields (overwrite out offset field) (offset + field.length) fields

theorem overwrite_nil {xs : List α} (offset : Nat) : overwrite xs offset [] = xs := by
  rw [overwrite, List.nil_append, List.length_nil, Nat.add_zero, List.take_append_drop]

theorem overwrite_append {xs as bs : List α} {offset : Nat}
    (h : offset + as.length ≤ xs.length) :
    overwrite (overwrite xs offset as) (offset + as.length) bs
      = overwrite xs offset (as ++ bs) := by
  have hhead : (xs.take offset ++ as).length = offset + as.length := by
    rw [List.length_append, List.length_take]
    omega
  have hsplit : overwrite xs offset as
      = (xs.take offset ++ as) ++ xs.drop (offset + as.length) := by
    rw [overwrite, List.append_assoc]
  rw [overwrite, hsplit, List.take_left' hhead, ← List.drop_drop, List.drop_left' hhead,
    List.drop_drop, overwrite, List.length_append, List.append_assoc, List.append_assoc,
    Nat.add_assoc]

/-- **The fields stand end to end.** -/
theorem writeFields_eq {out : List α} {offset : Nat} {fields : List (List α)}
    (h : offset + fields.flatten.length ≤ out.length) :
    writeFields out offset fields = overwrite out offset fields.flatten := by
  induction fields generalizing out offset with
  | nil => exact (overwrite_nil offset).symm
  | cons field fields ih =>
    rw [List.flatten_cons, List.length_append] at h
    have hfield : offset + field.length ≤ out.length := by omega
    rw [writeFields, ih (by rw [length_overwrite hfield]; omega), overwrite_append hfield,
      List.flatten_cons]

/-- The copies of an encoder that computes each field's place from its number. -/
def writeStrided (out : List α) (start width : Nat) (fields : List (List α)) : List α :=
  fields.zipIdx.foldl (fun out field => overwrite out (start + field.2 * width) field.1) out

theorem writeStrided_eq (out : List α) (start : Nat) {width : Nat} {fields : List (List α)}
    (h : ∀ field ∈ fields, field.length = width) :
    writeStrided out start width fields = writeFields out start fields := by
  have hfrom (k : Nat) : (fields.zipIdx k).foldl
      (fun out field => overwrite out (start + field.2 * width) field.1) out
        = writeFields out (start + k * width) fields := by
    induction fields generalizing out k with
    | nil => rfl
    | cons field fields ih =>
      have hnext : start + (k + 1) * width = start + k * width + field.length := by
        rw [h field List.mem_cons_self, Nat.succ_mul, Nat.add_assoc]
      rw [List.zipIdx_cons, List.foldl_cons, writeFields,
        ih _ (fun f hf => h f (List.mem_cons_of_mem _ hf)), hnext]
  rw [writeStrided, hfrom 0, Nat.zero_mul, Nat.add_zero]

/-- **One record of a table.** It fits, what follows it fits behind it, and with that it is one
    overwrite. -/
theorem overwrite_record {xs head : List α} {w index n : Nat} (hw : head.length = w)
    (h : (index + (n + 1)) * w ≤ xs.length) :
    index * w + head.length ≤ xs.length ∧
      (index + 1 + n) * w ≤ (overwrite xs (index * w) head).length ∧
      ∀ tail, overwrite (overwrite xs (index * w) head) ((index + 1) * w) tail
        = overwrite xs (index * w) (head ++ tail) := by
  have hstop : (index + 1) * w = index * w + head.length := by rw [hw, Nat.succ_mul]
  have hsplit : (index + (n + 1)) * w = index * w + head.length + n * w := by
    rw [← hstop, ← Nat.add_mul, Nat.add_assoc, Nat.add_comm 1]
  have hroom : index * w + head.length ≤ xs.length := by omega
  refine ⟨hroom, ?_, ?_⟩
  · rw [length_overwrite hroom, Nat.add_assoc, Nat.add_comm 1]
    exact h
  · intro tail
    rw [hstop, overwrite_append hroom]

end Fields

end Lib
end EngineKit
