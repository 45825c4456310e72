import EngineKit.Lib.LittleEndian

/-!
# Records of one width, laid end to end

`xs.flatMap f` is a table when every `f x` has the same length `w`: entry `j` of record `i` stands
at `w * i + j`, and nothing else is needed to find it. A byte stream that is a table of 32-bit
words is read back the same way, `wordAt`, whatever follows the table in the stream.

Records of any lengths are found by the lengths of the ones before them (`cut_flatMap`).
-/

set_option autoImplicit false

namespace EngineKit
namespace Lib

section Table

variable {α β : Type} {f : α → List β} {w : Nat}

theorem length_flatMap_stride (h : ∀ x, (f x).length = w) (xs : List α) :
    (xs.flatMap f).length = w * xs.length := by
  induction xs with
  | nil => rfl
  | cons x xs ih =>
    rw [List.flatMap_cons, List.length_append, h, ih, List.length_cons, Nat.mul_succ, Nat.add_comm]

/-- **Where an entry stands**: entry `j` of record `i`, at `w * i + j`. -/
theorem getElem?_flatMap_stride (h : ∀ x, (f x).length = w) (xs : List α) {i j : Nat}
    (hj : j < w) : (xs.flatMap f)[w * i + j]? = xs[i]?.bind fun x => (f x)[j]? := by
  induction xs generalizing i with
  | nil => simp
  | cons x xs ih =>
    rw [List.flatMap_cons]
    cases i with
    | zero =>
      have hin : w * 0 + j < (f x).length := by rw [h, Nat.mul_zero, Nat.zero_add]; exact hj
      rw [List.getElem?_append_left hin, Nat.mul_zero, Nat.zero_add]
      rfl
    | succ i =>
      have hout : (f x).length ≤ w * (i + 1) + j := by
        rw [h, Nat.mul_succ, Nat.add_comm (w * i), Nat.add_assoc]
        exact Nat.le_add_right w _
      have hrest : w * (i + 1) + j - (f x).length = w * i + j := by
        rw [h, Nat.mul_succ, Nat.add_right_comm, Nat.add_sub_cancel]
      rw [List.getElem?_append_right hout, hrest, ih]
      rfl

end Table

/-! ## Fields -/

section Cut

variable {α β : Type} {f : α → List β} {w : Nat}

/-- The `width` entries from `start` on. -/
def cut (xs : List β) (start width : Nat) : List β := (xs.drop start).take width

theorem cut_whole {xs : List β} {n : Nat} (h : xs.length = n) : cut xs 0 n = xs := by
  rw [cut, List.drop_zero, ← h, List.take_length]

theorem cut_append_right (xs ys : List β) (start width : Nat) :
    cut (xs ++ ys) (xs.length + start) width = cut ys start width := by
  rw [cut, ← List.drop_drop, List.drop_left, cut]

theorem cut_append_left {xs : List β} (ys : List β) {start width : Nat}
    (h : start + width ≤ xs.length) : cut (xs ++ ys) start width = cut xs start width := by
  rw [cut, List.drop_append_of_le_length (by omega), cut, List.take_append_of_le_length]
  rw [List.length_drop]
  omega

theorem cut_cut (xs : List β) {n start width : Nat} (k : Nat) (h : start + width ≤ n) :
    cut (cut xs k n) start width = cut xs (k + start) width := by
  rw [cut, cut, List.drop_take, List.take_take, List.drop_drop, Nat.min_eq_left (by omega), cut]

/-- **A run stands behind the runs before it**, whatever their lengths. -/
theorem cut_flatMap {xs : List α} {i : Nat} {x : α} (hi : xs[i]? = some x) :
    cut (xs.flatMap f) ((xs.take i).map fun x => (f x).length).sum (f x).length = f x := by
  induction xs generalizing i with
  | nil => exact absurd hi (by simp)
  | cons y ys ih =>
    cases i with
    | zero =>
      obtain rfl : y = x := by simpa using hi
      simp [cut]
    | succ i =>
      rw [List.getElem?_cons_succ] at hi
      rw [List.take_succ_cons, List.map_cons, List.sum_cons, List.flatMap_cons, cut_append_right,
        ih hi]

/-- **A field of a record** of a table, whatever follows the table. -/
theorem cut_flatMap_stride (h : ∀ x, (f x).length = w) {xs : List α} {i : Nat} {x : α}
    (hi : xs[i]? = some x) (rest : List β) {start width : Nat} (hfits : start + width ≤ w) :
    cut (xs.flatMap f ++ rest) (w * i + start) width = cut (f x) start width := by
  induction xs generalizing i with
  | nil => exact absurd hi (by simp)
  | cons y ys ih =>
    rw [List.flatMap_cons, List.append_assoc]
    cases i with
    | zero =>
      obtain rfl : y = x := by simpa using hi
      rw [Nat.mul_zero, Nat.zero_add]
      exact cut_append_left _ (by rw [h]; exact hfits)
    | succ i =>
      rw [List.getElem?_cons_succ] at hi
      have hstart : w * (i + 1) + start = (f y).length + (w * i + start) := by
        rw [h, Nat.mul_succ]
        omega
      rw [hstart, cut_append_right, ih hi]

end Cut

/-- The `k`-th 32-bit word of a byte stream, as a little-endian machine reads it. -/
def wordAt (bytes : List UInt8) (k : Nat) : UInt32 := u32OfLe ((bytes.drop (4 * k)).take 4)

theorem wordAt_flatMap {words : List UInt32} {k : Nat} {x : UInt32} (rest : List UInt8)
    (h : words[k]? = some x) : wordAt (words.flatMap u32ToLe ++ rest) k = x := by
  obtain ⟨hk, rfl⟩ := List.getElem?_eq_some_iff.mp h
  have hsplit : words.flatMap u32ToLe ++ rest
      = (words.take k).flatMap u32ToLe ++ (u32ToLe words[k] ++
        ((words.drop (k + 1)).flatMap u32ToLe ++ rest)) := by
    conv_lhs => rw [← List.take_append_drop k words, List.drop_eq_getElem_cons hk]
    rw [List.flatMap_append, List.flatMap_cons, List.append_assoc, List.append_assoc]
  have hlen : ((words.take k).flatMap u32ToLe).length = 4 * k := by
    rw [length_flatMap_stride length_u32ToLe, List.length_take, Nat.min_eq_left hk.le]
  rw [wordAt, hsplit, List.drop_left' hlen, List.take_left' (length_u32ToLe _), u32OfLe_u32ToLe]

end Lib
end EngineKit
