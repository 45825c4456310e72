import EngineKit.Ecs.Bitset
import EngineKit.Lib.LastAnswer

/-!
# The superset test

`Bitset::superset_of` compares two bitsets word by word, and answers no at once if the other has
more words. But a bitset grows for a bit and keeps its words when the bit is cleared, or is made
large to begin with, so more words are no more members: the answer is wrong for every superset
that happens to be the shorter one (`supersetOf_iff`).
-/

set_option autoImplicit false

namespace EngineKit
namespace Ecs

open Lib

def Bitset.supersetOf (bits other : Bitset) : Bool :=
  if bits.words.length < other.words.length then false
  else
    ((bits.words.take other.words.length).zip other.words).all fun words =>
      words.1 &&& words.2 == words.2

/-! ## Histories -/

inductive BitsetOp where
  | tryReserve (room : Bool) (index : UInt64)
  | set (index : UInt64)
  | clear (index : UInt64)

/-- What an operation says of a bit. -/
def BitsetOp.tells (i : Nat) : BitsetOp → Option Bool
  | .tryReserve _ _ => none
  | .set index => if i = index.toNat then some true else none
  | .clear index => if i = index.toNat then some false else none

/-- How many bits it makes room for. -/
def BitsetOp.reach : BitsetOp → Nat
  | .tryReserve true index => (checkedAdd index.toNat 1).getD 0
  | .tryReserve false _ => 0
  | .set index => usizeSaturatingAdd index.toNat 1
  | .clear _ => 0

namespace Bitset

/-- A reservation that fails leaves the bitset as it was. -/
def step (bits : Bitset) : BitsetOp → Bitset
  | .tryReserve room index =>
    match bits.tryReserve room index.toNat with
    | .ok grown => grown
    | .error _ => bits
  | .set index => (bits.set index.toNat).1
  | .clear index => (bits.clear index.toNat).1

def run (capacity : Nat) (ops : List BitsetOp) : Bitset := ops.foldl step (new capacity)

theorem register_test (i : Nat) :
    Register step (fun bits => bits.test i) (BitsetOp.tells i) := by
  intro bits op
  cases op with
  | tryReserve room index =>
    simp only [step]
    cases hgrown : bits.tryReserve room index.toNat with
    | ok grown => exact test_tryReserve hgrown i
    | error error => rfl
  | set index =>
    simp only [step, BitsetOp.tells, test_set bits index.toNat_lt]
    by_cases h : i = index.toNat
    · simp [h]
    · simp [h]
  | clear index =>
    simp only [step, BitsetOp.tells, test_clear]
    by_cases h : i = index.toNat
    · simp [h]
    · simp [h]

/-- **What a bitset holds**: the bits that were set and not cleared since. -/
theorem test_run (capacity : Nat) (ops : List BitsetOp) (i : Nat) :
    (run capacity ops).test i = (lastSome (BitsetOp.tells i) ops).getD false := by
  rw [run, ← test_new capacity i]
  exact (register_test i).foldl (new capacity) ops

/-- The most bits there was ever room for. -/
def grownTo (capacity : Nat) (ops : List BitsetOp) : Nat :=
  ops.foldl (fun most op => max most op.reach) capacity

theorem wordCount_max (m n : Nat) : wordCount (max m n) = max (wordCount m) (wordCount n) := by
  unfold wordCount
  omega

theorem length_ensure (bits : Bitset) (index : Nat) :
    (bits.ensure index).words.length =
      max bits.words.length (wordCount (usizeSaturatingAdd index 1)) := by
  simp only [ensure]
  by_cases h : bits.words.length < wordCount (usizeSaturatingAdd index 1)
  · rw [if_pos h, length_resize, Nat.max_eq_right h.le]
  · rw [if_neg h, Nat.max_eq_left (Nat.not_lt.mp h)]

theorem length_tryReserve (room : Bool) (bits : Bitset) (index : UInt64) :
    (bits.step (.tryReserve room index)).words.length =
      max bits.words.length (wordCount (BitsetOp.tryReserve room index).reach) := by
  have hzero : max bits.words.length (wordCount 0) = bits.words.length :=
    Nat.max_eq_left (Nat.zero_le _)
  simp only [step, tryReserve]
  cases hnext : checkedAdd index.toNat 1 with
  | none =>
    -- The last index there is cannot be reserved, with or without memory.
    cases room with
    | false => exact hzero.symm
    | true => simp only [BitsetOp.reach, hnext, Option.getD_none, hzero]
  | some next =>
    simp only
    by_cases h : bits.words.length < wordCount next
    · -- Only here is memory asked for.
      rw [if_pos h]
      cases room with
      | false => exact hzero.symm
      | true =>
        simp only [if_true, BitsetOp.reach, hnext, Option.getD_some, length_resize]
        exact (Nat.max_eq_right h.le).symm
    · rw [if_neg h]
      cases room with
      | false => exact hzero.symm
      | true =>
        simp only [BitsetOp.reach, hnext, Option.getD_some]
        exact (Nat.max_eq_left (Nat.not_lt.mp h)).symm

theorem length_step (bits : Bitset) (op : BitsetOp) :
    (bits.step op).words.length = max bits.words.length (wordCount op.reach) := by
  cases op with
  | tryReserve room index => exact length_tryReserve room bits index
  | set index =>
    show ((bits.ensure index.toNat).words.modify _ _).length = _
    rw [List.length_modify, length_ensure]
    rfl
  | clear index =>
    show (bits.words.modify _ _).length = max _ (wordCount 0)
    rw [List.length_modify]
    exact (Nat.max_eq_left (Nat.zero_le _)).symm

/-- **How long a bitset is**: as long as its history ever wanted it. -/
theorem length_run (capacity : Nat) (ops : List BitsetOp) :
    (run capacity ops).words.length = wordCount (grownTo capacity ops) := by
  induction ops using List.reverseRecOn with
  | nil => exact List.length_replicate
  | append_singleton ops op ih =>
    rw [run, grownTo, List.foldl_append, List.foldl_append, List.foldl_cons, List.foldl_nil,
      List.foldl_cons, List.foldl_nil, length_step, wordCount_max]
    exact congrArg (max · _) ih

/-! ## The comparison -/

theorem and_eq_right_iff {w : Nat} (x y : BitVec w) :
    x &&& y = y ↔ ∀ i < w, y.getLsbD i = true → x.getLsbD i = true := by
  constructor
  · intro h i _ hy
    rw [← h, BitVec.getLsbD_and, Bool.and_eq_true] at hy
    exact hy.1
  · intro h
    refine BitVec.eq_of_getLsbD_eq ?_
    intro i hi
    rw [BitVec.getLsbD_and]
    cases hy : y.getLsbD i with
    | false => simp
    | true => simp [h i hi hy]

theorem test_of_word {bits : Bitset} {k : Nat} {word : BitVec 64} (h : bits.words[k]? = some word)
    {bit : Nat} (hbit : bit < 64) : bits.test (64 * k + bit) = word.getLsbD bit := by
  have hword : (64 * k + bit) / 64 = k := by omega
  have hlow : (64 * k + bit) % 64 = bit := by omega
  rw [test_eq, hword, hlow, h, Option.getD_some, testBit_eq word hbit]

/-- A member is a bit of some word. -/
theorem exists_word_of_test {bits : Bitset} {i : Nat} (h : bits.test i = true) :
    ∃ word, bits.words[i / 64]? = some word := by
  unfold test at h
  cases hword : bits.words[i / 64]? with
  | none =>
    rw [hword] at h
    exact absurd h Bool.false_ne_true
  | some word => exact ⟨word, rfl⟩

/-- Word by word, the test is that of the sets. -/
theorem supersetOf_of_le {bits other : Bitset} (h : other.words.length ≤ bits.words.length) :
    bits.supersetOf other = true ↔ ∀ i, other.test i = true → bits.test i = true := by
  rw [supersetOf, if_neg (Nat.not_lt.mpr h), List.all_eq_true]
  constructor
  · intro hall i hi
    obtain ⟨y, hy⟩ := exists_word_of_test hi
    have hlt := (List.getElem?_eq_some_iff.mp hy).1
    have hx := List.getElem?_eq_getElem (Nat.lt_of_lt_of_le hlt h)
    have htake := hx
    rw [← List.getElem?_take_of_lt hlt] at htake
    have hzip : ((bits.words.take other.words.length).zip other.words)[i / 64]? =
        some (bits.words[i / 64], y) := List.getElem?_zip_eq_some.mpr ⟨htake, hy⟩
    have hand := (and_eq_right_iff _ y).mp (beq_iff_eq.mp (hall _ (List.mem_of_getElem? hzip)))
    have hbit : i % 64 < 64 := Nat.mod_lt i (by decide)
    rw [← Nat.div_add_mod i 64, test_of_word hy hbit] at hi
    rw [← Nat.div_add_mod i 64, test_of_word hx hbit]
    exact hand _ hbit hi
  · intro hsub words hwords
    obtain ⟨k, hk⟩ := List.mem_iff_getElem?.mp hwords
    obtain ⟨htake, hy⟩ := List.getElem?_zip_eq_some.mp hk
    have hlt := (List.getElem?_eq_some_iff.mp hy).1
    rw [List.getElem?_take_of_lt hlt] at htake
    refine beq_iff_eq.mpr ((and_eq_right_iff _ _).mpr ?_)
    intro bit hbit hset
    have hother := hsub (64 * k + bit)
    rw [test_of_word hy hbit, test_of_word htake hbit] at hother
    exact hother hset

/-- **When the test is right.** The other has no more words, or it has a member that is missing. -/
theorem supersetOf_iff (bits other : Bitset) :
    (bits.supersetOf other = true ↔ ∀ i, other.test i = true → bits.test i = true) ↔
      other.words.length ≤ bits.words.length ∨
        ∃ i, other.test i = true ∧ bits.test i = false := by
  by_cases h : other.words.length ≤ bits.words.length
  · exact iff_of_true (supersetOf_of_le h) (Or.inl h)
  · have hshort : bits.supersetOf other = false := if_pos (Nat.lt_of_not_le h)
    rw [hshort]
    simp [h]

/-- **When the test is right**, of two histories: the other was never made larger, or it holds a
    bit that is missing. -/
theorem supersetOf_run_iff (capacity otherCapacity : Nat) (ops otherOps : List BitsetOp) :
    ((run capacity ops).supersetOf (run otherCapacity otherOps) = true ↔
        ∀ i, (run otherCapacity otherOps).test i = true → (run capacity ops).test i = true) ↔
      wordCount (grownTo otherCapacity otherOps) ≤ wordCount (grownTo capacity ops) ∨
        ∃ i, (run otherCapacity otherOps).test i = true ∧ (run capacity ops).test i = false := by
  rw [← length_run, ← length_run]
  exact supersetOf_iff (run capacity ops) (run otherCapacity otherOps)

/-- **A bit set and cleared.** Both are empty, and the second has two words. -/
theorem supersetOf_cleared :
    (run 10 []).supersetOf (run 10 [.set 100, .clear 100]) = false ∧
      ∀ i, (run 10 [.set 100, .clear 100]).test i = true → (run 10 []).test i = true := by
  refine ⟨by decide, ?_⟩
  intro i hi
  rw [test_run] at hi
  by_cases h : i = 100
  · -- The last that was told of it is that it is clear.
    subst h
    exact absurd hi (by decide)
  · have hnone : lastSome (BitsetOp.tells i) [.set 100, .clear 100] = none := by
      simp [lastSome, BitsetOp.tells, h]
    rw [hnone] at hi
    exact absurd hi Bool.false_ne_true

end Bitset

end Ecs
end EngineKit
