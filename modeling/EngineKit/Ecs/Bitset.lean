import Mathlib.Data.BitVec
import EngineKit.Lib.LittleEndian
import EngineKit.Lib.SparseSet

/-!
# Bitsets

A `Bitset` is a vector of 64-bit words, one bit for each entity index. It grows when a bit beyond
its last word is set and never shrinks, so two bitsets with the same bits may have different
lengths: what a bitset *is* is `Bitset.test`, and the operations are characterised by it.

Whether an allocation succeeds is an argument (`room`) of every operation that reports it.
-/

set_option autoImplicit false

namespace EngineKit
namespace Ecs

open Lib

inductive BitsetError where
  | allocationFailed
  | invalidIndex
deriving DecidableEq

structure Bitset where
  words : List (BitVec 64)

/-- `capacity.div_ceil(64)`. -/
def Bitset.wordCount (capacity : Nat) : Nat := (capacity + 63) / 64

def Bitset.new (capacity : Nat) : Bitset := ⟨List.replicate (wordCount capacity) 0⟩

def Bitset.ensure (bits : Bitset) (index : Nat) : Bitset :=
  let count := wordCount (usizeSaturatingAdd index 1)
  if bits.words.length < count then ⟨resize bits.words count 0⟩ else bits

def Bitset.tryReserve (room : Bool) (bits : Bitset) (index : Nat) : Except BitsetError Bitset :=
  match checkedAdd index 1 with
  | none => .error .invalidIndex
  | some next =>
    let count := wordCount next
    if bits.words.length < count then
      if room then .ok ⟨resize bits.words count 0⟩ else .error .allocationFailed
    else .ok bits

/-- `words[word] & (1 << bit) != 0`. -/
def testBit (word : BitVec 64) (bit : Nat) : Bool := word &&& (1#64 <<< bit) != 0

def Bitset.test (bits : Bitset) (index : Nat) : Bool :=
  match bits.words[index / 64]? with
  | none => false
  | some word => testBit word (index % 64)

/-- The bitset afterwards, and whether the bit was new. -/
def Bitset.set (bits : Bitset) (index : Nat) : Bitset × Bool :=
  let grown := bits.ensure index
  (⟨grown.words.modify (index / 64) fun word => word ||| (1#64 <<< (index % 64))⟩,
    !grown.test index)

/-- The bitset afterwards, and whether the bit was there. -/
def Bitset.clear (bits : Bitset) (index : Nat) : Bitset × Bool :=
  (⟨bits.words.modify (index / 64) fun word => word &&& ~~~(1#64 <<< (index % 64))⟩,
    bits.test index)

/-! ## What a bitset holds -/

theorem testBit_eq (word : BitVec 64) {bit : Nat} (h : bit < 64) :
    testBit word bit = word.getLsbD bit := by
  have hne : BitVec.twoPow 64 bit ≠ 0#64 := by
    intro h0
    have hbit : (BitVec.twoPow 64 bit).getLsbD bit = true := by simp [h]
    rw [h0] at hbit
    exact absurd hbit (by simp)
  rw [testBit, ← BitVec.twoPow_eq, BitVec.and_twoPow]
  cases word.getLsbD bit with
  | false => rfl
  | true => rw [if_pos rfl]; simpa using hne

theorem testBit_or (word : BitVec 64) {bit other : Nat} (h : bit < 64) (ho : other < 64) :
    testBit (word ||| (1#64 <<< bit)) other = (decide (other = bit) || testBit word other) := by
  rw [testBit_eq _ ho, testBit_eq _ ho, ← BitVec.twoPow_eq, BitVec.getLsbD_or,
    BitVec.getLsbD_twoPow, Bool.or_comm]
  simp [h, eq_comm]

theorem testBit_and_not (word : BitVec 64) {bit other : Nat} (h : bit < 64) (ho : other < 64) :
    testBit (word &&& ~~~(1#64 <<< bit)) other
      = (!decide (other = bit) && testBit word other) := by
  rw [testBit_eq _ ho, testBit_eq _ ho, ← BitVec.twoPow_eq, BitVec.getLsbD_and, BitVec.getLsbD_not,
    BitVec.getLsbD_twoPow, Bool.and_comm]
  simp [h, ho, eq_comm]

namespace Bitset

/-- Past the last word every bit is unset. -/
theorem test_eq (bits : Bitset) (i : Nat) :
    bits.test i = testBit (bits.words[i / 64]?.getD 0) (i % 64) := by
  unfold test
  cases bits.words[i / 64]? with
  | none => simp [testBit]
  | some word => rfl

/-- Growing a bitset changes no bit. -/
theorem test_resize {words : List (BitVec 64)} {count : Nat} (h : words.length ≤ count) (i : Nat) :
    Bitset.test ⟨resize words count 0⟩ i = Bitset.test ⟨words⟩ i := by
  rw [test_eq, test_eq, getElem?_resize_of_le h]
  split
  · rfl
  · next hi =>
    have hout : words[i / 64]? = none := List.getElem?_eq_none (by omega)
    rw [hout]

theorem test_ensure (bits : Bitset) (index i : Nat) :
    (bits.ensure index).test i = bits.test i := by
  simp only [ensure]
  split
  · next hlt => exact test_resize hlt.le i
  · rfl

theorem test_tryReserve {room : Bool} {bits grown : Bitset} {index : Nat}
    (h : bits.tryReserve room index = .ok grown) (i : Nat) : grown.test i = bits.test i := by
  unfold tryReserve at h
  cases hnext : checkedAdd index 1 with
  | none => rw [hnext] at h; exact absurd h (by simp)
  | some next =>
    simp only [hnext] at h
    by_cases hlt : bits.words.length < wordCount next
    · rw [if_pos hlt] at h
      cases room with
      | false => exact absurd h (by simp)
      | true => rw [← Except.ok.inj h, test_resize hlt.le]
    · rw [if_neg hlt] at h
      rw [← Except.ok.inj h]

/-- After `ensure` the word of the index is there. -/
theorem lt_length_ensure (bits : Bitset) {index : Nat} (h : index < 2 ^ 64) :
    index / 64 < (bits.ensure index).words.length := by
  have hcount : index / 64 < wordCount (usizeSaturatingAdd index 1) := by
    unfold wordCount usizeSaturatingAdd
    omega
  simp only [ensure]
  split
  · rw [length_resize]
    exact hcount
  · omega

/-- **Setting a bit** sets that bit and no other. -/
theorem test_set (bits : Bitset) {index : Nat} (h : index < 2 ^ 64) (i : Nat) :
    (bits.set index).1.test i = (decide (i = index) || bits.test i) := by
  have hword := List.getElem?_eq_getElem (bits.lt_length_ensure h)
  rw [← test_ensure bits index i, test_eq, test_eq, set, List.getElem?_modify]
  by_cases hw : index / 64 = i / 64
  · have hbit : i = index ↔ i % 64 = index % 64 := by omega
    simp only [← hw, hword, Option.map_eq_map, Option.map_some, Option.getD_some, hbit]
    exact testBit_or _ (by omega) (by omega)
  · have hne : ¬ i = index := fun heq => hw (heq ▸ rfl)
    simp [if_neg hw, hne]

/-- **Clearing a bit** clears that bit and no other. -/
theorem test_clear (bits : Bitset) (index i : Nat) :
    (bits.clear index).1.test i = (!decide (i = index) && bits.test i) := by
  rw [test_eq, test_eq, clear, List.getElem?_modify]
  by_cases hw : index / 64 = i / 64
  · have hbit : i = index ↔ i % 64 = index % 64 := by omega
    simp only [if_pos hw, hbit]
    cases bits.words[i / 64]? with
    | none => simp [testBit]
    | some word => exact testBit_and_not word (by omega) (by omega)
  · have hne : ¬ i = index := fun heq => hw (heq ▸ rfl)
    simp [if_neg hw, hne]

theorem test_new (capacity i : Nat) : (new capacity).test i = false := by
  rw [test_eq, new, List.getElem?_replicate]
  split <;> simp [testBit]

end Bitset

end Ecs
end EngineKit
