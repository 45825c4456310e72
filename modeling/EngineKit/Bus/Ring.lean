import EngineKit.Lib.Ring

/-!
# The rings of the message bus

`SpscRing` is an inbox: one producer, one consumer, a power-of-two buffer of cells and two
counters that wrap. A cell that has been read is empty again (`none`): its value has moved out.
`push` and `pop` are here as one call each, which is how the bus makes them; `Bus/Spsc.lean` takes
them apart into their loads and stores.

`MpscRing` is the outbox, the same buffer behind a spinlock. The bus holds it exclusively, so its
calls never wait for the lock, and under the lock they are the calls of the other ring.

`SpscRing.Holds` reads a ring as the queue it stands for. In terms of that queue `push` appends
unless it is as long as the buffer, and `pop` takes the front.

The counters are words and wrap; `taken` and `taken + xs.length` are what they stand for. The
numbers are not in the ring, and `Wf` hides them: a user of a ring knows that there are some and
reads the contents only. The difference of the counters is right even after they have wrapped,
because a ring never holds more than its buffer, which is smaller than a word can count.
-/

set_option autoImplicit false

namespace EngineKit
namespace Bus

open Lib

inductive RingError where
  | invalidCapacity
  | allocationFailed
deriving DecidableEq

structure SpscRing (w : PointerWidth) (T : Type) where
  buf : List (Option T)
  mask : w.Usize
  head : w.Usize
  tail : w.Usize

namespace SpscRing

variable {w : PointerWidth} {T : Type}

/-- `room` is whether the buffer can be allocated. -/
def tryWithCapacity (room : Bool) (capacity : w.Usize) : Except RingError (SpscRing w T) :=
  match checkedNextPowerOfTwo capacity with
  | none => .error .invalidCapacity
  | some capacity =>
    let capacity := if capacity < 2 then 2 else capacity
    if room then
      .ok { buf := List.replicate capacity.toNat none, mask := capacity - 1, head := 0, tail := 0 }
    else .error .allocationFailed

def capacity (r : SpscRing w T) : w.Usize := r.mask + 1

def isEmpty (r : SpscRing w T) : Bool := r.head == r.tail

/-- `tail.wrapping_sub(head)`. -/
def len (r : SpscRing w T) : w.Usize := r.tail - r.head

/-- The cell of a counter: `index & self.mask`. -/
def slot (r : SpscRing w T) (index : w.Usize) : Nat := (index &&& r.mask).toNat

def push (r : SpscRing w T) (value : T) : Except T Unit × SpscRing w T :=
  if r.capacity ≤ r.tail - r.head then (.error value, r)
  else (.ok (), { r with buf := r.buf.set (r.slot r.tail) (some value), tail := r.tail + 1 })

def pop (r : SpscRing w T) : Option T × SpscRing w T :=
  if r.head = r.tail then (none, r)
  else
    (r.buf[r.slot r.head]?.join,
      { r with buf := r.buf.set (r.slot r.head) none, head := r.head + 1 })

/-- What the ring holds, oldest first. -/
def contents (r : SpscRing w T) : List T :=
  (List.range r.len.toNat).filterMap fun j =>
    r.buf[r.slot (r.head + BitVec.ofNat w.bits j)]?.join

/-! ## The size of a ring -/

section Sized

variable {r : SpscRing w T}

/-- The buffer has a power of two of cells, at least two, that a word can count past. -/
def Sized (r : SpscRing w T) : Prop :=
  ∃ k, 1 ≤ k ∧ k < w.bits ∧ r.buf.length = 2 ^ k ∧ r.mask = BitVec.ofNat w.bits (2 ^ k - 1)

theorem Sized.lt (h : r.Sized) : r.buf.length < 2 ^ w.bits := by
  obtain ⟨k, -, hk, hlen, -⟩ := h
  rw [hlen]
  exact Nat.pow_lt_pow_right (by decide) hk

theorem Sized.pos (h : r.Sized) : 0 < r.buf.length := by
  obtain ⟨k, -, -, hlen, -⟩ := h
  rw [hlen]
  exact Nat.two_pow_pos k

/-- The capacity is the length of the buffer. -/
theorem Sized.toNat_capacity (h : r.Sized) : r.capacity.toNat = r.buf.length := by
  have hlt := h.lt
  obtain ⟨k, -, -, hlen, hmask⟩ := h
  have hpos := Nat.two_pow_pos k
  rw [hlen] at hlt ⊢
  have hone : (1 : w.Usize) = BitVec.ofNat w.bits 1 := rfl
  rw [capacity, hmask, hone, ← BitVec.ofNat_add, BitVec.toNat_ofNat, Nat.sub_add_cancel hpos,
    Nat.mod_eq_of_lt hlt]

/-- The cell of a counter: with a power of two the mask is the rest of a division. -/
theorem Sized.slot_eq (h : r.Sized) (n : Nat) :
    r.slot (BitVec.ofNat w.bits n) = n % r.buf.length := by
  obtain ⟨k, -, hk, hlen, hmask⟩ := h
  rw [slot, hmask, hlen]
  exact toNat_and_counter hk.le n

/-- No operation changes the size. -/
theorem Sized.congr {r' : SpscRing w T} (h : r.Sized) (hlen : r'.buf.length = r.buf.length)
    (hmask : r'.mask = r.mask) : r'.Sized := by
  obtain ⟨k, hk, hkw, hsize, hbits⟩ := h
  exact ⟨k, hk, hkw, hlen.trans hsize, hmask.trans hbits⟩

/-- The check `push` starts with, on the true values of the counters. -/
theorem Sized.full_iff (h : r.Sized) {taken put : Nat} (hle : taken ≤ put)
    (hfits : put - taken ≤ r.buf.length) :
    r.capacity ≤ BitVec.ofNat w.bits put - BitVec.ofNat w.bits taken ↔
      put - taken = r.buf.length := by
  have hlt := h.lt
  rw [BitVec.le_def, h.toNat_capacity, toNat_sub_counter hle (by omega)]
  omega

end Sized

/-! ## A ring as a queue -/

/-- The ring holds `xs`, after `taken` values have been taken from it. -/
structure Holds (r : SpscRing w T) (taken : Nat) (xs : List T) : Prop where
  sized : r.Sized
  head : r.head = BitVec.ofNat w.bits taken
  tail : r.tail = BitVec.ofNat w.bits (taken + xs.length)
  cells : Cells r.buf taken xs

section Holds

variable {r r' : SpscRing w T} {taken : Nat} {xs : List T} {x value : T}

/-- The larger of a power of two and two is a power of two. -/
theorem atLeastTwo {k : Nat} (hk : k < w.bits) :
    ∃ m, 1 ≤ m ∧ m < w.bits ∧ 2 ^ m = max (2 ^ k) 2 ∧
      (if BitVec.ofNat w.bits (2 ^ k) < 2 then 2 else BitVec.ofNat w.bits (2 ^ k)) =
        BitVec.ofNat w.bits (2 ^ m) := by
  have hbits := w.sixteen_le
  have hlt : 2 ^ k < 2 ^ w.bits := Nat.pow_lt_pow_right (by decide) hk
  have htwo : (2 : w.Usize).toNat = 2 := by
    have hpow : (2 : Nat) ^ 2 ≤ 2 ^ w.bits := Nat.pow_le_pow_right (by decide) (by omega)
    exact Nat.mod_eq_of_lt (show 2 < 2 ^ w.bits by omega)
  have hk2 : BitVec.ofNat w.bits (2 ^ k) < 2 ↔ k = 0 := by
    rw [BitVec.lt_def, htwo, BitVec.toNat_ofNat, Nat.mod_eq_of_lt hlt]
    constructor
    · intro hsmall
      by_contra hne
      have hpow : 2 ^ 1 ≤ 2 ^ k := Nat.pow_le_pow_right (by decide) (by omega)
      omega
    · intro hzero
      rw [hzero]
      decide
  -- One cell is rounded up to two.
  by_cases hzero : k = 0
  · exact ⟨1, Nat.le_refl _, by omega, by rw [hzero]; rfl, if_pos (hk2.mpr hzero)⟩
  · have hpow : 2 ^ 1 ≤ 2 ^ k := Nat.pow_le_pow_right (by decide) (by omega)
    exact ⟨k, by omega, hk, by omega, if_neg fun h => hzero (hk2.mp h)⟩

/-- **A new ring** is empty, with room for what was asked, rounded up. -/
theorem tryWithCapacity_spec {room : Bool} {capacity : w.Usize}
    (h : tryWithCapacity room capacity = .ok r) :
    r.Holds 0 [] ∧ r.buf.length = max (nextPowerOfTwo capacity.toNat) 2 := by
  unfold tryWithCapacity at h
  cases hpow : checkedNextPowerOfTwo capacity with
  | none => rw [hpow] at h; exact absurd h (by simp)
  | some rounded =>
    simp only [hpow] at h
    -- The power that is asked for may be too large for a word, or for the memory.
    split at h
    · obtain rfl := Except.ok.inj h
      obtain ⟨k, hk, hround, rfl⟩ := eq_of_checkedNextPowerOfTwo hpow
      obtain ⟨m, hm, hmw, hmax, hsize⟩ := atLeastTwo hk
      have hlt : 2 ^ m < 2 ^ w.bits := Nat.pow_lt_pow_right (by decide) hmw
      have hlen : (BitVec.ofNat w.bits (2 ^ m)).toNat = 2 ^ m := by
        rw [BitVec.toNat_ofNat, Nat.mod_eq_of_lt hlt]
      rw [hsize, hround, ← hmax]
      refine ⟨⟨⟨m, hm, hmw, ?_, ?_⟩, rfl, rfl, Cells.empty _ _⟩, ?_⟩
      · exact List.length_replicate.trans hlen
      · show BitVec.ofNat w.bits (2 ^ m) - BitVec.ofNat w.bits 1 = _
        have hone : 1 ≤ 2 ^ m := Nat.two_pow_pos m
        rw [sub_eq_iff_eq_add, ← BitVec.ofNat_add, Nat.sub_add_cancel hone]
      · exact List.length_replicate.trans hlen
    · exact absurd h (by simp)

/-- The difference of the counters is how many there are. -/
theorem Holds.toNat_len (h : r.Holds taken xs) : r.len.toNat = xs.length := by
  have hfits := h.cells.fits
  have hlt := h.sized.lt
  rw [len, h.head, h.tail, toNat_sub_counter (by omega) (by omega)]
  omega

/-- What is read off the ring is the queue. -/
theorem Holds.contents_eq (h : r.Holds taken xs) : r.contents = xs := by
  have hfits := h.cells.fits
  rw [contents, h.toNat_len]
  have hcell (j : Nat) (hj : j ∈ List.range xs.length) :
      r.buf[r.slot (r.head + BitVec.ofNat w.bits j)]?.join = xs[j]? := by
    rw [List.mem_range] at hj
    rw [h.head, ← BitVec.ofNat_add, h.sized.slot_eq, h.cells.holds j (by omega), Option.join_some]
  rw [List.filterMap_congr hcell, filterMap_range_getElem?]

/-- Equal counters are those of an empty ring. -/
theorem Holds.isEmpty_iff (h : r.Holds taken xs) : r.isEmpty = true ↔ xs = [] := by
  have hfits := h.cells.fits
  have hlt := h.sized.lt
  rw [isEmpty, beq_iff_eq, h.head, h.tail, counter_eq_iff (by omega) (by omega),
    ← List.length_eq_zero_iff]
  omega

/-- **A push** on a full ring gives the value back. -/
theorem Holds.push_full (h : r.Holds taken xs) (hfull : xs.length = r.buf.length) (value : T) :
    r.push value = (.error value, r) := by
  have hcheck := (h.sized.full_iff (Nat.le_add_right taken xs.length) (by omega)).mpr (by omega)
  rw [push, h.head, h.tail, if_pos hcheck]

/-- **A push** on a ring with room appends. -/
theorem Holds.push_room (h : r.Holds taken xs) (hroom : xs.length < r.buf.length) (value : T) :
    ∃ r', r.push value = (.ok (), r') ∧ r'.Holds taken (xs ++ [value]) ∧
      r'.buf.length = r.buf.length := by
  have hcheck : ¬ r.capacity ≤ r.tail - r.head := by
    rw [h.head, h.tail, h.sized.full_iff (Nat.le_add_right taken xs.length) (by omega)]
    omega
  have hcells := h.cells.put hroom value
  rw [← h.sized.slot_eq, ← h.tail] at hcells
  refine ⟨_, if_neg hcheck, ⟨h.sized.congr List.length_set rfl, h.head, ?_, hcells⟩,
    List.length_set⟩
  show r.tail + 1 = _
  rw [h.tail, List.length_append, List.length_singleton, ← Nat.add_assoc]
  exact (BitVec.ofNat_add _ _).symm

/-- **A pop** on an empty ring finds nothing. -/
theorem Holds.pop_nil (h : r.Holds taken ([] : List T)) : r.pop = (none, r) := by
  have hempty : r.head = r.tail := h.head.trans h.tail.symm
  rw [pop, if_pos hempty]

/-- **A pop** takes the oldest value. -/
theorem Holds.pop_cons (h : r.Holds taken (x :: xs)) :
    ∃ r', r.pop = (some x, r') ∧ r'.Holds (taken + 1) xs ∧ r'.buf.length = r.buf.length := by
  have hlt := h.sized.lt
  have hfits := h.cells.fits
  rw [List.length_cons] at hfits
  have hcheck : ¬ r.head = r.tail := by
    rw [h.head, h.tail, List.length_cons, counter_eq_iff (by omega) (by omega)]
    omega
  have hfront := h.cells.front
  have hcells := h.cells.take
  rw [← h.sized.slot_eq, ← h.head] at hfront hcells
  refine ⟨{ r with buf := r.buf.set (r.slot r.head) none, head := r.head + 1 }, ?_,
    ⟨h.sized.congr List.length_set rfl, ?_, ?_, hcells⟩, List.length_set⟩
  · rw [pop, if_neg hcheck, hfront, Option.join_some]
  · show r.head + 1 = _
    rw [h.head]
    exact (BitVec.ofNat_add _ _).symm
  · show r.tail = _
    rw [h.tail, List.length_cons, Nat.add_assoc, Nat.add_comm 1]

end Holds

/-! ## The calls on the contents -/

/-- A ring some run of its operations builds. -/
def Wf (r : SpscRing w T) : Prop := ∃ taken, r.Holds taken r.contents

section Wf

variable {r : SpscRing w T}

theorem Holds.wf {taken : Nat} {xs : List T} (h : r.Holds taken xs) : r.Wf :=
  ⟨taken, h.contents_eq.symm ▸ h⟩

/-- There are not more than cells. -/
theorem Wf.length_le (h : r.Wf) : r.contents.length ≤ r.buf.length := by
  obtain ⟨taken, h⟩ := h
  exact h.cells.fits

theorem Wf.toNat_len (h : r.Wf) : r.len.toNat = r.contents.length := by
  obtain ⟨taken, h⟩ := h
  exact h.toNat_len

/-- **The three calls** on what the ring holds. -/
theorem Wf.push_room (h : r.Wf) (hroom : r.contents.length < r.buf.length) (value : T) :
    ∃ r', r.push value = (.ok (), r') ∧ r'.Wf ∧ r'.buf.length = r.buf.length ∧
      r'.contents = r.contents ++ [value] := by
  obtain ⟨taken, h⟩ := h
  obtain ⟨r', hpush, h', hsize⟩ := h.push_room hroom value
  exact ⟨r', hpush, h'.wf, hsize, h'.contents_eq⟩

theorem Wf.push_full (h : r.Wf) (hfull : ¬ r.contents.length < r.buf.length) (value : T) :
    r.push value = (.error value, r) := by
  have hle := h.length_le
  obtain ⟨taken, h⟩ := h
  exact h.push_full (by omega) value

theorem Wf.pop_spec (h : r.Wf) :
    ∃ r', r.pop = (r.contents.head?, r') ∧ r'.Wf ∧ r'.buf.length = r.buf.length ∧
      r'.contents = r.contents.tail := by
  obtain ⟨taken, h⟩ := h
  cases hxs : r.contents with
  | nil =>
    rw [hxs] at h
    exact ⟨r, h.pop_nil, h.wf, rfl, hxs⟩
  | cons x xs =>
    rw [hxs] at h
    obtain ⟨r', hpop, h', hsize⟩ := h.pop_cons
    exact ⟨r', hpop, h'.wf, hsize, h'.contents_eq⟩

end Wf

end SpscRing

/-! ## The outbox ring -/

theorem exists_of_map_eq_ok {ε α β : Type} {f : α → β} {answer : Except ε α} {b : β}
    (h : answer.map f = .ok b) : ∃ a, answer = .ok a ∧ f a = b := by
  cases answer with
  | error error => cases h
  | ok a => exact ⟨a, rfl, Except.ok.inj h⟩

/-- The cells and counters the spinlock guards. -/
structure MpscRing (w : PointerWidth) (T : Type) where
  cells : SpscRing w T

namespace MpscRing

variable {w : PointerWidth} {T : Type}

def tryWithCapacity (room : Bool) (capacity : w.Usize) : Except RingError (MpscRing w T) :=
  (SpscRing.tryWithCapacity room capacity).map MpscRing.mk

theorem tryWithCapacity_spec {r : MpscRing w T} {room : Bool} {capacity : w.Usize}
    (h : tryWithCapacity room capacity = .ok r) :
    r.cells.Holds 0 [] ∧ r.cells.buf.length = max (nextPowerOfTwo capacity.toNat) 2 := by
  obtain ⟨cells, hcells, rfl⟩ := exists_of_map_eq_ok h
  exact SpscRing.tryWithCapacity_spec hcells

def push (r : MpscRing w T) (value : T) : Except T Unit × MpscRing w T :=
  let (result, cells) := r.cells.push value
  (result, ⟨cells⟩)

def pop (r : MpscRing w T) : Option T × MpscRing w T :=
  let (result, cells) := r.cells.pop
  (result, ⟨cells⟩)

end MpscRing

end Bus
end EngineKit
