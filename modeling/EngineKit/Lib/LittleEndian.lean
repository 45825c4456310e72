import Mathlib.Data.Nat.ModEq

/-!
# Little-endian words and checked machine arithmetic

Fixed-width words as byte lists, least significant byte first, and the two `usize`/`u64`
operations a program that must not wrap reaches for. Everything here is about bytes and
numbers; no program is named. The names are Rust's: `u32ToLe` is `u32::to_le_bytes`, `checkedAdd`
is `usize::checked_add` on a 64-bit target.

The two round trips are the content: a word survives its bytes (`leNat_leBytes`), and bytes of
the right width survive their word (`leBytes_leNat`). A decoder needs the first to be correct
on what an encoder wrote, and the second to be *canonical* — to accept nothing an encoder could
not have written.
-/

set_option autoImplicit false

namespace EngineKit
namespace Lib

/-- The `w` little-endian bytes of `n`. Bits from `8 * w` on are dropped. -/
def leBytes : Nat → Nat → List UInt8
  | 0, _ => []
  | w + 1, n => UInt8.ofNat (n % 256) :: leBytes w (n / 256)

/-- The number the little-endian bytes spell. -/
def leNat : List UInt8 → Nat
  | [] => 0
  | b :: bs => b.toNat + 256 * leNat bs

@[simp] theorem length_leBytes (w n : Nat) : (leBytes w n).length = w := by
  induction w generalizing n with
  | zero => rfl
  | succ w ih => simp only [leBytes, List.length_cons, ih]

theorem leNat_lt (bs : List UInt8) : leNat bs < 256 ^ bs.length := by
  induction bs with
  | nil => simp [leNat]
  | cons b bs ih =>
    have hb : b.toNat < 256 := b.toNat_lt
    rw [leNat, List.length_cons, pow_succ]
    omega

theorem leNat_leBytes (w n : Nat) : leNat (leBytes w n) = n % 256 ^ w := by
  induction w generalizing n with
  | zero => simp [leBytes, leNat, Nat.mod_one]
  | succ w ih =>
    have hb : (UInt8.ofNat (n % 256)).toNat = n % 256 := by
      rw [UInt8.toNat_ofNat']
      exact Nat.mod_eq_of_lt (Nat.mod_lt n (by omega))
    rw [leBytes, leNat, hb, ih, pow_succ', Nat.mod_mul]

theorem leBytes_leNat (bs : List UInt8) : leBytes bs.length (leNat bs) = bs := by
  induction bs with
  | nil => rfl
  | cons b bs ih =>
    have hb : b.toNat < 256 := b.toNat_lt
    have hlow : (b.toNat + 256 * leNat bs) % 256 = b.toNat := by omega
    have hhigh : (b.toNat + 256 * leNat bs) / 256 = leNat bs := by omega
    rw [List.length_cons, leNat, leBytes, hlow, hhigh, ih, UInt8.ofNat_toNat]

theorem leBytes_add (v w n : Nat) :
    leBytes (v + w) n = leBytes v n ++ leBytes w (n / 256 ^ v) := by
  induction v generalizing n with
  | zero => rw [Nat.zero_add, pow_zero, Nat.div_one]; rfl
  | succ v ih =>
    rw [Nat.succ_add, leBytes, leBytes, ih, List.cons_append, Nat.div_div_eq_div_mul, pow_succ']

theorem leBytes_mod (w n : Nat) : leBytes w (n % 256 ^ w) = leBytes w n := by
  have h := leBytes_leNat (leBytes w n)
  rwa [length_leBytes, leNat_leBytes] at h

/-! ## 32- and 64-bit words -/

def u32ToLe (x : UInt32) : List UInt8 := leBytes 4 x.toNat

def u32OfLe (bs : List UInt8) : UInt32 := UInt32.ofNat (leNat bs)

def u64ToLe (x : UInt64) : List UInt8 := leBytes 8 x.toNat

def u64OfLe (bs : List UInt8) : UInt64 := UInt64.ofNat (leNat bs)

@[simp] theorem length_u32ToLe (x : UInt32) : (u32ToLe x).length = 4 := length_leBytes 4 _

@[simp] theorem length_u64ToLe (x : UInt64) : (u64ToLe x).length = 8 := length_leBytes 8 _

@[simp] theorem u32OfLe_u32ToLe (x : UInt32) : u32OfLe (u32ToLe x) = x := by
  have hx : x.toNat % 256 ^ 4 = x.toNat := Nat.mod_eq_of_lt x.toNat_lt
  rw [u32OfLe, u32ToLe, leNat_leBytes, hx, UInt32.ofNat_toNat]

@[simp] theorem u64OfLe_u64ToLe (x : UInt64) : u64OfLe (u64ToLe x) = x := by
  have hx : x.toNat % 256 ^ 8 = x.toNat := Nat.mod_eq_of_lt x.toNat_lt
  rw [u64OfLe, u64ToLe, leNat_leBytes, hx, UInt64.ofNat_toNat]

theorem u32ToLe_u32OfLe {bs : List UInt8} (h : bs.length = 4) : u32ToLe (u32OfLe bs) = bs := by
  have hlt : leNat bs < 2 ^ 32 := by simpa [h] using leNat_lt bs
  have hn : (UInt32.ofNat (leNat bs)).toNat = leNat bs := UInt32.toNat_ofNat_of_lt' hlt
  rw [u32ToLe, u32OfLe, hn, ← h, leBytes_leNat]

theorem u64ToLe_u64OfLe {bs : List UInt8} (h : bs.length = 8) : u64ToLe (u64OfLe bs) = bs := by
  have hlt : leNat bs < 2 ^ 64 := by simpa [h] using leNat_lt bs
  have hn : (UInt64.ofNat (leNat bs)).toNat = leNat bs := UInt64.toNat_ofNat_of_lt' hlt
  rw [u64ToLe, u64OfLe, hn, ← h, leBytes_leNat]

theorem u32_toNat_ofNat {n : Nat} (h : n ≤ 4294967295) : (UInt32.ofNat n).toNat = n :=
  UInt32.toNat_ofNat_of_lt' (by change n < 4294967296; omega)

def u16ToLe (x : UInt16) : List UInt8 := leBytes 2 x.toNat

def u16OfLe (bs : List UInt8) : UInt16 := UInt16.ofNat (leNat bs)

@[simp] theorem length_u16ToLe (x : UInt16) : (u16ToLe x).length = 2 := length_leBytes 2 _

@[simp] theorem u16OfLe_u16ToLe (x : UInt16) : u16OfLe (u16ToLe x) = x := by
  have hx : x.toNat % 256 ^ 2 = x.toNat := Nat.mod_eq_of_lt x.toNat_lt
  rw [u16OfLe, u16ToLe, leNat_leBytes, hx, UInt16.ofNat_toNat]

/-! ## Checked and saturating arithmetic -/

def checkedAdd (a b : Nat) : Option Nat := if a + b < 2 ^ 64 then some (a + b) else none

theorem checkedAdd_of_lt {a b : Nat} (h : a + b < 2 ^ 64) : checkedAdd a b = some (a + b) :=
  if_pos h

theorem eq_of_checkedAdd {a b c : Nat} (h : checkedAdd a b = some c) : c = a + b := by
  unfold checkedAdd at h
  split at h
  · exact (Option.some.inj h).symm
  · exact absurd h (by simp)

/-- `usize::saturating_add`. -/
def usizeSaturatingAdd (a b : Nat) : Nat := min (a + b) (2 ^ 64 - 1)

def checkedMul (a b : Nat) : Option Nat := if a * b < 2 ^ 64 then some (a * b) else none

theorem eq_of_checkedMul {a b c : Nat} (h : checkedMul a b = some c) : c = a * b := by
  unfold checkedMul at h
  split at h
  · exact (Option.some.inj h).symm
  · exact absurd h (by simp)

/-- `u32::try_from` of a `usize`. -/
def u32TryFrom (n : Nat) : Option UInt32 := if n < 2 ^ 32 then some (UInt32.ofNat n) else none

theorem toNat_of_u32TryFrom {n : Nat} {x : UInt32} (h : u32TryFrom n = some x) :
    x.toNat = n := by
  unfold u32TryFrom at h
  split at h
  · next hlt =>
    obtain rfl := Option.some.inj h
    exact UInt32.toNat_ofNat_of_lt' hlt
  · exact absurd h (by simp)

theorem lt_of_u32TryFrom {n : Nat} {x : UInt32} (h : u32TryFrom n = some x) : n < 2 ^ 32 :=
  toNat_of_u32TryFrom h ▸ x.toNat_lt

def u32CheckedAdd (a b : UInt32) : Option UInt32 := u32TryFrom (a.toNat + b.toNat)

def u32SaturatingAdd (a b : UInt32) : UInt32 :=
  if a.toNat + b.toNat < 2 ^ 32 then a + b else UInt32.ofNat (2 ^ 32 - 1)

theorem toNat_u32SaturatingAdd {a b : UInt32} (h : a.toNat + b.toNat < 2 ^ 32) :
    (u32SaturatingAdd a b).toNat = a.toNat + b.toNat := by
  rw [u32SaturatingAdd, if_pos h, UInt32.toNat_add]
  exact Nat.mod_eq_of_lt h

def saturatingAdd (a b : UInt64) : UInt64 :=
  if a.toNat + b.toNat < 2 ^ 64 then a + b else UInt64.ofNat (2 ^ 64 - 1)

theorem toNat_saturatingAdd (a b : UInt64) :
    (saturatingAdd a b).toNat = min (a.toNat + b.toNat) (2 ^ 64 - 1) := by
  unfold saturatingAdd
  split
  · next h => rw [UInt64.toNat_add, Nat.mod_eq_of_lt h]; omega
  · next h => rw [UInt64.toNat_ofNat']; omega

theorem u64_toNat_max (a b : UInt64) : (max a b).toNat = max a.toNat b.toNat := by
  have hmax : max a b = if a ≤ b then b else a := rfl
  rw [hmax]
  split
  · next h => have := UInt64.le_iff_toNat_le.mp h; omega
  · next h => have := UInt64.lt_iff_toNat_lt.mp (UInt64.not_le.mp h); omega

def saturatingSub (a b : UInt64) : UInt64 := if b ≤ a then a - b else 0

end Lib
end EngineKit
