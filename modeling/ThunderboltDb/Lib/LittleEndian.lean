import Mathlib

/-!
# Fixed-width little-endian integers

`leBytes k n` is the `k`-byte little-endian form of `n`, `leValue` reads it back. `u16ToLe`, `u32ToLe`
and `u64ToLe` are `to_le_bytes` of the three machine widths, `u16OfLe`, `u32OfLe` and `u64OfLe` the
matching `from_le_bytes`.
-/

/-- A byte string. -/
abbrev ThunderboltDb.Bytes := List UInt8

namespace ThunderboltDb.Lib

/-- The low `k` base-256 digits of `n`, least significant first. -/
def leBytes : ℕ → ℕ → Bytes
  | 0, _ => []
  | k + 1, n => UInt8.ofNat n :: leBytes k (n / 256)

/-- The value of a little-endian byte string. -/
def leValue : Bytes → ℕ
  | [] => 0
  | b :: bs => b.toNat + 256 * leValue bs

@[simp] theorem length_leBytes (k n : ℕ) : (leBytes k n).length = k := by
  induction k generalizing n with
  | zero => rfl
  | succ k ih => simp only [leBytes, List.length_cons, ih]

theorem leValue_leBytes (k n : ℕ) (hn : n < 256 ^ k) : leValue (leBytes k n) = n := by
  induction k generalizing n with
  | zero =>
    simp only [pow_zero] at hn
    simp only [leBytes, leValue]
    omega
  | succ k ih =>
    have hdiv : n / 256 < 256 ^ k := by
      rw [pow_succ] at hn
      exact Nat.div_lt_of_lt_mul (by omega)
    have hmod : (UInt8.ofNat n).toNat = n % 256 := by simp
    rw [leBytes, leValue, ih _ hdiv, hmod]
    omega

theorem leValue_lt (bs : Bytes) : leValue bs < 256 ^ bs.length := by
  induction bs with
  | nil => simp [leValue]
  | cons b bs ih =>
    have hb : b.toNat < 256 := b.toNat_lt
    rw [leValue, List.length_cons, pow_succ]
    omega

theorem leBytes_leValue (bs : Bytes) : leBytes bs.length (leValue bs) = bs := by
  induction bs with
  | nil => rfl
  | cons b bs ih =>
    have hb : b.toNat < 256 := b.toNat_lt
    have hhead : UInt8.ofNat (b.toNat + 256 * leValue bs) = b := by
      apply UInt8.toNat_inj.mp
      rw [UInt8.toNat_ofNat']
      omega
    have htail : (b.toNat + 256 * leValue bs) / 256 = leValue bs := by omega
    rw [leValue, List.length_cons, leBytes, hhead, htail, ih]

variable {bs : Bytes}

/-- Reading back `k` bytes gives a number that `k` bytes can hold. -/
theorem leValue_lt_of_length {k : ℕ} (h : bs.length = k) : leValue bs < 256 ^ k := by
  rw [← h]
  exact leValue_lt bs

/-! ### 16 and 32 bits -/

/-- `u16::to_le_bytes`. -/
def u16ToLe (x : UInt16) : Bytes := leBytes 2 x.toNat

/-- `u16::from_le_bytes`. -/
def u16OfLe (bs : Bytes) : UInt16 := UInt16.ofNat (leValue bs)

/-- `u32::to_le_bytes`. -/
def u32ToLe (x : UInt32) : Bytes := leBytes 4 x.toNat

/-- `u32::from_le_bytes`. -/
def u32OfLe (bs : Bytes) : UInt32 := UInt32.ofNat (leValue bs)

@[simp] theorem length_u16ToLe (x : UInt16) : (u16ToLe x).length = 2 := length_leBytes 2 x.toNat

@[simp] theorem length_u32ToLe (x : UInt32) : (u32ToLe x).length = 4 := length_leBytes 4 x.toNat

@[simp] theorem u16OfLe_u16ToLe (x : UInt16) : u16OfLe (u16ToLe x) = x := by
  have hx := x.toNat_lt
  rw [u16OfLe, u16ToLe, leValue_leBytes 2 _ (by omega), UInt16.ofNat_toNat]

@[simp] theorem u32OfLe_u32ToLe (x : UInt32) : u32OfLe (u32ToLe x) = x := by
  have hx := x.toNat_lt
  rw [u32OfLe, u32ToLe, leValue_leBytes 4 _ (by omega), UInt32.ofNat_toNat]

theorem u16ToLe_u16OfLe (h : bs.length = 2) : u16ToLe (u16OfLe bs) = bs := by
  have hlt := leValue_lt_of_length h
  have hval : (u16OfLe bs).toNat = leValue bs := by
    rw [u16OfLe, UInt16.toNat_ofNat']
    exact Nat.mod_eq_of_lt (by omega)
  rw [u16ToLe, hval, ← h]
  exact leBytes_leValue bs

theorem u32ToLe_u32OfLe (h : bs.length = 4) : u32ToLe (u32OfLe bs) = bs := by
  have hlt := leValue_lt_of_length h
  have hval : (u32OfLe bs).toNat = leValue bs := by
    rw [u32OfLe, UInt32.toNat_ofNat']
    exact Nat.mod_eq_of_lt (by omega)
  rw [u32ToLe, hval, ← h]
  exact leBytes_leValue bs

/-! ### 64 bits -/

/-- `u64::to_le_bytes`. -/
def u64ToLe (x : UInt64) : Bytes := leBytes 8 x.toNat

/-- `u64::from_le_bytes`. -/
def u64OfLe (bs : Bytes) : UInt64 := UInt64.ofNat (leValue bs)

@[simp] theorem length_u64ToLe (x : UInt64) : (u64ToLe x).length = 8 := length_leBytes 8 x.toNat

@[simp] theorem u64OfLe_u64ToLe (x : UInt64) : u64OfLe (u64ToLe x) = x := by
  have hx : x.toNat < 256 ^ 8 := by
    have := x.toNat_lt
    omega
  rw [u64OfLe, u64ToLe, leValue_leBytes 8 _ hx, UInt64.ofNat_toNat]

theorem u64ToLe_u64OfLe (h : bs.length = 8) : u64ToLe (u64OfLe bs) = bs := by
  have hlt : leValue bs < 2 ^ 64 := leValue_lt_of_length h
  have hval : (u64OfLe bs).toNat = leValue bs := by
    rw [u64OfLe, UInt64.toNat_ofNat']
    exact Nat.mod_eq_of_lt hlt
  rw [u64ToLe, hval, ← h]
  exact leBytes_leValue bs

end ThunderboltDb.Lib
