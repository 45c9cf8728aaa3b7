import ThunderboltDb.Sql.Scalar

/-!
# The order of decimals

`Decimal128::compare` brings both values to the wider scale. Where that leaves `i128` it compares signs, then
integer parts, then the values rounded half up to the narrower scale.

* `numericOrder_iff` — the order laws, over any set of values.
-/

namespace ThunderboltDb.Sql

open Option

variable {a b : Decimal128} {abs factor bound : ℕ}

/-- `i128::try_from` and the ends of the checked operations. -/
def I128.checked (n : ℤ) : Option I128 := if h : -2 ^ 127 ≤ n ∧ n < 2 ^ 127 then some ⟨n, h⟩ else none

theorem I128.checked_eq_some {n : ℤ} {m : I128} : I128.checked n = some m ↔ n = m.val := by
  rw [I128.checked]
  constructor
  · intro h
    split at h
    · cases h
      rfl
    · cases h
  · intro h
    subst h
    rw [dif_pos m.property]

theorem I128.checked_eq_none {n : ℤ} : I128.checked n = none ↔ n < -2 ^ 127 ∨ 2 ^ 127 ≤ n := by
  rw [I128.checked]
  split
  · rename_i h
    simp only [reduceCtorEq, false_iff]
    omega
  · rename_i h
    simp only [true_iff]
    omega

theorem I128.natAbs_le (m : I128) : m.val.natAbs ≤ 2 ^ 127 := by
  omega

namespace Decimal128

/-- `None` on overflow. -/
def pow10 : ℕ → Option I128
  | 0 => some ⟨1, by norm_num⟩
  | exp + 1 => (pow10 exp).bind fun acc => I128.checked (acc.val * 10)

/-- `quotient`, or one more if at least half of the divisor remains. -/
def roundHalfUp (abs factor : ℕ) : ℕ :=
  if factor ≤ abs % factor * 2 then abs / factor + 1 else abs / factor

variable (self : Decimal128)

/-- `None` is `NumericOverflow`. -/
def rescale (targetScale : UInt8) : Option Decimal128 :=
  if targetScale = self.scale then some self
  else if self.scale < targetScale then
    (pow10 (targetScale - self.scale).toNat).bind fun factor =>
      (I128.checked (self.mantissa.val * factor.val)).bind fun mantissa =>
        some { mantissa, scale := targetScale }
  else
    match pow10 (self.scale - targetScale).toNat with
    | none => some { mantissa := ⟨0, by norm_num⟩, scale := targetScale }
    | some factor =>
      (I128.checked (roundHalfUp self.mantissa.val.natAbs factor.val.natAbs)).bind fun rounded =>
        (if self.mantissa.val < 0 then I128.checked (-rounded.val) else some rounded).bind fun mantissa =>
          some { mantissa, scale := targetScale }

/-- Truncated toward zero. -/
def integerPart : ℤ :=
  match pow10 self.scale.toNat with
  | some factor => self.mantissa.val.tdiv factor.val
  | none => 0

/-- The end of `compare`, where the alignment overflows: by sign, by integer part, by the values at the
narrower scale. -/
def compareUnaligned (self other : Decimal128) : Ordering :=
  (Ord.compare self.mantissa.val.sign other.mantissa.val.sign).then
    ((Ord.compare self.integerPart other.integerPart).then
      (match self.rescale (min self.scale other.scale), other.rescale (min self.scale other.scale) with
        | some left, some right => Ord.compare left.mantissa.val right.mantissa.val
        | _, _ => .eq))

def compare (self other : Decimal128) : Ordering :=
  if self.scale = other.scale then Ord.compare self.mantissa.val other.mantissa.val
  else
    match self.rescale (max self.scale other.scale), other.rescale (max self.scale other.scale) with
    | some left, some right => Ord.compare left.mantissa.val right.mantissa.val
    | _, _ => self.compareUnaligned other

/-- The derived equality. -/
def numericEq (self other : Decimal128) : Bool := self.compare other = .eq

def div10 (mantissa : I128) : I128 :=
  ⟨mantissa.val.tdiv 10, by
    have h := mantissa.property
    have habs : (mantissa.val.tdiv 10).natAbs = mantissa.val.natAbs / 10 := Int.natAbs_tdiv _ _
    omega⟩

/-- The loop of `canonical`. -/
def stripZeros : ℕ → I128 → Decimal128
  | 0, mantissa => { mantissa, scale := 0 }
  | scale + 1, mantissa =>
    if mantissa.val.tmod 10 = 0 then stripZeros scale (div10 mantissa)
    else { mantissa, scale := UInt8.ofNat (scale + 1) }

def canonical : Decimal128 := stripZeros self.scale.toNat self.mantissa

/-- The number that a decimal stands for. -/
def toRat : ℚ := self.mantissa.val / 10 ^ self.scale.toNat

/-! ### Powers of ten -/

theorem pow10_eq (exp : ℕ) : pow10 exp = I128.checked (10 ^ exp) := by
  induction exp with
  | zero => rfl
  | succ exp ih =>
    rw [pow10, ih]
    cases hpow : I128.checked (10 ^ exp) with
    | some factor =>
      rw [bind_some, ← I128.checked_eq_some.mp hpow, pow_succ]
    | none =>
      have hlarge : (2 : ℤ) ^ 127 ≤ 10 ^ exp := by
        have hpos : (0 : ℤ) < 10 ^ exp := by positivity
        have hout := I128.checked_eq_none.mp hpow
        omega
      rw [bind_none, eq_comm, I128.checked_eq_none, pow_succ]
      right
      omega

variable {exp : ℕ}

/-- A power that leaves `i128` is at least `10 ^ 39`. -/
theorem le_pow_of_pow10_eq_none (h : pow10 exp = none) : 10 ^ 39 ≤ 10 ^ exp := by
  refine Nat.pow_le_pow_right (by norm_num) ?_
  by_contra hlt
  have hle : (10 : ℤ) ^ exp ≤ 10 ^ 38 := pow_le_pow_right₀ (by norm_num) (by omega)
  rw [pow10_eq, I128.checked_eq_none] at h
  have hpos : (0 : ℤ) < 10 ^ exp := by positivity
  norm_num at h hle
  omega

theorem pow10_eq_some {factor : I128} (h : pow10 exp = some factor) : factor.val = (10 ^ exp : ℕ) := by
  rw [pow10_eq] at h
  rw [← I128.checked_eq_some.mp h]
  norm_num

theorem integerPart_eq :
    self.integerPart = self.mantissa.val.tdiv ((10 ^ self.scale.toNat : ℕ) : ℤ) := by
  rw [integerPart]
  split
  · rename_i factor hpow
    rw [pow10_eq_some hpow]
  · rename_i hpow
    have hlarge := le_pow_of_pow10_eq_none hpow
    have habs := I128.natAbs_le self.mantissa
    have hzero : (self.mantissa.val.tdiv ((10 ^ self.scale.toNat : ℕ) : ℤ)).natAbs = 0 := by
      rw [Int.natAbs_tdiv, Int.natAbs_natCast]
      exact Nat.div_eq_of_lt (by omega)
    omega

/-! ### Rounding -/

theorem roundHalfUp_le (h : abs < bound * factor) : roundHalfUp abs factor ≤ bound := by
  have hlt : abs / factor < bound := Nat.div_lt_of_lt_mul (by rwa [Nat.mul_comm])
  rw [roundHalfUp]
  split <;> omega

theorem roundHalfUp_eq_iff (hfactor : 0 < factor) (h : abs < bound * factor) :
    roundHalfUp abs factor = bound ↔ 2 * bound * factor ≤ 2 * abs + factor := by
  have hlt : abs / factor < bound := Nat.div_lt_of_lt_mul (by rwa [Nat.mul_comm])
  have hdivide := Nat.div_add_mod abs factor
  have hmod := Nat.mod_lt abs hfactor
  obtain ⟨rest, hrest⟩ := Nat.exists_eq_add_of_lt hlt
  have hscaled : bound * factor = factor * (abs / factor) + rest * factor + factor := by
    rw [hrest]
    ring
  have hdouble : 2 * bound * factor = 2 * (bound * factor) := by ring
  rw [roundHalfUp, hdouble, hscaled]
  constructor
  · intro heq
    split at heq
    · have hzero : rest = 0 := by omega
      subst hzero
      omega
    · omega
  · intro hle
    have hzero : rest = 0 := by
      by_contra hpos
      have hone : factor ≤ rest * factor := Nat.le_mul_of_pos_left factor (Nat.pos_of_ne_zero hpos)
      omega
    subst hzero
    rw [if_pos (by omega)]
    omega

theorem roundHalfUp_of_large {abs factor : ℕ} (h : 2 * abs < factor) : roundHalfUp abs factor = 0 := by
  have hdiv : abs / factor = 0 := Nat.div_eq_of_lt (by omega)
  have hmod : abs % factor = abs := Nat.mod_eq_of_lt (by omega)
  rw [roundHalfUp, hdiv, hmod, if_neg (by omega)]

theorem toNat_sub_of_lt {s t : UInt8} (h : s < t) : (t - s).toNat = t.toNat - s.toNat :=
  UInt8.toNat_sub_of_le _ _ (UInt8.le_of_lt h)

variable {self : Decimal128} {targetScale : UInt8}

/-- A smaller scale: the value is rounded, and there is no overflow. -/
theorem rescale_of_gt (h : targetScale < self.scale) :
    ∃ rescaled, self.rescale targetScale = some rescaled ∧ rescaled.mantissa.val = self.mantissa.val.sign *
        roundHalfUp self.mantissa.val.natAbs (10 ^ (self.scale.toNat - targetScale.toNat)) := by
  have hne : targetScale ≠ self.scale := UInt8.ne_of_lt h
  have hnlt : ¬ self.scale < targetScale := UInt8.lt_asymm h
  have habs := I128.natAbs_le self.mantissa
  rw [rescale, if_neg hne, if_neg hnlt, toNat_sub_of_lt h]
  cases hpow : pow10 (self.scale.toNat - targetScale.toNat) with
  | none =>
    have hlarge := le_pow_of_pow10_eq_none hpow
    refine ⟨_, rfl, ?_⟩
    rw [roundHalfUp_of_large (by omega)]
    simp
  | some factor =>
    have hfactor := pow10_eq_some hpow
    have hten : 10 ≤ 10 ^ (self.scale.toNat - targetScale.toNat) := by
      have hlt : targetScale.toNat < self.scale.toNat := UInt8.lt_iff_toNat_lt.mp h
      exact Nat.le_self_pow (by omega) 10
    simp only [hfactor, Int.natAbs_natCast]
    generalize 10 ^ (self.scale.toNat - targetScale.toNat) = divisor at *
    generalize hrounded : roundHalfUp self.mantissa.val.natAbs divisor = rounded
    have hsmall : rounded < 2 ^ 127 := by
      have hbound : self.mantissa.val.natAbs < 2 ^ 126 * divisor := by omega
      have hle := roundHalfUp_le hbound
      omega
    have hchecked : ∀ n : ℤ, -2 ^ 127 ≤ n → n < 2 ^ 127 → ∃ m : I128, I128.checked n = some m ∧
      m.val = n :=
      fun n hlow hhigh => ⟨⟨n, hlow, hhigh⟩, I128.checked_eq_some.mpr rfl, rfl⟩
    obtain ⟨m, hm, hmval⟩ := hchecked rounded (by omega) (by omega)
    simp only [hm, bind_some]
    split
    · rename_i hneg
      obtain ⟨m', hm', hmval'⟩ := hchecked (-m.val) (by omega) (by omega)
      simp only [hm', bind_some]
      refine ⟨_, rfl, ?_⟩
      rw [hmval', hmval, Int.sign_eq_neg_one_of_neg hneg]
      ring
    · rename_i hnonneg
      refine ⟨_, rfl, ?_⟩
      rw [hmval]
      rcases eq_or_lt_of_le (not_lt.mp hnonneg) with hzero | hpos
      · have hnil : rounded = 0 := by
          rw [← hrounded, ← hzero]
          exact roundHalfUp_of_large (by simp; omega)
        rw [hnil]
        simp
      · rw [Int.sign_eq_one_of_pos hpos, one_mul]

/-- A larger scale, without overflow. -/
theorem rescale_of_lt {rescaled : Decimal128} (h : self.scale < targetScale)
    (hok : self.rescale targetScale = some rescaled) :
    rescaled.mantissa.val = self.mantissa.val * 10 ^ (targetScale.toNat - self.scale.toNat) := by
  rw [rescale, if_neg (UInt8.ne_of_lt h).symm, if_pos h, toNat_sub_of_lt h] at hok
  obtain ⟨factor, hpow, hok⟩ := bind_eq_some_iff.mp hok
  obtain ⟨mantissa, hmul, hok⟩ := bind_eq_some_iff.mp hok
  cases hok
  rw [← I128.checked_eq_some.mp hmul, pow10_eq_some hpow]
  norm_num

/-- The value at a larger scale is out of range, if it is not zero. -/
theorem out_of_range_of_rescale_none (h : self.scale < targetScale)
    (hnone : self.rescale targetScale = none) (hne : self.mantissa.val ≠ 0) :
    self.mantissa.val * 10 ^ (targetScale.toNat - self.scale.toNat) < -2 ^ 127 ∨
      2 ^ 127 ≤ self.mantissa.val * 10 ^ (targetScale.toNat - self.scale.toNat) := by
  rw [rescale, if_neg (UInt8.ne_of_lt h).symm, if_pos h, toNat_sub_of_lt h] at hnone
  cases hpow : pow10 (targetScale.toNat - self.scale.toNat) with
  | none =>
    have hlarge : (10 : ℤ) ^ 39 ≤ 10 ^ (targetScale.toNat - self.scale.toNat) := by
      exact_mod_cast le_pow_of_pow10_eq_none hpow
    generalize (10 : ℤ) ^ (targetScale.toNat - self.scale.toNat) = factor at *
    rcases lt_or_gt_of_ne hne with hneg | hpos
    · left
      nlinarith
    · right
      nlinarith
  | some factor =>
    rw [hpow, bind_some, bind_eq_none_iff] at hnone
    have hout : I128.checked (self.mantissa.val * factor.val) = none := by
      cases hmul : I128.checked (self.mantissa.val * factor.val) with
      | none => rfl
      | some mantissa => cases hnone mantissa hmul
    have hrange := I128.checked_eq_none.mp hout
    rw [pow10_eq_some hpow] at hrange
    push_cast at hrange
    exact hrange

/-! ### The order -/

theorem max_of_lt {s t : UInt8} (h : s < t) : max s t = t ∧ max t s = t := by
  constructor
  · exact if_pos (UInt8.le_of_lt h)
  · exact if_neg (UInt8.not_le.mpr h)

theorem min_of_lt {s t : UInt8} (h : s < t) : min s t = s ∧ min t s = s := by
  constructor
  · exact if_pos (UInt8.le_of_lt h)
  · exact if_neg (UInt8.not_le.mpr h)

theorem rescale_self (a : Decimal128) : a.rescale a.scale = some a := if_pos rfl

theorem compare_of_lt (h : a.scale < b.scale) : a.compare b = match a.rescale b.scale with
      | some left => Ord.compare left.mantissa.val b.mantissa.val
      | none => a.compareUnaligned b := by
  rw [compare, if_neg (UInt8.ne_of_lt h), (max_of_lt h).1, rescale_self]
  cases a.rescale b.scale <;> rfl

theorem compare_of_gt (h : b.scale < a.scale) : a.compare b = match b.rescale a.scale with
      | some right => Ord.compare a.mantissa.val right.mantissa.val
      | none => a.compareUnaligned b := by
  rw [compare, if_neg (UInt8.ne_of_lt h).symm, (max_of_lt h).2, rescale_self]
  cases b.rescale a.scale <;> rfl

/-- The mantissa of the wider value at the narrower scale. -/
def rounded (a b : Decimal128) : ℤ :=
  b.mantissa.val.sign * roundHalfUp b.mantissa.val.natAbs (10 ^ (b.scale.toNat - a.scale.toNat))

theorem compareUnaligned_of_lt (h : a.scale < b.scale) :
    a.compareUnaligned b = (Ord.compare a.mantissa.val.sign b.mantissa.val.sign).then
      ((Ord.compare a.integerPart b.integerPart).then (Ord.compare a.mantissa.val (rounded a b))) := by
  obtain ⟨right, hright, hval⟩ := rescale_of_gt h
  rw [compareUnaligned, (min_of_lt h).1, rescale_self, hright]
  simp only [hval, rounded]

theorem compareUnaligned_of_gt (h : b.scale < a.scale) :
    a.compareUnaligned b = (Ord.compare a.mantissa.val.sign b.mantissa.val.sign).then
      ((Ord.compare a.integerPart b.integerPart).then (Ord.compare (rounded b a) b.mantissa.val)) := by
  obtain ⟨left, hleft, hval⟩ := rescale_of_gt h
  rw [compareUnaligned, (min_of_lt h).2, rescale_self, hleft]
  simp only [hval, rounded]

theorem int_compare_swap {m n : ℤ} : (Ord.compare m n).swap = Ord.compare n m := Int.compare_swap m n

theorem compare_swap_of_lt (h : a.scale < b.scale) : (a.compare b).swap = b.compare a := by
  rw [compare_of_lt h, compare_of_gt h]
  cases a.rescale b.scale with
  | some left => exact int_compare_swap
  | none =>
    rw [compareUnaligned_of_lt h, compareUnaligned_of_gt h, Ordering.swap_then, Ordering.swap_then,
      int_compare_swap, int_compare_swap, int_compare_swap]

theorem cmp_toRat_of_le (h : a.scale.toNat ≤ b.scale.toNat) : cmp a.toRat b.toRat =
      Ord.compare (a.mantissa.val * 10 ^ (b.scale.toNat - a.scale.toNat)) b.mantissa.val := by
  have hpos : (0 : ℚ) < 10 ^ b.scale.toNat := by positivity
  have hleft : a.toRat = (a.mantissa.val * 10 ^ (b.scale.toNat - a.scale.toNat) : ℤ) / 10 ^ b.scale.toNat := by
    rw [toRat, div_eq_div_iff (by positivity) (by positivity)]
    push_cast
    rw [mul_assoc, ← pow_add, Nat.sub_add_cancel h]
  rw [hleft, toRat]
  generalize a.mantissa.val * 10 ^ (b.scale.toNat - a.scale.toNat) = m
  generalize b.mantissa.val = n
  rcases lt_trichotomy m n with hlt | heq | hgt
  · rw [Int.compare_eq_lt.mpr hlt, cmp_eq_lt_iff]
    exact div_lt_div_of_pos_right (by exact_mod_cast hlt) hpos
  · rw [Int.compare_eq_eq.mpr heq, heq, cmp_self_eq_eq]
  · rw [Int.compare_eq_gt.mpr hgt, cmp_eq_gt_iff]
    exact div_lt_div_of_pos_right (by exact_mod_cast hgt) hpos

/-- Two values of the same sign and integer part: the narrower one leaves `i128` at the wider scale, and the
wider one is rounded to it at the narrower scale. -/
structure Tie (a b : Decimal128) : Prop where
  narrower : a.scale < b.scale
  overflow : a.mantissa.val * 10 ^ (b.scale.toNat - a.scale.toNat) < -2 ^ 127 ∨
    2 ^ 127 ≤ a.mantissa.val * 10 ^ (b.scale.toNat - a.scale.toNat)
  sign : a.mantissa.val.sign = b.mantissa.val.sign
  integer : a.mantissa.val.tdiv (10 ^ a.scale.toNat) = b.mantissa.val.tdiv (10 ^ b.scale.toNat)
  half : (2 * |a.mantissa.val| - 1) * 10 ^ (b.scale.toNat - a.scale.toNat) ≤ 2 * |b.mantissa.val|

variable {m n s gap : ℕ} (self : Decimal128)

/-- Truncation of a smaller magnitude. -/
theorem div_le_div_of_lt (h : n < m * 10 ^ gap) : n / 10 ^ (s + gap) ≤ m / 10 ^ s := by
  have hlt : n / 10 ^ gap < m := Nat.div_lt_of_lt_mul (by rwa [Nat.mul_comm])
  rw [Nat.add_comm, pow_add, ← Nat.div_div_eq_div_mul]
  exact Nat.div_le_div_right (Nat.le_of_lt hlt)

theorem then_of_le {x y m r : ℤ} (hxy : y ≤ x) (hmr : r ≤ m) :
    (Ord.compare x y).then (Ord.compare m r) = if x = y ∧ m = r then .eq else .gt := by
  rcases eq_or_lt_of_le hxy with rfl | hlt
  · rw [Int.compare_eq_eq.mpr rfl]
    rcases eq_or_lt_of_le hmr with rfl | hlt
    · rw [Int.compare_eq_eq.mpr rfl, if_pos ⟨rfl, rfl⟩]
      rfl
    · rw [Int.compare_eq_gt.mpr hlt, if_neg fun h => absurd h.2 (Int.ne_of_gt hlt)]
      rfl
  · rw [Int.compare_eq_gt.mpr hlt, if_neg fun h => absurd h.1 (Int.ne_of_gt hlt)]
    rfl

/-- The keys of a positive value against those of a smaller one. -/
theorem then_natCast (h : n < m * 10 ^ gap) :
    (Ord.compare ((m : ℤ).tdiv (10 ^ s : ℕ)) ((n : ℤ).tdiv (10 ^ (s + gap) : ℕ))).then
        (Ord.compare (m : ℤ) (roundHalfUp n (10 ^ gap))) =
      if (m : ℤ).tdiv (10 ^ s) = (n : ℤ).tdiv (10 ^ (s + gap)) ∧ (2 * (m : ℤ) - 1) * 10 ^ gap ≤ 2 * n
      then .eq else .gt := by
  have hdiv := @div_le_div_of_lt m n s gap h
  have hround := roundHalfUp_eq_iff (Nat.pow_pos (by norm_num)) h
  have htrunc : (n : ℤ).tdiv (10 ^ (s + gap) : ℕ) ≤ (m : ℤ).tdiv (10 ^ s : ℕ) := by
    rw [← Int.ofNat_tdiv, ← Int.ofNat_tdiv]
    exact_mod_cast hdiv
  rw [then_of_le htrunc (by exact_mod_cast roundHalfUp_le h)]
  have hhalf : ((m : ℤ) = roundHalfUp n (10 ^ gap)) ↔ (2 * (m : ℤ) - 1) * 10 ^ gap ≤ 2 * n := by
    rw [Nat.cast_inj, eq_comm, hround]
    zify
    constructor <;> intro hle <;> linarith
  push_cast at hhalf ⊢
  simp only [hhalf]

theorem int_compare_neg (x y : ℤ) : Ord.compare (-x) (-y) = Ord.compare y x := by
  rcases lt_trichotomy y x with hlt | rfl | hgt
  · rw [Int.compare_eq_lt.mpr hlt, Int.compare_eq_lt.mpr (by omega)]
  · rw [Int.compare_eq_eq.mpr rfl, Int.compare_eq_eq.mpr rfl]
  · rw [Int.compare_eq_gt.mpr hgt, Int.compare_eq_gt.mpr (by omega)]

/-- The keys of a negative value against those of a larger one. -/
theorem then_neg_natCast (h : n < m * 10 ^ gap) :
    (Ord.compare ((-m : ℤ).tdiv (10 ^ s : ℕ)) ((-n : ℤ).tdiv (10 ^ (s + gap) : ℕ))).then
        (Ord.compare (-m : ℤ) (-roundHalfUp n (10 ^ gap))) =
      if (m : ℤ).tdiv (10 ^ s) = (n : ℤ).tdiv (10 ^ (s + gap)) ∧ (2 * (m : ℤ) - 1) * 10 ^ gap ≤ 2 * n
      then .eq else .lt := by
  have hswap := congrArg Ordering.swap (@then_natCast m n s gap h)
  rw [Ordering.swap_then, int_compare_swap, int_compare_swap] at hswap
  rw [Int.neg_tdiv, Int.neg_tdiv, int_compare_neg, int_compare_neg, hswap]
  split <;> rfl

/-- A value and what it is compared with, as integers at the wider scale: the three keys give the strict order
or a tie. -/
theorem unaligned_keys {m n : ℤ} {s gap : ℕ} (hn : -2 ^ 127 ≤ n ∧ n < 2 ^ 127)
    (hout : m * 10 ^ gap < -2 ^ 127 ∨ 2 ^ 127 ≤ m * 10 ^ gap) :
    (Ord.compare m.sign n.sign).then
        ((Ord.compare (m.tdiv (10 ^ s : ℕ)) (n.tdiv (10 ^ (s + gap) : ℕ))).then
          (Ord.compare m (n.sign * roundHalfUp n.natAbs (10 ^ gap)))) =
      if m.sign = n.sign ∧ m.tdiv (10 ^ s) = n.tdiv (10 ^ (s + gap)) ∧ (2 * |m| - 1) * 10 ^ gap ≤ 2 * |n|
      then .eq else Ord.compare (m * 10 ^ gap) n := by
  have hfactor : (0 : ℤ) < 10 ^ gap := by positivity
  rcases hout with hover | hover
  · -- below every value of the wider scale
    have hneg : m < 0 := by
      by_contra hnonneg
      have hprod : 0 ≤ m * 10 ^ gap := mul_nonneg (not_lt.mp hnonneg) (le_of_lt hfactor)
      omega
    rw [Int.compare_eq_lt.mpr (by omega : m * 10 ^ gap < n), Int.sign_eq_neg_one_of_neg hneg]
    by_cases hn' : n < 0
    · rw [Int.sign_eq_neg_one_of_neg hn', Int.compare_eq_eq.mpr rfl]
      obtain ⟨x, rfl⟩ : ∃ x : ℕ, m = -x := ⟨m.natAbs, by omega⟩
      obtain ⟨y, rfl⟩ : ∃ y : ℕ, n = -y := ⟨n.natAbs, by omega⟩
      have hlt : y < x * 10 ^ gap := by
        zify
        linarith
      rw [Ordering.eq_then, Int.natAbs_neg, Int.natAbs_natCast, neg_one_mul, then_neg_natCast hlt]
      simp only [abs_neg, Nat.abs_cast, Int.neg_tdiv, neg_inj, true_and]
    · have hsign : (-1 : ℤ) < n.sign := by
        rcases eq_or_lt_of_le (not_lt.mp hn') with rfl | hpos
        · decide
        · rw [Int.sign_eq_one_of_pos hpos]
          decide
      rw [Int.compare_eq_lt.mpr hsign, if_neg fun htie => absurd htie.1 (Int.ne_of_lt hsign)]
      rfl
  · have hpos : 0 < m := by
      by_contra hnonpos
      have hprod : m * 10 ^ gap ≤ 0 := mul_nonpos_of_nonpos_of_nonneg (not_lt.mp hnonpos) (le_of_lt hfactor)
      omega
    rw [Int.compare_eq_gt.mpr (by omega : n < m * 10 ^ gap), Int.sign_eq_one_of_pos hpos]
    by_cases hn' : 0 < n
    · rw [Int.sign_eq_one_of_pos hn', Int.compare_eq_eq.mpr rfl]
      obtain ⟨x, rfl⟩ : ∃ x : ℕ, m = x := ⟨m.natAbs, by omega⟩
      obtain ⟨y, rfl⟩ : ∃ y : ℕ, n = y := ⟨n.natAbs, by omega⟩
      have hlt : y < x * 10 ^ gap := by
        zify
        linarith
      rw [Ordering.eq_then, Int.natAbs_natCast, one_mul, then_natCast hlt]
      simp only [Nat.abs_cast, true_and]
    · have hsign : n.sign < 1 := by
        rcases eq_or_lt_of_le (not_lt.mp hn') with rfl | hneg
        · decide
        · rw [Int.sign_eq_neg_one_of_neg hneg]
          decide
      rw [Int.compare_eq_gt.mpr hsign, if_neg fun htie => absurd htie.1 (Int.ne_of_gt hsign)]
      rfl

/-- Zero against anything. -/
theorem zero_keys (n : ℤ) (s gap : ℕ) : (Ord.compare (0 : ℤ).sign n.sign).then
        ((Ord.compare ((0 : ℤ).tdiv (10 ^ s : ℕ)) (n.tdiv (10 ^ (s + gap) : ℕ))).then
          (Ord.compare 0 (n.sign * roundHalfUp n.natAbs (10 ^ gap)))) =
      Ord.compare 0 n := by
  rcases lt_trichotomy n 0 with hneg | rfl | hpos
  · rw [Int.sign_eq_neg_one_of_neg hneg, Int.compare_eq_gt.mpr hneg]
    rfl
  · simp
  · rw [Int.sign_eq_one_of_pos hpos, Int.compare_eq_lt.mpr hpos]
    rfl

/-- Values of different scales are in the order of the rationals, except in a tie. -/
theorem compare_of_lt_eq (h : a.scale < b.scale) : (¬ Tie a b → a.compare b = cmp a.toRat b.toRat) ∧
      (Tie a b → a.compare b = .eq ∧ cmp a.toRat b.toRat ≠ .eq) := by
  have hlt : a.scale.toNat < b.scale.toNat := UInt8.lt_iff_toNat_lt.mp h
  have hn := b.mantissa.property
  rw [compare_of_lt h, cmp_toRat_of_le (Nat.le_of_lt hlt)]
  cases hrescale : a.rescale b.scale with
  | some left =>
    have hleft := rescale_of_lt h hrescale
    have hbound := left.mantissa.property
    rw [hleft] at hbound
    refine ⟨fun _ => congrArg (Ord.compare · _) hleft, fun htie => ?_⟩
    have hover := htie.overflow
    omega
  | none =>
    rw [compareUnaligned_of_lt h, integerPart_eq, integerPart_eq, rounded]
    have hout := out_of_range_of_rescale_none h hrescale
    have hwider : b.scale.toNat = a.scale.toNat + (b.scale.toNat - a.scale.toNat) := by omega
    by_cases hzero : a.mantissa.val = 0
    · have hnot : ¬ Tie a b := by
        intro htie
        have hover := htie.overflow
        rw [hzero, zero_mul] at hover
        omega
      refine ⟨fun _ => ?_, fun htie => absurd htie hnot⟩
      have hkeys := zero_keys b.mantissa.val a.scale.toNat (b.scale.toNat - a.scale.toNat)
      rw [← hwider] at hkeys
      rw [hzero, zero_mul, hkeys]
    · have hkeys := @unaligned_keys a.mantissa.val b.mantissa.val a.scale.toNat
        (b.scale.toNat - a.scale.toNat) hn (hout hzero)
      rw [← hwider] at hkeys
      rw [hkeys]
      constructor
      · intro hnot
        rw [if_neg]
        rintro ⟨hsign, hinteger, hhalf⟩
        exact hnot ⟨h, hout hzero, hsign, hinteger, hhalf⟩
      · intro htie
        refine ⟨if_pos ⟨htie.sign, htie.integer, htie.half⟩, ?_⟩
        rw [Ne, Int.compare_eq_eq]
        omega

/-- **The order of two decimals** is the order of the numbers they stand for, exactly when neither rounds to
the other in a tie. -/
theorem compare_eq_cmp_iff (a b : Decimal128) : a.compare b = cmp a.toRat b.toRat ↔ ¬ Tie a b ∧ ¬ Tie b a := by
  rcases lt_trichotomy a.scale.toNat b.scale.toNat with hlt | heq | hgt
  · have h : a.scale < b.scale := UInt8.lt_iff_toNat_lt.mpr hlt
    have hother : ¬ Tie b a := fun htie => UInt8.lt_asymm h htie.narrower
    obtain ⟨hright, hwrong⟩ := compare_of_lt_eq h
    constructor
    · intro hcompare
      refine ⟨fun htie => ?_, hother⟩
      obtain ⟨heq, hne⟩ := hwrong htie
      exact hne (hcompare.symm.trans heq)
    · exact fun hnot => hright hnot.1
  · have h : a.scale = b.scale := UInt8.toNat_inj.mp heq
    have hnot : ∀ {x y : Decimal128}, x.scale = y.scale → ¬ Tie x y :=
      fun hscale htie => UInt8.ne_of_lt htie.narrower hscale
    refine iff_of_true ?_ ⟨hnot h, hnot h.symm⟩
    rw [compare, if_pos h, cmp_toRat_of_le (Nat.le_of_eq heq), heq, Nat.sub_self, pow_zero, mul_one]
  · have h : b.scale < a.scale := UInt8.lt_iff_toNat_lt.mpr hgt
    have hother : ¬ Tie a b := fun htie => UInt8.lt_asymm h htie.narrower
    obtain ⟨hright, hwrong⟩ := compare_of_lt_eq h
    rw [← compare_swap_of_lt h, ← cmp_swap, Ordering.swap_inj]
    constructor
    · intro hcompare
      refine ⟨hother, fun htie => ?_⟩
      obtain ⟨heq, hne⟩ := hwrong htie
      exact hne (hcompare.symm.trans heq)
    · exact fun hnot => hright hnot.2

/-! ### Canonical forms -/

/-- No trailing zero behind the point. -/
def Normal : Prop := self.scale = 0 ∨ ¬ 10 ∣ self.mantissa.val

theorem stripZeros_spec {scale : ℕ} (h : scale < 256) (mantissa : I128) :
    (stripZeros scale mantissa).toRat = mantissa.val / 10 ^ scale ∧ (stripZeros scale mantissa).Normal := by
  induction scale generalizing mantissa with
  | zero => exact ⟨rfl, .inl rfl⟩
  | succ scale ih =>
    rw [stripZeros]
    split
    · rename_i hmod
      obtain ⟨hvalue, hnormal⟩ := ih (by omega) (div10 mantissa)
      refine ⟨?_, hnormal⟩
      have hten : mantissa.val = (div10 mantissa).val * 10 :=
        (Int.tdiv_mul_cancel (Int.dvd_of_tmod_eq_zero hmod)).symm
      rw [hvalue, hten]
      push_cast
      rw [@pow_succ ℚ, mul_div_mul_right _ _ (by norm_num : (10 : ℚ) ≠ 0)]
    · rename_i hmod
      have hscale : (UInt8.ofNat (scale + 1)).toNat = scale + 1 := UInt8.toNat_ofNat_of_lt' h
      refine ⟨?_, .inr fun hdvd => hmod (Int.tmod_eq_zero_of_dvd hdvd)⟩
      rw [toRat, hscale]

theorem canonical_toRat : self.canonical.toRat = self.toRat :=
  (stripZeros_spec self.scale.toNat_lt self.mantissa).1

theorem canonical_normal : self.canonical.Normal :=
  (stripZeros_spec self.scale.toNat_lt self.mantissa).2

/-- A number has one normal form; here the first scale is the smaller one. -/
theorem Normal.scale_eq (hb : b.Normal) (h : a.toRat = b.toRat) (hle : a.scale.toNat ≤ b.scale.toNat) : a = b := by
  have hcmp := cmp_toRat_of_le hle
  rw [h, cmp_self_eq_eq, eq_comm, Int.compare_eq_eq] at hcmp
  have hgap : b.scale.toNat - a.scale.toNat = 0 := by
    by_contra hne
    rcases hb with hzero | hdvd
    · rw [hzero, UInt8.toNat_zero] at hne
      omega
    · apply hdvd
      rw [← hcmp]
      exact Dvd.dvd.mul_left (dvd_pow_self 10 hne) _
  have hscale : a.scale = b.scale := UInt8.toNat_inj.mp (by omega)
  rw [hgap, pow_zero, mul_one] at hcmp
  exact congrArg₂ Decimal128.mk (Subtype.ext hcmp) hscale

theorem canonical_eq_iff (a b : Decimal128) : a.canonical = b.canonical ↔ a.toRat = b.toRat := by
  constructor
  · intro h
    rw [← canonical_toRat a, h, canonical_toRat]
  · intro h
    rw [← canonical_toRat a, ← canonical_toRat b] at h
    rcases Nat.le_total a.canonical.scale.toNat b.canonical.scale.toNat with hle | hle
    · exact b.canonical_normal.scale_eq h hle
    · exact (a.canonical_normal.scale_eq h.symm hle).symm

/-! ### The order laws -/

/-- The laws of the order among the values of a set: it is the order of the numbers, equality is an equivalence
relation and equality of the canonical forms, and the order is transitive and antisymmetric. -/
structure NumericOrder (values : Set Decimal128) : Prop where
  value : ∀ a ∈ values, ∀ b ∈ values, a.compare b = cmp a.toRat b.toRat
  eq_refl : ∀ a ∈ values, a.numericEq a
  eq_symm : ∀ a ∈ values, ∀ b ∈ values, a.numericEq b → b.numericEq a
  eq_trans : ∀ a ∈ values, ∀ b ∈ values, ∀ c ∈ values, a.numericEq b → b.numericEq c → a.numericEq c
  le_trans : ∀ a ∈ values, ∀ b ∈ values, ∀ c ∈ values,
    a.compare b ≠ .gt → b.compare c ≠ .gt → a.compare c ≠ .gt
  le_antisymm : ∀ a ∈ values, ∀ b ∈ values, a.compare b ≠ .gt → b.compare a ≠ .gt → a.numericEq b
  canonical : ∀ a ∈ values, ∀ b ∈ values, a.numericEq b ↔ a.canonical = b.canonical

/-- **The order of decimals.**  Among any values the order laws hold exactly when no two of them tie. -/
theorem numericOrder_iff (values : Set Decimal128) :
    NumericOrder values ↔ ∀ a ∈ values, ∀ b ∈ values, ¬ Tie a b := by
  constructor
  · intro h a ha b hb
    exact ((compare_eq_cmp_iff a b).mp (h.value a ha b hb)).1
  · intro hnot
    have hvalue : ∀ a ∈ values, ∀ b ∈ values, a.compare b = cmp a.toRat b.toRat :=
      fun a ha b hb => (compare_eq_cmp_iff a b).mpr ⟨hnot a ha b hb, hnot b hb a ha⟩
    have heq : ∀ a ∈ values, ∀ b ∈ values, a.numericEq b ↔ a.toRat = b.toRat := by
      intro a ha b hb
      rw [numericEq, decide_eq_true_eq, hvalue a ha b hb, cmp_eq_eq_iff]
    have hle : ∀ a ∈ values, ∀ b ∈ values, a.compare b ≠ .gt ↔ a.toRat ≤ b.toRat := by
      intro a ha b hb
      rw [hvalue a ha b hb, Ne, cmp_eq_gt_iff, not_lt]
    refine ⟨hvalue, ?_, ?_, ?_, ?_, ?_, ?_⟩
    · exact fun a ha => (heq a ha a ha).mpr rfl
    · intro a ha b hb h
      exact (heq b hb a ha).mpr ((heq a ha b hb).mp h).symm
    · intro a ha b hb c hc hab hbc
      exact (heq a ha c hc).mpr (((heq a ha b hb).mp hab).trans ((heq b hb c hc).mp hbc))
    · intro a ha b hb c hc hab hbc
      exact (hle a ha c hc).mpr (le_trans ((hle a ha b hb).mp hab) ((hle b hb c hc).mp hbc))
    · intro a ha b hb hab hba
      exact (heq a ha b hb).mpr (le_antisymm ((hle a ha b hb).mp hab) ((hle b hb a ha).mp hba))
    · intro a ha b hb
      rw [heq a ha b hb, canonical_eq_iff]

/-- `1701411834604692317316873037158841057.3`, and `….27` and `….26`, which are rounded to it: the first is
equal to both of the others, and these are not equal. -/
theorem numericOrder_fails : ∃ a b c : Decimal128,
    a.compare b = .eq ∧ a.compare c = .eq ∧ c.compare b = .lt ∧ a.canonical ≠ b.canonical ∧
      ¬ NumericOrder {a, b, c} := by
  let a : Decimal128 := ⟨⟨17014118346046923173168730371588410573, by norm_num⟩, 1⟩
  let b : Decimal128 := ⟨⟨170141183460469231731687303715884105727, by norm_num⟩, 2⟩
  let c : Decimal128 := ⟨⟨170141183460469231731687303715884105726, by norm_num⟩, 2⟩
  have hab : a.compare b = .eq := by decide +kernel
  have hac : a.compare c = .eq := by decide +kernel
  have hcb : c.compare b = .lt := by decide +kernel
  refine ⟨a, b, c, hab, hac, hcb, by decide +kernel, ?_⟩
  intro h
  have hca := h.eq_symm a (by simp) c (by simp) (decide_eq_true hac)
  have heq := h.eq_trans c (by simp) a (by simp) b (by simp) hca (decide_eq_true hab)
  cases hcb.symm.trans (of_decide_eq_true heq)

end Decimal128

end ThunderboltDb.Sql
