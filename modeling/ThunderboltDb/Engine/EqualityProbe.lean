import ThunderboltDb.Engine.RowCodec
import ThunderboltDb.Sql.Decimal

/-!
# Equality probes

An equality filter is answered from the value index: the slot of the literal's `relationalIndexValue` is read
where a scan would compare every stored value with the literal (`selectFilterMatches`). The two agree when
equal numbers have equal keys.

* `equality_probe_iff` — after `coerceFilterLiteral` they differ only around `Int2` and where decimals tie.
-/

namespace ThunderboltDb.Engine

open Lib Sql Decimal128

/-! ### Literals -/

/-- `Decimal128::new(i128::from(value), 0)` of an `i32`. -/
def ofInt4 (value : Int32) : Decimal128 :=
  ⟨⟨value.toInt, by have := value.le_toInt; have := value.toInt_lt; omega⟩, 0⟩

def ofInt8 (value : Int64) : Decimal128 :=
  ⟨⟨value.toInt, by have := value.le_toInt; have := value.toInt_lt; omega⟩, 0⟩

/-- `i16::try_from`. -/
def tryInt2 (n : ℤ) : Option Int16 := if -2 ^ 15 ≤ n ∧ n < 2 ^ 15 then some (Int16.ofInt n) else none

def tryInt4 (n : ℤ) : Option Int32 := if -2 ^ 31 ≤ n ∧ n < 2 ^ 31 then some (Int32.ofInt n) else none

def tryInt8 (n : ℤ) : Option Int64 := if -2 ^ 63 ≤ n ∧ n < 2 ^ 63 then some (Int64.ofInt n) else none

def decimalToI128Exact (value : Decimal128) : Option ℤ :=
  if value.canonical.scale = 0 then some value.canonical.mantissa.val else none

variable (parseDate : List Char → Option Int32)

def coerceFilterLiteral (value : SqlValue) (columnTy : SqlType) : SqlValue :=
  match value, columnTy with
  | .int4 v, .numeric _ _ => .numeric (ofInt4 v)
  | .int8 v, .numeric _ _ => .numeric (ofInt8 v)
  | .int4 v, .int8 => .int8 v.toInt64
  | .int8 v, .int4 => (tryInt4 v.toInt).elim (.int8 v) .int4
  | .numeric d, .int4 => ((decimalToI128Exact d).bind tryInt4).elim (.numeric d) .int4
  | .numeric d, .int8 => ((decimalToI128Exact d).bind tryInt8).elim (.numeric d) .int8
  | .text s, .date => (parseDate s).elim (.text s) .date
  | .int4 v, .int2 => (tryInt2 v.toInt).elim (.int4 v) .int2
  | other, _ => other

/-! ### Keys and comparisons -/

/-- The value that the key of the index spells out. -/
def canonicalValue : SqlValue → SqlValue
  | .numeric value => .numeric value.canonical
  | value => value

/-- The text of a cell, with a canonical decimal; `none` is the `unreachable!` of a parameter. -/
def relationalIndexValue : SqlValue → Option (List Char)
  | .parameter _ _ => none
  | value => some (cellText (canonicalValue value))

/-- Where the values of a type stand among those of other types. -/
def tier : SqlValue → ℕ
  | .null => 0
  | .int2 _ | .int4 _ | .int8 _ => 1
  | .numeric _ => 2
  | .bool _ => 3
  | .text _ => 4
  | .date _ => 5
  | .timestamp _ => 6
  | .uuid _ => 7
  | .parameter _ _ => 8

/-- A `smallint` is widened for every comparison. -/
def widen : SqlValue → SqlValue
  | .int2 value => .int4 value.toInt32
  | value => value

def compareWidened : SqlValue → SqlValue → Option Ordering
  | .parameter _ _, _ | _, .parameter _ _ => none
  | .int4 left, .int4 right => some (Ord.compare left.toInt right.toInt)
  | .int8 left, .int8 right => some (Ord.compare left.toInt right.toInt)
  | .int4 left, .int8 right => some (Ord.compare left.toInt right.toInt)
  | .int8 left, .int4 right => some (Ord.compare left.toInt right.toInt)
  | .numeric left, .numeric right => some (left.compare right)
  | .int4 left, .numeric right => some ((ofInt4 left).compare right)
  | .int8 left, .numeric right => some ((ofInt8 left).compare right)
  | .numeric left, .int4 right => some (left.compare (ofInt4 right))
  | .numeric left, .int8 right => some (left.compare (ofInt8 right))
  | .bool left, .bool right => some (Ord.compare left right)
  | .text left, .text right => some (Ord.compare left right)
  | .date left, .date right => some (Ord.compare left.toInt right.toInt)
  | .timestamp left, .timestamp right => some (Ord.compare left.toInt right.toInt)
  | .uuid left, .uuid right => some (Ord.compare left.toList right.toList)
  | left, right => some (Ord.compare (tier left) (tier right))

/-- `none` is the `unreachable!` of an unbound parameter. -/
def compareSqlValues (left right : SqlValue) : Option Ordering := compareWidened (widen left) (widen right)

inductive SelectFilterOp where
  | eq
  | lt
  | lte
  | gt
  | gte
  | likePrefix

def selectFilterMatches (left : SqlValue) (op : SelectFilterOp) (right : SqlValue) : Option Bool :=
  if left = .null ∨ right = .null then some false
  else
    match op with
    | .eq => (compareSqlValues left right).map (· = .eq)
    | .lt => (compareSqlValues left right).map (· = .lt)
    | .lte => (compareSqlValues left right).map (· ≠ .gt)
    | .gt => (compareSqlValues left right).map (· = .gt)
    | .gte => (compareSqlValues left right).map (· ≠ .lt)
    | .likePrefix =>
      match left, right with
      | .text left, .text start => some (start.isPrefixOf left)
      | _, _ => some false

/-- The scan takes the stored value exactly if the probe finds it. -/
def ProbeAgrees (stored literal : SqlValue) : Prop :=
  selectFilterMatches stored .eq literal = some true ↔
    stored ≠ .null ∧ literal ≠ .null ∧ relationalIndexValue stored = relationalIndexValue literal

/-! ### Numbers -/

def number : SqlValue → Option Decimal128
  | .int2 value => some (ofInt4 value.toInt32)
  | .int4 value => some (ofInt4 value)
  | .int8 value => some (ofInt8 value)
  | .numeric value => some value
  | _ => none

def value (u : SqlValue) : Option ℚ := (number u).map toRat

variable {v w : SqlValue} {a b : Decimal128}

theorem compareSqlValues_number (hv : number v = some a) (hw : number w = some b) :
    compareSqlValues v w = some (a.compare b) := by
  cases v <;> cases hv <;> cases w <;> cases hw <;> rfl

theorem compare_of_tie (h : Tie a b ∨ Tie b a) : a.compare b = .eq ∧ a.toRat ≠ b.toRat := by
  have hside : ∀ {x y : Decimal128}, Tie x y → x.compare y = .eq ∧ x.toRat ≠ y.toRat := by
    intro x y htie
    obtain ⟨heq, hne⟩ := (compare_of_lt_eq htie.narrower).2 htie
    exact ⟨heq, fun hrat => hne ((cmp_eq_eq_iff _ _).mpr hrat)⟩
  rcases h with h | h
  · exact hside h
  · rw [← compare_swap_of_lt h.narrower, (hside h).1]
    exact ⟨rfl, (hside h).2.symm⟩

theorem compare_eq_eq_iff : a.compare b = .eq ↔ a.toRat = b.toRat ∨ Tie a b ∨ Tie b a := by
  by_cases h : Tie a b ∨ Tie b a
  · exact iff_of_true (compare_of_tie h).1 (.inr h)
  · rw [(compare_eq_cmp_iff a b).mpr (not_or.mp h), cmp_eq_eq_iff]
    exact (or_iff_left h).symm

theorem relationalIndexValue_eq_iff (hv : v.Bound) (hw : w.Bound) :
    relationalIndexValue v = relationalIndexValue w ↔ canonicalValue v = canonicalValue w := by
  have hsome : ∀ {u : SqlValue}, u.Bound → relationalIndexValue u = some (cellText (canonicalValue u)) ∧
      (canonicalValue u).Bound := by
    intro u hu
    cases u <;> first | exact ⟨rfl, trivial⟩ | exact absurd hu id
  rw [(hsome hv).1, (hsome hw).1, Option.some_inj]
  exact ⟨cellText_injective (hsome hv).2 (hsome hw).2, congrArg cellText⟩

theorem toRat_eq_of_canonicalValue (hv : number v = some a) (hw : number w = some b)
    (h : canonicalValue v = canonicalValue w) : a.toRat = b.toRat := by
  cases v <;> cases hv <;> cases w <;> cases hw <;> first
    | exact (canonical_eq_iff _ _).mp (SqlValue.numeric.inj h)
    | cases h <;> rfl

/-- Two values of which one is no number are equal if they are compared as equal. -/
theorem compareSqlValues_eq_iff (h : number v = none ∨ number w = none) (hv : v.Bound) (hw : w.Bound) :
    compareSqlValues v w = some .eq ↔ v = w := by
  cases v <;> cases w <;>
    simp_all [number, SqlValue.Bound, compareSqlValues, compareWidened, widen, tier, Int32.toInt_inj, Int64.toInt_inj,
      List.Vector.toList_injective.eq_iff]

theorem probeAgrees_eq (hv : v.Bound) (hw : w.Bound) : ProbeAgrees v w ↔ (v ≠ .null → w ≠ .null →
    (compareSqlValues v w = some .eq ↔ canonicalValue v = canonicalValue w)) := by
  rw [ProbeAgrees, relationalIndexValue_eq_iff hv hw, selectFilterMatches]
  split
  · rename_i hnull
    simp only [Option.some.injEq, Bool.false_eq_true, false_iff]
    tauto
  · rename_i hnull
    obtain ⟨hvn, hwn⟩ := not_or.mp hnull
    simp only [Option.map_eq_some_iff, decide_eq_true_eq, exists_eq_right, hvn, hwn, ne_eq, not_false_eq_true,
      true_and, forall_const]

theorem probeAgrees_of_none (h : number v = none ∨ number w = none) (hv : v.Bound) (hw : w.Bound) :
    ProbeAgrees v w := by
  rw [probeAgrees_eq hv hw, compareSqlValues_eq_iff h hv hw]
  intro _ _
  constructor
  · exact congrArg canonicalValue
  · cases v <;> cases w <;> first
      | exact id
      | (intro heq; cases heq)
      | (rcases h with h | h <;> cases h)

/-- Numbers disagree if they tie, or if they are equal and have different keys. -/
theorem probeAgrees_iff (hv : number v = some a) (hw : number w = some b) : ProbeAgrees v w ↔
    ¬ (Tie a b ∨ Tie b a) ∧ (a.toRat = b.toRat → canonicalValue v = canonicalValue w) := by
  have hbound : ∀ {u : SqlValue} {c : Decimal128}, number u = some c → u.Bound ∧ u ≠ .null := by
    intro u c hu
    cases u <;> cases hu <;> exact ⟨trivial, nofun⟩
  rw [probeAgrees_eq (hbound hv).1 (hbound hw).1, compareSqlValues_number hv hw, Option.some_inj, compare_eq_eq_iff]
  have hkey := toRat_eq_of_canonicalValue hv hw
  have htie := fun h => (compare_of_tie (a := a) (b := b) h).2
  have hvn := (hbound hv).2
  have hwn := (hbound hw).2
  tauto

/-! ### Integers -/

theorem tryInt2_toInt (n : Int16) : tryInt2 n.toInt = some n := by
  rw [tryInt2, if_pos ⟨n.le_toInt, n.toInt_lt⟩, Int16.ofInt_toInt]

theorem tryInt4_toInt (n : Int32) : tryInt4 n.toInt = some n := by
  rw [tryInt4, if_pos ⟨n.le_toInt, n.toInt_lt⟩, Int32.ofInt_toInt]

theorem tryInt8_toInt (n : Int64) : tryInt8 n.toInt = some n := by
  rw [tryInt8, if_pos ⟨n.le_toInt, n.toInt_lt⟩, Int64.ofInt_toInt]

theorem toRat_of_scale_zero (h : a.scale = 0) : a.toRat = a.mantissa.val := by
  rw [toRat, h]
  exact div_one _

theorem decimalToI128Exact_of_toRat (ha : a.scale = 0) (h : a.toRat = b.toRat) :
    decimalToI128Exact b = some a.mantissa.val := by
  have hcanonical : a.canonical = a := by
    rw [canonical, ha]
    exact congrArg (Decimal128.mk a.mantissa) ha.symm
  rw [decimalToI128Exact, ← (canonical_eq_iff a b).mpr h, hcanonical, if_pos ha]

/-- The whole part of the wider value would be the narrower one, which then fits `i128` at the wider scale. -/
theorem not_tie_of_scale_zero (h : a.scale = 0) (b : Decimal128) : ¬ (Tie a b ∨ Tie b a) := by
  rintro (htie | htie)
  · obtain ⟨-, hoverflow, hsign, hinteger, -⟩ := htie
    rw [h, UInt8.toNat_zero, pow_zero, Int.tdiv_one] at hinteger
    rw [h, UInt8.toNat_zero, Nat.sub_zero] at hoverflow
    have hle : (a.mantissa.val * 10 ^ b.scale.toNat).natAbs ≤ b.mantissa.val.natAbs := by
      rw [hinteger, Int.natAbs_mul, Int.natAbs_tdiv, Int.natAbs_pow]
      exact Nat.div_mul_le_self _ _
    have hb := b.mantissa.property
    rcases hoverflow with hlow | hhigh
    · omega
    · rw [Int.sign_eq_neg_one_of_neg (a := b.mantissa.val) (by omega), Int.sign_eq_neg_one_iff_neg] at hsign
      have hneg := mul_neg_of_neg_of_pos hsign (by positivity : (0 : ℤ) < 10 ^ b.scale.toNat)
      omega
  · exact UInt8.not_lt_zero (h ▸ htie.narrower)

theorem toRat_eq_iff (ha : a.scale = 0) (hb : b.scale = 0) : a.toRat = b.toRat ↔ a.mantissa.val = b.mantissa.val := by
  rw [toRat_of_scale_zero ha, toRat_of_scale_zero hb, Int.cast_inj]

theorem probeAgrees_same (hv : number v = some a) (hw : number w = some b) (ha : a.scale = 0) (hb : b.scale = 0)
    (hkey : a.mantissa.val = b.mantissa.val → canonicalValue v = canonicalValue w) : ProbeAgrees v w := by
  rw [probeAgrees_iff hv hw, toRat_eq_iff ha hb]
  exact ⟨not_tie_of_scale_zero ha b, hkey⟩

theorem probeAgrees_int2 (n m : Int16) : ProbeAgrees (.int2 n) (.int2 m) := by
  refine probeAgrees_same rfl rfl rfl rfl fun h => congrArg SqlValue.int2 (Int16.toInt_inj.mp ?_)
  rwa [← n.toInt_toInt32, ← m.toInt_toInt32]

theorem probeAgrees_int4 (n m : Int32) : ProbeAgrees (.int4 n) (.int4 m) :=
  probeAgrees_same rfl rfl rfl rfl fun h => congrArg SqlValue.int4 (Int32.toInt_inj.mp h)

theorem probeAgrees_int8 (n m : Int64) : ProbeAgrees (.int8 n) (.int8 m) :=
  probeAgrees_same rfl rfl rfl rfl fun h => congrArg SqlValue.int8 (Int64.toInt_inj.mp h)

/-- Equal numbers of different types are missed. -/
theorem probeAgrees_iff_ne (hv : number v = some a) (hw : number w = some b) (ha : a.scale = 0 ∨ b.scale = 0)
    (hkey : canonicalValue v ≠ canonicalValue w) : ProbeAgrees v w ↔ ¬ value v = value w := by
  have hnot : ¬ (Tie a b ∨ Tie b a) :=
    ha.elim (not_tie_of_scale_zero · b) fun hb htie => not_tie_of_scale_zero hb a htie.symm
  rw [probeAgrees_iff hv hw, value, value, hv, hw, Option.map_some, Option.map_some, Option.some_inj]
  tauto

/-- A literal that is not narrowed is not the stored number. -/
theorem probeAgrees_elim {α : Type} {attempt : Option α} {f : α → SqlValue} (hsome : ∀ k, ProbeAgrees v (f k))
    (hw : ProbeAgrees v w ↔ ¬ value v = value w) (hnone : value v = value w → attempt ≠ none) :
    ProbeAgrees v (attempt.elim w f) := by
  cases attempt with
  | none => exact hw.mpr fun h => hnone h rfl
  | some k => exact hsome k

/-! ### Coerced literals -/

theorem bound_coerceFilterLiteral (ty : SqlType) (h : v.Bound) :
    (coerceFilterLiteral parseDate v ty).Bound := by
  have helim : ∀ {α : Type} (attempt : Option α) {u : SqlValue} {f : α → SqlValue}, u.Bound →
    (∀ k, (f k).Bound) →
      (attempt.elim u f).Bound := by
    intro α attempt u f hu hf
    cases attempt with
    | none => exact hu
    | some k => exact hf k
  unfold coerceFilterLiteral
  split <;> first | exact h | trivial | exact helim _ trivial fun _ => trivial

/-- The stored values that a probe for the literal does not find, and a scan does. -/
def Missed (stored literal : SqlValue) : Prop :=
  match stored, literal with
  | .numeric a, .numeric b => Tie a b ∨ Tie b a
  | .int2 _, .int8 _ | .int2 _, .numeric _ | .int4 _, .int2 _ | .int8 _, .int2 _ | .numeric _, .int2 _ =>
    value stored = value literal
  | _, _ => False

/-- **Equality probes.**  A probe with a coerced literal finds the rows a scan would, unless the literal is an `Int2`
for a column of another numeric type, or an `Int8` or a decimal for an `Int2` column, or two decimals tie. -/
theorem equality_probe_iff (parseDate : List Char → Option Int32) {ty : SqlType} {stored literal : SqlValue}
    (hstored : stored = .null ∨ stored.HasType ty) (hliteral : literal.Bound) :
    ProbeAgrees stored (coerceFilterLiteral parseDate literal ty) ↔ ¬ Missed stored literal := by
  have hcoerced := bound_coerceFilterLiteral parseDate ty hliteral
  rcases hstored with rfl | hstored
  · exact iff_of_true (probeAgrees_of_none (.inl rfl) trivial hcoerced) id
  cases hstored with
  | bool | text | date | timestamp | uuid =>
    exact iff_of_true (probeAgrees_of_none (.inl rfl) trivial hcoerced) id
  | int2 n =>
    cases literal with
    | int2 m => exact iff_of_true (probeAgrees_int2 n m) id
    | int4 m =>
      refine iff_of_true (probeAgrees_elim (probeAgrees_int2 n)
        (probeAgrees_iff_ne rfl rfl (.inl rfl) (by nofun)) fun h => ?_) id
      have hm : n.toInt32.toInt = m.toInt := (toRat_eq_iff rfl rfl).mp (Option.some.inj h)
      rw [← hm, n.toInt_toInt32, tryInt2_toInt]
      nofun
    | int8 m | numeric d => exact probeAgrees_iff_ne rfl rfl (.inl rfl) (by nofun)
    | _ => exact iff_of_true (probeAgrees_of_none (.inr rfl) trivial hcoerced) id
  | int4 n =>
    cases literal with
    | int2 m => exact probeAgrees_iff_ne rfl rfl (.inl rfl) (by nofun)
    | int4 m => exact iff_of_true (probeAgrees_int4 n m) id
    | int8 m =>
      refine iff_of_true (probeAgrees_elim (probeAgrees_int4 n)
        (probeAgrees_iff_ne rfl rfl (.inl rfl) (by nofun)) fun h => ?_) id
      have hm : n.toInt = m.toInt := (toRat_eq_iff rfl rfl).mp (Option.some.inj h)
      rw [← hm, tryInt4_toInt]
      nofun
    | numeric d =>
      refine iff_of_true (probeAgrees_elim (probeAgrees_int4 n)
        (probeAgrees_iff_ne rfl rfl (.inl rfl) (by nofun)) fun h => ?_) id
      rw [decimalToI128Exact_of_toRat rfl (Option.some.inj h)]
      exact ne_of_eq_of_ne (tryInt4_toInt n) nofun
    | _ => exact iff_of_true (probeAgrees_of_none (.inr rfl) trivial hcoerced) id
  | int8 n =>
    cases literal with
    | int2 m => exact probeAgrees_iff_ne rfl rfl (.inl rfl) (by nofun)
    | int4 m => exact iff_of_true (probeAgrees_int8 n m.toInt64) id
    | int8 m => exact iff_of_true (probeAgrees_int8 n m) id
    | numeric d =>
      refine iff_of_true (probeAgrees_elim (probeAgrees_int8 n)
        (probeAgrees_iff_ne rfl rfl (.inl rfl) (by nofun)) fun h => ?_) id
      rw [decimalToI128Exact_of_toRat rfl (Option.some.inj h)]
      exact ne_of_eq_of_ne (tryInt8_toInt n) nofun
    | _ => exact iff_of_true (probeAgrees_of_none (.inr rfl) trivial hcoerced) id
  | numeric d precision scale =>
    have hnumeric : ∀ e : Decimal128, ProbeAgrees (.numeric d) (.numeric e) ↔ ¬ (Tie d e ∨ Tie e d) := by
      intro e
      rw [probeAgrees_iff rfl rfl]
      exact and_iff_left fun h => congrArg SqlValue.numeric ((canonical_eq_iff d e).mpr h)
    cases literal with
    | int2 m => exact probeAgrees_iff_ne rfl rfl (.inr rfl) (by nofun)
    | int4 m | int8 m => exact iff_of_true ((hnumeric _).mpr fun htie => not_tie_of_scale_zero rfl d htie.symm) id
    | numeric e => exact hnumeric e
    | _ => exact iff_of_true (probeAgrees_of_none (.inr rfl) trivial hcoerced) id

/-- `5.0` finds the `5` of an `Int4` column. -/
theorem equality_probe_int4 : ProbeAgrees (.int4 5)
    (coerceFilterLiteral (fun _ => none) (.numeric ⟨⟨50, by norm_num⟩, 1⟩) .int4) :=
  (equality_probe_iff (fun _ => none) (.inr (.int4 5)) (by trivial)).mpr id

/-- The `5` of an `Int2` column is equal to an `Int8` literal and is not in its slot. -/
theorem equality_probe_int2_misses : ∃ literal, literal = coerceFilterLiteral (fun _ => none) (.int8 5) .int2 ∧
    selectFilterMatches (.int2 5) .eq literal = some true ∧ relationalIndexValue (.int2 5) = some "i2:5".toList ∧
    relationalIndexValue literal = some "n:5".toList ∧ ¬ ProbeAgrees (.int2 5) literal :=
  ⟨_, rfl, rfl, rfl, rfl, fun h => absurd (h.mp rfl).2.2 (by decide)⟩

end ThunderboltDb.Engine
