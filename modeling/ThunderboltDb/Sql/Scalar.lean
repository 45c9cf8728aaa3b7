import ThunderboltDb.Lib.TextFile

/-!
# SQL scalar types and values

`SqlType`, `SqlValue` and `Decimal128` as the row codec uses them, and the `uuid` text form: `formatUuid`
writes the canonical hyphenated form and `parseUuid` reads it, the bare form and either in braces.

* `parseUuid_formatUuid` — a formatted `uuid` is read back.
-/

namespace ThunderboltDb.Sql

open Lib List

inductive SqlType where
  | int2
  | int4
  | int8
  | numeric (precision scale : UInt8)
  | bool
  | text
  | date
  | timestamp
  | uuid
  deriving DecidableEq

/-- The values of `i128`. -/
abbrev I128 := { n : ℤ // -2 ^ 127 ≤ n ∧ n < 2 ^ 127 }

/-- `Decimal128`, compared field by field and not as numbers. -/
structure Decimal128 where
  mantissa : I128
  scale : UInt8
  deriving DecidableEq

inductive SqlValue where
  | null
  | int4 (value : Int32)
  | int8 (value : Int64)
  | numeric (value : Decimal128)
  | bool (value : Bool)
  | text (value : List Char)
  | date (value : Int32)
  | timestamp (value : Int64)
  | uuid (bytes : List.Vector UInt8 16)
  | int2 (value : Int16)
  | parameter (index : ℕ) (cast : Option SqlType)
  deriving DecidableEq

/-- A value of the type; `NULL` is a value of none. -/
inductive SqlValue.HasType : SqlValue → SqlType → Prop
  | int2 (value : Int16) : HasType (.int2 value) .int2
  | int4 (value : Int32) : HasType (.int4 value) .int4
  | int8 (value : Int64) : HasType (.int8 value) .int8
  | numeric (value : Decimal128) (precision scale : UInt8) :
    HasType (.numeric value) (.numeric precision scale)
  | bool (value : Bool) : HasType (.bool value) .bool
  | text (value : List Char) : HasType (.text value) .text
  | date (value : Int32) : HasType (.date value) .date
  | timestamp (value : Int64) : HasType (.timestamp value) .timestamp
  | uuid (bytes : List.Vector UInt8 16) : HasType (.uuid bytes) .uuid

/-- The value is no prepared-statement parameter. -/
def SqlValue.Bound : SqlValue → Prop
  | .parameter _ _ => False
  | _ => True

theorem SqlValue.HasType.bound {value : SqlValue} {ty : SqlType} (h : value.HasType ty) : value.Bound := by
  cases h <;> trivial

/-! ### Uuids -/

def formatUuid (bytes : List.Vector UInt8 16) : List Char :=
  bytes.toList.zipIdx.flatMap fun (byte, i) =>
    if i = 4 ∨ i = 6 ∨ i = 8 ∨ i = 10 then '-' :: hexByte byte else hexByte byte

/-- `char::to_digit(16)` of the character with this code. -/
def hexDigitValue (code : UInt8) : Option UInt8 :=
  if 0x30 ≤ code ∧ code ≤ 0x39 then some (code - 0x30)
  else if 0x61 ≤ code ∧ code ≤ 0x66 then some (code - 0x61 + 10)
  else if 0x41 ≤ code ∧ code ≤ 0x46 then some (code - 0x41 + 10)
  else none

/-- The bytes of pairs of hexadecimal digits. -/
def hexPairs : List UInt8 → Option (List UInt8)
  | hi :: lo :: rest => do
    let hi ← hexDigitValue hi
    let lo ← hexDigitValue lo
    let rest ← hexPairs rest
    some ((hi <<< 4 ||| lo) :: rest)
  | _ => some []

/-- The digits of the bare or the hyphenated form. -/
def uuidDigits (raw : List UInt8) : Option (List UInt8) :=
  if raw.length = 32 then some raw
  else if raw.length = 36 then
    if raw[8]? ≠ some 0x2d ∨ raw[13]? ≠ some 0x2d ∨ raw[18]? ≠ some 0x2d ∨ raw[23]? ≠ some 0x2d then none
    else some (raw.extract 0 8 ++ raw.extract 9 13 ++ raw.extract 14 18 ++ raw.extract 19 23 ++
      raw.extract 24 36)
  else none

/-- `strip_prefix('{')` and then `strip_suffix('}')`. -/
def stripBraces (cs : List Char) : Option (List Char) :=
  match cs with
  | '{' :: inner => if inner.getLast? = some '}' then some inner.dropLast else none
  | _ => none

def parseUuid (text : List Char) : Option (List.Vector UInt8 16) := do
  let trimmed := trimText text
  let body := (stripBraces trimmed).getD trimmed
  let hex ← uuidDigits (utf8Bytes body)
  let bytes ← hexPairs hex
  if h : bytes.length = 16 then some ⟨bytes, h⟩ else none

def hexCode (n : ℕ) : UInt8 := UInt8.ofNat n.digitChar.toNat

variable {n : ℕ} (bytes : List UInt8) (v : List.Vector UInt8 16)

theorem utf8EncodeChar_digitChar (h : n < 16) : String.utf8EncodeChar n.digitChar = [hexCode n] := by
  refine utf8EncodeChar_ascii ?_
  interval_cases n <;> decide

theorem hexDigitValue_hexCode (h : n < 16) : hexDigitValue (hexCode n) = some (UInt8.ofNat n) := by
  interval_cases n <;> decide

theorem not_whiteSpace_digitChar (h : n < 16) : isWhiteSpace n.digitChar = false := by
  interval_cases n <;> decide

/-- The codes of a byte's two digits. -/
def hexCodes (byte : UInt8) : List UInt8 := [hexCode (byte.toNat / 16), hexCode (byte.toNat % 16)]

theorem utf8Bytes_hexByte (byte : UInt8) : utf8Bytes (hexByte byte) = hexCodes byte := by
  have hlt : byte.toNat < 256 := byte.toNat_lt
  rw [utf8Bytes_eq_flatMap, hexByte, flatMap_cons, flatMap_cons, flatMap_nil,
    utf8EncodeChar_digitChar (by omega), utf8EncodeChar_digitChar (by omega)]
  rfl

theorem join_nibbles : ∀ n < 256,
    (UInt8.ofNat (n / 16) <<< 4 ||| UInt8.ofNat (n % 16)) = UInt8.ofNat n := by decide +kernel

theorem hexPairs_flatMap : hexPairs (bytes.flatMap hexCodes) = some bytes := by
  induction bytes with
  | nil => rfl
  | cons byte bytes ih =>
    have hlt : byte.toNat < 256 := byte.toNat_lt
    have hjoin := join_nibbles byte.toNat hlt
    rw [UInt8.ofNat_toNat] at hjoin
    show hexPairs (hexCode (byte.toNat / 16) :: hexCode (byte.toNat % 16) :: bytes.flatMap hexCodes) = _
    rw [hexPairs, hexDigitValue_hexCode (by omega), hexDigitValue_hexCode (by omega), ih]
    simp [hjoin]

theorem exists_sixteen : ∃ b₀ b₁ b₂ b₃ b₄ b₅ b₆ b₇ b₈ b₉ c₀ c₁ c₂ c₃ c₄ c₅,
    v.toList = [b₀, b₁, b₂, b₃, b₄, b₅, b₆, b₇, b₈, b₉, c₀, c₁, c₂, c₃, c₄, c₅] := by
  obtain ⟨bytes, hlen⟩ := v
  match bytes, hlen with
  | [b₀, b₁, b₂, b₃, b₄, b₅, b₆, b₇, b₈, b₉, c₀, c₁, c₂, c₃, c₄, c₅], _ =>
    exact ⟨b₀, b₁, b₂, b₃, b₄, b₅, b₆, b₇, b₈, b₉, c₀, c₁, c₂, c₃, c₄, c₅, rfl⟩

/-- The hyphenated text in its five groups. -/
def uuidText (a b c d e : List UInt8) : List Char :=
  hexText a ++ '-' :: (hexText b ++ '-' :: (hexText c ++ '-' :: (hexText d ++ '-' :: hexText e)))

theorem formatUuid_groups : ∃ a b c d e : List UInt8,
    a.length = 4 ∧ b.length = 2 ∧ c.length = 2 ∧ d.length = 2 ∧ e.length = 6 ∧
      v.toList = a ++ b ++ c ++ d ++ e ∧ formatUuid v = uuidText a b c d e := by
  obtain ⟨b₀, b₁, b₂, b₃, b₄, b₅, b₆, b₇, b₈, b₉, c₀, c₁, c₂, c₃, c₄, c₅, hv⟩ :=
    exists_sixteen v
  refine ⟨[b₀, b₁, b₂, b₃], [b₄, b₅], [b₆, b₇], [b₈, b₉], [c₀, c₁, c₂, c₃, c₄, c₅], rfl, rfl, rfl,
    rfl,
    rfl, hv, ?_⟩
  rw [formatUuid, hv]
  rfl

theorem mem_formatUuid {v : List.Vector UInt8 16} {c : Char} (h : c ∈ formatUuid v) : isHexDigit c ∨ c = '-' := by
  obtain ⟨⟨byte, i⟩, -, hc⟩ := mem_flatMap.mp h
  have hhex : ∀ d ∈ hexByte byte, isHexDigit d := by
    intro d hd
    exact isHexDigit_of_mem_hexText (mem_flatMap.mpr ⟨byte, mem_singleton_self byte, hd⟩)
  simp only at hc
  split at hc
  · rcases mem_cons.mp hc with rfl | hd
    · exact Or.inr rfl
    · exact Or.inl (hhex c hd)
  · exact Or.inl (hhex c hc)

theorem utf8Bytes_hexText : utf8Bytes (hexText bytes) = bytes.flatMap hexCodes := by
  induction bytes with
  | nil => rfl
  | cons byte bytes ih =>
    rw [hexText, flatMap_cons, utf8Bytes_append, utf8Bytes_hexByte, ← hexText, ih, flatMap_cons]

theorem length_flatMap_hexCodes : (bytes.flatMap hexCodes).length = 2 * bytes.length := by
  induction bytes with
  | nil => rfl
  | cons byte bytes ih =>
    rw [flatMap_cons, length_append, ih, length_cons]
    show 2 + 2 * bytes.length = 2 * (bytes.length + 1)
    omega

/-- The digits of the five groups are taken out from between the hyphens. -/
theorem uuidDigits_groups {a b c d e : List UInt8} (ha : a.length = 8) (hb : b.length = 4)
    (hc : c.length = 4) (hd : d.length = 4) (he : e.length = 12) :
    uuidDigits (a ++ 0x2d :: (b ++ 0x2d :: (c ++ 0x2d :: (d ++ 0x2d :: e)))) = some (a ++ b ++ c ++ d ++ e) := by
  have hlen : (a ++ 0x2d :: (b ++ 0x2d :: (c ++ 0x2d :: (d ++ 0x2d :: e)))).length = 36 := by
    simp [ha, hb, hc, hd, he]
  rw [uuidDigits, if_neg (by rw [hlen]; decide), if_pos hlen, if_neg]
  · simp (disch := omega) [extract, drop_append, drop_of_length_le, take_of_length_le, ha, hb, hc, hd]
  · simp [ha, hb, hc, hd, he]

/-- The text starts and ends with a digit. -/
theorem exists_formatUuid_ends : ∃ m n cs, m < 16 ∧ n < 16 ∧
    formatUuid v = Nat.digitChar m :: (cs ++ [Nat.digitChar n]) := by
  obtain ⟨b₀, b₁, b₂, b₃, b₄, b₅, b₆, b₇, b₈, b₉, c₀, c₁, c₂, c₃, c₄, c₅, hv⟩ :=
    exists_sixteen v
  have hfirst : b₀.toNat < 256 := b₀.toNat_lt
  refine ⟨b₀.toNat / 16, c₅.toNat % 16, (formatUuid v).tail.dropLast, by omega, by omega, ?_⟩
  rw [formatUuid, hv]
  rfl

theorem parseUuid_formatUuid : parseUuid (formatUuid v) = some v := by
  obtain ⟨a, b, c, d, e, ha, hb, hc, hd, he, hv, htext⟩ := formatUuid_groups v
  obtain ⟨m, n, cs, hm, hn, hends⟩ := exists_formatUuid_ends v
  have htrim : trimText (formatUuid v) = formatUuid v := by
    rw [hends]
    exact trimText_eq (not_whiteSpace_digitChar hm) (not_whiteSpace_digitChar hn)
  have hbraces : stripBraces (formatUuid v) = none := by
    have hopen : m.digitChar ≠ '{' := by interval_cases m <;> decide
    rw [hends]
    unfold stripBraces
    split
    · rename_i inner heq
      exact absurd (List.cons.inj heq).1 hopen
    · rfl
  have hraw : utf8Bytes (formatUuid v) = a.flatMap hexCodes ++ 0x2d :: (b.flatMap hexCodes ++ 0x2d ::
      (c.flatMap hexCodes ++ 0x2d :: (d.flatMap hexCodes ++ 0x2d :: e.flatMap hexCodes))) := by
    have hcons : ∀ cs : List Char, utf8Bytes ('-' :: cs) = 0x2d :: utf8Bytes cs := by
      intro cs
      exact utf8Bytes_append ['-'] cs
    rw [htext, uuidText]
    simp only [utf8Bytes_append, hcons, utf8Bytes_hexText]
  have hdigits := @uuidDigits_groups (a.flatMap hexCodes) (b.flatMap hexCodes) (c.flatMap hexCodes)
    (d.flatMap hexCodes) (e.flatMap hexCodes) (by rw [length_flatMap_hexCodes, ha])
    (by rw [length_flatMap_hexCodes, hb]) (by rw [length_flatMap_hexCodes, hc])
    (by rw [length_flatMap_hexCodes, hd]) (by rw [length_flatMap_hexCodes, he])
  have hpairs : hexPairs (v.toList.flatMap hexCodes) = some v.toList := hexPairs_flatMap v.toList
  simp only [hv, flatMap_append] at hpairs
  rw [parseUuid, htrim, hbraces, Option.getD_none, hraw, hdigits]
  simp only [Option.bind_eq_bind, Option.bind_some, hpairs, ← hv]
  rw [dif_pos v.toList_length]
  rfl

end ThunderboltDb.Sql
