import ThunderboltDb.Sql.Scalar
import ThunderboltDb.Types

/-!
# The stored form of a relational row

A row is stored as a text: one cell per value, cells separated by `|`, and in a text cell every `|` and `\`
behind a `\`. The encoder works on bytes (`appendRelationalCell`), the splitter on characters
(`splitEscapedRow`).

* `stored_row_round_trip` — a row is decoded to exactly the values that were encoded, and two rows with the
  same text are the same row.
-/

namespace ThunderboltDb.Engine

open Lib Sql List Option

variable {value : SqlValue} {values : List SqlValue}

/-- `ExecuteError`, as the row codec raises it. -/
inductive ExecuteError where
  | engine (error : EngineError)
  deriving DecidableEq

/-- `RelationalColumn`, the fields the row codec reads. -/
structure RelationalColumn where
  name : String
  ty : SqlType

def nullToken : List Char := "null".toList

/-! ### Encoding -/

inductive RelationalCellRef where
  | null
  | int2 (value : Int16)
  | int4 (value : Int32)
  | int8 (value : Int64)
  | numeric (mantissa : I128) (scale : UInt8)
  | bool (value : Bool)
  | text (value : List Char)
  | date (value : Int32)
  | timestamp (value : Int64)
  | uuid (bytes : List.Vector UInt8 16)

/-- The bytes that stand for one byte of a text: `\` before `\` and `|`. -/
def escapeByte (byte : UInt8) : List UInt8 := if byte = 0x5c ∨ byte = 0x7c then [0x5c, byte] else [byte]

/-- `itoa::Buffer::format`, with the behaviour that the crate documents. -/
structure Itoa where
  format : ℤ → List Char
  format_eq : ∀ n, format n = signedText n

variable (itoa : Itoa) (out : List UInt8) (cs : List Char)

def appendRelationalCell : RelationalCellRef → List UInt8
  | .null => out ++ utf8Bytes nullToken
  | .int2 value => out ++ utf8Bytes "i2:".toList ++ utf8Bytes (itoa.format value.toInt)
  | .int4 value => out ++ utf8Bytes "i:".toList ++ utf8Bytes (itoa.format value.toInt)
  | .int8 value => out ++ utf8Bytes "n:".toList ++ utf8Bytes (itoa.format value.toInt)
  | .numeric mantissa scale =>
    out ++ utf8Bytes "d:".toList ++
      utf8Bytes (signedText mantissa ++ ":".toList ++ decimalText scale.toNat)
  | .bool value => out ++ utf8Bytes (if value then "b:t".toList else "b:f".toList)
  | .text value => out ++ utf8Bytes "t:".toList ++ (utf8Bytes value).flatMap escapeByte
  | .date value => out ++ utf8Bytes "date:".toList ++ utf8Bytes (itoa.format value.toInt)
  | .timestamp value => out ++ utf8Bytes "ts:".toList ++ utf8Bytes (itoa.format value.toInt)
  | .uuid bytes => out ++ utf8Bytes "uuid:".toList ++ utf8Bytes (formatUuid bytes)

/-- The cell of a value; a parameter is `unreachable!`. -/
def cellRef : SqlValue → Option RelationalCellRef
  | .null => some .null
  | .int2 value => some (.int2 value)
  | .int4 value => some (.int4 value)
  | .int8 value => some (.int8 value)
  | .numeric value => some (.numeric value.mantissa value.scale)
  | .bool value => some (.bool value)
  | .text value => some (.text value)
  | .date value => some (.date value)
  | .timestamp value => some (.timestamp value)
  | .uuid bytes => some (.uuid bytes)
  | .parameter _ _ => none

/-- The loop of `encode_relational_row` from a position on. -/
def encodeCells : ℕ → List UInt8 → List SqlValue → Option (List UInt8)
  | _, out, [] => some out
  | position, out, value :: values => do
    let cell ← cellRef value
    let out := if position ≠ 0 then out ++ [0x7c] else out
    encodeCells (position + 1) (appendRelationalCell itoa out cell) values

/-- `none` is a panic: a parameter, or bytes that are not UTF-8. -/
def encodeRelationalRow (values : List SqlValue) : Option (List Char) :=
  (encodeCells itoa 0 [] values).bind utf8Text

/-! ### Decoding -/

structure SplitState where
  out : List (List Char)
  current : List Char
  escaped : Bool

def SplitState.step (s : SplitState) (ch : Char) : SplitState :=
  if s.escaped then { s with current := s.current ++ [ch], escaped := false }
  else if ch = '\\' then { s with escaped := true }
  else if ch = '|' then { s with out := s.out ++ [s.current], current := [] }
  else { s with current := s.current ++ [ch] }

def SplitState.finish (s : SplitState) : List (List Char) :=
  s.out ++ [if s.escaped then s.current ++ ['\\'] else s.current]

def splitEscapedRow (input : List Char) : List (List Char) :=
  (input.foldl SplitState.step ⟨[], [], false⟩).finish

def applyFailed (message : String) : ExecuteError := .engine (.applyFailed message)

def wrongType (column : RelationalColumn) : ExecuteError :=
  let name := column.name
  applyFailed s!"stored value for column \"{name}\" has wrong type"

/-- One typed cell: its tag, and behind the tag what `parse` accepts. -/
def decodeTagged (column : RelationalColumn) (tag : String) (part : List Char)
    (parse : List Char → Option SqlValue) (invalid : String) : Except ExecuteError SqlValue :=
  match tag.toList.isPrefixOf? part with
  | none => .error (wrongType column)
  | some body =>
    match parse body with
    | none => .error (applyFailed invalid)
    | some value => .ok value

/-- `parse::<i128>()`. -/
def parseI128 : Option I128 :=
  (parseSigned (2 ^ 127) cs).bind fun n => if h : -2 ^ 127 ≤ n ∧ n < 2 ^ 127 then some ⟨n, h⟩ else none

/-- `split_once(':')` and the two numbers. -/
def parseNumeric (body : List Char) : Option SqlValue :=
  match body.span (· ≠ ':') with
  | (_, []) => none
  | (mantissa, _ :: scale) => do
    let mantissa ← parseI128 mantissa
    let scale ← parseUnsigned 256 scale
    some (.numeric ⟨mantissa, UInt8.ofNat scale⟩)

def parseBool (body : List Char) : Option SqlValue :=
  if body = ['t'] then some (.bool true) else if body = ['f'] then some (.bool false) else none

def decodeRelationalValue (part : List Char) (column : RelationalColumn) : Except ExecuteError SqlValue :=
  if part = nullToken then .ok .null
  else
    match column.ty with
    | .int2 => decodeTagged column "i2:" part
        (fun body => (parseSigned (2 ^ 15) body).map fun n => .int2 (Int16.ofInt n))
        "stored SMALLINT value is invalid"
    | .int4 => decodeTagged column "i:" part
        (fun body => (parseSigned (2 ^ 31) body).map fun n => .int4 (Int32.ofInt n))
        "stored INT value is invalid"
    | .int8 => decodeTagged column "n:" part
        (fun body => (parseSigned (2 ^ 63) body).map fun n => .int8 (Int64.ofInt n))
        "stored BIGINT value is invalid"
    | .numeric _ _ => decodeTagged column "d:" part parseNumeric "stored NUMERIC value is invalid"
    | .bool => decodeTagged column "b:" part parseBool "stored BOOL value is invalid"
    | .text =>
      -- every text is valid
      decodeTagged column "t:" part (fun body => some (.text body)) ""
    | .date => decodeTagged column "date:" part
        (fun body => (parseSigned (2 ^ 31) body).map fun n => .date (Int32.ofInt n))
        "stored DATE value is invalid"
    | .timestamp => decodeTagged column "ts:" part
        (fun body => (parseSigned (2 ^ 63) body).map fun n => .timestamp (Int64.ofInt n))
        "stored TIMESTAMP value is invalid"
    | .uuid => decodeTagged column "uuid:" part (fun body => (parseUuid body).map .uuid)
        "stored UUID value is invalid"

/-- The cells in order; the first failure is the result. -/
def decodeCells : List (List Char) → List RelationalColumn → Except ExecuteError (List SqlValue)
  | part :: parts, column :: columns => do
    let value ← decodeRelationalValue part column
    let values ← decodeCells parts columns
    return value :: values
  | _, _ => .ok []

def decodeRelationalRow (input : List Char) (columns : List RelationalColumn) :
    Except ExecuteError (List SqlValue) :=
  let parts := splitEscapedRow input
  if parts.length ≠ columns.length then
    .error (applyFailed "stored relational row does not match catalog shape")
  else decodeCells parts columns

/-! ### The text of a row -/

def escapeChar (c : Char) : List Char := if c = '\\' ∨ c = '|' then ['\\', c] else [c]

def escapeText : List Char := cs.flatMap escapeChar

/-- The cell of a value before escaping. -/
def cellText : SqlValue → List Char
  | .null => nullToken
  | .int2 value => "i2:".toList ++ signedText value.toInt
  | .int4 value => "i:".toList ++ signedText value.toInt
  | .int8 value => "n:".toList ++ signedText value.toInt
  | .numeric value =>
    "d:".toList ++ (signedText value.mantissa ++ ":".toList ++ decimalText value.scale.toNat)
  | .bool value => "b:".toList ++ (if value then "t".toList else "f".toList)
  | .text value => "t:".toList ++ value
  | .date value => "date:".toList ++ signedText value.toInt
  | .timestamp value => "ts:".toList ++ signedText value.toInt
  | .uuid bytes => "uuid:".toList ++ formatUuid bytes
  | .parameter _ _ => []

/-- The cells behind the first. -/
def joinedTail (parts : List (List Char)) : List Char := parts.flatMap fun part => '|' :: escapeText part

/-- The escaped cells with separators between them. -/
def joined : List (List Char) → List Char
  | [] => []
  | part :: parts => escapeText part ++ joinedTail parts

/-- Escaping bytes is escaping characters: `\` and `|` are never part of a longer character. -/
theorem flatMap_escapeByte_char (c : Char) :
    (String.utf8EncodeChar c).flatMap escapeByte = (escapeChar c).flatMap String.utf8EncodeChar := by
  by_cases hascii : c.toNat ≤ 127
  · have hcode : UInt8.ofNat c.toNat = 0x5c ∨ UInt8.ofNat c.toNat = 0x7c ↔ c = '\\' ∨ c = '|' := by
      have hinj : ∀ d : Char, d.toNat ≤ 127 → (UInt8.ofNat c.toNat = UInt8.ofNat d.toNat ↔ c = d) := by
        intro d hd
        constructor
        · intro h
          have hnat := congrArg UInt8.toNat h
          simp only [UInt8.toNat_ofNat'] at hnat
          exact Char.toNat_inj.mp (by omega)
        · intro h
          rw [h]
      exact or_congr (hinj '\\' (by decide)) (hinj '|' (by decide))
    rw [utf8EncodeChar_ascii hascii, flatMap_singleton, escapeByte, escapeChar]
    by_cases hspecial : c = '\\' ∨ c = '|'
    · rw [if_pos (hcode.mpr hspecial), if_pos hspecial, flatMap_cons, flatMap_singleton,
        utf8EncodeChar_ascii hascii]
      rfl
    · rw [if_neg (mt hcode.mp hspecial), if_neg hspecial, flatMap_singleton, utf8EncodeChar_ascii hascii]
  · have hhigh : 127 < c.toNat := not_le.mp hascii
    have hc : escapeChar c = [c] := by
      refine if_neg ?_
      rintro (rfl | rfl) <;> exact absurd hhigh (by decide)
    have hsame : ∀ b ∈ String.utf8EncodeChar c, escapeByte b = [b] := by
      intro b hb
      have hle := le_of_mem_utf8EncodeChar hhigh hb
      refine if_neg ?_
      rintro (rfl | rfl) <;> exact absurd hle (by decide)
    rw [hc, flatMap_singleton, flatMap_congr hsame]
    exact flatMap_singleton' _

theorem flatMap_escapeByte : (utf8Bytes cs).flatMap escapeByte = utf8Bytes (escapeText cs) := by
  induction cs with
  | nil => rfl
  | cons c cs ih =>
    have hcons : utf8Bytes (c :: cs) = String.utf8EncodeChar c ++ utf8Bytes cs := by
      rw [utf8Bytes_eq_flatMap, utf8Bytes_eq_flatMap, flatMap_cons]
    have hescape : escapeText (c :: cs) = escapeChar c ++ escapeText cs := flatMap_cons
    rw [hcons, flatMap_append, ih, flatMap_escapeByte_char, hescape, utf8Bytes_append,
      utf8Bytes_eq_flatMap (escapeChar c)]

theorem escapeText_append (cs ds : List Char) : escapeText (cs ++ ds) = escapeText cs ++ escapeText ds :=
  flatMap_append

/-- A text without `\` and `|` is stored as it is. -/
theorem escapeText_plain {cs : List Char} (h : ∀ c ∈ cs, c ≠ '\\' ∧ c ≠ '|') : escapeText cs = cs := by
  induction cs with
  | nil => rfl
  | cons c cs ih =>
    obtain ⟨hc, hcs⟩ := forall_mem_cons.mp h
    have hchar : escapeChar c = [c] := if_neg (not_or.mpr hc)
    rw [escapeText, flatMap_cons, hchar, ← escapeText, ih hcs]
    rfl

theorem escapeText_signedText (n : ℤ) : escapeText (signedText n) = signedText n := by
  refine escapeText_plain fun c hc => ?_
  rcases mem_signedText hc with hdigit | rfl
  · constructor <;> rintro rfl <;> exact absurd hdigit (by decide)
  · decide

theorem escapeText_decimalText (n : ℕ) : escapeText (decimalText n) = decimalText n := by
  refine escapeText_plain fun c hc => ?_
  have hdigit := isDigit_of_mem_decimalText hc
  constructor <;> rintro rfl <;> exact absurd hdigit (by decide)

theorem escapeText_formatUuid (bytes : List.Vector UInt8 16) :
    escapeText (formatUuid bytes) = formatUuid bytes := by
  refine escapeText_plain fun c hc => ?_
  rcases mem_formatUuid hc with hdigit | rfl
  · constructor <;> rintro rfl <;> exact absurd hdigit (by decide)
  · decide

/-- A tag and a body without `\` and `|`. -/
theorem append_tagged {tag body : List Char} (htag : escapeText tag = tag) (hbody : escapeText body = body) :
    out ++ utf8Bytes tag ++ utf8Bytes body = out ++ utf8Bytes (escapeText (tag ++ body)) := by
  rw [escapeText_append, htag, hbody, utf8Bytes_append, append_assoc]

/-- A cell is written as its escaped text. -/
theorem appendRelationalCell_eq {cell : RelationalCellRef} (h : cellRef value = some cell) :
    appendRelationalCell itoa out cell = out ++ utf8Bytes (escapeText (cellText value)) := by
  cases value with
  | null =>
    cases h
    rfl
  | int2 value | int4 value | int8 value | date value | timestamp value =>
    cases h
    rw [appendRelationalCell, itoa.format_eq]
    exact append_tagged out rfl (escapeText_signedText _)
  | numeric value =>
    cases h
    refine append_tagged out rfl ?_
    rw [escapeText_append, escapeText_append, escapeText_signedText, escapeText_decimalText]
    rfl
  | bool value =>
    cases h
    cases value <;> rfl
  | text value =>
    cases h
    have htag : escapeText "t:".toList = "t:".toList := rfl
    show out ++ utf8Bytes "t:".toList ++ (utf8Bytes value).flatMap escapeByte =
      out ++ utf8Bytes (escapeText ("t:".toList ++ value))
    rw [escapeText_append, htag, utf8Bytes_append, flatMap_escapeByte, append_assoc]
  | uuid bytes =>
    cases h
    exact append_tagged out rfl (escapeText_formatUuid _)
  | parameter index cast => cases h

theorem exists_cellRef (h : value.Bound) : ∃ cell, cellRef value = some cell := by
  cases value with
  | parameter index cast => exact absurd h id
  | _ => exact ⟨_, rfl⟩

/-- Behind the first cell every cell brings its separator. -/
theorem encodeCells_succ (h : ∀ value ∈ values, value.Bound) (position : ℕ) (out : List UInt8) :
    encodeCells itoa (position + 1) out values = some (out ++ utf8Bytes (joinedTail (values.map cellText))) := by
  induction values generalizing position out with
  | nil => simp [encodeCells, joinedTail, utf8Bytes_eq_flatMap]
  | cons value values ih =>
    obtain ⟨hvalue, hvalues⟩ := forall_mem_cons.mp h
    obtain ⟨cell, hcell⟩ := exists_cellRef hvalue
    have htail : joinedTail ((value :: values).map cellText) =
        ['|'] ++ (escapeText (cellText value) ++ joinedTail (values.map cellText)) := flatMap_cons
    have hbar : utf8Bytes ['|'] = [0x7c] := by rw [utf8Bytes_eq_flatMap]; rfl
    simp only [encodeCells, hcell, bind_eq_bind, bind_some]
    rw [if_pos (Nat.succ_ne_zero position), appendRelationalCell_eq itoa _ hcell, ih hvalues, htail,
      utf8Bytes_append, utf8Bytes_append, hbar, append_assoc, append_assoc]

/-- The encoder never panics on bound values, and its text is the escaped cells, joined. -/
theorem encodeRelationalRow_eq (h : ∀ value ∈ values, value.Bound) :
    encodeRelationalRow itoa values = some (joined (values.map cellText)) := by
  have hcells : encodeCells itoa 0 [] values = some (utf8Bytes (joined (values.map cellText))) := by
    cases values with
    | nil => simp [encodeCells, joined, utf8Bytes_eq_flatMap]
    | cons value values =>
      obtain ⟨hvalue, hvalues⟩ := forall_mem_cons.mp h
      obtain ⟨cell, hcell⟩ := exists_cellRef hvalue
      simp only [encodeCells, hcell, bind_eq_bind, bind_some]
      rw [if_neg (not_not_intro rfl), appendRelationalCell_eq itoa _ hcell, encodeCells_succ itoa hvalues,
        map_cons, joined, utf8Bytes_append, nil_append]
  rw [encodeRelationalRow, hcells, bind_some, utf8Text_utf8Bytes]

/-! ### Splitting -/

theorem foldl_escapeText (out : List (List Char)) (current : List Char) :
    (escapeText cs).foldl SplitState.step ⟨out, current, false⟩ = ⟨out, current ++ cs, false⟩ := by
  induction cs generalizing current with
  | nil => simp [escapeText]
  | cons c cs ih =>
    have hescape : escapeText (c :: cs) = escapeChar c ++ escapeText cs := flatMap_cons
    have hchar : (escapeChar c).foldl SplitState.step ⟨out, current, false⟩ = ⟨out, current ++ [c], false⟩ := by
      rw [escapeChar]
      split
      · rfl
      · rename_i hplain
        obtain ⟨hslash, hbar⟩ := not_or.mp hplain
        simp [SplitState.step, hslash, hbar]
    rw [hescape, foldl_append, hchar, ih, append_assoc]
    rfl

theorem foldl_joinedTail (parts : List (List Char)) (out : List (List Char)) (current : List Char) :
    ((joinedTail parts).foldl SplitState.step ⟨out, current, false⟩).finish = out ++ current :: parts := by
  induction parts generalizing out current with
  | nil => rfl
  | cons part parts ih =>
    have htail : joinedTail (part :: parts) = '|' :: (escapeText part ++ joinedTail parts) := flatMap_cons
    have hbar : SplitState.step ⟨out, current, false⟩ '|' = ⟨out ++ [current], [], false⟩ := rfl
    rw [htail, foldl_cons, hbar, foldl_append, foldl_escapeText, ih, nil_append, append_assoc]
    rfl

theorem splitEscapedRow_joined (part : List Char) (parts : List (List Char)) :
    splitEscapedRow (joined (part :: parts)) = part :: parts := by
  rw [splitEscapedRow, joined, foldl_append, foldl_escapeText, foldl_joinedTail]
  rfl

/-! ### Cells -/

variable {column : RelationalColumn} {vs ws : List SqlValue}

/-- A cell that is not the null token is read behind its tag. -/
theorem decodeTagged_append {tag : String} {body : List Char}
    {parse : List Char → Option SqlValue} {invalid : String}
    (h : parse body = some value) :
    decodeTagged column tag (tag.toList ++ body) parse invalid = .ok value := by
  have hpre : tag.toList.isPrefixOf? (tag.toList ++ body) = some body := isPrefixOf?_eq_some_iff_append_eq.mpr rfl
  simp only [decodeTagged, hpre, h]

theorem parseNumeric_text (value : Decimal128) :
    parseNumeric (signedText value.mantissa ++ ":".toList ++ decimalText value.scale.toNat) =
      some (.numeric value) := by
  obtain ⟨⟨mantissa, hmantissa⟩, scale⟩ := value
  have hspan : (signedText mantissa ++ ':' :: decimalText scale.toNat).span (· ≠ ':') =
      (signedText mantissa, ':' :: decimalText scale.toNat) := by
    have hne : ∀ c ∈ signedText mantissa, decide (c ≠ ':') = true := by
      intro c hc
      rw [decide_eq_true_iff]
      rintro rfl
      rcases mem_signedText hc with hdigit | hminus
      · exact absurd hdigit (by decide)
      · exact absurd hminus (by decide)
    rw [span_eq_takeWhile_dropWhile, takeWhile_append_of_pos hne, dropWhile_append_of_pos hne]
    simp
  have hscale : scale.toNat < 256 := scale.toNat_lt
  have hread : parseI128 (signedText mantissa) = some ⟨mantissa, hmantissa⟩ := by
    have hbound : ((2 ^ 127 : ℕ) : ℤ) = 2 ^ 127 := Nat.cast_pow 2 127
    have hsigned : parseSigned (2 ^ 127) (signedText mantissa) = some mantissa :=
      parseSigned_signedText (hbound ▸ hmantissa.1) (hbound ▸ hmantissa.2)
    rw [parseI128, hsigned, bind_some, dif_pos hmantissa]
  rw [append_assoc, parseNumeric]
  show (match (signedText mantissa ++ ':' :: decimalText scale.toNat).span (· ≠ ':') with
    | (_, []) => none
    | (mantissa, _ :: scale) => _) = _
  rw [hspan]
  simp only [hread, parseUnsigned_decimalText hscale, bind_eq_bind, bind_some, UInt8.ofNat_toNat]

/-- Every value of the column's type, and `NULL`, is read back from its cell. -/
theorem decodeRelationalValue_cellText (h : value = .null ∨ value.HasType column.ty) :
    decodeRelationalValue (cellText value) column = .ok value := by
  obtain ⟨name, ty⟩ := column
  rcases h with rfl | h
  · exact if_pos rfl
  · have htag : ∀ {c d : Char} {cs : List Char}, (c, d) ≠ ('n', 'u') → c :: d :: cs ≠ nullToken := by
      intro c d cs hcd heq
      have htwo : [c, d] = ['n', 'u'] := congrArg (List.take 2) heq
      obtain ⟨rfl, hrest⟩ := List.cons.inj htwo
      obtain ⟨rfl, -⟩ := List.cons.inj hrest
      exact hcd rfl
    cases h with
    | int2 value =>
      refine (if_neg (htag (by decide))).trans (decodeTagged_append ?_)
      rw [parseSigned_signedText (by exact_mod_cast value.le_toInt) (by exact_mod_cast value.toInt_lt),
        map_some, Int16.ofInt_toInt]
    | int4 value | date value =>
      refine (if_neg (htag (by decide))).trans (decodeTagged_append ?_)
      rw [parseSigned_signedText (by exact_mod_cast value.le_toInt) (by exact_mod_cast value.toInt_lt),
        map_some, Int32.ofInt_toInt]
    | int8 value | timestamp value =>
      refine (if_neg (htag (by decide))).trans (decodeTagged_append ?_)
      rw [parseSigned_signedText (by exact_mod_cast value.le_toInt) (by exact_mod_cast value.toInt_lt),
        map_some, Int64.ofInt_toInt]
    | numeric value precision scale =>
      exact (if_neg (htag (by decide))).trans (decodeTagged_append (parseNumeric_text value))
    | bool value =>
      cases value <;> rfl
    | text value =>
      exact (if_neg (htag (by decide))).trans (decodeTagged_append rfl)
    | uuid bytes =>
      refine (if_neg (htag (by decide))).trans (decodeTagged_append ?_)
      rw [parseUuid_formatUuid, map_some]

/-- The type that the first two characters of a cell announce; `NULL` announces any. -/
def announcedType : List Char → SqlType
  | ['i', '2'] => .int2
  | ['i', ':'] => .int4
  | ['n', ':'] => .int8
  | ['d', ':'] => .numeric 0 0
  | ['b', ':'] => .bool
  | ['t', 's'] => .timestamp
  | ['d', 'a'] => .date
  | ['u', 'u'] => .uuid
  | _ => .text

theorem hasType_announcedType (h : value.Bound) :
    value = .null ∨ value.HasType (announcedType ((cellText value).take 2)) := by
  cases value with
  | null => exact Or.inl rfl
  | int2 value => exact Or.inr (.int2 value)
  | int4 value => exact Or.inr (.int4 value)
  | int8 value => exact Or.inr (.int8 value)
  | numeric value => exact Or.inr (.numeric value 0 0)
  | bool value => exact Or.inr (.bool value)
  | text value => exact Or.inr (.text value)
  | date value => exact Or.inr (.date value)
  | timestamp value => exact Or.inr (.timestamp value)
  | uuid bytes => exact Or.inr (.uuid bytes)
  | parameter index cast => exact absurd h id

/-- A cell determines its value: both are read back from it in a column of the announced type. -/
theorem cellText_injective {v w : SqlValue} (hv : v.Bound) (hw : w.Bound)
    (h : cellText v = cellText w) : v = w := by
  have hread := @decodeRelationalValue_cellText v ⟨"", announcedType ((cellText v).take 2)⟩
    (hasType_announcedType hv)
  have hread' := @decodeRelationalValue_cellText w ⟨"", announcedType ((cellText w).take 2)⟩
    (hasType_announcedType hw)
  rw [h, hread'] at hread
  exact (Except.ok.inj hread).symm

theorem cellText_ne_nil (h : value.Bound) : cellText value ≠ [] := by
  cases value with
  | parameter index cast => exact absurd h id
  | _ => exact cons_ne_nil _ _

theorem map_cellText_injective (hv : ∀ v ∈ vs, v.Bound)
    (hw : ∀ w ∈ ws, w.Bound) (h : vs.map cellText = ws.map cellText) : vs = ws := by
  induction vs generalizing ws with
  | nil => exact (map_eq_nil_iff.mp h.symm).symm
  | cons v vs ih =>
    cases ws with
    | nil => cases h
    | cons w ws =>
      obtain ⟨hhead, htail⟩ := List.cons.inj h
      obtain ⟨hv₀, hvs⟩ := forall_mem_cons.mp hv
      obtain ⟨hw₀, hws⟩ := forall_mem_cons.mp hw
      rw [cellText_injective hv₀ hw₀ hhead, ih hvs hws htail]

/-! ### Rows -/

/-- The values of a row, each `NULL` or of its column's type. -/
def RowTyped (values : List SqlValue) (columns : List RelationalColumn) : Prop :=
  List.Forall₂ (fun value column => value = .null ∨ value.HasType column.ty) values columns

variable {columns : List RelationalColumn}

theorem RowTyped.bound (h : RowTyped values columns) : ∀ value ∈ values, value.Bound := by
  induction h with
  | nil => simp
  | cons hvalue _ ih =>
    refine forall_mem_cons.mpr ⟨?_, ih⟩
    rcases hvalue with rfl | hty
    · trivial
    · exact hty.bound

theorem decodeCells_map (h : RowTyped values columns) : decodeCells (values.map cellText) columns = .ok values := by
  induction h with
  | nil => rfl
  | cons hvalue _ ih =>
    rw [map_cons, decodeCells, decodeRelationalValue_cellText hvalue, ih]
    rfl

theorem decodeRelationalRow_joined (hne : values ≠ []) (h : RowTyped values columns) :
    decodeRelationalRow (joined (values.map cellText)) columns = .ok values := by
  have hsplit : splitEscapedRow (joined (values.map cellText)) = values.map cellText := by
    cases values with
    | nil => exact absurd rfl hne
    | cons value values => exact splitEscapedRow_joined _ _
  have hlen : values.length = columns.length := h.length_eq
  rw [decodeRelationalRow]
  simp only [hsplit, length_map, hlen, ne_eq, not_true_eq_false, if_false]
  exact decodeCells_map h

/-- Rows with the same text have the same cells; only the empty row has the empty text. -/
theorem joined_injective (hv : ∀ v ∈ vs, v.Bound) (hw : ∀ w ∈ ws, w.Bound)
    (h : joined (vs.map cellText) = joined (ws.map cellText)) : vs = ws := by
  have hempty : ∀ w ws, (∀ v ∈ w :: ws, SqlValue.Bound v) → joined ((w :: ws).map cellText) ≠ [] := by
    intro w ws hw htext
    have hsplit := splitEscapedRow_joined (cellText w) (ws.map cellText)
    rw [← map_cons, htext] at hsplit
    exact cellText_ne_nil (hw w mem_cons_self) (List.cons.inj hsplit).1.symm
  cases vs with
  | nil =>
    cases ws with
    | nil => rfl
    | cons w ws => exact absurd h.symm (hempty w ws hw)
  | cons v vs =>
    cases ws with
    | nil => exact absurd h (hempty v vs hv)
    | cons w ws =>
      have hsplit := congrArg splitEscapedRow h
      rw [map_cons, map_cons, splitEscapedRow_joined, splitEscapedRow_joined] at hsplit
      exact map_cellText_injective hv hw hsplit

/-- **The stored row codec.**  Every non-empty row whose values are `NULL` or of their column's type is
encoded, and decoding the text gives the same values; and the encoder is injective on bound values. -/
theorem stored_row_round_trip (itoa : Itoa) :
    (∀ (values : List SqlValue) (columns : List RelationalColumn), values ≠ [] → RowTyped values columns →
      ∃ text, encodeRelationalRow itoa values = some text ∧ decodeRelationalRow text columns = .ok values) ∧
    ∀ vs ws : List SqlValue, (∀ v ∈ vs, v.Bound) → (∀ w ∈ ws, w.Bound) →
      encodeRelationalRow itoa vs = encodeRelationalRow itoa ws → vs = ws := by
  constructor
  · intro values columns hne h
    exact ⟨_, encodeRelationalRow_eq itoa h.bound, decodeRelationalRow_joined hne h⟩
  · intro vs ws hv hw h
    rw [encodeRelationalRow_eq itoa hv, encodeRelationalRow_eq itoa hw] at h
    exact joined_injective hv hw (some.inj h)

theorem stored_row_round_trip_separators :
    ∃ text, encodeRelationalRow ⟨signedText, fun _ => rfl⟩ [.text "a|b\\".toList, .null] = some text ∧
      decodeRelationalRow text [⟨"t", .text⟩, ⟨"n", .int4⟩] = .ok [.text "a|b\\".toList, .null] :=
  (stored_row_round_trip _).1 _ _ (cons_ne_nil _ _) (.cons (Or.inr (.text _)) (.cons (Or.inl rfl) .nil))

end ThunderboltDb.Engine
