import ThunderboltDb.Lib.Layout
import ThunderboltDb.Lib.ByteCodec
import ThunderboltDb.Engine.RowCodec

/-!
# The device payload of a table

Rows are kept on the device column by column: an 8-byte row count, the columns of 4, 8 and 16 bytes a row,
the `bool` bitmaps, the validity bitmaps of the columns that hold a `NULL`, and the text columns, each as a
table of offsets and a run of bytes. `buildRelationalDevicePayloadWithCapacity` writes this payload;
`residentDeviceInt4ColumnOffset` and its siblings compute from a snapshot where a column stands in it, and
`readCell` reads one value through them.
-/

namespace ThunderboltDb.Engine

open Lib Sql

/-! ### The sections -/

/-- The sections a value can be stored in. -/
inductive PayloadSection where
  | int4
  | int8
  | b128
  | bool
  | text
  deriving DecidableEq

/-- The section of a type: `date` and `int2` ride the 4-byte section, `timestamp` the 8-byte one and `uuid`
the 16-byte one. -/
def payloadSection : SqlType → PayloadSection
  | .int4 | .date | .int2 => .int4
  | .int8 | .timestamp => .int8
  | .numeric _ _ | .uuid => .b128
  | .bool => .bool
  | .text => .text

variable (columns : List RelationalColumn) (bytes : Bytes)

/-- The columns of a section in catalog order, `.iter().enumerate().filter(..).map(|(i, _)| i)`. -/
def sectionColumns (section' : PayloadSection) : List ℕ :=
  (columns.zipIdx.filter fun (column, _) => payloadSection column.ty = section').map Prod.snd

/-! ### Cells -/

def i32ToLe (x : Int32) : Bytes := u32ToLe x.toUInt32

def i32OfLe : Int32 := (u32OfLe bytes).toInt32

def i64ToLe (x : Int64) : Bytes := u64ToLe x.toUInt64

def i64OfLe : Int64 := (u64OfLe bytes).toInt64

def i128ToLe (x : I128) : Bytes := leBytes 16 (x.val % 2 ^ 128).toNat

theorem bmod_i128_bounds (n : ℤ) : -2 ^ 127 ≤ n.bmod (2 ^ 128) ∧ n.bmod (2 ^ 128) < 2 ^ 127 := by
  have hle := @Int.le_bmod n (2 ^ 128) (by decide)
  have hlt := @Int.bmod_lt n (2 ^ 128) (by decide)
  exact ⟨le_trans (by norm_num) hle, lt_of_lt_of_le hlt (by norm_num)⟩

def i128OfLe : I128 :=
  ⟨Int.bmod (leValue bytes) (2 ^ 128), bmod_i128_bounds _⟩

/-- The value that the 4-byte section keeps; a `NULL` is a 0 that nothing reads. -/
def int4Cell : SqlValue → Option Int32
  | .int4 value | .date value => some value
  | .int2 value => some value.toInt32
  | .null => some 0
  | _ => none

def int8Cell : SqlValue → Option Int64
  | .int8 value | .timestamp value => some value
  | .null => some 0
  | _ => none

/-- The 16 bytes of a `numeric`'s mantissa or of a `uuid`. -/
def b128Cell : SqlValue → Option Bytes
  | .numeric value => some (i128ToLe value.mantissa)
  | .uuid bytes => some bytes.toList
  | .null => some (List.replicate 16 0)
  | _ => none

def boolCell : SqlValue → Option Bool
  | .bool value => some value
  | .null => some false
  | _ => none

def textCell : SqlValue → Option Bytes
  | .text value => some (utf8Bytes value)
  | .null => some []
  | _ => none

/-! ### The builder -/

/-- How the builder ends without a payload. -/
inductive PayloadFailure where
  | panic
  | failed (error : ExecuteError)

structure ResidentDeviceTextColumnLayout where
  name : String
  offsetsByteOffset : ℕ
  bytesByteOffset : ℕ
  bytesLen : ℕ

/-- `ResidentDeviceBoolColumnLayout` and `ResidentDeviceNullBitmapLayout`. -/
structure ResidentDeviceBitmapLayout where
  name : String
  bitmapByteOffset : ℕ

structure ResidentDeviceInt4ColumnStats where
  name : String
  min : Int32
  max : Int32

structure RelationalDevicePayload where
  devicePayload : Bytes
  residentDeviceTextColumns : List ResidentDeviceTextColumnLayout
  residentDeviceBoolColumns : List ResidentDeviceBitmapLayout
  residentDeviceInt4ColumnStats : List ResidentDeviceInt4ColumnStats
  residentDeviceB128Columns : List (String × ℕ)
  residentDeviceNullColumns : List ResidentDeviceBitmapLayout

/-- What a column stores of one row: `row[col_idx]`, which panics behind the row's end, and then `encode`. -/
def encodeCell {α : Type} (encode : SqlValue → Option α) (mismatch : String) (col : ℕ)
    (row : List SqlValue) : Except PayloadFailure α :=
  match row[col]? with
  | none => .error .panic
  | some value =>
    match encode value with
    | none => .error (.failed (applyFailed mismatch))
    | some cell => .ok cell

def columnName (col : ℕ) : String :=
  ((columns[col]?).map RelationalColumn.name).getD ""

section Lay

variable (columns : List RelationalColumn) (rows : List (List SqlValue)) (capacity : ℕ)
  (stats : ResidentDeviceInt4ColumnStats)

/-- A column of fixed width: one cell a row, then zeroes up to the capacity. -/
def layFixed (encode : SqlValue → Option Bytes) (width : ℕ) (mismatch : String)
    (payload : Bytes) (col : ℕ) : Except PayloadFailure (Bytes × (String × ℕ)) := do
  let cells ← rows.mapM (encodeCell encode mismatch col)
  .ok (cells.flatten ++ List.replicate ((capacity - rows.length) * width) 0,
    (columnName columns col, payload.length))

/-- A bitmap with one bit a row, in words of 32 for the whole capacity. -/
def layBitmap (encode : SqlValue → Option Bool) (mismatch : String) (payload : Bytes) (col : ℕ) :
    Except PayloadFailure (Bytes × ResidentDeviceBitmapLayout) := do
  let bits ← rows.mapM (encodeCell encode mismatch col)
  .ok ((packBits ((capacity + 31) / 32) bits).flatMap u32ToLe, ⟨columnName columns col, payload.length⟩)

/-- The length of the text after each cell. -/
def textEnds : ℕ → List Bytes → List ℕ
  | _, [] => []
  | n, cell :: cells => (n + cell.length) :: textEnds (n + cell.length) cells

/-- `text_offsets`, in bytes. -/
def textOffsetBytes (cells : List Bytes) : Bytes :=
  (0 :: textEnds 0 cells).flatMap fun offset => u64ToLe (UInt64.ofNat offset)

/-- A text column: zeroes up to a multiple of 8, the offsets and the bytes. -/
def layText (payload : Bytes) (col : ℕ) :
    Except PayloadFailure (Bytes × ResidentDeviceTextColumnLayout) := do
  let cells ← rows.mapM (encodeCell textCell "resident snapshot text payload encountered non-text value" col)
  let padding := (8 - payload.length % 8) % 8
  let offsets := textOffsetBytes cells
  .ok (List.replicate padding 0 ++ (offsets ++ cells.flatten),
    { name := columnName columns col
      offsetsByteOffset := payload.length + padding
      bytesByteOffset := payload.length + padding + offsets.length
      bytesLen := cells.flatten.length })

/-- Extend the bounds by a cell. -/
def widenInt4Stats (cell : Int32) : ResidentDeviceInt4ColumnStats :=
  { stats with min := min stats.min cell, max := max stats.max cell }

/-- A `NULL` is left out of the bounds. -/
def noteInt4Stats (value : SqlValue) : ResidentDeviceInt4ColumnStats :=
  if value = .null then stats else ((int4Cell value).map (widenInt4Stats stats)).getD stats

/-- The least and the greatest value of a column of the 4-byte section. -/
def int4ColumnStats (col : ℕ) : ResidentDeviceInt4ColumnStats :=
  (rows.filterMap fun row => row[col]?).foldl noteInt4Stats
    ⟨columnName columns col, Int32.maxValue, Int32.minValue⟩

end Lay

/-- One of the builder's loops: what `lay` makes of a column is appended, and its record kept. -/
def layColumns {ρ : Type} (lay : Bytes → ℕ → Except PayloadFailure (Bytes × ρ)) :
    List ℕ → Bytes → Except PayloadFailure (Bytes × List ρ)
  | [], payload => .ok (payload, [])
  | col :: cols, payload => do
    let (bytes, record) ← lay payload col
    let (payload, records) ← layColumns lay cols (payload ++ bytes)
    .ok (payload, record :: records)

/-- `rows.iter().any(|row| matches!(row[col_idx], SqlValue::Null))`. -/
def hasNull (rows : List (List SqlValue)) (col : ℕ) : Bool := rows.any fun row => row[col]? = some .null

section

variable (columns : List RelationalColumn) (rows : List (List SqlValue))

def nullColumns : List ℕ :=
  (List.range columns.length).filter (hasNull rows)

/-- The checks that come before any byte is written. -/
def checkCapacity (rowCount capacity : ℕ) : Except PayloadFailure Unit := do
  refuse (capacity < rowCount)
    (.failed (applyFailed s!"resident payload capacity {capacity} is below the row count {rowCount}"))
  refuse (2 ^ 31 < capacity)
    (.failed (applyFailed s!"resident payload capacity {capacity} is implausibly large"))
  refuse (rowCount < capacity ∧ ∃ column ∈ columns, column.ty = .text)
    (.failed (applyFailed
      "open-shard (capacity-padded) resident payload does not support variable-length text columns"))

/-- The row count is written over the first 8 bytes at the end. A `Vec` holds fewer than `2 ^ 63` bytes;
growing beyond that is a panic. -/
def buildRelationalDevicePayloadWithCapacity (capacity : ℕ) : Except PayloadFailure RelationalDevicePayload := do
  checkCapacity columns rows.length capacity
  let (payload, _) ← layColumns
    (layFixed columns rows capacity (fun value => (int4Cell value).map i32ToLe) 4
      "resident snapshot int4/date/int2 payload encountered a non-i32 value")
    (sectionColumns columns .int4) (List.replicate 8 0)
  let (payload, _) ← layColumns
    (layFixed columns rows capacity (fun value => (int8Cell value).map i64ToLe) 8
      "resident snapshot int8/timestamp payload encountered a non-i64 value")
    (sectionColumns columns .int8) payload
  let (payload, b128) ← layColumns
    (layFixed columns rows capacity b128Cell 16
      "resident snapshot numeric/uuid payload encountered a wrong-typed value")
    (sectionColumns columns .b128) payload
  let (payload, bools) ← layColumns
    (layBitmap columns rows capacity boolCell "resident snapshot bool payload encountered a non-bool value")
    (sectionColumns columns .bool) payload
  let (payload, nulls) ← layColumns
    (layBitmap columns rows capacity (fun value => some (decide (value ≠ .null))) "")
    (nullColumns columns rows) payload
  let (payload, texts) ← layColumns (layText columns rows) (sectionColumns columns .text) payload
  refuse (2 ^ 63 ≤ payload.length) .panic
  .ok
    { devicePayload := u64ToLe (UInt64.ofNat rows.length) ++ payload.drop 8
      residentDeviceTextColumns := texts
      residentDeviceBoolColumns := bools
      residentDeviceInt4ColumnStats := (sectionColumns columns .int4).map (int4ColumnStats columns rows)
      residentDeviceB128Columns := b128
      residentDeviceNullColumns := nulls }

/-- What a loop appends is one chunk a column, each made from the payload up to there. -/
theorem layColumns_ok {ρ : Type} {lay : Bytes → ℕ → Except PayloadFailure (Bytes × ρ)}
    {cols : List ℕ} {payload payload' : Bytes} {records : List ρ}
    (h : layColumns lay cols payload = .ok (payload', records)) :
    ∃ chunks : List Bytes, payload' = payload ++ chunks.flatten ∧ chunks.length = cols.length ∧
      records.length = cols.length ∧ ∀ i col, cols[i]? = some col → ∃ chunk record,
        chunks[i]? = some chunk ∧ records[i]? = some record ∧
          lay (payload ++ (chunks.take i).flatten) col = .ok (chunk, record) := by
  induction cols generalizing payload records with
  | nil =>
    obtain ⟨rfl, rfl⟩ : payload = payload' ∧ [] = records := by simpa [layColumns] using h
    exact ⟨[], by simp, rfl, rfl, by simp⟩
  | cons col cols ih =>
    simp only [layColumns, bind_ok] at h
    obtain ⟨⟨bytes, record⟩, hlay, ⟨last, later⟩, hrest, heq⟩ := h
    obtain ⟨rfl, rfl⟩ : last = payload' ∧ record :: later = records := by simpa using heq
    obtain ⟨chunks, hlast, hchunks, hlater, hall⟩ := ih hrest
    refine ⟨bytes :: chunks, ?_, by simp [hchunks], by simp [hlater], ?_⟩
    · rw [hlast, List.flatten_cons, List.append_assoc]
    · intro i col' hcol
      cases i with
      | zero =>
        obtain rfl : col = col' := by simpa using hcol
        exact ⟨bytes, record, rfl, rfl, by simpa using hlay⟩
      | succ i =>
        obtain ⟨chunk, record', hchunk, hrecord, hmade⟩ := hall i col' (by simpa using hcol)
        refine ⟨chunk, record', by simpa using hchunk, by simpa using hrecord, ?_⟩
        rw [List.take_succ_cons, List.flatten_cons, ← List.append_assoc]
        exact hmade

/-! ### Snapshots -/

/-- `RelationalResidencySnapshot`, the fields that locate a column. -/
structure RelationalResidencySnapshot where
  rowCount : ℕ
  capacity : ℕ
  residentDeviceInt4Columns : List String
  residentDeviceInt4ColumnStats : List ResidentDeviceInt4ColumnStats
  residentDeviceInt8Columns : List String
  residentDeviceNumericColumns : List String
  residentDeviceBoolColumns : List ResidentDeviceBitmapLayout
  residentDeviceTextColumns : List ResidentDeviceTextColumnLayout
  residentDeviceNullColumns : List ResidentDeviceBitmapLayout

def sectionNames (section' : PayloadSection) : List String :=
  (columns.filter fun column => payloadSection column.ty = section').map RelationalColumn.name

/-- The snapshot of a freshly built payload. -/
def residentSnapshot (capacity : ℕ) (built : RelationalDevicePayload) : RelationalResidencySnapshot where
  rowCount := rows.length
  capacity := capacity
  residentDeviceInt4Columns := sectionNames columns .int4
  residentDeviceInt4ColumnStats := built.residentDeviceInt4ColumnStats
  residentDeviceInt8Columns := sectionNames columns .int8
  residentDeviceNumericColumns := sectionNames columns .b128
  residentDeviceBoolColumns := built.residentDeviceBoolColumns
  residentDeviceTextColumns := built.residentDeviceTextColumns
  residentDeviceNullColumns := built.residentDeviceNullColumns

/-! ### Where a column stands -/

def outsideTable : ExecuteError :=
  applyFailed "resident device-memory predicate column is outside the catalog table"

/-- A `u64`, or the overflow of the arithmetic that made it. -/
def checkedU64 (overflow : ExecuteError) (n : ℕ) : Except ExecuteError ℕ :=
  if n < 2 ^ 64 then .ok n else .error overflow

/-- `count * (capacity * width)` bytes behind `start`. -/
def checkedSection (overflow : ExecuteError) (capacity start count width : ℕ) : Except ExecuteError ℕ := do
  let columnBytes ← checkedU64 overflow (capacity * width)
  let sectionBytes ← checkedU64 overflow (count * columnBytes)
  checkedU64 overflow (start + sectionBytes)

/-- The columns of the section before a column, counted. -/
def sectionOrdinal (section' : PayloadSection) (col : ℕ) : ℕ :=
  ((columns.take col).filter fun column => payloadSection column.ty = section').length

end

/-- A column of a fixed-width section: behind the row count, the whole sections `before` (their number of
columns and width) and the columns of its own section before it. -/
def residentDeviceFixedColumnOffset (section' : PayloadSection) (kinds kind : String) (names : List String)
    (before : List (ℕ × ℕ)) (width : ℕ) (snapshot : RelationalResidencySnapshot)
    (columns : List RelationalColumn) (col : ℕ) : Except ExecuteError ℕ :=
  match columns[col]? with
  | none => .error outsideTable
  | some column => do
    refuse (payloadSection column.ty ≠ section')
      (applyFailed s!"resident device-memory predicate column is not {kinds}")
    let ordinal := sectionOrdinal columns section' col
    let name := column.name
    refuse (names[ordinal]? ≠ some name)
      (applyFailed s!"resident snapshot device payload has no {kind} column \"{name}\"")
    let overflow := applyFailed s!"resident snapshot {kind} payload offset overflowed"
    let start ← before.foldlM (fun start (count, width) =>
      checkedSection overflow snapshot.capacity start count width) 8
    checkedSection overflow snapshot.capacity start ordinal width

section

variable (snapshot : RelationalResidencySnapshot) (columns : List RelationalColumn)

def residentDeviceInt4ColumnOffset : List RelationalColumn → ℕ → Except ExecuteError ℕ :=
  residentDeviceFixedColumnOffset .int4 "int4/date/int2" "int4" snapshot.residentDeviceInt4Columns [] 4
    snapshot

def residentDeviceInt8ColumnOffset : List RelationalColumn → ℕ → Except ExecuteError ℕ :=
  residentDeviceFixedColumnOffset .int8 "int8/timestamp" "int8" snapshot.residentDeviceInt8Columns
    [(snapshot.residentDeviceInt4Columns.length, 4)] 8 snapshot

def residentDeviceNumericColumnOffset : List RelationalColumn → ℕ → Except ExecuteError ℕ :=
  residentDeviceFixedColumnOffset .b128 "numeric/uuid" "numeric" snapshot.residentDeviceNumericColumns
    [(snapshot.residentDeviceInt4Columns.length, 4), (snapshot.residentDeviceInt8Columns.length, 8)] 16
    snapshot

def residentDeviceBoolColumnOffset (col : ℕ) : Except ExecuteError ℕ :=
  match columns[col]? with
  | none => .error outsideTable
  | some column => do
    refuse (column.ty ≠ .bool) (applyFailed "resident device-memory predicate column is not bool")
    let name := column.name
    match snapshot.residentDeviceBoolColumns.find? fun layout => layout.name = name with
    | none => .error (applyFailed s!"resident snapshot device payload has no bool column \"{name}\"")
    | some layout => .ok layout.bitmapByteOffset

/-- `None` is the ordinary case of a column without `NULL`s. -/
def residentDeviceNullColumnOffset (col : ℕ) : Except ExecuteError (Option ℕ) :=
  match columns[col]? with
  | none => .error outsideTable
  | some column =>
    .ok ((snapshot.residentDeviceNullColumns.find? fun layout => layout.name = column.name).map
      ResidentDeviceBitmapLayout.bitmapByteOffset)

def residentDeviceTextColumnLayout (col : ℕ) : Except ExecuteError ResidentDeviceTextColumnLayout :=
  match columns[col]? with
  | none => .error outsideTable
  | some column => do
    refuse (column.ty ≠ .text) (applyFailed
      "resident device-memory text-prefix count proof currently supports only text predicates")
    let name := column.name
    match snapshot.residentDeviceTextColumns.find? fun layout => layout.name = name with
    | none => .error (applyFailed s!"resident snapshot device payload has no text column \"{name}\"")
    | some layout => .ok layout

end

/-! ### Reading -/

section Read

variable (payload : Bytes) (ty : SqlType)
  (snapshot : RelationalResidencySnapshot) (columns : List RelationalColumn)

def readRowCount : Option ℕ := (window payload 0 8).map fun bytes => (u64OfLe bytes).toNat

def readI32 (off : ℕ) : Option Int32 := (window payload off 4).map i32OfLe

def readI64 (off : ℕ) : Option Int64 := (window payload off 8).map i64OfLe

/-- The bit of row `row` of the bitmap at `off`. -/
def readBit (off row : ℕ) : Option Bool :=
  (window payload (off + 4 * (row / 32)) 4).map fun word => (u32OfLe word).toNat.testBit (row % 32)

/-- Whether the row is valid; without a bitmap every row is. -/
def readValidity (validity : Option ℕ) (row : ℕ) : Option Bool :=
  match validity with
  | none => some true
  | some off => readBit payload off row

/-- The bytes of row `row` of a text column. -/
def readTextBytes (layout : ResidentDeviceTextColumnLayout) (row : ℕ) : Option Bytes := do
  let first ← window payload (layout.offsetsByteOffset + row * 8) 8
  let last ← window payload (layout.offsetsByteOffset + (row + 1) * 8) 8
  window payload (layout.bytesByteOffset + (u64OfLe first).toNat)
    ((u64OfLe last).toNat - (u64OfLe first).toNat)

/-- `i16::try_from`. -/
def int2OfInt4 (v : Int32) : Option Int16 := if v.toInt16.toInt32 = v then some v.toInt16 else none

def sqlValueFromI32Section (v : Int32) : Option SqlValue :=
  match ty with
  | .int4 => some (.int4 v)
  | .date => some (.date v)
  | .int2 => (int2OfInt4 v).map .int2
  | _ => none

def sqlValueFromI64Section (v : Int64) : Option SqlValue :=
  match ty with
  | .int8 => some (.int8 v)
  | .timestamp => some (.timestamp v)
  | _ => none

/-- A value of the 16-byte section; the scale of a `numeric` is the column's. -/
def sqlValueFromB128Section (bytes : Bytes) : Option SqlValue :=
  match ty with
  | .numeric _ scale => some (.numeric ⟨i128OfLe bytes, scale⟩)
  | .uuid => if h : bytes.length = 16 then some (.uuid ⟨bytes, h⟩) else none
  | _ => none

/-- The value of a cell whose row is valid. -/
def readValue (row col : ℕ) (ty : SqlType) : Except ExecuteError (Option SqlValue) :=
  match payloadSection ty with
  | .int4 => do
    let off ← residentDeviceInt4ColumnOffset snapshot columns col
    .ok ((readI32 payload (off + row * 4)).bind (sqlValueFromI32Section ty))
  | .int8 => do
    let off ← residentDeviceInt8ColumnOffset snapshot columns col
    .ok ((readI64 payload (off + row * 8)).bind (sqlValueFromI64Section ty))
  | .b128 => do
    let off ← residentDeviceNumericColumnOffset snapshot columns col
    .ok ((window payload (off + row * 16) 16).bind (sqlValueFromB128Section ty))
  | .bool => do
    let off ← residentDeviceBoolColumnOffset snapshot columns col
    .ok ((readBit payload off row).map .bool)
  | .text => do
    let layout ← residentDeviceTextColumnLayout snapshot columns col
    .ok (((readTextBytes payload layout row).bind utf8Text).map .text)

/-- One value: `NULL` when the column has a validity bitmap and the row's bit is clear. `none` is a read
outside the payload, or bytes that are no value of the type. -/
def readCell (row col : ℕ) : Except ExecuteError (Option SqlValue) := do
  let validity ← residentDeviceNullColumnOffset snapshot columns col
  match columns[col]? with
  | none => .error outsideTable
  | some column =>
    match readValidity payload validity row with
    | none => .ok none
    | some false => .ok (some .null)
    | some true => readValue payload snapshot columns row col column.ty

end Read

/-! ### The parts of a payload -/

/-- The row count, the values of a column (of a text column: its offsets), the bytes of a text column and the
validity bitmap of a column. -/
inductive PayloadPart where
  | rowCount
  | values (col : ℕ)
  | textBytes (col : ℕ)
  | validity (col : ℕ)

def PayloadPart.column? : PayloadPart → Option ℕ
  | .rowCount => none
  | .values col | .textBytes col | .validity col => some col

section Extents

variable (snapshot : RelationalResidencySnapshot) (columns : List RelationalColumn)

/-- Where the helpers find the values of a column, and how many bytes they take. -/
def valuesExtent (col : ℕ) (ty : SqlType) : Except ExecuteError (ℕ × ℕ) :=
  match payloadSection ty with
  | .int4 => do .ok (← residentDeviceInt4ColumnOffset snapshot columns col, snapshot.capacity * 4)
  | .int8 => do .ok (← residentDeviceInt8ColumnOffset snapshot columns col, snapshot.capacity * 8)
  | .b128 => do .ok (← residentDeviceNumericColumnOffset snapshot columns col, snapshot.capacity * 16)
  | .bool => do .ok (← residentDeviceBoolColumnOffset snapshot columns col, (snapshot.capacity + 31) / 32 * 4)
  | .text => do
    .ok ((← residentDeviceTextColumnLayout snapshot columns col).offsetsByteOffset,
      (snapshot.rowCount + 1) * 8)

/-- The extent of a part; `none` when the table has no such part. -/
def partExtent : PayloadPart → Except ExecuteError (Option (ℕ × ℕ))
  | .rowCount => .ok (some (0, 8))
  | .values col =>
    match columns[col]? with
    | none => .ok none
    | some column => some <$> valuesExtent snapshot columns col column.ty
  | .textBytes col =>
    match columns[col]? with
    | none => .ok none
    | some column =>
      if column.ty = .text then do
        let layout ← residentDeviceTextColumnLayout snapshot columns col
        .ok (some (layout.bytesByteOffset, layout.bytesLen))
      else .ok none
  | .validity col =>
    match columns[col]? with
    | none => .ok none
    | some _ => do
      let off ← residentDeviceNullColumnOffset snapshot columns col
      .ok (off.map fun off => (off, (snapshot.capacity + 31) / 32 * 4))

end Extents

end ThunderboltDb.Engine
