import ThunderboltDb.Engine.PayloadRoundTrip
import ThunderboltDb.Engine.PredicateCompiler

/-!
# Resident stores

A `ResidentStore` is a table on the device: typed rows, the payload built from them and what stands behind the
payload in the same memory, such as the version stamps of the rows. The lemmas say what the machine's loads find
at the offsets that the compiler asks for.
-/

namespace ThunderboltDb.Engine

open Lib Sql Option

structure ResidentStore where
  columns : List RelationalColumn
  rows : List (List SqlValue)
  capacity : ℕ
  built : RelationalDevicePayload
  /-- What stands behind the payload. -/
  tail : Bytes
  laidOut : buildRelationalDevicePayloadWithCapacity columns rows capacity = .ok built
  typed : ∀ values ∈ rows, List.Forall₂ (fun value column => value = .null ∨ value.HasType column.ty)
    values columns

namespace ResidentStore

variable (store : ResidentStore)

def memory : Bytes := store.built.devicePayload ++ store.tail

def snapshot : RelationalResidencySnapshot :=
  residentSnapshot store.columns store.rows store.capacity store.built

def rowCount : ℕ := store.rows.length

def row (r : ℕ) : List SqlValue := store.rows.getD r []

variable {store} {col off r : ℕ} {ty : SqlType}

theorem exists_column (hty : columnType store.columns col = some ty) :
    ∃ column, store.columns[col]? = some column ∧ column.ty = ty := map_eq_some_iff.mp hty

theorem getElem?_row (hr : r < store.rowCount) : store.rows[r]? = some (store.row r) := by
  rw [row, List.getD_eq_getElem?_getD, List.getElem?_eq_getElem hr, getD_some]

/-- Every row has a value of every column, a `NULL` or one of the column's type. -/
theorem exists_value (hty : columnType store.columns col = some ty) (hr : r < store.rowCount) :
    ∃ value, (store.row r)[col]? = some value ∧ (value = .null ∨ value.HasType ty) := by
  obtain ⟨column, hcol, rfl⟩ := exists_column hty
  have hall := store.typed (store.row r) (List.mem_of_getElem? (getElem?_row hr))
  obtain ⟨hlt, rfl⟩ := List.getElem?_eq_some_iff.mp hcol
  have hlt' : col < (store.row r).length := by rw [hall.length_eq]; exact hlt
  exact ⟨(store.row r)[col], List.getElem?_eq_getElem hlt', hall.get hlt' hlt⟩

/-- What the helper of a column reads back holds of the value that the row has there. -/
theorem exists_cell {ε β : Type} {offset : Except ε β} {found : β} {Cell : β → ℕ → SqlValue → Prop}
    (hty : columnType store.columns col = some ty) (hoff : offset = .ok found) (hr : r < store.rowCount)
    (hread : ∀ {column groups}, Laid store.columns store.rows store.capacity groups store.built →
      store.columns[col]? = some column → column.ty = ty → FoundAs store.rows col offset Cell) :
    ∃ value, (store.row r)[col]? = some value ∧ (value = .null ∨ value.HasType ty) ∧ Cell found r value := by
  obtain ⟨groups, hlaid⟩ := build_laid store.laidOut
  obtain ⟨column, hcol, hcolty⟩ := exists_column hty
  obtain ⟨value, hvalue, htyped⟩ := exists_value hty hr
  obtain ⟨off, hoff', hcell⟩ := hread hlaid hcol hcolty
  obtain rfl : off = found := Except.ok.inj (hoff'.symm.trans hoff)
  exact ⟨value, hvalue, htyped, hcell r _ value (getElem?_row hr) hvalue⟩

/-! ### Numbers -/

variable {value : SqlValue}

/-- The number that a section keeps for a value; a `NULL` is kept as 0. -/
theorem toInt_int4Cell {cell : Int32} (h : int4Cell value = some cell) :
    ∃ number, valueInt value = some number ∧ cell.toInt = number.getD 0 := by
  cases value with
  | null => exact ⟨none, rfl, by rw [← some.inj h]; rfl⟩
  | int4 value | date value => exact ⟨some value.toInt, rfl, by rw [← some.inj h]; rfl⟩
  | int2 value => exact ⟨some value.toInt, rfl, by rw [← some.inj h]; simp⟩
  | _ => cases h

theorem toInt_int8Cell {cell : Int64} (h : int8Cell value = some cell) :
    ∃ number, valueInt value = some number ∧ cell.toInt = number.getD 0 := by
  cases value with
  | null => exact ⟨none, rfl, by rw [← some.inj h]; rfl⟩
  | int8 value | timestamp value => exact ⟨some value.toInt, rfl, by rw [← some.inj h]; rfl⟩
  | _ => cases h

theorem int4_load (hty : columnType store.columns col = some ty) (hs : payloadSection ty = .int4)
    (hoff : residentDeviceInt4ColumnOffset store.snapshot store.columns col = .ok off)
    (hr : r < store.rowCount) : ∃ value number, (store.row r)[col]? = some value ∧
      valueInt value = some number ∧ loadCell store.memory .i32 off r = number.getD 0 := by
  obtain ⟨value, hvalue, -, cell, hcell, hcellread⟩ := exists_cell hty hoff hr
    fun hlaid hcol hcolty => hlaid.int4_read hcol (hcolty ▸ hs)
  obtain ⟨number, hnumber, hint⟩ := toInt_int4Cell hcell
  obtain ⟨bytes, hbytes, rfl⟩ := map_eq_some_iff.mp hcellread
  refine ⟨value, number, hvalue, hnumber, ?_⟩
  rw [loadCell, readI32, memory, window_append hbytes, map_some, map_some, getD_some, hint]

theorem int8_load (hty : columnType store.columns col = some ty) (hs : payloadSection ty = .int8)
    (hoff : residentDeviceInt8ColumnOffset store.snapshot store.columns col = .ok off)
    (hr : r < store.rowCount) : ∃ value number, (store.row r)[col]? = some value ∧
      valueInt value = some number ∧ loadCell store.memory .i64 off r = number.getD 0 := by
  obtain ⟨value, hvalue, -, cell, hcell, hcellread⟩ := exists_cell hty hoff hr
    fun hlaid hcol hcolty => hlaid.int8_read hcol (hcolty ▸ hs)
  obtain ⟨number, hnumber, hint⟩ := toInt_int8Cell hcell
  obtain ⟨bytes, hbytes, rfl⟩ := map_eq_some_iff.mp hcellread
  refine ⟨value, number, hvalue, hnumber, ?_⟩
  rw [loadCell, readI64, memory, window_append hbytes, map_some, map_some, getD_some, hint]

/-! ### Other values -/

theorem uuid_load (hty : columnType store.columns col = some .uuid)
    (hoff : residentDeviceNumericColumnOffset store.snapshot store.columns col = .ok off)
    (hr : r < store.rowCount) : ∃ value, (store.row r)[col]? = some value ∧
      (value = .null ∨ ∃ bytes, value = .uuid bytes ∧ loadB128 store.memory off r = bytes.toList) := by
  obtain ⟨value, hvalue, htyped, cell, hcell, hcellread⟩ := exists_cell hty hoff hr
    fun hlaid hcol hcolty => hlaid.b128_read hcol (by rw [hcolty]; rfl)
  refine ⟨value, hvalue, htyped.imp_right ?_⟩
  intro htyped
  cases htyped with
  | uuid bytes =>
    obtain rfl : bytes.toList = cell := some.inj hcell
    exact ⟨bytes, rfl, by rw [loadB128, memory, window_append hcellread, getD_some]⟩

theorem text_load {layout : ResidentDeviceTextColumnLayout} (hsole : Unshared store.columns col)
    (hty : columnType store.columns col = some .text)
    (hlayout : residentDeviceTextColumnLayout store.snapshot store.columns col = .ok layout)
    (hr : r < store.rowCount) : ∃ value, (store.row r)[col]? = some value ∧
      (value = .null ∨ ∃ text, value = .text text ∧ loadText store.memory layout.offsetsByteOffset
        layout.bytesByteOffset layout.bytesLen r = utf8Bytes text) := by
  obtain ⟨value, hvalue, htyped, bytes, hcell, hcellread⟩ := exists_cell hty hlayout hr
    fun hlaid => hlaid.text_read hsole
  refine ⟨value, hvalue, htyped.imp_right ?_⟩
  intro htyped
  cases htyped with
  | text text =>
    obtain rfl : utf8Bytes text = bytes := some.inj hcell
    refine ⟨text, rfl, ?_⟩
    unfold readTextBytes at hcellread
    simp only [bind_eq_bind, bind_eq_some_iff] at hcellread
    obtain ⟨first, hfirst, last, hlast, hbytes⟩ := hcellread
    simp only [loadText, readTextBytes, memory, window_append hfirst, window_append hlast, window_append hbytes,
      bind_eq_bind, bind_some, getD_some]

theorem readBit_append {payload more : Bytes} {bit : Bool} (h : readBit payload off r = some bit) :
    readBit (payload ++ more) off r = some bit := by
  obtain ⟨word, hword, rfl⟩ := map_eq_some_iff.mp h
  rw [readBit, window_append hword, map_some]

theorem bool_load (hsole : Unshared store.columns col) (hty : columnType store.columns col = some .bool)
    (hoff : residentDeviceBoolColumnOffset store.snapshot store.columns col = .ok off)
    (hr : r < store.rowCount) : ∃ value, (store.row r)[col]? = some value ∧
      (value = .null ∧ loadBit store.memory off r = false ∨ value = .bool (loadBit store.memory off r)) := by
  obtain ⟨value, hvalue, htyped, bit, hbit, hbitread⟩ := exists_cell hty hoff hr
    fun hlaid => hlaid.bool_read hsole
  have hload : loadBit store.memory off r = bit := by
    rw [loadBit, memory, readBit_append hbitread, getD_some]
  refine ⟨value, hvalue, ?_⟩
  rw [hload]
  rcases htyped with rfl | htyped
  · exact Or.inl ⟨rfl, (some.inj hbit).symm⟩
  · cases htyped with
    | bool b => exact Or.inr (congrArg SqlValue.bool (some.inj hbit))

/-- The validity of a row as the machine's masks have it. -/
def valid (store : ResidentStore) (validity : Option ℕ) (r : ℕ) : Bool :=
  match validity with
  | none => true
  | some off => loadBit store.memory off r

theorem validity_load {validity : Option ℕ} (hsole : Unshared store.columns col)
    (hoff : residentDeviceNullColumnOffset store.snapshot store.columns col = .ok validity)
    (hr : r < store.rowCount) : ∃ value, (store.row r)[col]? = some value ∧
      store.valid validity r = decide (value ≠ .null) := by
  cases hcol : store.columns[col]? with
  | none => simp [residentDeviceNullColumnOffset, hcol] at hoff
  | some column =>
    have hty : columnType store.columns col = some column.ty := by rw [columnType, hcol, map_some]
    obtain ⟨value, hvalue, -, hbit⟩ := exists_cell hty hoff hr
      fun hlaid hcol _ => hlaid.validity_read hsole hcol
    refine ⟨value, hvalue, ?_⟩
    cases validity with
    | none => exact some.inj hbit
    | some off =>
      rw [readValidity] at hbit
      rw [valid, loadBit, memory, readBit_append hbit, getD_some]

end ResidentStore

end ThunderboltDb.Engine
