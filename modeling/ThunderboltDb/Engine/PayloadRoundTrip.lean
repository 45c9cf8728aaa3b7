import ThunderboltDb.Engine.DevicePayload

/-!
# A device payload is read back

The payload is a buffer of seven groups of chunks: the row count, the three fixed-width sections, the `bool`
bitmaps, the validity bitmaps and the text columns. `Laid` says so of a built payload and gives the content
of every chunk; where a chunk starts is then a matter of the chunks before it, and the offset helpers compute
the same number from the capacity.

* `device_payload_round_trip` — the whole payload.
-/

namespace ThunderboltDb.Engine

open Lib Sql Option
open List hiding getElem?_eq_some_iff

variable {layouts : List ResidentDeviceBitmapLayout}

/-! ### Columns of a section -/

section Lists

variable {α : Type} {p : α → Bool} {l : List α} {k : ℕ} {x : α}

/-- An element that the filter keeps stands behind those that the filter keeps before it. -/
theorem getElem?_filter_of_take (h : l[k]? = some x) (hp : p x) :
    (l.filter p)[((l.take k).filter p).length]? = some x := by
  obtain ⟨hk, rfl⟩ := getElem?_eq_some_iff.mp h
  have hsplit : l = l.take k ++ l[k] :: l.drop (k + 1) := by
    rw [← drop_eq_getElem_cons hk, take_append_drop]
  have hfilter : l.filter p = (l.take k).filter p ++ (l[k] :: (l.drop (k + 1)).filter p) := by
    rw [← filter_cons_of_pos hp, ← filter_append, ← hsplit]
  rw [hfilter, getElem?_append_right le_rfl, Nat.sub_self, getElem?_cons_zero]

/-- The only element that a search accepts is found. -/
theorem find?_eq_of_unique (hmem : x ∈ l) (hp : p x) (hunique : ∀ y ∈ l, p y → y = x) : l.find? p = some x := by
  cases hfind : l.find? p with
  | none => exact absurd hp (by simpa using find?_eq_none.mp hfind x hmem)
  | some y => rw [hunique y (mem_of_find?_eq_some hfind) (find?_some hfind)]

end Lists

variable {columns : List RelationalColumn} {rows : List (List SqlValue)} {capacity : ℕ}
  {built : RelationalDevicePayload} {column : RelationalColumn} {col row i g : ℕ} {s : PayloadSection}

/-- A helper finds its column, and `Cell` holds there of every value of the column. -/
abbrev FoundAs {ε β : Type} (rows : List (List SqlValue)) (col : ℕ) (found : Except ε β)
    (Cell : β → ℕ → SqlValue → Prop) : Prop := ∃ off, found = .ok off ∧
  ∀ row values value, rows[row]? = some values → values[col]? = some value → Cell off row value

theorem sectionColumns_eq : sectionColumns columns s =
    (columns.zipIdx.filter fun entry => payloadSection entry.1.ty = s).map Prod.snd := rfl

theorem getElem?_sectionColumns (hcol : columns[col]? = some column) (hs : payloadSection column.ty = s) :
    (sectionColumns columns s)[sectionOrdinal columns s col]? = some col := by
  have hzip : columns.zipIdx[col]? = some (column, col) := by
    rw [getElem?_zipIdx, hcol, map_some, Nat.zero_add]
  have hlen : ((columns.zipIdx.take col).filter fun entry => payloadSection entry.1.ty = s).length
      = sectionOrdinal columns s col := by
    have hmap : ((columns.zipIdx.take col).filter fun entry => payloadSection entry.1.ty = s).map Prod.fst
        = (columns.take col).filter fun c => payloadSection c.ty = s := by
      rw [← zipIdx_map_fst 0 columns, map_take.symm, List.filter_map, zipIdx_map_fst]
      rfl
    rw [sectionOrdinal, ← hmap, length_map]
  have hfilter := @getElem?_filter_of_take _ (fun entry => payloadSection entry.1.ty = s) _ _ _ hzip
    (by simpa using hs)
  rw [sectionColumns_eq, getElem?_map, ← hlen, hfilter, map_some]

theorem mem_sectionColumns : col ∈ sectionColumns columns s ↔
    ∃ column, columns[col]? = some column ∧ payloadSection column.ty = s := by
  simp only [sectionColumns, List.mem_map, mem_filter, Prod.exists, mem_zipIdx_iff_getElem?]
  constructor
  · rintro ⟨column, j, ⟨hcol, hs⟩, rfl⟩
    exact ⟨column, hcol, by simpa using hs⟩
  · rintro ⟨column, hcol, hs⟩
    exact ⟨column, col, ⟨hcol, by simpa using hs⟩, rfl⟩

theorem getElem?_sectionNames (hcol : columns[col]? = some column) (hs : payloadSection column.ty = s) :
    (sectionNames columns s)[sectionOrdinal columns s col]? = some column.name := by
  have hfilter := @getElem?_filter_of_take _ (fun c => payloadSection c.ty = s) _ _ _ hcol (by simpa using hs)
  rw [sectionNames, getElem?_map, sectionOrdinal, hfilter, map_some]

theorem length_sectionNames : (sectionNames columns s).length = (sectionColumns columns s).length := by
  have hmap : (columns.zipIdx.filter fun entry => payloadSection entry.1.ty = s).map Prod.fst
      = columns.filter fun c => payloadSection c.ty = s := by
    rw [← zipIdx_map_fst 0 columns, List.filter_map, zipIdx_map_fst]
    rfl
  rw [sectionNames, length_map, sectionColumns_eq, length_map, ← hmap, length_map]

/-! ### The layout of a built payload -/

section Laid

variable (columns : List RelationalColumn) (rows : List (List SqlValue)) (capacity : ℕ)
  (groups : List (List Bytes))

/-- The group `g` holds the columns of a fixed-width section. -/
structure FixedLaid (g : ℕ) (s : PayloadSection) (encode : SqlValue → Option Bytes) (width : ℕ) :
    Prop where
  count : (groups.getD g []).length = (sectionColumns columns s).length
  chunk : ∀ i col, (sectionColumns columns s)[i]? = some col → ∃ mismatch cells,
    rows.mapM (encodeCell encode mismatch col) = .ok cells ∧
      groupChunk groups g i = some (cells.flatten ++ List.replicate ((capacity - rows.length) * width) 0)

/-- The group `g` holds the bitmaps of the columns `cols`, recorded in `layouts`. -/
structure BitmapLaid (g : ℕ) (cols : List ℕ) (encode : SqlValue → Option Bool)
    (layouts : List ResidentDeviceBitmapLayout) : Prop where
  count : layouts.length = cols.length
  chunk : ∀ i col, cols[i]? = some col → ∃ mismatch bits,
    rows.mapM (encodeCell encode mismatch col) = .ok bits ∧
      groupChunk groups g i = some ((packBits ((capacity + 31) / 32) bits).flatMap u32ToLe) ∧
      layouts[i]? = some ⟨columnName columns col, groupStart groups g i⟩

/-- The group `g` holds the text columns, recorded in `layouts`. -/
structure TextLaid (g : ℕ) (layouts : List ResidentDeviceTextColumnLayout) : Prop where
  count : layouts.length = (sectionColumns columns .text).length
  chunk : ∀ i col, (sectionColumns columns .text)[i]? = some col → ∃ mismatch cells padding,
    rows.mapM (encodeCell textCell mismatch col) = .ok cells ∧
      groupChunk groups g i = some (List.replicate padding 0 ++ (textOffsetBytes cells ++ cells.flatten)) ∧
      layouts[i]? = some
        { name := columnName columns col
          offsetsByteOffset := groupStart groups g i + padding
          bytesByteOffset := groupStart groups g i + padding + (textOffsetBytes cells).length
          bytesLen := cells.flatten.length }

/-- The payload is made of these groups. -/
structure Laid (built : RelationalDevicePayload) : Prop where
  payload : built.devicePayload = joinGroups groups
  small : built.devicePayload.length < 2 ^ 63
  room : rows.length ≤ capacity
  bound : capacity ≤ 2 ^ 31
  header : groups.getD 0 [] = [u64ToLe (UInt64.ofNat rows.length)]
  int4 : FixedLaid columns rows capacity groups 1 .int4 (fun value => (int4Cell value).map i32ToLe) 4
  int8 : FixedLaid columns rows capacity groups 2 .int8 (fun value => (int8Cell value).map i64ToLe) 8
  b128 : FixedLaid columns rows capacity groups 3 .b128 b128Cell 16
  bool : BitmapLaid columns rows capacity groups 4 (sectionColumns columns .bool) boolCell
    built.residentDeviceBoolColumns
  null : BitmapLaid columns rows capacity groups 5 (nullColumns columns rows)
    (fun value => some (decide (value ≠ .null))) built.residentDeviceNullColumns
  text : TextLaid columns rows groups 6 built.residentDeviceTextColumns

end Laid

variable {groups : List (List Bytes)}

/-- The snapshot that goes with the payload. -/
abbrev Laid.snapshot (_ : Laid columns rows capacity groups built) : RelationalResidencySnapshot :=
  residentSnapshot columns rows capacity built

/-- What one loop appends behind `payload` makes a group. -/
structure LoopLaid {ρ : Type} (groups : List (List Bytes)) (g : ℕ)
    (lay : Bytes → ℕ → Except PayloadFailure (Bytes × ρ)) (cols : List ℕ) (records : List ρ) :
    Prop where
  count : (groups.getD g []).length = cols.length
  recorded : records.length = cols.length
  made : ∀ i col, cols[i]? = some col → ∃ payload chunk record, payload.length = groupStart groups g i ∧
    groupChunk groups g i = some chunk ∧ records[i]? = some record ∧ lay payload col = .ok (chunk, record)

variable {cols : List ℕ} {payload : Bytes} {encode : SqlValue → Option Bytes} {mismatch : String}
  {value : SqlValue} {cell : Bytes} {values : List SqlValue}

theorem LoopLaid.of_chunks {ρ : Type} {lay : Bytes → ℕ → Except PayloadFailure (Bytes × ρ)}
    {records : List ρ} {chunks : List Bytes}
    (hgroup : groups.getD g [] = chunks) (hstart : payload.length = chunkStart (groups.map List.flatten) g)
    (hcount : chunks.length = cols.length) (hrecords : records.length = cols.length)
    (hmade : ∀ i col, cols[i]? = some col → ∃ chunk record, chunks[i]? = some chunk ∧
      records[i]? = some record ∧ lay (payload ++ (chunks.take i).flatten) col = .ok (chunk, record)) :
    LoopLaid groups g lay cols records := by
  refine ⟨by rw [hgroup, hcount], hrecords, ?_⟩
  intro i col hcol
  obtain ⟨chunk, record, hchunk, hrecord, hlay⟩ := hmade i col hcol
  refine ⟨payload ++ (chunks.take i).flatten, chunk, record, ?_, ?_, hrecord, hlay⟩
  · rw [length_append, hstart, groupStart, hgroup]
    rfl
  · rw [groupChunk, hgroup, hchunk]

theorem LoopLaid.fixed {width : ℕ} {records : List (String × ℕ)}
    (h : LoopLaid groups g (layFixed columns rows capacity encode width mismatch) (sectionColumns columns s)
      records) : FixedLaid columns rows capacity groups g s encode width := by
  refine ⟨h.count, ?_⟩
  intro i col hcol
  obtain ⟨payload, chunk, record, -, hchunk, -, hlay⟩ := h.made i col hcol
  simp only [layFixed, bind_ok, Except.ok.injEq, Prod.mk.injEq] at hlay
  obtain ⟨cells, hcells, rfl, -⟩ := hlay
  exact ⟨mismatch, cells, hcells, hchunk⟩

theorem LoopLaid.bitmap {encode : SqlValue → Option Bool} {records : List ResidentDeviceBitmapLayout}
    (h : LoopLaid groups g (layBitmap columns rows capacity encode mismatch) cols records) :
    BitmapLaid columns rows capacity groups g cols encode records := by
  refine ⟨h.recorded, ?_⟩
  intro i col hcol
  obtain ⟨payload, chunk, record, hlen, hchunk, hrecord, hlay⟩ := h.made i col hcol
  simp only [layBitmap, bind_ok, Except.ok.injEq, Prod.mk.injEq] at hlay
  obtain ⟨bits, hbits, rfl, rfl⟩ := hlay
  exact ⟨mismatch, bits, hbits, hchunk, by rw [hrecord, hlen]⟩

theorem LoopLaid.text {records : List ResidentDeviceTextColumnLayout}
    (h : LoopLaid groups g (layText columns rows) (sectionColumns columns .text) records) :
    TextLaid columns rows groups g records := by
  refine ⟨h.recorded, ?_⟩
  intro i col hcol
  obtain ⟨payload, chunk, record, hlen, hchunk, hrecord, hlay⟩ := h.made i col hcol
  simp only [layText, bind_ok, Except.ok.injEq, Prod.mk.injEq] at hlay
  obtain ⟨cells, hcells, rfl, rfl⟩ := hlay
  exact ⟨_, cells, _, hcells, hchunk, by rw [hrecord, hlen]⟩

/-- **The layout of what the builder returns.** -/
theorem build_laid (h : buildRelationalDevicePayloadWithCapacity columns rows capacity = .ok built) :
    ∃ groups, Laid columns rows capacity groups built := by
  simp only [buildRelationalDevicePayloadWithCapacity, checkCapacity, except_seq_ok, refuse_eq_ok] at h
  obtain ⟨⟨hroom, hbound, -⟩, h⟩ := h
  simp only [bind_ok, Prod.exists] at h
  obtain ⟨p4, r4, h4, p8, r8, h8, p16, r16, h16, pb, rb, hb, pn, rn, hn, pt, rt, ht, _, hsmall, h⟩ := h
  obtain ⟨c4, rfl, hc4, hr4, hm4⟩ := layColumns_ok h4
  obtain ⟨c8, rfl, hc8, hr8, hm8⟩ := layColumns_ok h8
  obtain ⟨c16, rfl, hc16, hr16, hm16⟩ := layColumns_ok h16
  obtain ⟨cb, rfl, hcb, hrb, hmb⟩ := layColumns_ok hb
  obtain ⟨cn, rfl, hcn, hrn, hmn⟩ := layColumns_ok hn
  obtain ⟨ct, rfl, hct, hrt, hmt⟩ := layColumns_ok ht
  rw [refuse_eq_ok] at hsmall
  cases h
  refine ⟨[[u64ToLe (UInt64.ofNat rows.length)], c4, c8, c16, cb, cn, ct], ?_⟩
  constructor
  case payload => simp [joinGroups]
  case small =>
    rw [length_append, length_u64ToLe, length_drop]
    simp only [length_append, length_replicate] at hsmall ⊢
    omega
  case room => omega
  case bound => omega
  case header => rfl
  case int4 => exact LoopLaid.fixed (LoopLaid.of_chunks rfl (by simp [chunkStart]) hc4 hr4 hm4)
  case int8 => exact LoopLaid.fixed (LoopLaid.of_chunks rfl (by simp [chunkStart]; omega) hc8 hr8 hm8)
  case b128 => exact LoopLaid.fixed (LoopLaid.of_chunks rfl (by simp [chunkStart]; omega) hc16 hr16 hm16)
  case bool => exact LoopLaid.bitmap (LoopLaid.of_chunks rfl (by simp [chunkStart]; omega) hcb hrb hmb)
  case null => exact LoopLaid.bitmap (LoopLaid.of_chunks rfl (by simp [chunkStart]; omega) hcn hrn hmn)
  case text => exact LoopLaid.text (LoopLaid.of_chunks rfl (by simp [chunkStart]; omega) hct hrt hmt)

/-! ### Cells -/

@[simp] theorem i32OfLe_i32ToLe (x : Int32) : i32OfLe (i32ToLe x) = x := by
  rw [i32OfLe, i32ToLe, u32OfLe_u32ToLe, Int32.toInt32_toUInt32]

@[simp] theorem i64OfLe_i64ToLe (x : Int64) : i64OfLe (i64ToLe x) = x := by
  rw [i64OfLe, i64ToLe, u64OfLe_u64ToLe, Int64.toInt64_toUInt64]

theorem bmod_emod_of_bounds {m : ℕ} {n : ℤ} (hlo : -(m / 2 : ℤ) ≤ n) (hhi : n < (m + 1) / 2) :
    (n % m).bmod m = n := by
  rw [Int.emod_bmod]
  exact Int.bmod_eq_of_le hlo hhi

theorem length_i128ToLe (x : I128) : (i128ToLe x).length = 16 := by rw [i128ToLe, length_leBytes]

theorem val_i128OfLe (bytes : Bytes) : (i128OfLe bytes).val = Int.bmod (leValue bytes) (2 ^ 128) := by
  unfold i128OfLe
  dsimp only

@[simp] theorem i128OfLe_i128ToLe (x : I128) : i128OfLe (i128ToLe x) = x := by
  have hcast : (2 : ℤ) ^ 128 = ((2 ^ 128 : ℕ) : ℤ) := by norm_num
  have hnonneg : 0 ≤ x.val % 2 ^ 128 := Int.emod_nonneg _ (by norm_num)
  have hvalue : ((leValue (i128ToLe x) : ℕ) : ℤ) = x.val % 2 ^ 128 := by
    rw [i128ToLe, leValue_leBytes 16 _ (by omega), Int.toNat_of_nonneg hnonneg]
  have hlo := le_trans (b := -(2 : ℤ) ^ 127) (a := -(((2 ^ 128 : ℕ) : ℤ) / 2)) (by norm_num) x.property.1
  have hhi := lt_of_lt_of_le x.property.2 (c := (((2 ^ 128 : ℕ) : ℤ) + 1) / 2) (by norm_num)
  have hback := bmod_emod_of_bounds hlo hhi
  rw [← hcast, ← hvalue, ← val_i128OfLe] at hback
  exact Subtype.ext hback

theorem length_int4Image (h : (int4Cell value).map i32ToLe = some cell) : cell.length = 4 := by
  obtain ⟨x, -, rfl⟩ := map_eq_some_iff.mp h
  exact length_u32ToLe _

theorem length_int8Image (h : (int8Cell value).map i64ToLe = some cell) : cell.length = 8 := by
  obtain ⟨x, -, rfl⟩ := map_eq_some_iff.mp h
  exact length_u64ToLe _

theorem length_b128Cell (h : b128Cell value = some cell) : cell.length = 16 := by
  cases value with
  | numeric value =>
    have hcell : i128ToLe value.mantissa = cell := some.inj h
    rw [← hcell]
    exact length_i128ToLe _
  | uuid bytes =>
    have hcell : bytes.toList = cell := some.inj h
    rw [← hcell]
    exact bytes.toList_length
  | null =>
    have hcell : List.replicate 16 0 = cell := some.inj h
    rw [← hcell]
    exact length_replicate
  | _ => cases h

/-- What a column keeps of its rows is what `encode` makes of their values. -/
theorem encodeCell_ok {α : Type} {encode : SqlValue → Option α}
    {cell : α} : encodeCell encode mismatch col values = .ok cell ↔
      ∃ value, values[col]? = some value ∧ encode value = some cell := by
  unfold encodeCell
  cases hvalue : values[col]? with
  | none => simp
  | some value => cases hcell : encode value <;> simp [hcell]

section Cells

variable {α : Type} {encode : SqlValue → Option α} {mismatch : String} {cells : List α}
  {values : List SqlValue} {value : SqlValue}

section

variable (h : rows.mapM (encodeCell encode mismatch col) = .ok cells)
include h

theorem getElem?_of_mapM_encodeCell (hrow : rows[row]? = some values) (hvalue : values[col]? = some value) :
    ∃ cell, encode value = some cell ∧ cells[row]? = some cell := by
  obtain ⟨cell, hget, hcell⟩ := (mapM_ok_get h row).1 values hrow
  obtain ⟨value', hvalue', hcell⟩ := encodeCell_ok.mp hcell
  obtain rfl : value' = value := by rw [hvalue'] at hvalue; exact some.inj hvalue
  exact ⟨cell, hcell, hget⟩

theorem length_of_mapM_encodeCell : cells.length = rows.length := (mapM_ok_iff_forall₂.mp h).length_eq.symm

theorem encoded_of_mem {cell : α} (hcell : cell ∈ cells) : ∃ value, encode value = some cell := by
  obtain ⟨i, hi⟩ := getElem?_of_mem hcell
  obtain ⟨values, -, hcell⟩ := (mapM_ok_get h i).2 cell hi
  obtain ⟨value, -, hvalue⟩ := encodeCell_ok.mp hcell
  exact ⟨value, hvalue⟩

end

end Cells

variable {cells : List Bytes}

/-- Cells of one width, one a row. -/
theorem flatten_of_mapM_encodeCell {width : ℕ} (h : rows.mapM (encodeCell encode mismatch col) = .ok cells)
    (hwidth : ∀ value cell, encode value = some cell → cell.length = width) :
    (∀ cell ∈ cells, cell.length = width) ∧ cells.flatten.length = rows.length * width := by
  have huniform : ∀ cell ∈ cells, cell.length = width := by
    intro cell hcell
    obtain ⟨value, hvalue⟩ := encoded_of_mem h hcell
    exact hwidth value cell hvalue
  have hflat := chunkStart_uniform huniform le_rfl
  rw [chunkStart, take_length, length_of_mapM_encodeCell h] at hflat
  exact ⟨huniform, hflat⟩

/-! ### The fixed-width sections -/

section Fixed

variable {encode : SqlValue → Option Bytes} {width : ℕ} {values : List SqlValue} {value : SqlValue}
  (h : FixedLaid columns rows capacity groups g s encode width)
include h

theorem FixedLaid.groupStart_le (hcol : (sectionColumns columns s)[i]? = some col) :
    groupStart groups g i ≤ (joinGroups groups).length := by
  obtain ⟨mismatch, cells, hcells, hchunk⟩ := h.chunk i col hcol
  exact le_trans (Nat.le_add_right _ _) (stands_joinGroups hchunk).le

variable (hwidth : ∀ value cell, encode value = some cell → cell.length = width)
include hwidth

theorem FixedLaid.cell_stands (hcol : (sectionColumns columns s)[i]? = some col)
    (hrow : rows[row]? = some values) (hvalue : values[col]? = some value) : ∃ cell,
      encode value = some cell ∧ Stands (joinGroups groups) (groupStart groups g i + row * width) cell := by
  obtain ⟨mismatch, cells, hcells, hchunk⟩ := h.chunk i col hcol
  obtain ⟨cell, hencode, hget⟩ := getElem?_of_mapM_encodeCell hcells hrow hvalue
  have hcell : Stands cells.flatten (row * width) cell := by
    have hstands := stands_flatten hget
    rwa [chunkStart_uniform (flatten_of_mapM_encodeCell hcells hwidth).1 (getElem?_eq_some_iff.mp hget).1.le] at hstands
  exact ⟨cell, hencode, (stands_joinGroups hchunk).left.trans hcell⟩

variable (hroom : rows.length ≤ capacity)
include hroom

theorem FixedLaid.length_chunk : ∀ chunk ∈ groups.getD g [], chunk.length = capacity * width := by
  intro chunk hchunk
  obtain ⟨i, hi, rfl⟩ := getElem_of_mem hchunk
  have hcount : i < (sectionColumns columns s).length := by rw [← h.count]; exact hi
  obtain ⟨mismatch, cells, hcells, hget⟩ := h.chunk i _ (getElem?_eq_getElem hcount)
  rw [groupChunk, getElem?_eq_getElem hi] at hget
  rw [some.inj hget, length_append, length_replicate, (flatten_of_mapM_encodeCell hcells hwidth).2, ← Nat.add_mul,
    Nat.add_sub_cancel' hroom]

theorem FixedLaid.groupStart_eq (hi : i ≤ (sectionColumns columns s).length) :
    groupStart groups g i = chunkStart (groups.map List.flatten) g + i * (capacity * width) := by
  rw [groupStart, chunkStart_uniform (h.length_chunk hwidth hroom) (by rw [h.count]; exact hi)]

/-- The next section starts behind all columns of this one. -/
theorem FixedLaid.next_start : chunkStart (groups.map List.flatten) (g + 1)
    = chunkStart (groups.map List.flatten) g + (sectionNames columns s).length * (capacity * width) := by
  have huniform := chunkStart_uniform (h.length_chunk hwidth hroom) le_rfl
  rw [chunkStart, take_length, h.count] at huniform
  rw [chunkStart_groups_succ, huniform, length_sectionNames]

end Fixed

variable {overflow : ExecuteError}

theorem checkedSection_ok {start count width : ℕ}
    (hwidth : capacity * width < 2 ^ 64) (hend : start + count * (capacity * width) < 2 ^ 64) :
    checkedSection overflow capacity start count width = .ok (start + count * (capacity * width)) := by
  have hcount : count * (capacity * width) < 2 ^ 64 := by omega
  simp only [checkedSection, checkedU64, if_pos hwidth, except_ok_bind, if_pos hcount, if_pos hend]

def sectionBytes (capacity : ℕ) (sections : List (ℕ × ℕ)) : ℕ :=
  (sections.map fun (count, width) => count * (capacity * width)).sum

theorem checkedSections_ok {sections : List (ℕ × ℕ)} {start : ℕ}
    (hwidth : ∀ count width, (count, width) ∈ sections → capacity * width < 2 ^ 64)
    (hend : start + sectionBytes capacity sections < 2 ^ 64) :
    sections.foldlM (fun start (count, width) => checkedSection overflow capacity start count width) start
      = .ok (start + sectionBytes capacity sections) := by
  induction sections generalizing start with
  | nil => rfl
  | cons first sections ih =>
    obtain ⟨count, width⟩ := first
    have hsum : sectionBytes capacity ((count, width) :: sections)
        = count * (capacity * width) + sectionBytes capacity sections := by
      rw [sectionBytes, map_cons, sum_cons]
      rfl
    rw [hsum] at hend
    have hrest := @ih (start + count * (capacity * width))
      (fun count width hmem => hwidth count width (mem_cons_of_mem _ hmem)) (by omega)
    have hfirst := @checkedSection_ok _ overflow start count width (hwidth count width mem_cons_self) (by omega)
    rw [foldlM_cons]
    show (checkedSection overflow capacity start count width >>= _) = _
    rw [hfirst, except_ok_bind, hrest, hsum, Nat.add_assoc]

/-- A fixed-width column is found behind the sections and the columns before it. -/
theorem fixedColumnOffset_ok {kinds kind : String} {names : List String} {before : List (ℕ × ℕ)} {width : ℕ}
    {snapshot : RelationalResidencySnapshot} (hcol : columns[col]? = some column)
    (hs : payloadSection column.ty = s) (hname : names[sectionOrdinal columns s col]? = some column.name)
    (hcapacity : snapshot.capacity ≤ 2 ^ 31) (hbefore : ∀ count width, (count, width) ∈ before → width ≤ 16)
    (hwidth : width ≤ 16)
    (hend : 8 + sectionBytes snapshot.capacity before
      + sectionOrdinal columns s col * (snapshot.capacity * width) < 2 ^ 64) :
    residentDeviceFixedColumnOffset s kinds kind names before width snapshot columns col
      = .ok (8 + sectionBytes snapshot.capacity before
        + sectionOrdinal columns s col * (snapshot.capacity * width)) := by
  have hsmall : ∀ width, width ≤ 16 → snapshot.capacity * width < 2 ^ 64 := by
    intro width hw
    have := Nat.mul_le_mul hcapacity hw
    omega
  have hstart := fun overflow => @checkedSections_ok _ overflow before 8
    (fun count width hmem => hsmall width (hbefore count width hmem)) (by omega)
  simp only [residentDeviceFixedColumnOffset, hcol]
  simp only [bind_ok, refuse_eq_ok, not_not]
  exact ⟨(), hs, (), hname, _, hstart _, checkedSection_ok (hsmall width hwidth) hend⟩

/-- The columns whose values are read: no other column has their name. -/
def Unshared (columns : List RelationalColumn) (col : ℕ) : Prop :=
  ∀ other column column', columns[col]? = some column → columns[other]? = some column' →
    column'.name = column.name → other = col

namespace Laid

section

variable (h : Laid columns rows capacity groups built)
include h

theorem int4_start : chunkStart (groups.map List.flatten) 1 = 8 + sectionBytes capacity [] := by
  rw [chunkStart_groups_succ, h.header]
  simp [chunkStart, sectionBytes]

theorem int8_start : chunkStart (groups.map List.flatten) 2
    = 8 + sectionBytes capacity [((sectionNames columns .int4).length, 4)] := by
  rw [h.int4.next_start (fun _ _ => length_int4Image) h.room, h.int4_start]
  simp [sectionBytes]

theorem b128_start : chunkStart (groups.map List.flatten) 3 = 8 + sectionBytes capacity
    [((sectionNames columns .int4).length, 4), ((sectionNames columns .int8).length, 8)] := by
  rw [h.int8.next_start (fun _ _ => length_int8Image) h.room, h.int8_start]
  simp [sectionBytes, Nat.add_assoc]

variable (hcol : columns[col]? = some column)
include hcol

section

variable {encode : SqlValue → Option Bytes} {width : ℕ} {before : List (ℕ × ℕ)} {kinds kind : String}
  (hs : payloadSection column.ty = s) (hlaid : FixedLaid columns rows capacity groups g s encode width)
  (hwidth : ∀ value cell, encode value = some cell → cell.length = width)
include hs hlaid hwidth

/-- A column of a fixed-width section is found behind the sections and the columns before it. -/
theorem fixed_offset (hle : width ≤ 16) (hbefore : ∀ count width, (count, width) ∈ before → width ≤ 16)
    (hstart : chunkStart (groups.map List.flatten) g = 8 + sectionBytes capacity before) :
    residentDeviceFixedColumnOffset s kinds kind (sectionNames columns s) before width h.snapshot columns col
      = .ok (groupStart groups g (sectionOrdinal columns s col)) := by
  have hordinal := getElem?_sectionColumns hcol hs
  have hin := hlaid.groupStart_le hordinal
  have hsmall := h.small
  rw [h.payload] at hsmall
  rw [hlaid.groupStart_eq hwidth h.room (getElem?_eq_some_iff.mp hordinal).1.le, hstart] at hin ⊢
  exact fixedColumnOffset_ok hcol hs (getElem?_sectionNames hcol hs) h.bound hbefore hle
    (lt_of_le_of_lt hin (by omega))

theorem fixed_read : ∀ row values value, rows[row]? = some values → values[col]? = some value →
    ∃ cell, encode value = some cell ∧ window built.devicePayload
      (groupStart groups g (sectionOrdinal columns s col) + row * width) width = some cell := by
  intro row values value hrow hvalue
  obtain ⟨cell, hcell, hstands⟩ := hlaid.cell_stands hwidth (getElem?_sectionColumns hcol hs) hrow hvalue
  have hwindow := hstands.window_eq
  rw [hwidth value cell hcell, ← h.payload] at hwindow
  exact ⟨cell, hcell, hwindow⟩

end

theorem int4_offset (hs : payloadSection column.ty = .int4) : residentDeviceInt4ColumnOffset h.snapshot columns col
      = .ok (groupStart groups 1 (sectionOrdinal columns .int4 col)) :=
  h.fixed_offset hcol hs h.int4 (fun _ _ => length_int4Image) (by decide) (by simp) h.int4_start

theorem int8_offset (hs : payloadSection column.ty = .int8) : residentDeviceInt8ColumnOffset h.snapshot columns col
      = .ok (groupStart groups 2 (sectionOrdinal columns .int8 col)) :=
  h.fixed_offset hcol hs h.int8 (fun _ _ => length_int8Image) (by decide) (by simp) h.int8_start

theorem b128_offset (hs : payloadSection column.ty = .b128) :
    residentDeviceNumericColumnOffset h.snapshot columns col
      = .ok (groupStart groups 3 (sectionOrdinal columns .b128 col)) :=
  h.fixed_offset hcol hs h.b128 (fun _ _ => length_b128Cell) (by decide)
    (by intro count width hmem; simp at hmem; omega) h.b128_start

/-- Every value of a column of the 4-byte section is read back. -/
theorem int4_read (hs : payloadSection column.ty = .int4) : FoundAs rows col
    (residentDeviceInt4ColumnOffset h.snapshot columns col) fun off row value =>
      ∃ cell, int4Cell value = some cell ∧ readI32 built.devicePayload (off + row * 4) = some cell := by
  refine ⟨_, h.int4_offset hcol hs, ?_⟩
  intro row values value hrow hvalue
  obtain ⟨bytes, hbytes, hwindow⟩ := h.fixed_read hcol hs h.int4 (fun _ _ => length_int4Image) row values
    value hrow hvalue
  obtain ⟨cell, hcell, rfl⟩ := map_eq_some_iff.mp hbytes
  exact ⟨cell, hcell, by rw [readI32, hwindow, map_some, i32OfLe_i32ToLe]⟩

theorem int8_read (hs : payloadSection column.ty = .int8) : FoundAs rows col
    (residentDeviceInt8ColumnOffset h.snapshot columns col) fun off row value =>
      ∃ cell, int8Cell value = some cell ∧ readI64 built.devicePayload (off + row * 8) = some cell := by
  refine ⟨_, h.int8_offset hcol hs, ?_⟩
  intro row values value hrow hvalue
  obtain ⟨bytes, hbytes, hwindow⟩ := h.fixed_read hcol hs h.int8 (fun _ _ => length_int8Image) row values
    value hrow hvalue
  obtain ⟨cell, hcell, rfl⟩ := map_eq_some_iff.mp hbytes
  exact ⟨cell, hcell, by rw [readI64, hwindow, map_some, i64OfLe_i64ToLe]⟩

theorem b128_read (hs : payloadSection column.ty = .b128) : FoundAs rows col
    (residentDeviceNumericColumnOffset h.snapshot columns col) fun off row value =>
      ∃ cell, b128Cell value = some cell ∧ window built.devicePayload (off + row * 16) 16 = some cell :=
  ⟨_, h.b128_offset hcol hs, h.fixed_read hcol hs h.b128 fun _ _ => length_b128Cell⟩

end

end Laid

/-! ### Bitmaps -/

theorem nodup_sectionColumns : (sectionColumns columns s).Nodup := by
  have hsub : (sectionColumns columns s).Sublist (columns.zipIdx.map Prod.snd) := filter_sublist.map Prod.snd
  refine hsub.nodup ?_
  rw [zipIdx_map_snd]
  exact nodup_range'

theorem nodup_nullColumns : (nullColumns columns rows).Nodup := nodup_range.filter _

theorem columnName_eq (hcol : columns[col]? = some column) : columnName columns col = column.name := by
  rw [columnName, hcol, map_some, getD_some]

theorem BitmapLaid.bit_read {encode : SqlValue → Option Bool}
    (h : BitmapLaid columns rows capacity groups g cols encode layouts) (hroom : rows.length ≤ capacity)
    (hcol : cols[i]? = some col) (hrow : rows[row]? = some values) (hvalue : values[col]? = some value) :
    ∃ bit, encode value = some bit ∧ readBit (joinGroups groups) (groupStart groups g i) row = some bit := by
  obtain ⟨mismatch, bits, hbits, hchunk, -⟩ := h.chunk i col hcol
  obtain ⟨bit, hencode, hget⟩ := getElem?_of_mapM_encodeCell hbits hrow hvalue
  have hlen := length_of_mapM_encodeCell hbits
  have hlt : row < rows.length := (getElem?_eq_some_iff.mp hrow).1
  have hword : row / 32 < (packBits ((capacity + 31) / 32) bits).length := by
    rw [length_packBits]
    omega
  have hbit := @bitAt_packBits bits ((capacity + 31) / 32) (by omega) row
  rw [getD_eq_getElem?_getD, hget, getD_some, bitAt, getD_eq_getElem?_getD,
    getElem?_eq_getElem hword, getD_some] at hbit
  have hstands := (stands_joinGroups hchunk).trans
    (@stands_flatMap _ _ (row / 32) _ _ u32ToLe 4 (fun word _ => length_u32ToLe word) (getElem?_eq_getElem hword))
  have hwindow := hstands.window_eq
  rw [length_u32ToLe, Nat.mul_comm] at hwindow
  refine ⟨bit, hencode, ?_⟩
  rw [readBit, hwindow, map_some, u32OfLe_u32ToLe, hbit]

section Records

variable {ρ : Type} {name : ρ → String} {records : List ρ} {record : ρ} {cols : List ℕ}

section

variable (hcount : records.length = cols.length)
  (hnames : ∀ (j : ℕ) other record, cols[j]? = some other → records[j]? = some record →
    name record = columnName columns other)
  (hin : ∀ other ∈ cols, ∃ column', columns[other]? = some column')
include hcount hnames hin

/-- A record with the name of an unshared column is that column's. -/
theorem record_of_name (hsole : Unshared columns col)
    (hcolumn : columns[col]? = some column) (hmem : record ∈ records) (hname : name record = column.name) :
    ∃ j : ℕ, cols[j]? = some col ∧ records[j]? = some record := by
  obtain ⟨j, hj, rfl⟩ := getElem_of_mem hmem
  have hother : cols[j]? = some _ := getElem?_eq_getElem (by rw [← hcount]; exact hj)
  obtain ⟨column', hcolumn'⟩ := hin _ (mem_of_getElem? hother)
  have hnamed := hnames j _ _ hother (getElem?_eq_getElem hj)
  rw [columnName_eq hcolumn', hname] at hnamed
  have hcols := hsole _ _ _ hcolumn hcolumn' hnamed.symm
  rw [hcols] at hother
  exact ⟨j, hother, getElem?_eq_getElem hj⟩

/-- The record of an unshared column is found by its name. -/
theorem find?_record (hnodup : cols.Nodup)
    (hsole : Unshared columns col) (hcolumn : columns[col]? = some column) (hcol : cols[i]? = some col)
    (hrecord : records[i]? = some record) :
    records.find? (fun record => name record = column.name) = some record := by
  have hname := hnames i col record hcol hrecord
  rw [columnName_eq hcolumn] at hname
  refine find?_eq_of_unique (mem_of_getElem? hrecord) (by simpa using hname) ?_
  intro record' hmem hname'
  obtain ⟨j, hj, hrecord'⟩ := record_of_name hcount hnames hin hsole hcolumn hmem (by simpa using hname')
  obtain ⟨hilt, hi⟩ := getElem?_eq_some_iff.mp hcol
  obtain ⟨hjlt, hj⟩ := getElem?_eq_some_iff.mp hj
  have hij : j = i := hnodup.getElem_inj_iff.mp (hj.trans hi.symm)
  rw [hij, hrecord] at hrecord'
  exact (some.inj hrecord').symm

/-- An unshared column without a record is not found. -/
theorem find?_record_none (hsole : Unshared columns col)
    (hcolumn : columns[col]? = some column) (hcol : col ∉ cols) :
    records.find? (fun record => name record = column.name) = none := by
  apply find?_eq_none.mpr
  intro record hmem hname
  obtain ⟨j, hj, -⟩ := record_of_name hcount hnames hin hsole hcolumn hmem (by simpa using hname)
  exact hcol (mem_of_getElem? hj)

end

end Records

theorem BitmapLaid.names {encode : SqlValue → Option Bool}
    (h : BitmapLaid columns rows capacity groups g cols encode layouts) :
    ∀ (j : ℕ) other layout, cols[j]? = some other → layouts[j]? = some layout →
      layout.name = columnName columns other := by
  intro j other layout hother hlayout
  obtain ⟨-, -, -, -, hlayout'⟩ := h.chunk j other hother
  rw [hlayout] at hlayout'
  rw [some.inj hlayout']

theorem TextLaid.names {layouts : List ResidentDeviceTextColumnLayout}
    (h : TextLaid columns rows groups g layouts) :
    ∀ (j : ℕ) other layout, (sectionColumns columns .text)[j]? = some other → layouts[j]? = some layout →
      layout.name = columnName columns other := by
  intro j other layout hother hlayout
  obtain ⟨_, _, _, _, _, hlayout'⟩ := h.chunk j other hother
  rw [hlayout] at hlayout'
  rw [some.inj hlayout']

theorem exists_of_mem_sectionColumns : ∀ other ∈ sectionColumns columns s,
    ∃ column', columns[other]? = some column' := by
  intro other hmem
  obtain ⟨column', hcolumn', -⟩ := mem_sectionColumns.mp hmem
  exact ⟨column', hcolumn'⟩

theorem mem_nullColumns : col ∈ nullColumns columns rows ↔ col < columns.length ∧
    ∃ values ∈ rows, values[col]? = some .null := by
  simp [nullColumns, hasNull]

theorem exists_of_mem_nullColumns : ∀ other ∈ nullColumns columns rows,
    ∃ column', columns[other]? = some column' := by
  intro other hmem
  exact ⟨_, getElem?_eq_getElem (mem_nullColumns.mp hmem).1⟩

/-! ### Texts -/

theorem getElem?_textEnds {n k : ℕ} (hk : k < cells.length) :
    (textEnds n cells)[k]? = some (n + chunkStart cells (k + 1)) := by
  induction cells generalizing n k with
  | nil => cases hk
  | cons cell cells ih =>
    cases k with
    | zero => simp [textEnds, chunkStart]
    | succ k =>
      rw [textEnds, getElem?_cons_succ, ih (by simpa using hk)]
      simp [chunkStart, Nat.add_assoc]

theorem getElem?_textOffsets {k : ℕ} (hk : k ≤ cells.length) :
    (0 :: textEnds 0 cells)[k]? = some (chunkStart cells k) := by
  cases k with
  | zero => simp [chunkStart]
  | succ k => rw [getElem?_cons_succ, getElem?_textEnds hk, Nat.zero_add]

theorem toNat_ofNat_of_lt {n : ℕ} (h : n < 2 ^ 63) : (UInt64.ofNat n).toNat = n := by
  rw [UInt64.toNat_ofNat']
  exact Nat.mod_eq_of_lt (by omega)

/-- The offsets and the bytes of a text column give the text of every row. -/
theorem readTextBytes_eq {layout : ResidentDeviceTextColumnLayout}
    (hoffsets : Stands payload layout.offsetsByteOffset (textOffsetBytes cells))
    (hbytes : Stands payload layout.bytesByteOffset cells.flatten) (hsmall : payload.length < 2 ^ 63)
    (hcell : cells[row]? = some cell) : readTextBytes payload layout row = some cell := by
  have hlt : row < cells.length := (getElem?_eq_some_iff.mp hcell).1
  have hoffset : ∀ k ≤ cells.length, window payload (layout.offsetsByteOffset + k * 8) 8
      = some (u64ToLe (UInt64.ofNat (chunkStart cells k))) := by
    intro k hk
    have hstands := hoffsets.trans (@stands_flatMap _ _ k _ _
      (fun offset : ℕ => u64ToLe (UInt64.ofNat offset)) 8 (fun _ _ => length_u64ToLe _)
      (getElem?_textOffsets hk))
    have hwindow := hstands.window_eq
    rwa [length_u64ToLe] at hwindow
  have hbound : ∀ k, (UInt64.ofNat (chunkStart cells k)).toNat = chunkStart cells k := by
    intro k
    apply toNat_ofNat_of_lt
    have := chunkStart_le cells k
    have := hbytes.le
    omega
  have hwindow := (hbytes.trans (stands_flatten hcell)).window_eq
  rw [readTextBytes, hoffset row hlt.le, hoffset (row + 1) hlt]
  simp only [bind_eq_bind, bind_some, u64OfLe_u64ToLe, hbound]
  rw [chunkStart_succ hcell, Nat.add_sub_cancel_left]
  exact hwindow

namespace Laid

theorem header_stands (h : Laid columns rows capacity groups built) :
    Stands built.devicePayload 0 (u64ToLe (UInt64.ofNat rows.length)) := by
  have hchunk : groupChunk groups 0 0 = some (u64ToLe (UInt64.ofNat rows.length)) := by
    rw [groupChunk, h.header, getElem?_cons_zero]
  rw [h.payload]
  simpa [groupStart, chunkStart] using stands_joinGroups hchunk

theorem rowCount_read (h : Laid columns rows capacity groups built) :
    readRowCount built.devicePayload = some rows.length := by
  have hwindow := h.header_stands.window_eq
  have hroom := h.room
  have hbound := h.bound
  rw [length_u64ToLe] at hwindow
  rw [readRowCount, hwindow, map_some, u64OfLe_u64ToLe, toNat_ofNat_of_lt (by omega)]

section

variable (h : Laid columns rows capacity groups built) (hsole : Unshared columns col)
  (hcol : columns[col]? = some column)
include h hsole hcol

theorem bool_offset (hty : column.ty = .bool) : residentDeviceBoolColumnOffset h.snapshot columns col
      = .ok (groupStart groups 4 (sectionOrdinal columns .bool col)) := by
  have hordinal := @getElem?_sectionColumns _ _ _ .bool hcol (by rw [hty]; rfl)
  obtain ⟨-, -, -, -, hlayout⟩ := h.bool.chunk _ col hordinal
  have hfind := find?_record h.bool.count h.bool.names exists_of_mem_sectionColumns
    (nodup_sectionColumns) hsole hcol hordinal hlayout
  simp only [residentDeviceBoolColumnOffset, hcol, residentSnapshot, hfind]
  rw [except_seq_ok, refuse_eq_ok]
  exact ⟨not_not.mpr hty, rfl⟩

theorem bool_read (hty : column.ty = .bool) : FoundAs rows col
    (residentDeviceBoolColumnOffset h.snapshot columns col) fun off row value =>
      ∃ bit, boolCell value = some bit ∧ readBit built.devicePayload off row = some bit := by
  have hordinal := @getElem?_sectionColumns _ _ _ .bool hcol (by rw [hty]; rfl)
  refine ⟨_, h.bool_offset hsole hcol hty, ?_⟩
  intro row values value hrow hvalue
  rw [h.payload]
  exact h.bool.bit_read h.room hordinal hrow hvalue

theorem validity_offset : residentDeviceNullColumnOffset h.snapshot columns col
      = .ok (if col ∈ nullColumns columns rows then some (groupStart groups 5 ((nullColumns columns rows).idxOf col))
        else none) := by
  simp only [residentDeviceNullColumnOffset, hcol, residentSnapshot]
  by_cases hnull : col ∈ nullColumns columns rows
  · have hordinal := getElem?_idxOf hnull
    obtain ⟨-, -, -, -, hlayout⟩ := h.null.chunk _ col hordinal
    rw [if_pos hnull, find?_record h.null.count h.null.names exists_of_mem_nullColumns
      (nodup_nullColumns) hsole hcol hordinal hlayout]
    rfl
  · rw [if_neg hnull, find?_record_none h.null.count h.null.names exists_of_mem_nullColumns hsole hcol hnull]
    rfl

/-- A validity bitmap is there when a `NULL` is, and its bits say which rows hold one. -/
theorem validity_read : FoundAs rows col
    (residentDeviceNullColumnOffset h.snapshot columns col) fun validity row value =>
      readValidity built.devicePayload validity row = some (decide (value ≠ .null)) := by
  refine ⟨_, h.validity_offset hsole hcol, ?_⟩
  intro row values value hrow hvalue
  by_cases hnull : col ∈ nullColumns columns rows
  · obtain ⟨bit, hbit, hread⟩ := h.null.bit_read h.room (getElem?_idxOf hnull) hrow hvalue
    rw [if_pos hnull, readValidity, hbit, h.payload]
    exact hread
  · have hvalid : value ≠ .null := by
      rintro rfl
      exact hnull (mem_nullColumns.mpr ⟨(getElem?_eq_some_iff.mp hcol).1, values, mem_of_getElem? hrow, hvalue⟩)
    rw [if_neg hnull, readValidity, decide_eq_true hvalid]

theorem text_layout (hty : column.ty = .text) : ∃ mismatch cells padding,
    rows.mapM (encodeCell textCell mismatch col) = .ok cells ∧
      groupChunk groups 6 (sectionOrdinal columns .text col)
        = some (List.replicate padding 0 ++ (textOffsetBytes cells ++ cells.flatten)) ∧
      residentDeviceTextColumnLayout h.snapshot columns col = .ok
        { name := columnName columns col
          offsetsByteOffset := groupStart groups 6 (sectionOrdinal columns .text col) + padding
          bytesByteOffset := groupStart groups 6 (sectionOrdinal columns .text col) + padding
            + (textOffsetBytes cells).length
          bytesLen := cells.flatten.length } := by
  have hordinal := @getElem?_sectionColumns _ _ _ .text hcol (by rw [hty]; rfl)
  obtain ⟨mismatch, cells, padding, hcells, hchunk, hlayout⟩ := h.text.chunk _ col hordinal
  have hfind := find?_record h.text.count h.text.names exists_of_mem_sectionColumns
    (nodup_sectionColumns) hsole hcol hordinal hlayout
  refine ⟨mismatch, cells, padding, hcells, hchunk, ?_⟩
  simp only [residentDeviceTextColumnLayout, hcol, residentSnapshot, hfind]
  rw [except_seq_ok, refuse_eq_ok]
  exact ⟨not_not.mpr hty, rfl⟩

theorem text_read (hty : column.ty = .text) : FoundAs rows col
    (residentDeviceTextColumnLayout h.snapshot columns col) fun layout row value =>
      ∃ bytes, textCell value = some bytes ∧ readTextBytes built.devicePayload layout row = some bytes := by
  obtain ⟨mismatch, cells, padding, hcells, hchunk, hlayout⟩ := h.text_layout hsole hcol hty
  refine ⟨_, hlayout, ?_⟩
  intro row values value hrow hvalue
  obtain ⟨bytes, hbytes, hget⟩ := getElem?_of_mapM_encodeCell hcells hrow hvalue
  have hstands := (stands_joinGroups hchunk).right
  rw [← h.payload, length_replicate] at hstands
  exact ⟨bytes, hbytes, readTextBytes_eq hstands.left hstands.right h.small hget⟩

end

end Laid

/-! ### Whole cells -/

/-- A value as its column stores it: of the column's type, a `numeric` at the column's scale. -/
def StoredAs (value : SqlValue) (ty : SqlType) : Prop :=
  value.HasType ty ∧ ∀ precision scale decimal, ty = .numeric precision scale →
    value = .numeric decimal → decimal.scale = scale

theorem sqlValueFromB128Section_numeric (decimal : Decimal128) (precision : UInt8) :
    sqlValueFromB128Section (.numeric precision decimal.scale) (i128ToLe decimal.mantissa)
      = some (.numeric decimal) := by
  have hmantissa := i128OfLe_i128ToLe decimal.mantissa
  unfold sqlValueFromB128Section
  rw [hmantissa]

theorem sqlValueFromB128Section_uuid (bytes : List.Vector UInt8 16) :
    sqlValueFromB128Section .uuid bytes.toList = some (.uuid bytes) := by
  unfold sqlValueFromB128Section
  rw [dif_pos bytes.toList_length]
  rfl

theorem int2OfInt4_toInt32 (v : Int16) : int2OfInt4 v.toInt32 = some v := by
  rw [int2OfInt4, Int16.toInt16_toInt32, if_pos rfl]

namespace Laid

variable {values : List SqlValue} {value : SqlValue}

section

variable (h : Laid columns rows capacity groups built) (hsole : Unshared columns col)
  (hcol : columns[col]? = some column) (hrow : rows[row]? = some values)
  (hvalue : values[col]? = some value)
include h hsole hcol hrow hvalue

theorem value_read (hstored : StoredAs value column.ty) :
    readValue built.devicePayload h.snapshot columns row col column.ty = .ok (some value) := by
  obtain ⟨hty, hscale⟩ := hstored
  generalize hcty : column.ty = ty at hty hscale
  have hsection : payloadSection column.ty = payloadSection ty := by rw [hcty]
  cases hty with
  | int2 v =>
    obtain ⟨off, hoff, hread⟩ := h.int4_read hcol hsection
    obtain ⟨cell, hcell, hload⟩ := hread row values _ hrow hvalue
    obtain rfl : v.toInt32 = cell := some.inj hcell
    simp only [readValue, payloadSection, hoff, except_ok_bind, hload, bind_some, sqlValueFromI32Section,
      int2OfInt4_toInt32, map_some]
  | int4 v | date v =>
    obtain ⟨off, hoff, hread⟩ := h.int4_read hcol hsection
    obtain ⟨cell, hcell, hload⟩ := hread row values _ hrow hvalue
    obtain rfl : v = cell := some.inj hcell
    simp only [readValue, payloadSection, hoff, except_ok_bind, hload, bind_some, sqlValueFromI32Section]
  | int8 v | timestamp v =>
    obtain ⟨off, hoff, hread⟩ := h.int8_read hcol hsection
    obtain ⟨cell, hcell, hload⟩ := hread row values _ hrow hvalue
    obtain rfl : v = cell := some.inj hcell
    simp only [readValue, payloadSection, hoff, except_ok_bind, hload, bind_some, sqlValueFromI64Section]
  | numeric decimal precision scale =>
    obtain ⟨off, hoff, hread⟩ := h.b128_read hcol hsection
    obtain ⟨cell, hcell, hload⟩ := hread row values _ hrow hvalue
    have hcell : i128ToLe decimal.mantissa = cell := some.inj hcell
    have hscale : decimal.scale = scale := hscale precision scale decimal rfl rfl
    simp only [readValue, payloadSection, hoff, except_ok_bind, hload, bind_some]
    rw [← hcell, ← hscale, sqlValueFromB128Section_numeric]
  | uuid bytes =>
    obtain ⟨off, hoff, hread⟩ := h.b128_read hcol hsection
    obtain ⟨cell, hcell, hload⟩ := hread row values _ hrow hvalue
    have hcell : bytes.toList = cell := some.inj hcell
    simp only [readValue, payloadSection, hoff, except_ok_bind, hload, bind_some]
    rw [← hcell, sqlValueFromB128Section_uuid]
  | bool v =>
    obtain ⟨off, hoff, hread⟩ := h.bool_read hsole hcol hcty
    obtain ⟨bit, hbit, hload⟩ := hread row values _ hrow hvalue
    obtain rfl : v = bit := some.inj hbit
    simp only [readValue, payloadSection, hoff, except_ok_bind, hload, map_some]
  | text v =>
    obtain ⟨layout, hlayout, hread⟩ := h.text_read hsole hcol hcty
    obtain ⟨bytes, hbytes, hload⟩ := hread row values _ hrow hvalue
    obtain rfl : utf8Bytes v = bytes := some.inj hbytes
    simp only [readValue, payloadSection, hlayout, except_ok_bind, hload, bind_some, utf8Text_utf8Bytes, map_some]

theorem cell_read (hstored : value = .null ∨ StoredAs value column.ty) :
    readCell built.devicePayload h.snapshot columns row col = .ok (some value) := by
  obtain ⟨validity, hvalidity, hread⟩ := h.validity_read hsole hcol
  have hbit := hread row values value hrow hvalue
  rw [readCell, hvalidity, except_ok_bind, hcol]
  rw [hbit]
  by_cases hnull : value = .null
  · rw [hnull]
    rfl
  · rw [decide_eq_true hnull]
    exact h.value_read hsole hcol hrow hvalue (hstored.resolve_left hnull)

end

end Laid

/-! ### The parts of a payload -/

def sectionGroup : PayloadSection → ℕ
  | .int4 => 1
  | .int8 => 2
  | .b128 => 3
  | .bool => 4
  | .text => 6

def partPlace (columns : List RelationalColumn) (rows : List (List SqlValue)) : PayloadPart → ℕ × ℕ
  | .rowCount => (0, 0)
  | .values col | .textBytes col =>
    match columns[col]? with
    | none => (0, 0)
    | some column =>
      (sectionGroup (payloadSection column.ty), sectionOrdinal columns (payloadSection column.ty) col)
  | .validity col => (5, (nullColumns columns rows).idxOf col)

/-- The extent lies in the chunk `k` of the group `g`. -/
def InChunk (groups : List (List Bytes)) (place extent : ℕ × ℕ) : Prop :=
  ∃ chunk, groupChunk groups place.1 place.2 = some chunk ∧ groupStart groups place.1 place.2 ≤ extent.1 ∧
    extent.1 + extent.2 ≤ groupStart groups place.1 place.2 + chunk.length

variable {place extent : ℕ × ℕ}

theorem InChunk.le (h : InChunk groups place extent) : extent.1 + extent.2 ≤ (joinGroups groups).length := by
  obtain ⟨chunk, hchunk, -, hend⟩ := h
  exact le_trans hend (stands_joinGroups hchunk).le

theorem InChunk.apart {place' extent' : ℕ × ℕ} (h : InChunk groups place extent)
    (h' : InChunk groups place' extent') (hne : place ≠ place') : Apart extent extent' := by
  obtain ⟨chunk, hchunk, hstart, hend⟩ := h
  obtain ⟨chunk', hchunk', hstart', hend'⟩ := h'
  refine (apart_groups hchunk hchunk' ?_).inside hstart hend hstart' hend'
  intro hsame
  exact hne (Prod.ext hsame.1 hsame.2)

theorem length_bitmap (count : ℕ) (bits : List Bool) :
    ((packBits count bits).flatMap u32ToLe).length = count * 4 := by
  rw [length_flatMap]
  simp [length_u32ToLe]

theorem length_textEnds (n : ℕ) : (textEnds n cells).length = cells.length := by
  induction cells generalizing n with
  | nil => rfl
  | cons cell cells ih => rw [textEnds, length_cons, ih, length_cons]

theorem length_textOffsetBytes : (textOffsetBytes cells).length = (cells.length + 1) * 8 := by
  rw [textOffsetBytes, length_flatMap]
  simp [length_textEnds]
  omega

theorem FixedLaid.inChunk {width : ℕ} (h : FixedLaid columns rows capacity groups g s encode width)
    (hwidth : ∀ value cell, encode value = some cell → cell.length = width) (hroom : rows.length ≤ capacity)
    (hcol : (sectionColumns columns s)[i]? = some col) :
    InChunk groups (g, i) (groupStart groups g i, capacity * width) := by
  obtain ⟨mismatch, cells, -, hchunk⟩ := h.chunk i col hcol
  have hlen := h.length_chunk hwidth hroom _ (mem_of_getElem? hchunk)
  exact ⟨_, hchunk, le_rfl, by rw [hlen]⟩

theorem BitmapLaid.inChunk {encode : SqlValue → Option Bool}
    (h : BitmapLaid columns rows capacity groups g cols encode layouts) (hcol : cols[i]? = some col) :
    InChunk groups (g, i) (groupStart groups g i, (capacity + 31) / 32 * 4) := by
  obtain ⟨mismatch, bits, -, hchunk, -⟩ := h.chunk i col hcol
  exact ⟨_, hchunk, le_rfl, by rw [length_bitmap]⟩

namespace Laid

section

variable (h : Laid columns rows capacity groups built) (hsole : Unshared columns col)
include h hsole

/-- The two extents of a text column lie one behind the other in its chunk. -/
theorem text_extents (hcol : columns[col]? = some column) (hty : column.ty = .text) : ∃ layout,
    residentDeviceTextColumnLayout h.snapshot columns col = .ok layout ∧
      InChunk groups (6, sectionOrdinal columns .text col) (layout.offsetsByteOffset, (rows.length + 1) * 8) ∧
      InChunk groups (6, sectionOrdinal columns .text col) (layout.bytesByteOffset, layout.bytesLen) ∧
      layout.offsetsByteOffset + (rows.length + 1) * 8 = layout.bytesByteOffset := by
  obtain ⟨mismatch, cells, padding, hcells, hchunk, hlayout⟩ := h.text_layout hsole hcol hty
  have hoffsets : (textOffsetBytes cells).length = (rows.length + 1) * 8 := by
    rw [length_textOffsetBytes, length_of_mapM_encodeCell hcells]
  refine ⟨_, hlayout, ⟨_, hchunk, Nat.le_add_right _ _, ?_⟩, ⟨_, hchunk, ?_, ?_⟩, ?_⟩
  · simp only [length_append, length_replicate]
    omega
  · dsimp only
    omega
  · simp only [length_append, length_replicate]
    omega
  · dsimp only
    omega

/-- Where the helpers find the values of a column is where they were written. -/
theorem values_inChunk (hcol : columns[col]? = some column)
    (hextent : valuesExtent h.snapshot columns col column.ty = .ok extent) :
    InChunk groups (partPlace columns rows (.values col)) extent := by
  simp only [partPlace, hcol]
  unfold valuesExtent at hextent
  cases hs : payloadSection column.ty <;> simp only [hs] at hextent
  case int4 =>
    simp only [h.int4_offset hcol hs, except_ok_bind, Except.ok.injEq] at hextent
    subst hextent
    exact h.int4.inChunk (fun _ _ => length_int4Image) h.room (getElem?_sectionColumns hcol hs)
  case int8 =>
    simp only [h.int8_offset hcol hs, except_ok_bind, Except.ok.injEq] at hextent
    subst hextent
    exact h.int8.inChunk (fun _ _ => length_int8Image) h.room (getElem?_sectionColumns hcol hs)
  case b128 =>
    simp only [h.b128_offset hcol hs, except_ok_bind, Except.ok.injEq] at hextent
    subst hextent
    exact h.b128.inChunk (fun _ _ => length_b128Cell) h.room (getElem?_sectionColumns hcol hs)
  case bool =>
    have hty : column.ty = .bool := by cases hty : column.ty <;> simp [hty, payloadSection] at hs ⊢
    simp only [h.bool_offset hsole hcol hty, except_ok_bind, Except.ok.injEq] at hextent
    subst hextent
    exact h.bool.inChunk (getElem?_sectionColumns hcol hs)
  case text =>
    have hty : column.ty = .text := by cases hty : column.ty <;> simp [hty, payloadSection] at hs ⊢
    obtain ⟨layout, hlayout, hoffsets, -, -⟩ := h.text_extents hsole hcol hty
    simp only [hlayout, except_ok_bind, Except.ok.injEq] at hextent
    subst hextent
    exact hoffsets

theorem textBytes_inChunk (hextent : partExtent h.snapshot columns (.textBytes col) = .ok (some extent)) :
    ∃ column layout, columns[col]? = some column ∧ column.ty = .text ∧
      residentDeviceTextColumnLayout h.snapshot columns col = .ok layout ∧
      extent = (layout.bytesByteOffset, layout.bytesLen) ∧
      InChunk groups (partPlace columns rows (.textBytes col)) extent := by
  cases hcol : columns[col]? with
  | none => simp [partExtent, hcol] at hextent
  | some column =>
    by_cases hty : column.ty = .text
    · obtain ⟨layout, hlayout, -, hbytes, -⟩ := h.text_extents hsole hcol hty
      simp only [partExtent, hcol, if_pos hty, hlayout, except_ok_bind, Except.ok.injEq,
        Option.some.injEq] at hextent
      refine ⟨column, layout, rfl, hty, hlayout, hextent.symm, ?_⟩
      simp only [partPlace, hcol, hty, ← hextent]
      exact hbytes
    · simp [partExtent, hcol, hty] at hextent

end

theorem part_inChunk (h : Laid columns rows capacity groups built) {part : PayloadPart}
    (hsole : ∀ col, part.column? = some col → Unshared columns col)
    (hextent : partExtent h.snapshot columns part = .ok (some extent)) :
    InChunk groups (partPlace columns rows part) extent := by
  cases part with
  | rowCount =>
    obtain rfl : (0, 8) = extent := by simpa [partExtent] using hextent
    refine ⟨u64ToLe (UInt64.ofNat rows.length), ?_, ?_, ?_⟩
    · simp only [partPlace, groupChunk, h.header, getElem?_cons_zero]
    · simp [partPlace, groupStart, chunkStart]
    · simp [partPlace]
  | values col =>
    cases hcol : columns[col]? with
    | none => simp [partExtent, hcol] at hextent
    | some column =>
      simp only [partExtent, hcol, except_map_ok, Option.some.injEq, exists_eq_right] at hextent
      exact h.values_inChunk (hsole col rfl) hcol hextent
  | textBytes col =>
    obtain ⟨-, -, -, -, -, -, hin⟩ := h.textBytes_inChunk (hsole col rfl) hextent
    exact hin
  | validity col =>
    cases hcol : columns[col]? with
    | none => simp [partExtent, hcol] at hextent
    | some column =>
      simp only [partExtent, hcol, h.validity_offset (hsole col rfl) hcol, except_ok_bind,
        Except.ok.injEq] at hextent
      by_cases hnull : col ∈ nullColumns columns rows
      · rw [if_pos hnull, map_some, Option.some.injEq] at hextent
        subst hextent
        exact h.null.inChunk (getElem?_idxOf hnull)
      · simp [hnull] at hextent

end Laid

theorem sectionGroup_inj {s s' : PayloadSection} (h : sectionGroup s = sectionGroup s') : s = s' := by
  cases s <;> cases s' <;> first | rfl | cases h

theorem sectionGroup_ne : sectionGroup s ≠ 0 ∧ sectionGroup s ≠ 5 := by
  cases s <;> decide

/-- Columns of one section at one ordinal are one column. -/
theorem col_eq_of_place {col' : ℕ} {column' : RelationalColumn} (hcol : columns[col]? = some column)
    (hcol' : columns[col']? = some column')
    (hgroup : sectionGroup (payloadSection column.ty) = sectionGroup (payloadSection column'.ty))
    (hordinal : sectionOrdinal columns (payloadSection column.ty) col
      = sectionOrdinal columns (payloadSection column'.ty) col') : col = col' := by
  have hs := sectionGroup_inj hgroup
  have hget := getElem?_sectionColumns hcol rfl
  rw [hordinal, hs, getElem?_sectionColumns hcol' rfl] at hget
  exact (some.inj hget).symm

namespace Laid

variable {part part' : PayloadPart} {extent extent' : ℕ × ℕ}

section

variable (h : Laid columns rows capacity groups built)
include h

/-- A part with an extent is the row count, belongs to a column of the table, or is the validity bitmap of a column
with a `NULL`. -/
theorem place_cases (hsole : ∀ col, part.column? = some col → Unshared columns col)
    (hextent : partExtent h.snapshot columns part = .ok (some extent)) :
    (part = .rowCount ∧ partPlace columns rows part = (0, 0)) ∨
    (∃ col column, columns[col]? = some column ∧ (part = .values col ∨ part = .textBytes col) ∧
      partPlace columns rows part = (sectionGroup (payloadSection column.ty),
        sectionOrdinal columns (payloadSection column.ty) col)) ∨
    ∃ col ∈ nullColumns columns rows, part = .validity col ∧
      partPlace columns rows part = (5, (nullColumns columns rows).idxOf col) := by
  have hcolumn : ∀ col, part.column? = some col → ∃ column, columns[col]? = some column := by
    intro col hpart
    cases hcol : columns[col]? with
    | some column => exact ⟨column, rfl⟩
    | none => cases part <;> simp_all [partExtent, PayloadPart.column?]
  cases part with
  | rowCount => exact .inl ⟨rfl, rfl⟩
  | values col | textBytes col =>
    obtain ⟨column, hcol⟩ := hcolumn col rfl
    exact .inr (.inl ⟨col, column, hcol, by simp, by simp only [partPlace, hcol]⟩)
  | validity col =>
    obtain ⟨column, hcol⟩ := hcolumn col rfl
    refine .inr (.inr ⟨col, ?_, rfl, rfl⟩)
    by_contra hnull
    simp [partExtent, hcol, h.validity_offset (hsole col rfl) hcol, hnull, except_ok_bind] at hextent

/-- The offsets of a text column lie before its bytes. -/
theorem text_apart (hsole : Unshared columns col) (hvalues : partExtent h.snapshot columns (.values col)
      = .ok (some extent))
    (hbytes : partExtent h.snapshot columns (.textBytes col) = .ok (some extent')) : Apart extent extent' := by
  obtain ⟨column, layout, hcol, hty, hlayout, rfl, -⟩ := h.textBytes_inChunk hsole hbytes
  obtain ⟨layout', hlayout', -, -, hnext⟩ := h.text_extents hsole hcol hty
  obtain rfl : layout = layout' := by
    rw [hlayout] at hlayout'
    exact Except.ok.inj hlayout'
  simp only [partExtent, hcol, valuesExtent, hty, payloadSection, hlayout, except_ok_bind, except_map_ok,
    Except.ok.injEq, exists_eq_left', Option.some.injEq] at hvalues
  subst hvalues
  exact Or.inl hnext.le

/-- **No two parts share a byte.** -/
theorem parts_apart (hne : part ≠ part') (hsole : ∀ col, part.column? = some col → Unshared columns col)
    (hunshared' : ∀ col, part'.column? = some col → Unshared columns col)
    (hextent : partExtent h.snapshot columns part = .ok (some extent))
    (hextent' : partExtent h.snapshot columns part' = .ok (some extent')) :
    Apart extent extent' := by
  by_cases hplace : partPlace columns rows part = partPlace columns rows part'
  swap
  · exact (h.part_inChunk hsole hextent).apart (h.part_inChunk hunshared' hextent') hplace
  -- two parts of one chunk: the two of a text column, and no others
  rcases h.place_cases hsole hextent with
    ⟨rfl, hat⟩ | ⟨col, column, hcol, hpart, hat⟩ | ⟨col, hnull, rfl, hat⟩ <;>
    rcases h.place_cases hunshared' hextent' with
      ⟨rfl, hat'⟩ | ⟨col', column', hcol', hpart', hat'⟩ | ⟨col', hnull', rfl, hat'⟩ <;>
    have hsame := Prod.mk.inj (hat.symm.trans (hplace.trans hat'))
  · exact absurd rfl hne
  · exact absurd hsame.1.symm (sectionGroup_ne).1
  · exact absurd hsame.1 (by decide)
  · exact absurd hsame.1 (sectionGroup_ne).1
  · obtain rfl := col_eq_of_place hcol hcol' hsame.1 hsame.2
    rcases hpart with rfl | rfl <;> rcases hpart' with rfl | rfl
    · exact absurd rfl hne
    · exact h.text_apart (hsole col rfl) hextent hextent'
    · exact (h.text_apart (hsole col rfl) hextent' hextent).symm
    · exact absurd rfl hne
  · exact absurd hsame.1 (sectionGroup_ne).2
  · exact absurd hsame.1 (by decide)
  · exact absurd hsame.1.symm (sectionGroup_ne).2
  · exact absurd (congrArg PayloadPart.validity ((idxOf_inj hnull).mp hsame.2)) hne

end

end Laid

/-- What reading a payload back amounts to, for the columns that satisfy `Read`. -/
structure ReadsBack (Read : ℕ → Prop) (columns : List RelationalColumn) (rows : List (List SqlValue))
    (capacity : ℕ) (built : RelationalDevicePayload) : Prop where
  rowCount : readRowCount built.devicePayload = some rows.length
  /-- Every value is read, through the offset helpers. -/
  cell : ∀ col, Read col → ∀ row values value, rows[row]? = some values → values[col]? = some value →
    readCell built.devicePayload (residentSnapshot columns rows capacity built) columns row col
      = .ok (some value)
  /-- `NULL` exactly where the column has a validity bitmap with the row's bit clear. -/
  null : ∀ col, Read col → ∀ row values value, rows[row]? = some values → values[col]? = some value →
    (value = .null ↔ ∃ off,
      residentDeviceNullColumnOffset (residentSnapshot columns rows capacity built) columns col
        = .ok (some off) ∧ readBit built.devicePayload off row = some false)
  inside : ∀ part extent, (∀ col, part.column? = some col → Read col) →
    partExtent (residentSnapshot columns rows capacity built) columns part = .ok (some extent) →
      extent.1 + extent.2 ≤ built.devicePayload.length
  apart : ∀ part part' extent extent', part ≠ part' → (∀ col, part.column? = some col → Read col) →
    (∀ col, part'.column? = some col → Read col) →
    partExtent (residentSnapshot columns rows capacity built) columns part = .ok (some extent) →
    partExtent (residentSnapshot columns rows capacity built) columns part' = .ok (some extent') →
      Apart extent extent'

/-- **Round trip of a device payload.**  Columns are looked up by name, so what is read back are the columns
whose name no other column has. -/
theorem device_payload_round_trip
    (hrows : ∀ values ∈ rows, List.Forall₂ (fun value column => value = .null ∨ StoredAs value column.ty)
      values columns)
    (hbuilt : buildRelationalDevicePayloadWithCapacity columns rows capacity = .ok built) :
    ReadsBack (Unshared columns) columns rows capacity built := by
  obtain ⟨groups, h⟩ := build_laid hbuilt
  have hcolumn : ∀ (row : ℕ) values (col : ℕ) value, rows[row]? = some values →
      values[col]? = some value → ∃ column, columns[col]? = some column ∧
        (value = .null ∨ StoredAs value column.ty) := by
    intro row values col value hrow hvalue
    have hall := hrows values (mem_of_getElem? hrow)
    obtain ⟨hlt, rfl⟩ := getElem?_eq_some_iff.mp hvalue
    have hlt' : col < columns.length := by rw [← hall.length_eq]; exact hlt
    exact ⟨columns[col], getElem?_eq_getElem hlt', hall.get hlt hlt'⟩
  constructor
  case rowCount => exact h.rowCount_read
  case cell =>
    intro col hread row values value hrow hvalue
    obtain ⟨column, hcol, hstored⟩ := hcolumn row values col value hrow hvalue
    exact h.cell_read hread hcol hrow hvalue hstored
  case null =>
    intro col hread row values value hrow hvalue
    obtain ⟨column, hcol, -⟩ := hcolumn row values col value hrow hvalue
    obtain ⟨validity, hvalidity, hbit⟩ := h.validity_read hread hcol
    have hbit := hbit row values value hrow hvalue
    rw [hvalidity]
    cases validity with
    | none =>
      have hvalid : value ≠ .null := by simpa [readValidity] using hbit
      simp [hvalid]
    | some off =>
      rw [readValidity] at hbit
      simp [hbit]
  case inside =>
    intro part extent hread hextent
    rw [h.payload]
    exact (h.part_inChunk hread hextent).le
  case apart =>
    intro part part' extent extent' hne hread hread' hextent hextent'
    exact h.parts_apart hne hread hread' hextent hextent'

/-- A column of 4 bytes and a `bool` column that holds a `NULL`, with room for a second row. -/
theorem device_payload_round_trip_sample : ∃ built,
    buildRelationalDevicePayloadWithCapacity [⟨"n", .int4⟩, ⟨"flag", .bool⟩] [[.int4 7, .null]] 2 =
      .ok built ∧
      ReadsBack (Unshared [⟨"n", .int4⟩, ⟨"flag", .bool⟩]) [⟨"n", .int4⟩, ⟨"flag", .bool⟩]
        [[.int4 7, .null]] 2 built := by
  refine ⟨_, rfl, device_payload_round_trip ?_ rfl⟩
  intro values hvalues
  obtain rfl := mem_singleton.mp hvalues
  refine .cons (Or.inr ⟨.int4 7, ?_⟩) (.cons (Or.inl rfl) .nil)
  intro precision scale decimal hty
  cases hty

/-- With two columns of one name the second is read from where the first stands. -/
theorem shared_name_misread : ∃ built,
    buildRelationalDevicePayloadWithCapacity [⟨"flag", .bool⟩, ⟨"flag", .bool⟩] [[.bool true, .bool false]] 1
      = .ok built ∧
    readCell built.devicePayload
      (residentSnapshot [⟨"flag", .bool⟩, ⟨"flag", .bool⟩] [[.bool true, .bool false]] 1 built)
      [⟨"flag", .bool⟩, ⟨"flag", .bool⟩] 0 1 = .ok (some (.bool true)) :=
  ⟨_, rfl, rfl⟩

end ThunderboltDb.Engine
