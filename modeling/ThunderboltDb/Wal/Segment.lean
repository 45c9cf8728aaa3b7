import ThunderboltDb.Wal.Record
import ThunderboltDb.Lib.DecimalText

/-!
# Segment files: the strict reader and crash recovery

A serial WAL segment is the magic followed by encoded records. Checkpoint segments are written in one
go and read strictly (`readWalSegment`); the live segment may end in a torn record or in zero
preallocation and is read by `recoverWalSegment`, with the advisory tail-offset sidecar bounding how
far that tolerance reaches.

* `scanRecord` — what both readers learn from the bytes at a record start.

Paths are strings that only occur in error texts. I/O errors of the file system are not modelled: a
file is present with its bytes or missing.
-/

namespace ThunderboltDb.Wal

open Lib List

variable {recordedTail offset : ℕ} {records : List WalRecord} {res : WalSegmentRecovery}

/-- The files of one live segment: the segment and its `.tail` sidecar. A sidecar that is not valid
UTF-8 reads as a missing one, so its content is text. -/
structure SegmentFiles where
  segment : Option Bytes
  tail : Option (List Char)
  deriving DecidableEq

/-! ### The tail-offset sidecar -/

def walTailMagic : List Char := "GPUDBWALTAIL1".toList

/-- `write_wal_tail_offset`: the body installed as the sidecar. -/
def writeWalTailOffset (durableBytes : ℕ) : List Char :=
  walTailMagic ++ '\n' :: (decimalText durableBytes ++ '\n' :: [])

/-- `read_wal_tail_offset`: the recorded offset, 0 when the sidecar is missing or unreadable. -/
def readWalTailOffset (tail : Option (List Char)) : ℕ :=
  match tail with
  | none => 0
  | some body =>
    match textLines body with
    | magic :: raw :: _ => if magic = walTailMagic then (parseUnsigned (2 ^ 64) raw).getD 0 else 0
    | _ => 0

theorem readWalTailOffset_write {n : ℕ} (h : n < 2 ^ 64) : readWalTailOffset (some (writeWalTailOffset n)) = n := by
  have hlines : textLines (writeWalTailOffset n) = [walTailMagic, decimalText n] := by
    rw [writeWalTailOffset, textLines_append_newline (by decide) (by decide),
      textLines_append_newline (newline_not_mem_decimalText n) (return_not_mem_decimalText n)]
    rfl
  simp only [readWalTailOffset, hlines, if_true, parseUnsigned_decimalText h, Option.getD_some]

/-! ### One record -/

/-- What the bytes at a record start hold, once they are known to contain a header. -/
inductive RecordScan where
  | shortPayload
  | checksumMismatch (txnId : TxnId)
  | record (r : WalRecord) (rest : Bytes)

def scanRecord (bytes : Bytes) : RecordScan :=
  let h := decodeHeader bytes
  match takePayload h (bytes.drop walRecordHeaderLen) with
  | none => .shortPayload
  | some r =>
    if checksumMatches h r then .record r (bytes.drop (encodedRecordLen r))
    else .checksumMismatch h.txnId

theorem scanRecord_encodedRecord_append (r : WalRecord) (rest : Bytes) :
    scanRecord (encodedRecord r ++ rest) = .record r rest := by
  have hdrop : (encodedRecord r ++ rest).drop (encodedRecordLen r) = rest := drop_left' (length_encodedRecord r)
  simp only [scanRecord, decodeHeader_encodedRecord_append, drop_header_encodedRecord_append,
    takePayload_encodedRecord_append, checksumMatches_header, if_true, hdrop]

variable {bytes : Bytes} {rest : Bytes} (path : String)

theorem scanRecord_sound {r : WalRecord}
    (hlen : walRecordHeaderLen ≤ bytes.length) (h : scanRecord bytes = .record r rest) :
    bytes = encodedRecord r ++ rest := by
  simp only [scanRecord] at h
  cases hp : takePayload (decodeHeader bytes) (bytes.drop walRecordHeaderLen) with
  | none => rw [hp] at h; cases h
  | some r' =>
    rw [hp] at h
    simp only at h
    split at h
    · rename_i hc
      cases h
      exact eq_encodedRecord_append hlen hp hc
    · cases h

/-! ### Crash recovery -/

structure WalSegmentRecovery where
  records : List WalRecord
  validBytes : ℕ
  discardedTornBytes : ℕ
  deriving DecidableEq

def WalSegmentRecovery.empty : WalSegmentRecovery := ⟨[], 0, 0⟩

/-- The error of a segment that ends cleanly before the recorded durable tail. -/
def endsShort (recordedTail validBytes : ℕ) : EngineError :=
  .durability s!"WAL segment {path} ends at byte {validBytes}, before the recorded durable tail offset {recordedTail}"

def invalidHeader : EngineError :=
  .durability s!"invalid WAL segment header {path}"

def truncatedHeader (recordStart : ℕ) : EngineError :=
  .durability s!"failed to read WAL segment record header {path}: acknowledged-durable record is truncated at byte {recordStart}"

def truncatedPayload (recordStart : ℕ) : EngineError :=
  .durability s!"failed to read WAL segment payload {path}: acknowledged-durable record is truncated at byte {recordStart}"

def recordChecksumMismatch (txnId : TxnId) : EngineError :=
  .durability s!"WAL segment {path} record checksum mismatch for txn {txnId}"

/-- The scan reached the end of the file at `offset`. -/
def recoverEnd (recordedTail offset : ℕ) (records : List WalRecord) :
    Except EngineError WalSegmentRecovery :=
  if offset < recordedTail then .error (endsShort path recordedTail offset)
  else .ok ⟨records, offset, 0⟩

/-- An invalid region starts at `offset`: an error below the recorded tail, a torn tail from there on. -/
def recoverTorn (recordedTail offset : ℕ) (rest : Bytes) (records : List WalRecord)
    (err : EngineError) : Except EngineError WalSegmentRecovery :=
  if offset < recordedTail then .error err else .ok ⟨records, offset, rest.length⟩

/-- The `while offset < bytes.len()` loop, `rest` being `bytes[offset..]`. Every turn consumes at
least a header, so with `fuel` at least the remaining length the loop only stops at the end. -/
def recoverLoop (path : String) (recordedTail : ℕ) :
    ℕ → ℕ → Bytes → List WalRecord → Except EngineError WalSegmentRecovery
  | 0, offset, _, records => recoverEnd path recordedTail offset records
  | fuel + 1, offset, rest, records =>
    if rest = [] then recoverEnd path recordedTail offset records
    else if rest.length < walRecordHeaderLen then
      recoverTorn recordedTail offset rest records (truncatedHeader path offset)
    else if (decodeHeader rest).isZero ∧ ¬ offset < recordedTail ∧ rest.all (· == 0) then
      .ok ⟨records, offset, 0⟩
    else
      match scanRecord rest with
      | .shortPayload => recoverTorn recordedTail offset rest records (truncatedPayload path offset)
      | .checksumMismatch txnId =>
        recoverTorn recordedTail offset rest records (recordChecksumMismatch path txnId)
      | .record r rest' =>
        recoverLoop path recordedTail fuel (offset + encodedRecordLen r) rest' (records ++ [r])

def recoverWalSegment (files : SegmentFiles) :
    Except EngineError WalSegmentRecovery :=
  let recordedTail := readWalTailOffset files.tail
  match files.segment with
  | none => if recordedTail > 0 then .error (endsShort path recordedTail 0) else .ok .empty
  | some bytes =>
    if bytes.length < walSegmentMagic.length then
      -- a crash during segment creation leaves a short prefix of the magic
      if bytes <+: walSegmentMagic then
        if recordedTail > 0 then .error (endsShort path recordedTail 0)
        else .ok ⟨[], 0, bytes.length⟩
      else .error (invalidHeader path)
    else if bytes.take walSegmentMagic.length ≠ walSegmentMagic then .error (invalidHeader path)
    else
      let rest := bytes.drop walSegmentMagic.length
      recoverLoop path recordedTail rest.length walSegmentMagic.length rest []

/-- A crash while the segment was created: nothing to recover, and nothing may be recorded. -/
theorem recoverWalSegment_torn_magic (tail : Option (List Char))
    (hmagic : bytes <+: walSegmentMagic) (hshort : bytes.length < walSegmentMagic.length) :
    recoverWalSegment path ⟨some bytes, tail⟩ =
      if readWalTailOffset tail > 0 then .error (endsShort path (readWalTailOffset tail) 0)
      else .ok ⟨[], 0, bytes.length⟩ := by
  rw [recoverWalSegment]
  exact (if_pos hshort).trans (if_pos hmagic)

theorem recoverTorn_of_tail_le (rest : Bytes)
    (records : List WalRecord) (err : EngineError) (h : recordedTail ≤ offset) :
    recoverTorn recordedTail offset rest records err = .ok ⟨records, offset, rest.length⟩ :=
  if_neg (by omega)

theorem recoverEnd_of_tail_le (records : List WalRecord) (h : recordedTail ≤ offset) :
    recoverEnd path recordedTail offset records = .ok ⟨records, offset, 0⟩ :=
  if_neg (by omega)

theorem headed_encodedRecord_append (r : WalRecord) :
    encodedRecord r ++ rest ≠ [] ∧ ¬ (encodedRecord r ++ rest).length < walRecordHeaderLen := by
  have hlen : walRecordHeaderLen ≤ (encodedRecord r ++ rest).length := by
    rw [length_append, length_encodedRecord, encodedRecordLen]
    omega
  refine ⟨?_, by omega⟩
  intro hnil
  rw [hnil] at hlen
  exact absurd hlen (by decide)

/-- One turn of the loop at an encoded record. -/
theorem recoverLoop_encodedRecord_append (recordedTail fuel offset : ℕ)
    (r : WalRecord) (rest : Bytes) (records : List WalRecord) :
    recoverLoop path recordedTail (fuel + 1) offset (encodedRecord r ++ rest) records =
      recoverLoop path recordedTail fuel (offset + encodedRecordLen r) rest (records ++ [r]) := by
  obtain ⟨hne, hlen⟩ := headed_encodedRecord_append r
  rw [recoverLoop, if_neg hne, if_neg hlen, decodeHeader_encodedRecord_append,
    decodeHeader_encodedRecord_not_zero, if_neg (by simp), scanRecord_encodedRecord_append]

/-- **Scan invariant.**  From the start of an encoded run the loop arrives behind it with exactly its
records added, whatever follows the run and wherever the recorded tail is. -/
theorem recoverLoop_encodedRecords_append (recordedTail offset : ℕ)
    (R : List WalRecord) (rest : Bytes) (records : List WalRecord) (fuel : ℕ)
    (hfuel : (encodedRecords R ++ rest).length ≤ fuel) :
    ∃ fuel', rest.length ≤ fuel' ∧ recoverLoop path recordedTail fuel offset (encodedRecords R ++ rest) records =
        recoverLoop path recordedTail fuel' (offset + (encodedRecords R).length) rest (records ++ R) := by
  induction R generalizing offset records fuel with
  | nil => exact ⟨fuel, by simpa using hfuel, by simp⟩
  | cons r R ih =>
    rw [encodedRecords_cons, append_assoc, length_append, length_encodedRecord,
      encodedRecordLen, walRecordHeaderLen] at hfuel
    obtain ⟨fuel₁, rfl⟩ : ∃ fuel₁, fuel = fuel₁ + 1 := ⟨fuel - 1, by omega⟩
    obtain ⟨fuel', hfuel', hloop⟩ := ih (offset + encodedRecordLen r) (records ++ [r]) fuel₁ (by omega)
    refine ⟨fuel', hfuel', ?_⟩
    rw [encodedRecords_cons, append_assoc, recoverLoop_encodedRecord_append, hloop]
    simp only [length_append, length_encodedRecord, append_assoc, singleton_append, Nat.add_assoc]

/-- At or beyond the recorded tail the loop never fails and keeps the records it has. -/
theorem recoverLoop_of_tail_le (recordedTail fuel offset : ℕ) (rest : Bytes)
    (records : List WalRecord) (h : recordedTail ≤ offset) :
    ∃ res, recoverLoop path recordedTail fuel offset rest records = .ok res ∧ records <+: res.records := by
  induction fuel generalizing offset rest records with
  | zero => exact ⟨_, recoverEnd_of_tail_le path records h, prefix_refl _⟩
  | succ fuel ih =>
    rw [recoverLoop]
    split_ifs
    · exact ⟨_, recoverEnd_of_tail_le path records h, prefix_refl _⟩
    · exact ⟨_, recoverTorn_of_tail_le _ _ _ h, prefix_refl _⟩
    · exact ⟨_, rfl, prefix_refl _⟩
    · cases scanRecord rest with
      | shortPayload | checksumMismatch txnId => exact ⟨_, recoverTorn_of_tail_le _ _ _ h, prefix_refl _⟩
      | record r rest' =>
        obtain ⟨res, hres, hpre⟩ := ih (offset + encodedRecordLen r) rest' (records ++ [r]) (by omega)
        exact ⟨res, hres, (prefix_append records [r]).trans hpre⟩

variable {path : String}

theorem recoverEnd_eq_ok (h : recoverEnd path recordedTail offset records = .ok res) :
    recordedTail ≤ offset ∧ res = ⟨records, offset, 0⟩ := by
  rw [recoverEnd] at h
  split at h
  · cases h
  · exact ⟨by omega, (Except.ok.inj h).symm⟩

theorem recoverTorn_eq_ok {err : EngineError}
    (h : recoverTorn recordedTail offset rest records err = .ok res) :
    recordedTail ≤ offset ∧ res = ⟨records, offset, rest.length⟩ := by
  rw [recoverTorn] at h
  split at h
  · cases h
  · exact ⟨by omega, (Except.ok.inj h).symm⟩

/-- `res` adds to `records` an encoded run at the start of `rest`, and ends at or behind the recorded
tail. -/
def RecoveredRun (recordedTail offset : ℕ) (rest : Bytes) (records : List WalRecord)
    (res : WalSegmentRecovery) : Prop :=
  ∃ R rest', rest = encodedRecords R ++ rest' ∧ res.records = records ++ R ∧
    res.validBytes = offset + (encodedRecords R).length ∧ recordedTail ≤ res.validBytes

/-- Every exit of the loop but the recursive one stops with the records it has. -/
theorem RecoveredRun.stop {torn : ℕ} (h : recordedTail ≤ offset ∧ res = ⟨records, offset, torn⟩) :
    RecoveredRun recordedTail offset rest records res := by
  obtain ⟨hle, rfl⟩ := h
  exact ⟨[], rest, by simp, by simp, by simp, hle⟩

theorem recoverLoop_sound (path : String) (recordedTail fuel offset : ℕ) (rest : Bytes)
    (records : List WalRecord) (res : WalSegmentRecovery)
    (h : recoverLoop path recordedTail fuel offset rest records = .ok res) :
    RecoveredRun recordedTail offset rest records res := by
  induction fuel generalizing offset rest records with
  | zero => exact .stop (recoverEnd_eq_ok h)
  | succ fuel ih =>
    rw [recoverLoop] at h
    split_ifs at h with hnil hshort hzero
    · exact .stop (recoverEnd_eq_ok h)
    · exact .stop (recoverTorn_eq_ok h)
    · exact .stop ⟨by omega, (Except.ok.inj h).symm⟩
    · cases hscan : scanRecord rest with
      | shortPayload | checksumMismatch txnId => rw [hscan] at h; exact .stop (recoverTorn_eq_ok h)
      | record r rest' =>
        rw [hscan] at h
        obtain ⟨R, rest'', hrest', hrecs, hvalid, htail⟩ := ih _ _ _ h
        refine ⟨r :: R, rest'', ?_, ?_, ?_, htail⟩
        · rw [scanRecord_sound (by omega) hscan, hrest', encodedRecords_cons, append_assoc]
        · rw [hrecs, append_assoc, singleton_append]
        · rw [hvalid, encodedRecords_cons, length_append, length_encodedRecord, Nat.add_assoc]

/-- An accepted segment is the magic, the encoding of the returned records and the discarded rest,
unless nothing of it is valid. -/
theorem recoverWalSegment_sound {files : SegmentFiles} (h : recoverWalSegment path files = .ok res) :
    (res.validBytes = 0 ∧ res.records = []) ∨
    ∃ rest, files.segment = some (walSegmentMagic ++ encodedRecords res.records ++ rest) ∧
      res.validBytes = 10 + (encodedRecords res.records).length ∧
      readWalTailOffset files.tail ≤ res.validBytes := by
  obtain ⟨segment, tail⟩ := files
  cases segment with
  | none =>
    simp only [recoverWalSegment] at h
    split at h
    · cases h
    · obtain rfl := Except.ok.inj h
      exact .inl ⟨rfl, rfl⟩
  | some bytes =>
    simp only [recoverWalSegment] at h
    split_ifs at h with hshort hpre htail hmagic
    · obtain rfl := Except.ok.inj h
      exact .inl ⟨rfl, rfl⟩
    · obtain ⟨R, rest', hrest, hrecs, hvalid, hle⟩ := recoverLoop_sound _ _ _ _ _ _ _ h
      rw [nil_append] at hrecs
      refine .inr ⟨rest', ?_, by rw [hvalid, hrecs]; rfl, hle⟩
      have hsplit := take_append_drop walSegmentMagic.length bytes
      rw [not_ne_iff.mp hmagic, hrest] at hsplit
      rw [← hsplit, hrecs, append_assoc]

theorem walSegmentMagic_append (body : Bytes) :
    ¬ (walSegmentMagic ++ body).length < walSegmentMagic.length ∧
      (walSegmentMagic ++ body).take walSegmentMagic.length = walSegmentMagic ∧
      (walSegmentMagic ++ body).drop walSegmentMagic.length = body := ⟨by simp, take_left' rfl, drop_left' rfl⟩

section

variable (path : String)

/-- A file that starts with the magic is scanned from behind it. -/
theorem recoverWalSegment_magic_append (body : Bytes) (tail : Option (List Char)) :
    recoverWalSegment path ⟨some (walSegmentMagic ++ body), tail⟩ =
      recoverLoop path (readWalTailOffset tail) body.length 10 body [] := by
  obtain ⟨hlen, htake, hdrop⟩ := walSegmentMagic_append body
  simp only [recoverWalSegment, if_neg hlen, htake, hdrop, ne_eq, not_true, if_false]
  rfl

/-- **Crash durability of the flushed prefix.**  A segment that holds the magic and the encoding of
`R`, followed by any bytes at all, is recovered without error and with `R` as the first records,
provided the sidecar records no more than those bytes. -/
theorem recoverWalSegment_flushed_prefix (path : String) (R : List WalRecord) (G : Bytes)
    (tail : Option (List Char))
    (htail : readWalTailOffset tail ≤ (walSegmentMagic ++ encodedRecords R).length) :
    ∃ res, recoverWalSegment path ⟨some (walSegmentMagic ++ encodedRecords R ++ G), tail⟩ = .ok res ∧
      R <+: res.records := by
  rw [append_assoc, recoverWalSegment_magic_append]
  obtain ⟨fuel', -, hloop⟩ := recoverLoop_encodedRecords_append path (readWalTailOffset tail) 10 R G []
    (encodedRecords R ++ G).length le_rfl
  rw [hloop, nil_append]
  refine recoverLoop_of_tail_le path _ fuel' _ G R ?_
  simpa using htail

/-- Two records, a torn third one behind them, and a sidecar that covers the first two. -/
theorem recoverWalSegment_flushed_prefix_torn :
    ∃ res, recoverWalSegment "wal.segment"
        ⟨some (walSegmentMagic ++ encodedRecords [⟨7, [1, 2, 3], by decide⟩, ⟨8, [], by decide⟩] ++
          [9, 0, 0, 0, 0]), some (writeWalTailOffset 61)⟩ = .ok res ∧
      [⟨7, [1, 2, 3], by decide⟩, ⟨8, [], by decide⟩] <+: res.records :=
  recoverWalSegment_flushed_prefix "wal.segment" _ _ _ (by
    rw [readWalTailOffset_write (by decide)]
    decide +kernel)

/-! ### A run followed by zero preallocation

The live segment a flush leaves is its records followed by zeros. Recovery of such a file is exact,
and it succeeds only when the recorded tail lies inside the records. -/

/-- The zero bytes of the preallocated tail. -/
def zeros (n : ℕ) : Bytes := List.replicate n 0

@[simp] theorem length_zeros (n : ℕ) : (zeros n).length = n := length_replicate

@[simp] theorem zeros_zero : zeros 0 = [] := rfl

theorem drop_zeros (m n : ℕ) : (zeros n).drop m = zeros (n - m) := drop_replicate

theorem zeros_add (m n : ℕ) : zeros (m + n) = zeros m ++ zeros n := replicate_add m n 0

theorem prefix_zeros {m n : ℕ} (h : m ≤ n) : zeros m <+: zeros n :=
  ⟨zeros (n - m), by rw [← zeros_add, Nat.add_sub_cancel' h]⟩

theorem decodeHeader_zeros (h : zeros walRecordHeaderLen <+: bytes) : decodeHeader bytes = ⟨0, 0, 0⟩ := by
  obtain ⟨rest, rfl⟩ := h
  have hfield : u64OfLe (zeros 8) = 0 := by decide
  show RecordHeader.mk (u64OfLe (zeros 8)) (u64OfLe (zeros 8)) (u64OfLe (zeros 8)) = _
  rw [hfield]

/-- Zeros below the recorded tail fail the checksum test of an empty record of transaction 0. -/
theorem scanRecord_zeros (h : zeros walRecordHeaderLen <+: bytes) : scanRecord bytes = .checksumMismatch 0 := by
  have hbad : checksumMatches ⟨0, 0, 0⟩ ⟨0, [], by decide⟩ = false := by decide +kernel
  simp only [scanRecord, decodeHeader_zeros h]
  rw [show takePayload ⟨0, 0, 0⟩ (bytes.drop walRecordHeaderLen) = some ⟨0, [], by decide⟩ from rfl]
  simp [hbad]

theorem zeros_of_isZero (hlen : walRecordHeaderLen ≤ bytes.length)
    (h : (decodeHeader bytes).isZero) : zeros walRecordHeaderLen <+: bytes := by
  simp only [RecordHeader.isZero, Bool.and_eq_true, beq_iff_eq] at h
  obtain ⟨⟨htxn, hpayload⟩, hchecksum⟩ := h
  have hbytes := u64ToLe_decodeHeader hlen
  rw [htxn, hpayload, hchecksum] at hbytes
  rw [show zeros walRecordHeaderLen = u64ToLe 0 ++ u64ToLe 0 ++ u64ToLe 0 from rfl, hbytes]
  exact take_prefix _ _

/-- Bytes that a recovery of `n` zeros reports as torn: too few for a header. -/
def tornZeros (n : ℕ) : ℕ := if n < walRecordHeaderLen then n else 0

theorem recoverLoop_zeros_of_tail_le (n fuel : ℕ)
    (records : List WalRecord) (hfuel : n ≤ fuel) (h : recordedTail ≤ offset) :
    recoverLoop path recordedTail fuel offset (zeros n) records = .ok ⟨records, offset, tornZeros n⟩ := by
  rcases Nat.eq_zero_or_pos n with rfl | hpos
  · cases fuel <;> simp [recoverLoop, zeros, recoverEnd_of_tail_le path records h, tornZeros, walRecordHeaderLen]
  · obtain ⟨fuel₁, rfl⟩ : ∃ fuel₁, fuel = fuel₁ + 1 := ⟨fuel - 1, by omega⟩
    have hne : zeros n ≠ [] := by
      simp only [zeros, ne_eq, replicate_eq_nil_iff]
      omega
    rw [recoverLoop, if_neg hne, length_zeros, tornZeros]
    split_ifs with hshort hzero
    · rw [recoverTorn_of_tail_le _ _ _ h, length_zeros]
    · rfl
    · refine absurd ⟨?_, by omega, ?_⟩ hzero
      · rw [decodeHeader_zeros (prefix_zeros (by omega))]; rfl
      · simp [zeros]

theorem recoverLoop_zeros_of_lt_tail {n fuel : ℕ} (hfuel : n ≤ fuel) (h : offset < recordedTail) :
    ∃ err, recoverLoop path recordedTail fuel offset (zeros n) records = .error err := by
  rcases Nat.eq_zero_or_pos n with rfl | hpos
  · refine ⟨endsShort path recordedTail offset, ?_⟩
    cases fuel <;> simp [recoverLoop, zeros, recoverEnd, h]
  · obtain ⟨fuel₁, rfl⟩ : ∃ fuel₁, fuel = fuel₁ + 1 := ⟨fuel - 1, by omega⟩
    have hne : zeros n ≠ [] := by
      simp only [zeros, ne_eq, replicate_eq_nil_iff]
      omega
    rw [recoverLoop, if_neg hne, length_zeros]
    by_cases hshort : n < walRecordHeaderLen
    · exact ⟨_, by rw [if_pos hshort, recoverTorn, if_pos h]⟩
    · refine ⟨recordChecksumMismatch path 0, ?_⟩
      rw [if_neg hshort, if_neg (by simp [h]), scanRecord_zeros (prefix_zeros (by omega))]
      exact if_pos h

/-- Recovery of a segment whose recorded tail lies inside its records returns exactly those. -/
theorem recoverWalSegment_complete (R : List WalRecord) (n : ℕ)
    (tail : Option (List Char)) (htail : readWalTailOffset tail ≤ 10 + (encodedRecords R).length) :
    recoverWalSegment path ⟨some (walSegmentMagic ++ encodedRecords R ++ zeros n), tail⟩ =
      .ok ⟨R, 10 + (encodedRecords R).length, tornZeros n⟩ := by
  rw [append_assoc, recoverWalSegment_magic_append]
  obtain ⟨fuel', hfuel', hloop⟩ := recoverLoop_encodedRecords_append path (readWalTailOffset tail) 10 R
    (zeros n) [] (encodedRecords R ++ zeros n).length le_rfl
  rw [hloop, recoverLoop_zeros_of_tail_le path n fuel' _ (by simpa using hfuel') htail, nil_append]

/-- **Recovery is sound and idempotent.**  What it keeps reaches the recorded tail, is the encoding of the
records that it returns, and is recovered again with any number of zeros behind it. -/
theorem recoverWalSegment_idempotent {path : String} {bytes : Bytes} {tail : Option (List Char)}
    (h : recoverWalSegment path ⟨some bytes, tail⟩ = .ok res) (hpos : 0 < res.validBytes) :
    readWalTailOffset tail ≤ res.validBytes ∧
      bytes.take res.validBytes = walSegmentMagic ++ encodedRecords res.records ∧
      ∀ n, ∃ again, recoverWalSegment path ⟨some (bytes.take res.validBytes ++ zeros n), tail⟩ = .ok again ∧
        again.records = res.records ∧ again.validBytes = res.validBytes := by
  obtain ⟨hzero, -⟩ | ⟨rest, hbytes, hvalid, htail⟩ := recoverWalSegment_sound h
  · omega
  have hcut : bytes.take res.validBytes = walSegmentMagic ++ encodedRecords res.records := by
    rw [Option.some.inj hbytes]
    exact take_left' (by rw [hvalid, length_append]; rfl)
  refine ⟨htail, hcut, ?_⟩
  intro n
  rw [hcut, recoverWalSegment_complete path _ n tail (hvalid ▸ htail)]
  exact ⟨_, rfl, rfl, hvalid.symm⟩

/-- One record with garbage behind it. -/
theorem recoverWalSegment_idempotent_torn :
    ∃ res, recoverWalSegment "wal.segment"
      ⟨some (walSegmentMagic ++ encodedRecords [⟨8, [], by decide⟩] ++ [9]),
        none⟩ = .ok res ∧
      ∀ n, ∃ again, recoverWalSegment "wal.segment" ⟨some ((walSegmentMagic ++
        encodedRecords [⟨8, [], by decide⟩] ++ [9]).take res.validBytes ++ zeros n), none⟩ = .ok again ∧
          again.records = res.records ∧ again.validBytes = res.validBytes :=
  have h : recoverWalSegment "wal.segment" ⟨some (walSegmentMagic ++ encodedRecords [⟨8, [], by decide⟩] ++ [9]),
      none⟩ = .ok ⟨[⟨8, [], by decide⟩], 34, 1⟩ := by decide +kernel
  ⟨_, h, (recoverWalSegment_idempotent h (by decide)).2.2⟩

/-- Recovery of a segment whose recorded tail lies behind its records fails. -/
theorem recoverWalSegment_stale_tail (R : List WalRecord) (n : ℕ)
    (tail : Option (List Char)) (htail : 10 + (encodedRecords R).length < readWalTailOffset tail) :
    ∃ err, recoverWalSegment path ⟨some (walSegmentMagic ++ encodedRecords R ++ zeros n), tail⟩ = .error err := by
  rw [append_assoc, recoverWalSegment_magic_append]
  obtain ⟨fuel', hfuel', hloop⟩ := recoverLoop_encodedRecords_append path (readWalTailOffset tail) 10 R
    (zeros n) [] (encodedRecords R ++ zeros n).length le_rfl
  rw [hloop]
  exact recoverLoop_zeros_of_lt_tail path (by simpa using hfuel') htail

/-! ### The strict reader -/

/-- The text of the I/O error that `read_exact` returns at the end of a file. -/
def unexpectedEof : String := "failed to fill whole buffer"

/-- The read loop of `read_wal_segment`; an all-zero header is a clean end whatever follows it. -/
def readLoop (path : String) : ℕ → Bytes → List WalRecord → Except EngineError (List WalRecord)
  | 0, _, records => .ok records
  | fuel + 1, rest, records =>
    if rest = [] then .ok records
    else if rest.length < walRecordHeaderLen then
      .error (.durability s!"failed to read WAL segment record header {path}: {unexpectedEof}")
    else if (decodeHeader rest).isZero then .ok records
    else
      match scanRecord rest with
      | .shortPayload =>
        .error (.durability s!"failed to read WAL segment payload {path}: {unexpectedEof}")
      | .checksumMismatch txnId => .error (recordChecksumMismatch path txnId)
      | .record r rest' => readLoop path fuel rest' (records ++ [r])

def readWalSegment (file : Option Bytes) : Except EngineError (List WalRecord) :=
  match file with
  | none => .error (.durability
      s!"failed to open WAL segment {path}: No such file or directory (os error 2)")
  | some bytes =>
    if bytes.length < walSegmentMagic.length then
      .error (.durability s!"failed to read WAL segment header {path}: {unexpectedEof}")
    else if bytes.take walSegmentMagic.length ≠ walSegmentMagic then .error (invalidHeader path)
    else
      let rest := bytes.drop walSegmentMagic.length
      readLoop path rest.length rest []

/-- `write_wal_segment_after_identity_check`: the content that is renamed into place. -/
def writeWalSegment (records : List WalRecord) : Bytes :=
  records.foldl encodeRecordInto walSegmentMagic

theorem writeWalSegment_eq (records : List WalRecord) :
    writeWalSegment records = walSegmentMagic ++ encodedRecords records :=
  foldl_encodeRecordInto walSegmentMagic records

/-- What the strict reader takes for the end of the log. -/
def EndsLog (rest : Bytes) : Prop := rest = [] ∨ zeros walRecordHeaderLen <+: rest

theorem EndsLog.length_ge (h : EndsLog rest) (hne : rest ≠ []) : walRecordHeaderLen ≤ rest.length := by
  obtain hnil | hzeros := h
  · exact absurd hnil hne
  · simpa using hzeros.length_le

theorem readLoop_encodedRecords (R records : List WalRecord) (rest : Bytes) (fuel : ℕ)
    (hfuel : (encodedRecords R ++ rest).length ≤ fuel) (hrest : EndsLog rest) :
    readLoop path fuel (encodedRecords R ++ rest) records = .ok (records ++ R) := by
  induction R generalizing records fuel with
  | nil =>
    rw [encodedRecords_nil, nil_append, append_nil]
    cases fuel with
    | zero => rfl
    | succ fuel =>
      rw [readLoop]
      split_ifs with hnil hshort hzero
      · rfl
      · exact absurd (hrest.length_ge hnil) (by omega)
      · rfl
      · exact absurd (by rw [decodeHeader_zeros (hrest.resolve_left hnil)]; rfl) hzero
  | cons r R ih =>
    rw [encodedRecords_cons, append_assoc, length_append, length_encodedRecord, encodedRecordLen,
      walRecordHeaderLen] at hfuel
    obtain ⟨fuel₁, rfl⟩ : ∃ fuel₁, fuel = fuel₁ + 1 := ⟨fuel - 1, by omega⟩
    obtain ⟨hne, hlen⟩ := headed_encodedRecord_append r
    rw [encodedRecords_cons, append_assoc, readLoop, if_neg hne, if_neg hlen,
      decodeHeader_encodedRecord_append, decodeHeader_encodedRecord_not_zero, if_neg (by simp),
      scanRecord_encodedRecord_append]
    simp only [ih _ fuel₁ (show (encodedRecords R ++ rest).length ≤ fuel₁ by omega), append_assoc,
      singleton_append]

end

/-- `result` adds to `records` an encoded run with the end of the log behind it. -/
def ReadRun (rest : Bytes) (records result : List WalRecord) : Prop :=
  ∃ R tail, rest = encodedRecords R ++ tail ∧ result = records ++ R ∧ EndsLog tail

variable {result : List WalRecord}

theorem readLoop_sound {fuel : ℕ} {rest : Bytes}
    (hfuel : rest.length ≤ fuel) (h : readLoop path fuel rest records = .ok result) :
    ReadRun rest records result := by
  induction fuel generalizing rest records with
  | zero =>
    obtain rfl := Except.ok.inj h
    exact ⟨[], rest, rfl, by simp, .inl (length_eq_zero_iff.mp (by omega))⟩
  | succ fuel ih =>
    rw [readLoop] at h
    split_ifs at h with hnil hshort hzero
    · obtain rfl := Except.ok.inj h
      exact ⟨[], rest, rfl, by simp, .inl hnil⟩
    · obtain rfl := Except.ok.inj h
      exact ⟨[], rest, rfl, by simp, .inr (zeros_of_isZero (by omega) hzero)⟩
    · cases hscan : scanRecord rest with
      | shortPayload | checksumMismatch txnId => rw [hscan] at h; cases h
      | record r rest' =>
        rw [hscan] at h
        have hrest := scanRecord_sound (by omega) hscan
        rw [hrest, length_append, length_encodedRecord, encodedRecordLen, walRecordHeaderLen] at hfuel
        obtain ⟨R, tail, hrest', hresult, htail⟩ := ih (by omega) h
        refine ⟨r :: R, tail, ?_, ?_, htail⟩
        · rw [hrest, hrest', encodedRecords_cons, append_assoc]
        · rw [hresult, append_assoc, singleton_append]

/-- The path only occurs in error texts. -/
theorem readLoop_ok_path {fuel : ℕ} {rest : Bytes}
    (h : readLoop path fuel rest records = .ok result) {other : String} :
    readLoop other fuel rest records = .ok result := by
  induction fuel generalizing rest records with
  | zero => exact h
  | succ fuel ih =>
    rw [readLoop] at h ⊢
    split at h
    · rwa [if_pos ‹_›]
    rw [if_neg ‹_›]
    split at h
    · cases h
    rw [if_neg ‹_›]
    split at h
    · rwa [if_pos ‹_›]
    rw [if_neg ‹_›]
    cases hscan : scanRecord rest with
    | shortPayload | checksumMismatch txnId => rw [hscan] at h; cases h
    | record r rest' =>
      rw [hscan] at h
      exact ih h

theorem readWalSegment_ok_path {file : Option Bytes}
    (h : readWalSegment path file = .ok records) (other : String) :
    readWalSegment other file = .ok records := by
  cases file with
  | none => cases h
  | some bytes =>
    rw [readWalSegment] at h ⊢
    simp only at h ⊢
    split at h
    · cases h
    rw [if_neg ‹_›]
    split at h
    · cases h
    rw [if_neg ‹_›]
    exact readLoop_ok_path h

variable (path : String)

theorem readWalSegment_magic_append (body : Bytes) :
    readWalSegment path (some (walSegmentMagic ++ body)) = readLoop path body.length body [] := by
  obtain ⟨hlen, htake, hdrop⟩ := walSegmentMagic_append body
  simp only [readWalSegment, if_neg hlen, htake, hdrop, ne_eq, not_true, if_false]

/-- **Round trip.**  A segment written in one go is read back record for record. -/
theorem readWalSegment_writeWalSegment (R : List WalRecord) :
    readWalSegment path (some (writeWalSegment R)) = .ok R := by
  rw [writeWalSegment_eq, readWalSegment_magic_append]
  simpa using readLoop_encodedRecords path R [] [] _ le_rfl (.inl rfl)

/-- Recovery stops where the strict reader does. -/
theorem recoverLoop_endsLog {fuel : ℕ} {rest : Bytes} (hfuel : rest.length ≤ fuel)
    (hrest : EndsLog rest) (h : recordedTail ≤ offset) :
    ∃ torn, recoverLoop path recordedTail fuel offset rest records = .ok ⟨records, offset, torn⟩ := by
  cases fuel with
  | zero => exact ⟨0, recoverEnd_of_tail_le path records h⟩
  | succ fuel =>
    rw [recoverLoop]
    split_ifs with hnil
    · exact ⟨0, recoverEnd_of_tail_le path records h⟩
    · exact ⟨_, recoverTorn_of_tail_le rest records _ h⟩
    · exact ⟨0, rfl⟩
    · rw [scanRecord_zeros (hrest.resolve_left hnil)]
      exact ⟨_, recoverTorn_of_tail_le rest records _ h⟩

/-- **What the strict reader accepts.**  An accepted segment is the magic, the encoded records and an end of
log, which is the end of the file or a zero header with anything behind it; recovery returns the same records. -/
theorem readWalSegment_ok_iff (path : String) (bytes : Bytes) (R : List WalRecord) :
    (readWalSegment path (some bytes) = .ok R ↔
      ∃ rest, bytes = walSegmentMagic ++ encodedRecords R ++ rest ∧ EndsLog rest) ∧
    (readWalSegment path (some bytes) = .ok R → ∀ tail, readWalTailOffset tail = 0 →
      ∃ res, recoverWalSegment path ⟨some bytes, tail⟩ = .ok res ∧ res.records = R) := by
  have hform : readWalSegment path (some bytes) = .ok R →
      ∃ rest, bytes = walSegmentMagic ++ encodedRecords R ++ rest ∧ EndsLog rest := by
    intro h
    simp only [readWalSegment] at h
    split_ifs at h with hshort hmagic
    obtain ⟨R', rest, hrest, rfl, hends⟩ := readLoop_sound le_rfl h
    refine ⟨rest, ?_, hends⟩
    have hsplit := take_append_drop walSegmentMagic.length bytes
    rw [not_ne_iff.mp hmagic, hrest] at hsplit
    rw [← hsplit, append_assoc]
  refine ⟨⟨hform, ?_⟩, ?_⟩
  · rintro ⟨rest, rfl, hends⟩
    rw [append_assoc, readWalSegment_magic_append, readLoop_encodedRecords path R [] rest _ le_rfl hends,
      nil_append]
  · intro h tail htail
    obtain ⟨rest, rfl, hends⟩ := hform h
    obtain ⟨fuel', hfuel', hloop⟩ := recoverLoop_encodedRecords_append path 0 10 R rest []
      (encodedRecords R ++ rest).length le_rfl
    obtain ⟨torn, hres⟩ := @recoverLoop_endsLog 0 (10 + (encodedRecords R).length) ([] ++ R) path fuel' rest hfuel'
      hends (Nat.zero_le _)
    rw [append_assoc, recoverWalSegment_magic_append, htail, hloop, hres]
    exact ⟨_, rfl, rfl⟩

/-- A tail that both readers see alike: no zeros that end inside a header, and only zeros behind a zero
header. -/
def WholeTail (rest : Bytes) : Prop :=
  (∀ n, rest = zeros n → n = 0 ∨ walRecordHeaderLen ≤ n) ∧
    ∀ behind, rest = zeros walRecordHeaderLen ++ behind → ∃ n, behind = zeros n

theorem endsLog_iff_zeros (rest : Bytes) : (EndsLog rest ↔ ∃ n, rest = zeros n) ↔ WholeTail rest := by
  constructor
  · intro hiff
    constructor
    · rintro n rfl
      rcases hiff.mpr ⟨n, rfl⟩ with hnil | hzeros
      · exact .inl (by simpa using congrArg length hnil)
      · exact .inr (by simpa using hzeros.length_le)
    · rintro behind rfl
      obtain ⟨n, hn⟩ := hiff.mp (.inr ⟨behind, rfl⟩)
      refine ⟨n - walRecordHeaderLen, ?_⟩
      rw [← drop_zeros, ← hn, drop_left' (length_zeros _)]
  · rintro ⟨hwhole, hbehind⟩
    constructor
    · rintro (rfl | ⟨behind, rfl⟩)
      · exact ⟨0, rfl⟩
      · obtain ⟨n, rfl⟩ := hbehind behind rfl
        exact ⟨walRecordHeaderLen + n, (zeros_add _ _).symm⟩
    · rintro ⟨n, rfl⟩
      rcases hwhole n rfl with rfl | hn
      · exact .inl rfl
      · exact .inr (prefix_zeros hn)

/-- **Intact segments.**  The strict reader accepts a file as `R` exactly when it is the magic, the encoded
records and zeros, if and only if what the file has behind those records is a `WholeTail`; and recovery
returns what the strict reader accepts. -/
theorem readWalSegment_intact_iff (path : String) (bytes : Bytes) (R : List WalRecord) :
    ((readWalSegment path (some bytes) = .ok R ↔
        ∃ n, bytes = walSegmentMagic ++ encodedRecords R ++ zeros n) ↔
      ∀ rest, bytes = walSegmentMagic ++ encodedRecords R ++ rest → WholeTail rest) ∧
    (readWalSegment path (some bytes) = .ok R → ∀ tail, readWalTailOffset tail = 0 →
      ∃ res, recoverWalSegment path ⟨some bytes, tail⟩ = .ok res ∧ res.records = R) := by
  obtain ⟨hiff, hrecover⟩ := readWalSegment_ok_iff path bytes R
  refine ⟨?_, hrecover⟩
  rw [hiff]
  by_cases hform : ∃ rest, bytes = walSegmentMagic ++ encodedRecords R ++ rest
  · obtain ⟨rest, rfl⟩ := hform
    simp only [append_cancel_left_eq, exists_eq_left', forall_eq']
    exact endsLog_iff_zeros rest
  · refine iff_of_true (iff_of_false ?_ ?_) fun rest hrest => absurd ⟨rest, hrest⟩ hform
    · rintro ⟨rest, hrest, -⟩
      exact hform ⟨rest, hrest⟩
    · rintro ⟨n, hn⟩
      exact hform ⟨_, hn⟩

/-- Bytes behind a zero header are accepted; ten zeros behind the magic are refused, though recovery takes
them for the end of the log. -/
theorem readWalSegment_not_only_zeros :
    (readWalSegment "wal.segment" (some (walSegmentMagic ++ encodedRecords [] ++ (zeros 24 ++ [1]))) = .ok [] ∧
      ∀ n, zeros 24 ++ [1] ≠ zeros n) ∧
    readWalSegment "wal.segment" (some (walSegmentMagic ++ encodedRecords [] ++ zeros 10)) ≠ .ok [] ∧
    recoverWalSegment "wal.segment" ⟨some (walSegmentMagic ++ encodedRecords [] ++ zeros 10), none⟩ =
      .ok ⟨[], 10, tornZeros 10⟩ := by
  refine ⟨⟨by decide +kernel, ?_⟩, by decide +kernel, recoverWalSegment_complete _ [] 10 none (Nat.zero_le _)⟩
  intro n heq
  have hone : (1 : UInt8) ∈ zeros n := heq ▸ mem_append_right _ (mem_singleton_self 1)
  exact absurd (eq_of_mem_replicate hone) (by decide)

end ThunderboltDb.Wal
