import ThunderboltDb.Types
import ThunderboltDb.Lib.LittleEndian

/-!
# WAL records and their on-disk form

A WAL record is a transaction id and a payload. On disk it is a 24-byte header (transaction id,
payload length, checksum, each 64-bit little-endian) followed by the payload; the checksum is FNV-1a
over the first two header fields and the payload.

* `decodeHeader_encodedRecord_append`, `takePayload_encodedRecord_append` — reading back what the
  encoder wrote, whatever follows it.
-/

namespace ThunderboltDb.Wal

open Lib List

/-- `WAL_SEGMENT_MAGIC`: the bytes `GPUDBWAL1\n` at the start of every segment. -/
def walSegmentMagic : Bytes := [71, 80, 85, 68, 66, 87, 65, 76, 49, 10]

def walRecordHeaderLen : ℕ := 24

@[simp] theorem length_walSegmentMagic : walSegmentMagic.length = 10 := rfl

/-- One log record. A payload is a Rust slice, so its length fits a `u64`. -/
structure WalRecord where
  txnId : TxnId
  payload : Bytes
  payload_length_lt : payload.length < 2 ^ 64
  deriving DecidableEq

open WalRecord

section

variable (r : WalRecord) (buf : Bytes) (rs : List WalRecord)

/-- The payload length as the header stores it. -/
def WalRecord.payloadLen : UInt64 := UInt64.ofNat r.payload.length

@[simp] theorem WalRecord.toNat_payloadLen : r.payloadLen.toNat = r.payload.length := by
  have h := r.payload_length_lt
  rw [payloadLen, UInt64.toNat_ofNat']
  exact Nat.mod_eq_of_lt h

@[ext] theorem WalRecord.ext_fields {r s : WalRecord} (ht : r.txnId = s.txnId)
    (hp : r.payload = s.payload) : r = s := by
  cases r
  cases s
  simp_all

/-! ### Checksum -/

/-- One FNV-1a pass over a byte string. -/
def fnvStep (hash : UInt64) (bytes : Bytes) : UInt64 :=
  bytes.foldl (fun hash byte => (hash ^^^ byte.toUInt64) * 0x100000001b3) hash

def walRecordChecksum (txnId payloadLen : UInt64) (payload : Bytes) : UInt64 :=
  let hash := 0xcbf29ce484222325
  let hash := fnvStep hash (u64ToLe txnId)
  let hash := fnvStep hash (u64ToLe payloadLen)
  fnvStep hash payload

/-- The checksum of an empty record of transaction 0 is not 0, so no record has an all-zero header. -/
theorem walRecordChecksum_zero_ne_zero : walRecordChecksum 0 0 [] ≠ 0 := by decide +kernel

/-! ### Encoding -/

/-- `encode_record_header_into`: the 24 header bytes. -/
def encodeRecordHeader : Bytes :=
  u64ToLe r.txnId ++ u64ToLe r.payloadLen ++
    u64ToLe (walRecordChecksum r.txnId r.payloadLen r.payload)

/-- `encode_record_into`: append one record's header and payload to `buf`. -/
def encodeRecordInto (r : WalRecord) : Bytes :=
  buf ++ encodeRecordHeader r ++ r.payload

def encodedRecord : Bytes := encodeRecordInto [] r

/-- The bytes of a run of records, one after another. -/
def encodedRecords : Bytes := rs.flatMap encodedRecord

def encodedRecordLen : ℕ := walRecordHeaderLen + r.payload.length

@[simp] theorem length_encodeRecordHeader : (encodeRecordHeader r).length = 24 := by
  simp [encodeRecordHeader]

theorem encodedRecord_eq : encodedRecord r = encodeRecordHeader r ++ r.payload := by
  simp [encodedRecord, encodeRecordInto]

theorem encodeRecordInto_eq (r : WalRecord) : encodeRecordInto buf r = buf ++ encodedRecord r := by
  rw [encodedRecord_eq, encodeRecordInto, append_assoc]

@[simp] theorem length_encodedRecord : (encodedRecord r).length = encodedRecordLen r := by
  simp [encodedRecord_eq, encodedRecordLen, walRecordHeaderLen]

@[simp] theorem encodedRecords_nil : encodedRecords [] = [] := rfl

@[simp] theorem encodedRecords_cons : encodedRecords (r :: rs) = encodedRecord r ++ encodedRecords rs := rfl

@[simp] theorem encodedRecords_append (rs ss : List WalRecord) :
    encodedRecords (rs ++ ss) = encodedRecords rs ++ encodedRecords ss := by
  simp [encodedRecords]

/-- Encoding a run into a buffer record by record appends the run's bytes. -/
theorem foldl_encodeRecordInto : rs.foldl encodeRecordInto buf = buf ++ encodedRecords rs := by
  induction rs generalizing buf with
  | nil => simp
  | cons r rs ih => rw [foldl_cons, ih, encodeRecordInto_eq, encodedRecords_cons, append_assoc]

/-! ### Reading one record -/

/-- The three header fields. -/
structure RecordHeader where
  txnId : UInt64
  payloadLen : UInt64
  checksum : UInt64
  deriving DecidableEq

/-- The header fields at the start of `bytes`. -/
def decodeHeader (bytes : Bytes) : RecordHeader where
  txnId := u64OfLe (bytes.take 8)
  payloadLen := u64OfLe ((bytes.drop 8).take 8)
  checksum := u64OfLe ((bytes.drop 16).take 8)

variable (h : RecordHeader)

/-- The header that zero-filled space decodes to. -/
def RecordHeader.isZero : Bool :=
  h.txnId == 0 && h.payloadLen == 0 && h.checksum == 0

/-- The record a header and the bytes after it describe, when the payload is complete. `usize` holds
every length here: a payload end past `usize::MAX` is past the end of every file too. -/
def takePayload (body : Bytes) : Option WalRecord :=
  if h.payloadLen.toNat ≤ body.length then
    some ⟨h.txnId, body.take h.payloadLen.toNat,
      lt_of_le_of_lt (List.length_take_le _ _) h.payloadLen.toNat_lt⟩
  else none

/-- The checksum test a reader makes on a complete record. -/
def checksumMatches (r : WalRecord) : Bool :=
  walRecordChecksum h.txnId h.payloadLen r.payload == h.checksum

/-- The header the encoder writes for a record. -/
def WalRecord.header : RecordHeader :=
  ⟨r.txnId, r.payloadLen, walRecordChecksum r.txnId r.payloadLen r.payload⟩

end

section

variable (r : WalRecord) (rest : Bytes)
include r rest

theorem decodeHeader_encodedRecord_append : decodeHeader (encodedRecord r ++ rest) = r.header := by
  have ht : ((encodedRecord r ++ rest).take 8) = u64ToLe r.txnId := by
    simp [encodedRecord_eq, encodeRecordHeader]
  have hl : ((encodedRecord r ++ rest).drop 8).take 8 = u64ToLe r.payloadLen := by
    simp [encodedRecord_eq, encodeRecordHeader]
  have hc : ((encodedRecord r ++ rest).drop 16).take 8 =
      u64ToLe (walRecordChecksum r.txnId r.payloadLen r.payload) := by
    simp [encodedRecord_eq, encodeRecordHeader, drop_append, drop_of_length_le]
  simp only [decodeHeader, ht, hl, hc, u64OfLe_u64ToLe, header]

theorem drop_header_encodedRecord_append :
    (encodedRecord r ++ rest).drop walRecordHeaderLen = r.payload ++ rest := by
  rw [encodedRecord_eq, append_assoc]
  exact drop_left' (length_encodeRecordHeader r)

theorem takePayload_encodedRecord_append : takePayload r.header (r.payload ++ rest) = some r := by
  have hlen : r.header.payloadLen.toNat = r.payload.length := r.toNat_payloadLen
  rw [takePayload, if_pos (by rw [hlen, length_append]; omega)]
  refine congrArg some (ext_fields rfl ?_)
  simp [hlen]

end

theorem checksumMatches_header (r : WalRecord) : checksumMatches r.header r = true := by
  simp [checksumMatches, header]

variable {bytes : Bytes}

/-- The three fields of a header are its 24 bytes. -/
theorem u64ToLe_decodeHeader (h : walRecordHeaderLen ≤ bytes.length) :
    u64ToLe (decodeHeader bytes).txnId ++ u64ToLe (decodeHeader bytes).payloadLen ++
      u64ToLe (decodeHeader bytes).checksum = bytes.take walRecordHeaderLen := by
  rw [walRecordHeaderLen] at h ⊢
  rw [decodeHeader, u64ToLe_u64OfLe (by simp; omega), u64ToLe_u64OfLe (by simp; omega),
    u64ToLe_u64OfLe (by simp; omega), show (24 : ℕ) = 8 + 8 + 8 from rfl, take_add,
    take_add]

/-- Bytes that pass a reader's tests start with the encoding of the record it returns. -/
theorem eq_encodedRecord_append {r : WalRecord} (hlen : walRecordHeaderLen ≤ bytes.length)
    (hr : takePayload (decodeHeader bytes) (bytes.drop walRecordHeaderLen) = some r)
    (hc : checksumMatches (decodeHeader bytes) r = true) :
    bytes = encodedRecord r ++ bytes.drop (encodedRecordLen r) := by
  rw [takePayload] at hr
  split at hr
  case isFalse => cases hr
  case isTrue hle =>
    obtain rfl := Option.some.inj hr
    have hplen : ((bytes.drop walRecordHeaderLen).take
        (decodeHeader bytes).payloadLen.toNat).length = (decodeHeader bytes).payloadLen.toNat := by
      rw [length_take]
      omega
    have hchk : walRecordChecksum (decodeHeader bytes).txnId (decodeHeader bytes).payloadLen
        ((bytes.drop walRecordHeaderLen).take (decodeHeader bytes).payloadLen.toNat) =
          (decodeHeader bytes).checksum := by
      simpa [checksumMatches] using hc
    have hhead : encodeRecordHeader ⟨(decodeHeader bytes).txnId,
        (bytes.drop walRecordHeaderLen).take (decodeHeader bytes).payloadLen.toNat,
        lt_of_le_of_lt (length_take_le _ _) (decodeHeader bytes).payloadLen.toNat_lt⟩ =
          bytes.take walRecordHeaderLen := by
      rw [← u64ToLe_decodeHeader hlen]
      simp only [encodeRecordHeader, payloadLen, hplen, UInt64.ofNat_toNat, hchk]
    rw [encodedRecord_eq, hhead, encodedRecordLen]
    simp only [hplen]
    rw [append_assoc, ← drop_drop, take_append_drop, take_append_drop]

/-- A real record is never mistaken for the zero preallocation: with id 0 and length 0 its payload is
empty and its checksum is the nonzero `walRecordChecksum 0 0 []`. -/
theorem decodeHeader_encodedRecord_not_zero (r : WalRecord) : r.header.isZero = false := by
  by_contra hz
  simp only [RecordHeader.isZero, header, Bool.not_eq_false, Bool.and_eq_true, beq_iff_eq] at hz
  obtain ⟨⟨ht, hl⟩, hc⟩ := hz
  have hempty : r.payload = [] := by
    have hlen := r.toNat_payloadLen
    rw [hl] at hlen
    exact length_eq_zero_iff.mp hlen.symm
  rw [ht, hl, hempty] at hc
  exact walRecordChecksum_zero_ne_zero hc

end ThunderboltDb.Wal
