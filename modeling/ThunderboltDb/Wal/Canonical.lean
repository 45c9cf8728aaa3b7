import ThunderboltDb.Types
import ThunderboltDb.Lib.ByteCodec

/-!
# Canonical transaction header and outcome

The two fixed-width parts of a canonical WAL envelope: the outcome-free pre-apply header (240 bytes)
and the terminal outcome (92 bytes). Each has a validity check, an encoder into a buffer of exactly
its width, and a decoder that checks every reserved byte.

* `CanonicalPreApplyHeader.encodeInto_ok`, `CanonicalOutcome.encodeInto_ok` — what the encoders write.
-/

namespace ThunderboltDb.Wal.Canonical

open Lib

variable {self : CanonicalPreApplyHeader} {bs : Bytes}

/-- `CanonicalDigest`: 32 bytes. -/
abbrev CanonicalDigest := List.Vector UInt8 32

/-- SHA-256, about which nothing is assumed. -/
abbrev Sha256 := Bytes → CanonicalDigest

def durability (message : String) : EngineError := .durability ("canonical WAL: " ++ message)

/-! ### Constants -/

/-- `HEADER_MAGIC`: `GPUDBCANHDR1` and four zero bytes. -/
def headerMagic : Bytes := [71, 80, 85, 68, 66, 67, 65, 78, 72, 68, 82, 49, 0, 0, 0, 0]

/-- `FRAME_MAGIC`: `GPUDBCANWAL1` and four zero bytes. -/
def frameMagic : Bytes := [71, 80, 85, 68, 66, 67, 65, 78, 87, 65, 76, 49, 0, 0, 0, 0]

/-- `RECORD_MAGIC`: `GPUDBCANREC1` and four zero bytes. -/
def recordMagic : Bytes := [71, 80, 85, 68, 66, 67, 65, 78, 82, 69, 67, 49, 0, 0, 0, 0]

def formatVersion : UInt16 := 1
def semanticsVersion : UInt16 := 1
def minReaderVersion : UInt16 := 1
def maxReaderVersion : UInt16 := 1
def preapplyHeaderBytes : ℕ := 240
def canonicalOutcomeBytes : ℕ := 92

@[simp] theorem length_headerMagic : headerMagic.length = 16 := rfl
@[simp] theorem length_frameMagic : frameMagic.length = 16 := rfl
@[simp] theorem length_recordMagic : recordMagic.length = 16 := rfl

/-- `digest_parts`: the domain and every part, each behind its 64-bit length. -/
def digestParts (sha256 : Sha256) (domain : Bytes) (parts : List Bytes) : CanonicalDigest :=
  sha256 (u64ToLe (UInt64.ofNat domain.length) ++ domain ++
    parts.flatMap fun part => u64ToLe (UInt64.ofNat part.length) ++ part)

/-! ### The cursor and the fixed encoder

`Cursor` reads a byte slice front to back; its position is the number of bytes already consumed.
`FixedEncoder` writes into a caller's slice and must fill it. -/

namespace Cursor

abbrev take (n : ℕ) : Reader EngineError Bytes := Reader.take (durability "truncated encoding") n

abbrev array (n : ℕ) : Reader EngineError (List.Vector UInt8 n) :=
  Reader.array (durability "truncated encoding") n

abbrev u8 : Reader EngineError UInt8 := Reader.u8 (durability "truncated encoding")

abbrev u16 : Reader EngineError UInt16 := Reader.u16 (durability "truncated encoding")

abbrev u32 : Reader EngineError UInt32 := Reader.u32 (durability "truncated encoding")

abbrev u64 : Reader EngineError UInt64 := Reader.u64 (durability "truncated encoding")

/-- `if cursor.take(v.len())? != v { return Err(wrong) }`. -/
abbrev expect (wrong : String) (v : Bytes) : Reader EngineError Unit :=
  Reader.expect (durability "truncated encoding") (durability wrong) v

abbrev finish : Reader EngineError Unit := Reader.finish (durability "trailing bytes")

end Cursor

namespace FixedEncoder

abbrev bytes (value : Bytes) : BufferWriter EngineError Unit :=
  BufferWriter.put (durability "fixed encoder buffer length mismatch") value

abbrev u8 (value : UInt8) : BufferWriter EngineError Unit := bytes [value]

abbrev u16 (value : UInt16) : BufferWriter EngineError Unit := bytes (u16ToLe value)

abbrev u32 (value : UInt32) : BufferWriter EngineError Unit := bytes (u32ToLe value)

abbrev u64 (value : UInt64) : BufferWriter EngineError Unit := bytes (u64ToLe value)

/-- `FixedEncoder::new(out)`, the writes of `w`, and `finish`. -/
abbrev fill (out : Bytes) (w : BufferWriter EngineError Unit) : Except EngineError Bytes :=
  BufferWriter.fill (durability "fixed encoder leaves unwritten bytes") out w

end FixedEncoder

/-! ### Identities -/

def nonzeroIdentity (value : List.Vector UInt8 16) (field : String) : Except EngineError Unit :=
  refuse (∀ byte ∈ value.toList, byte = 0) (durability (field ++ " must not be all zero"))

structure CanonicalIdentity where
  databaseId : List.Vector UInt8 16
  clusterId : List.Vector UInt8 16
  timelineId : List.Vector UInt8 16
  formatEpoch : UInt64
  deriving DecidableEq

def CanonicalIdentity.validate (self : CanonicalIdentity) : Except EngineError Unit := do
  nonzeroIdentity self.databaseId "database id"
  nonzeroIdentity self.clusterId "cluster id"
  nonzeroIdentity self.timelineId "timeline id"
  refuse (self.formatEpoch = 0) (durability "format epoch zero is reserved")

inductive CanonicalIsolation where
  | readCommitted
  | repeatableRead
  | system
  deriving DecidableEq

def CanonicalIsolation.code : CanonicalIsolation → UInt8
  | .readCommitted => 1
  | .repeatableRead => 2
  | .system => 3

def CanonicalIsolation.decode (value : UInt8) : Except EngineError CanonicalIsolation :=
  match value with
  | 1 => .ok .readCommitted
  | 2 => .ok .repeatableRead
  | 3 => .ok .system
  | other => .error (durability s!"unsupported isolation code {other}")

variable {value : UInt8} {out rest : Bytes}

@[simp] theorem CanonicalIsolation.decode_ok {isolation : CanonicalIsolation} :
    CanonicalIsolation.decode value = .ok isolation ↔ value = isolation.code := by
  constructor
  · intro h
    unfold CanonicalIsolation.decode at h
    split at h <;> cases h <;> rfl
  · rintro rfl
    cases isolation <;> rfl

/-! ### The pre-apply header -/

/-- `CanonicalPreApplyHeader`: the immutable transaction header, without a root or a result. -/
structure CanonicalPreApplyHeader where
  identity : CanonicalIdentity
  leaderEpoch : UInt64
  commitSeq : UInt64
  stableTransactionId : UInt64
  requestDigest : CanonicalDigest
  isolation : CanonicalIsolation
  flags : UInt32
  catalogBeforeEpoch : UInt64
  catalogAfterEpoch : UInt64
  catalogBeforeDigest : CanonicalDigest
  catalogAfterDigest : CanonicalDigest
  operationCount : UInt32
  tableBlockCount : UInt32
  allocatorHighWater : UInt64
  deriving DecidableEq

namespace CanonicalPreApplyHeader

def validate (self : CanonicalPreApplyHeader) : Except EngineError Unit := do
  self.identity.validate
  refuse (self.leaderEpoch = 0) (durability "leader/log epoch zero is reserved")
  refuse (self.commitSeq = 0 ∨ self.commitSeq.toNat = UInt64.size - 1)
    (durability "commit sequence must be in 1..=u64::MAX-1")
  refuse (self.stableTransactionId = 0) (durability "stable transaction id zero is reserved")
  refuse (self.operationCount = 0) (durability "operation count must be non-zero")
  refuse (self.catalogAfterEpoch < self.catalogBeforeEpoch) (durability "catalog epoch regressed")

section

open FixedEncoder

variable (self : CanonicalPreApplyHeader)

def encodeInto (out : Bytes) : Except EngineError Bytes := do
  self.validate
  fill out do
    bytes headerMagic
    u16 formatVersion
    u16 semanticsVersion
    u16 minReaderVersion
    u16 maxReaderVersion
    bytes self.identity.databaseId.toList
    bytes self.identity.clusterId.toList
    bytes self.identity.timelineId.toList
    u64 self.identity.formatEpoch
    u64 self.leaderEpoch
    u64 self.commitSeq
    u64 self.stableTransactionId
    bytes self.requestDigest.toList
    u8 self.isolation.code
    bytes [0, 0, 0]
    u32 self.flags
    u64 self.catalogBeforeEpoch
    u64 self.catalogAfterEpoch
    bytes self.catalogBeforeDigest.toList
    bytes self.catalogAfterDigest.toList
    u32 self.operationCount
    u32 self.tableBlockCount
    u64 self.allocatorHighWater

def encode : Except EngineError Bytes :=
  self.encodeInto (List.replicate preapplyHeaderBytes 0)

def reader : Reader EngineError CanonicalPreApplyHeader := do
  Cursor.expect "invalid pre-apply header magic" headerMagic
  let format ← Cursor.u16
  let semantics ← Cursor.u16
  let minReader ← Cursor.u16
  let maxReader ← Cursor.u16
  refuse (format ≠ formatVersion ∨ semantics ≠ semanticsVersion ∨ minReader > formatVersion ∨
      maxReader < formatVersion)
    (durability (s!"unsupported header versions format={format} semantics={semantics} " ++
      s!"reader={minReader}..={maxReader}"))
  let databaseId ← Cursor.array 16
  let clusterId ← Cursor.array 16
  let timelineId ← Cursor.array 16
  let formatEpoch ← Cursor.u64
  let leaderEpoch ← Cursor.u64
  let commitSeq ← Cursor.u64
  let stableTransactionId ← Cursor.u64
  let requestDigest ← Cursor.array 32
  let isolation ← CanonicalIsolation.decode (← Cursor.u8)
  Cursor.expect "non-zero reserved header bytes" [0, 0, 0]
  let flags ← Cursor.u32
  let catalogBeforeEpoch ← Cursor.u64
  let catalogAfterEpoch ← Cursor.u64
  let catalogBeforeDigest ← Cursor.array 32
  let catalogAfterDigest ← Cursor.array 32
  let operationCount ← Cursor.u32
  let tableBlockCount ← Cursor.u32
  let allocatorHighWater ← Cursor.u64
  Cursor.finish
  return {
    identity := { databaseId, clusterId, timelineId, formatEpoch }
    leaderEpoch, commitSeq, stableTransactionId, requestDigest, isolation, flags
    catalogBeforeEpoch, catalogAfterEpoch, catalogBeforeDigest, catalogAfterDigest
    operationCount, tableBlockCount, allocatorHighWater }

def decode (bytes : Bytes) : Except EngineError CanonicalPreApplyHeader := do
  let header ← reader.on bytes
  header.validate
  return header

/-- The header bytes with reader range `minReader..=maxReader`. -/
def image (minReader maxReader : UInt16) (self : CanonicalPreApplyHeader) : Bytes :=
  headerMagic ++ (u16ToLe formatVersion ++ (u16ToLe semanticsVersion ++ (u16ToLe minReader ++
  (u16ToLe maxReader ++ (self.identity.databaseId.toList ++ (self.identity.clusterId.toList ++
  (self.identity.timelineId.toList ++ (u64ToLe self.identity.formatEpoch ++ (u64ToLe self.leaderEpoch ++
  (u64ToLe self.commitSeq ++ (u64ToLe self.stableTransactionId ++ (self.requestDigest.toList ++
  ([self.isolation.code] ++ ([0, 0, 0] ++ (u32ToLe self.flags ++ (u64ToLe self.catalogBeforeEpoch ++
  (u64ToLe self.catalogAfterEpoch ++ (self.catalogBeforeDigest.toList ++
  (self.catalogAfterDigest.toList ++ (u32ToLe self.operationCount ++ (u32ToLe self.tableBlockCount ++
  u64ToLe self.allocatorHighWater)))))))))))))))))))))

/-- The bytes the encoder writes. -/
abbrev written : Bytes := self.image minReaderVersion maxReaderVersion

end

theorem length_image (minReader maxReader : UInt16) (self : CanonicalPreApplyHeader) :
    (self.image minReader maxReader).length = preapplyHeaderBytes := by
  simp [image, preapplyHeaderBytes]

theorem encodeInto_ok : self.encodeInto out = .ok bs ↔
      self.validate = .ok () ∧ preapplyHeaderBytes = out.length ∧ self.written = bs := by
  have hlen := self.length_image minReaderVersion maxReaderVersion
  rw [encodeInto, except_seq_ok]
  simp only [BufferWriter.put_put, BufferWriter.fill_put, ← image.eq_def, hlen]

theorem encode_ok : self.encode = .ok bs ↔ self.validate = .ok () ∧ self.written = bs := by
  rw [encode, encodeInto_ok, List.length_replicate]
  simp only [true_and]

theorem reader_reads : reader.Reads bs self rest ↔
      ∃ minReader maxReader, minReader ≤ formatVersion ∧ formatVersion ≤ maxReader ∧
        bs = self.image minReader maxReader ∧ rest = [] := by
  simp only [reader, Reader.reads_bind, Reader.reads_expect, Reader.reads_u16, Reader.reads_array,
    Reader.reads_u8, Reader.reads_u32, Reader.reads_u64, Reader.reads_lift, refuse_eq_ok,
    CanonicalIsolation.decode_ok, Reader.reads_finish, Reader.reads_pure, existsAndEq, and_assoc,
    exists_const, true_and, not_or, not_not, List.append_nil]
  constructor
  · rintro ⟨minReader, maxReader, _, _, _, _, _, _, _, _, _, _, _, _, _, _, _, _, _, rfl, hmin, hmax,
      rfl, rfl⟩
    exact ⟨minReader, maxReader, UInt16.not_lt.mp hmin, UInt16.not_lt.mp hmax, rfl, rfl⟩
  · rintro ⟨minReader, maxReader, hmin, hmax, rfl, rfl⟩
    exact ⟨minReader, maxReader, _, _, _, _, _, _, _, _, _, _, _, _, _, _, _, _, _, rfl,
      UInt16.not_lt.mpr hmin, UInt16.not_lt.mpr hmax, rfl, rfl⟩

/-- The decoder takes any reader range around version 1, so it accepts more than the encoder writes. -/
theorem decode_ok : decode bs = .ok self ↔ self.validate = .ok () ∧
      ∃ minReader maxReader, minReader ≤ formatVersion ∧ formatVersion ≤ maxReader ∧
        bs = self.image minReader maxReader := by
  rw [decode, Reader.on_check_ok]
  simp only [reader_reads]
  constructor
  · rintro ⟨⟨rest, minReader, maxReader, hmin, hmax, hbs, -⟩, hvalid⟩
    exact ⟨hvalid, minReader, maxReader, hmin, hmax, hbs⟩
  · rintro ⟨hvalid, minReader, maxReader, hmin, hmax, hbs⟩
    exact ⟨⟨[], minReader, maxReader, hmin, hmax, hbs, rfl⟩, hvalid⟩

theorem decode_written (hvalid : self.validate = .ok ()) : decode self.written = .ok self :=
  decode_ok.mpr ⟨hvalid, _, _, UInt16.le_refl _, UInt16.le_refl _, rfl⟩

end CanonicalPreApplyHeader

/-! ### The terminal outcome -/

inductive CanonicalOutcomeKind where
  | commitSuccess
  | commitNoOp
  | abortError
  deriving DecidableEq

def CanonicalOutcomeKind.code : CanonicalOutcomeKind → UInt8
  | .commitSuccess => 1
  | .commitNoOp => 2
  | .abortError => 3

def CanonicalOutcomeKind.decode (value : UInt8) : Except EngineError CanonicalOutcomeKind :=
  match value with
  | 1 => .ok .commitSuccess
  | 2 => .ok .commitNoOp
  | 3 => .ok .abortError
  | other => .error (durability s!"unsupported outcome kind {other}")

@[simp] theorem CanonicalOutcomeKind.decode_ok {kind : CanonicalOutcomeKind} :
    CanonicalOutcomeKind.decode value = .ok kind ↔ value = kind.code := by
  constructor
  · intro h
    unfold CanonicalOutcomeKind.decode at h
    split at h <;> cases h <;> rfl
  · rintro rfl
    cases kind <;> rfl

def isAsciiDigit (byte : UInt8) : Bool := 48 ≤ byte && byte ≤ 57

def isAsciiUppercase (byte : UInt8) : Bool := 65 ≤ byte && byte ≤ 90

def isAsciiAlphanumeric (byte : UInt8) : Bool :=
  isAsciiDigit byte || isAsciiUppercase byte || (97 ≤ byte && byte ≤ 122)

structure CanonicalOutcome where
  kind : CanonicalOutcomeKind
  affectedRows : UInt64
  sqlstate : Option (List.Vector UInt8 5)
  constraintId : UInt64
  targetDigest : CanonicalDigest
  returningDigest : CanonicalDigest
  deriving DecidableEq

/-- `[0; n]`. -/
def zeroArray (n : ℕ) : List.Vector UInt8 n := List.Vector.replicate n 0

/-- A hash to run samples with. -/
def sampleHash : Sha256 := fun _ => zeroArray 32

namespace CanonicalOutcome

section

open FixedEncoder

variable (self : CanonicalOutcome)

def validate : Except EngineError Unit :=
  match self.kind, self.sqlstate with
  | .abortError, some state =>
    refuse (¬ state.toList.all isAsciiAlphanumeric) (durability "AbortError requires an ASCII SQLSTATE")
  | .abortError, none => .error (durability "AbortError requires an ASCII SQLSTATE")
  | _, none => .ok ()
  | _, some _ => .error (durability "successful outcome must not carry SQLSTATE")

/-- `u8::from(flag)`. -/
def flagByte (flag : Bool) : UInt8 := if flag then 1 else 0

def encodeInto (out : Bytes) : Except EngineError Bytes := do
  self.validate
  fill out do
    u8 self.kind.code
    u8 (flagByte self.sqlstate.isSome)
    bytes [0, 0]
    u64 self.affectedRows
    u64 self.constraintId
    bytes (self.sqlstate.getD (zeroArray 5)).toList
    bytes [0, 0, 0]
    bytes self.targetDigest.toList
    bytes self.returningDigest.toList

/-- The SQLSTATE flag. -/
def readFlag (value : UInt8) : Except EngineError Bool :=
  match value with
  | 0 => .ok false
  | 1 => .ok true
  | other => .error (durability s!"invalid SQLSTATE flag {other}")

def reader : Reader EngineError CanonicalOutcome := do
  let kind ← CanonicalOutcomeKind.decode (← Cursor.u8)
  let hasSqlstate ← readFlag (← Cursor.u8)
  Cursor.expect "non-zero outcome reserved bytes" [0, 0]
  let affectedRows ← Cursor.u64
  let constraintId ← Cursor.u64
  let state ← Cursor.array 5
  refuse (hasSqlstate = false ∧ state ≠ zeroArray 5) (durability "non-zero absent outcome SQLSTATE")
  Cursor.expect "non-zero outcome padding" [0, 0, 0]
  let targetDigest ← Cursor.array 32
  let returningDigest ← Cursor.array 32
  Cursor.finish
  return {
    kind, affectedRows, constraintId, targetDigest, returningDigest
    sqlstate := if hasSqlstate then some state else none }

def decode (bytes : Bytes) : Except EngineError CanonicalOutcome := do
  let outcome ← reader.on bytes
  outcome.validate
  return outcome

/-- The outcome bytes. -/
def image : Bytes :=
  [self.kind.code] ++ ([flagByte self.sqlstate.isSome] ++ ([0, 0] ++ (u64ToLe self.affectedRows ++
  (u64ToLe self.constraintId ++ ((self.sqlstate.getD (zeroArray 5)).toList ++ ([0, 0, 0] ++
  (self.targetDigest.toList ++ self.returningDigest.toList)))))))

theorem length_image : self.image.length = canonicalOutcomeBytes := by
  simp [image, canonicalOutcomeBytes]

end

variable {self : CanonicalOutcome}

theorem encodeInto_ok : self.encodeInto out = .ok bs ↔
      self.validate = .ok () ∧ canonicalOutcomeBytes = out.length ∧ self.image = bs := by
  rw [encodeInto, except_seq_ok]
  simp only [BufferWriter.put_put, BufferWriter.fill_put, ← image.eq_def, self.length_image]

@[simp] theorem readFlag_ok {flag : Bool} : readFlag value = .ok flag ↔ value = flagByte flag := by
  constructor
  · intro h
    unfold readFlag at h
    split at h <;> cases h <;> rfl
  · rintro rfl
    cases flag <;> rfl

theorem reader_reads : reader.Reads bs self rest ↔ bs = self.image ∧ rest = [] := by
  simp only [reader, Reader.reads_bind, Reader.reads_expect, Reader.reads_array, Reader.reads_u8,
    Reader.reads_u64, Reader.reads_lift, refuse_eq_ok, CanonicalOutcomeKind.decode_ok, readFlag_ok,
    Reader.reads_finish, Reader.reads_pure, existsAndEq, and_assoc, exists_const, true_and,
    not_and, not_not, List.append_nil]
  constructor
  · rintro ⟨kind, flag, _, _, state, _, _, rfl, habsent, rfl, rfl⟩
    refine ⟨?_, rfl⟩
    cases flag with
    | false => rw [habsent rfl]; rfl
    | true => rfl
  · rintro ⟨rfl, rfl⟩
    refine ⟨self.kind, self.sqlstate.isSome, self.affectedRows, self.constraintId,
      self.sqlstate.getD (zeroArray 5), self.targetDigest, self.returningDigest, rfl, ?_, ?_, rfl⟩
    · intro hnone
      rw [Option.isSome_eq_false_iff.mp hnone |> Option.isNone_iff_eq_none.mp]
      rfl
    · cases self with
      | mk kind affectedRows sqlstate constraintId targetDigest returningDigest =>
        cases sqlstate <;> rfl

theorem decode_ok : decode bs = .ok self ↔ self.validate = .ok () ∧ bs = self.image := by
  rw [decode, Reader.on_check_ok]
  simp only [reader_reads, exists_and_left, exists_eq, and_true]
  exact and_comm

end CanonicalOutcome

/-- `encode_canonical_outcome_into_exact`: the outcome in a buffer of its exact width. -/
def encodeCanonicalOutcomeIntoExact (outcome : CanonicalOutcome) (out : Bytes) :
    Except EngineError Bytes :=
  outcome.encodeInto out

def decodeCanonicalOutcomeExact (bytes : Bytes) : Except EngineError CanonicalOutcome := do
  refuse (bytes.length ≠ canonicalOutcomeBytes)
    (durability s!"canonical outcome length {bytes.length} does not match exact width 92")
  CanonicalOutcome.decode bytes

theorem decodeCanonicalOutcomeExact_ok {outcome : CanonicalOutcome} :
    decodeCanonicalOutcomeExact bs = .ok outcome ↔ outcome.validate = .ok () ∧ bs = outcome.image := by
  rw [decodeCanonicalOutcomeExact, except_seq_ok, refuse_eq_ok, CanonicalOutcome.decode_ok, not_not]
  constructor
  · exact fun h => h.2
  · rintro ⟨hvalid, rfl⟩
    exact ⟨outcome.length_image, hvalid, rfl⟩

end ThunderboltDb.Wal.Canonical
