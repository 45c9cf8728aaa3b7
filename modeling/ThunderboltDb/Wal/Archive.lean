import ThunderboltDb.Wal.Canonical
import ThunderboltDb.Wal.Checkpoint
import ThunderboltDb.Lib.TextFile
import ThunderboltDb.Lib.UnixPath

/-!
# WAL archives: segments named by a checksummed manifest

An archive is a list of strict segments and a text manifest that names them, with record counts, id
ranges and optional commit timestamps. `write_wal_archive_with_timestamps` makes one from a record list,
`append_wal_archive_segment_with_timestamps` adds a segment file that exists already, and
`read_wal_archive` reads everything back.

Files live in a `FileStore`. Directories, I/O errors, the durable-identity anchor beside a segment and
paths that are not Unicode are not modelled; `usize` counts are natural numbers.
-/

namespace ThunderboltDb.Wal

open Lib WalRecord
open Canonical (Sha256)

/-! ### Data -/

structure WalArchiveSegment where
  segmentPath : UnixPath
  recordCount : ℕ
  firstTxnId : Option TxnId
  lastTxnId : Option TxnId
  deriving DecidableEq

structure WalArchiveRecordTimestamp where
  txnId : TxnId
  timestampMicros : UInt64
  deriving DecidableEq

structure WalArchiveManifest where
  segments : List WalArchiveSegment
  checkpoint : WalCheckpointMeta
  recordTimestamps : List WalArchiveRecordTimestamp
  deriving DecidableEq

def walArchiveManifestMagicV1 : List Char := "GPUDBWALARCHIVE1".toList

def walArchiveManifestMagic : List Char := "GPUDBWALARCHIVE2".toList

/-- `path.display()`. -/
def display (path : UnixPath) : String := String.ofList path.text

variable (manifestPath : UnixPath) (manifest : WalArchiveManifest)

def archiveError (message : String) : EngineError :=
  .durability ("WAL archive " ++ display manifestPath ++ " " ++ message)

/-! ### Validation -/

/-- `windows(2)`: the first two neighbours that satisfy `bad`. -/
def findWindow {α : Type} (bad : α → α → Bool) : List α → Option (α × α)
  | a :: b :: rest => if bad a b then some (a, b) else findWindow bad (b :: rest)
  | _ => none

def validateArchiveManifestShape :
    Except EngineError Unit := do
  let segmentRecords := (manifest.segments.map (·.recordCount)).sum
  refuse (segmentRecords ≠ manifest.checkpoint.durableRecordCount)
    (archiveError manifestPath (s!"expected {manifest.checkpoint.durableRecordCount} durable records " ++
      s!"but manifest segments describe {segmentRecords}"))
  refuse (manifest.segments = [] ∧ manifest.checkpoint.lastDurableTxnId.isSome)
    (archiveError manifestPath "has no segments but records a last durable transaction")
  refuse (manifest.recordTimestamps ≠ [] ∧
      manifest.recordTimestamps.length ≠ manifest.checkpoint.durableRecordCount)
    (archiveError manifestPath (s!"expected {manifest.checkpoint.durableRecordCount} timestamp records " ++
      s!"but manifest contains {manifest.recordTimestamps.length}"))

/-- The id-order loop, in the whole archive (`what` empty) or in an ingested segment. -/
def validateIncreasing (what : String) (records : List WalRecord) :
    Except EngineError Unit :=
  match findWindow (fun a b => b.txnId ≤ a.txnId) records with
  | none => .ok ()
  | some (a, b) => .error (archiveError manifestPath
      (what ++ s!"has non-increasing transaction order at {a.txnId} then {b.txnId}"))

variable (segmentRecords : List WalRecord)
  (records : List WalRecord) (recordTimestamps : List WalArchiveRecordTimestamp)

def validateArchiveIngestContinuity : Except EngineError Unit :=
  match segmentRecords.head?.map txnId with
  | none => .ok ()
  | some firstAppendedTxn => do
    match manifest.checkpoint.lastDurableTxnId with
    | none => .ok ()
    | some lastDurableTxn =>
      refuse (firstAppendedTxn ≤ lastDurableTxn) (archiveError manifestPath
        (s!"ingest segment starts at transaction {firstAppendedTxn} " ++
          s!"not after durable transaction {lastDurableTxn}"))
    validateIncreasing manifestPath "ingest segment " segmentRecords

def validateTimestampMetadata : Except EngineError Unit :=
  if recordTimestamps = [] then .ok ()
  else do
    refuse (recordTimestamps.length ≠ records.length) (archiveError manifestPath
      (s!"expected {records.length} timestamp records but received {recordTimestamps.length}"))
    match (records.zip recordTimestamps).find? (fun pair => pair.1.txnId ≠ pair.2.txnId) with
    | none => .ok ()
    | some (record, timestamp) => .error (archiveError manifestPath
        (s!"timestamp metadata transaction {timestamp.txnId} does not match " ++
          s!"record transaction {record.txnId}"))

def validateArchiveIngestTimestamps : Except EngineError Unit := do
  match manifest.recordTimestamps.isEmpty, manifest.checkpoint.durableRecordCount,
      recordTimestamps.isEmpty with
  | true, 0, _ => .ok ()
  | true, _, true => .ok ()
  | true, _, false => .error (archiveError manifestPath
      "cannot add timestamp metadata to an existing archive without timestamps")
  | false, _, true => .error (archiveError manifestPath
      "requires timestamp metadata for ingested segment")
  | false, _, false => .ok ()
  validateTimestampMetadata manifestPath segmentRecords recordTimestamps
  match manifest.recordTimestamps.getLast?, recordTimestamps.head? with
  | some existingLast, some appendedFirst =>
    refuse (appendedFirst.timestampMicros < existingLast.timestampMicros) (archiveError manifestPath
      (s!"ingest segment timestamp {appendedFirst.timestampMicros} is before " ++
        s!"last archived timestamp {existingLast.timestampMicros}"))
  | _, _ => .ok ()

variable (segment : WalArchiveSegment)

def validateArchiveSegment (records : List WalRecord) : Except EngineError Unit := do
  refuse (records.length ≠ segment.recordCount) (archiveError manifestPath
    ("segment " ++ display segment.segmentPath ++
      s!" expected {segment.recordCount} records but contains {records.length}"))
  let actualFirst := records.head?.map txnId
  let actualLast := records.getLast?.map txnId
  refuse (actualFirst ≠ segment.firstTxnId ∨ actualLast ≠ segment.lastTxnId) (archiveError manifestPath
    ("segment " ++ display segment.segmentPath ++ " expected txn range " ++ txnText segment.firstTxnId ++
      ".." ++ txnText segment.lastTxnId ++ " but contains " ++ txnText actualFirst ++ ".." ++
      txnText actualLast))

def validateArchiveRecords : Except EngineError Unit := do
  refuse (records.length ≠ manifest.checkpoint.durableRecordCount) (archiveError manifestPath
    (s!"expected {manifest.checkpoint.durableRecordCount} durable records but read {records.length}"))
  let actualLast := records.getLast?.map txnId
  refuse (actualLast ≠ manifest.checkpoint.lastDurableTxnId) (archiveError manifestPath
    ("expected last durable txn " ++ txnText manifest.checkpoint.lastDurableTxnId ++ " but read " ++
      txnText actualLast))
  validateIncreasing manifestPath "" records

def validateArchiveTimestamps : Except EngineError Unit := do
  validateTimestampMetadata manifestPath records manifest.recordTimestamps
  match findWindow (fun a b => b.timestampMicros < a.timestampMicros) manifest.recordTimestamps with
  | none => .ok ()
  | some (a, b) => .error (archiveError manifestPath
      s!"has decreasing timestamp order at {a.timestampMicros} then {b.timestampMicros}")

/-! ### The checksum trailer of a text file -/

section Manifest

variable (sha256 : Sha256) (body : List Char) (path : UnixPath)

def sha256Word : List Char := "sha256=".toList

def digestText : List Char := hexText (sha256 (utf8Bytes body)).toList

def appendSha256Trailer : List Char :=
  body ++ (sha256Word ++ (digestText sha256 body ++ ['\n']))

def verifySha256Trailer : Except EngineError (List Char) :=
  match rfind sha256Word body with
  | none => .error (.durability
      ("checksummed durability artifact " ++ display path ++ " has no SHA-256 trailer"))
  | some trailerStart => do
    refuse (0 < trailerStart ∧ body[trailerStart - 1]? ≠ some '\n')
      (.durability ("malformed SHA-256 trailer in " ++ display path))
    let raw := (body.drop trailerStart).drop sha256Word.length
    refuse (raw.getLast? ≠ some '\n') (.durability ("unterminated SHA-256 trailer in " ++ display path))
    let raw := raw.dropLast
    refuse (raw.length ≠ 64 ∨ ¬ raw.all isHexDigit)
      (.durability ("invalid SHA-256 trailer in " ++ display path))
    let body := body.take trailerStart
    refuse (raw.map Char.toLower ≠ (digestText sha256 body).map Char.toLower)
      (.durability ("SHA-256 checksum mismatch in " ++ display path))
    return body

/-! ### The text of a manifest -/

def noneWord : List Char := "none".toList

def formatOptionalTxn : Option TxnId → List Char
  | none => noneWord
  | some txnId => decimalText txnId.toNat

/-- `key=`. -/
def controlKey (key : String) : List Char := key.toList ++ ['=']

def segmentLine : List Char :=
  controlKey "segment" ++ ['|'].intercalate [segment.segmentPath.text, decimalText segment.recordCount,
    formatOptionalTxn segment.firstTxnId, formatOptionalTxn segment.lastTxnId]

def timestampLine (timestamp : WalArchiveRecordTimestamp) : List Char :=
  controlKey "record_timestamp" ++ ['|'].intercalate
    [decimalText timestamp.txnId.toNat, decimalText timestamp.timestampMicros.toNat]

/-- The lines before the segments. -/
def manifestHead : List (List Char) := [
  walArchiveManifestMagic,
  controlKey "durable_record_count" ++ decimalText manifest.checkpoint.durableRecordCount,
  controlKey "last_durable_txn_id" ++ formatOptionalTxn manifest.checkpoint.lastDurableTxnId,
  controlKey "segments" ++ decimalText manifest.segments.length]

/-- The segment loop of `render_wal_archive_manifest_body`. -/
def renderSegments : List WalArchiveSegment → Except EngineError (List (List Char))
  | [] => .ok []
  | segment :: segments => do
    refuse ('|' ∈ segment.segmentPath.text) (.durability
      ("WAL archive segment path contains unsupported delimiter: " ++ display segment.segmentPath))
    let lines ← renderSegments segments
    return segmentLine segment :: lines

def renderWalArchiveManifestBody : Except EngineError (List Char) := do
  let segmentLines ← renderSegments manifest.segments
  return unlines (manifestHead manifest ++ segmentLines ++ manifest.recordTimestamps.map timestampLine)

/-! ### Reading a manifest -/

/-- `lines.next()`. -/
def nextLine : List (List Char) → Option (List Char) × List (List Char)
  | [] => (none, [])
  | line :: lines => (some line, lines)

def parseControlValue (line : Option (List Char)) (key : String) (path : UnixPath) :
    Except EngineError (List Char) :=
  match line with
  | none => .error (.durability (s!"missing WAL control field {key} in " ++ display path))
  | some line =>
    match (controlKey key).isPrefixOf? line with
    | some value => .ok value
    | none => .error (.durability (s!"invalid WAL control field {key} in " ++ display path))

def invalidNumber (what : String) (path : UnixPath) (failure : String) : EngineError :=
  .durability ("invalid WAL archive " ++ what ++ " " ++ display path ++ ": " ++ failure)

variable (value : List Char) (what : String)

/-- `parse::<usize>()`, whose values are natural numbers here. -/
def parseCount (path : UnixPath) : Except EngineError ℕ :=
  match parseNatural value with
  | some n => .ok n
  | none => .error (invalidNumber what path (parseFailure (fun _ => false) value))

/-- `parse::<u64>()`. -/
def parseU64 (path : UnixPath) : Except EngineError UInt64 :=
  match parseUnsigned (2 ^ 64) value with
  | some n => .ok (UInt64.ofNat n)
  | none => .error (invalidNumber what path (parseFailure (2 ^ 64 ≤ ·) value))

def parseOptionalTxn (path : UnixPath) : Except EngineError (Option TxnId) :=
  if value = noneWord then .ok none
  else do
    let txnId ← parseU64 value what path
    return some txnId

/-- `parts.next().ok_or_else(…)`. -/
def requirePart (part : Option (List Char)) (message : String) (path : UnixPath) :
    Except EngineError (List Char) :=
  match part with
  | some part => .ok part
  | none => .error (.durability (message ++ " in " ++ display path))

def parseSegment (raw : List Char) (path : UnixPath) : Except EngineError WalArchiveSegment := do
  let (part, parts) := nextLine (raw.splitOn '|')
  let segmentPath ← requirePart part "invalid WAL archive segment" path
  let (part, parts) := nextLine parts
  let count ← requirePart part "missing WAL archive segment record count" path
  let recordCount ← parseCount count "segment record count" path
  let (part, parts) := nextLine parts
  let first ← requirePart part "missing WAL archive segment first txn" path
  let firstTxnId ← parseOptionalTxn first "segment first txn" path
  let (part, parts) := nextLine parts
  let last ← requirePart part "missing WAL archive segment last txn" path
  let lastTxnId ← parseOptionalTxn last "segment last txn" path
  refuse (parts ≠ []) (.durability ("invalid WAL archive segment field count in " ++ display path))
  return { segmentPath := UnixPath.ofText segmentPath, recordCount, firstTxnId, lastTxnId }

/-- The segment loop: the segments and the lines behind them. -/
def parseSegments (path : UnixPath) :
    ℕ → List (List Char) → Except EngineError (List WalArchiveSegment × List (List Char))
  | 0, lines => .ok ([], lines)
  | n + 1, lines => do
    let (line, lines) := nextLine lines
    let raw ← parseControlValue line "segment" path
    let segment ← parseSegment raw path
    let (segments, lines) ← parseSegments path n lines
    return (segment :: segments, lines)

def parseTimestamp (raw : List Char) (path : UnixPath) : Except EngineError WalArchiveRecordTimestamp := do
  let (part, parts) := nextLine (raw.splitOn '|')
  let txn ← requirePart part "missing WAL archive record timestamp txn" path
  let txnId ← parseU64 txn "record timestamp txn" path
  let (part, parts) := nextLine parts
  let micros ← requirePart part "missing WAL archive record timestamp value" path
  let timestampMicros ← parseU64 micros "record timestamp value" path
  refuse (parts ≠ []) (.durability
    ("invalid WAL archive record timestamp field count in " ++ display path))
  return { txnId, timestampMicros }

def parseTimestamps (path : UnixPath) :
    List (List Char) → Except EngineError (List WalArchiveRecordTimestamp)
  | [] => .ok []
  | line :: lines => do
    let raw ← parseControlValue (some line) "record_timestamp" path
    let timestamp ← parseTimestamp raw path
    let timestamps ← parseTimestamps path lines
    return timestamp :: timestamps

def invalidManifestHeader : EngineError :=
  .durability ("invalid WAL archive manifest header " ++ display path)

/-- The checked text of a manifest: the second format carries a checksum. -/
def manifestBody (text : List Char) (path : UnixPath) : Except EngineError (List Char) :=
  match (textLines text).head? with
  | some magic =>
    if magic = walArchiveManifestMagic then verifySha256Trailer sha256 text path
    else if magic = walArchiveManifestMagicV1 then .ok text
    else .error (invalidManifestHeader path)
  | none => .error (invalidManifestHeader path)

def parseManifest : Except EngineError WalArchiveManifest := do
  let (line, lines) := nextLine (textLines body)
  refuse (line ≠ some walArchiveManifestMagic ∧ line ≠ some walArchiveManifestMagicV1)
    (invalidManifestHeader path)
  let (line, lines) := nextLine lines
  let count ← parseControlValue line "durable_record_count" path
  let durableRecordCount ← parseCount count "durable_record_count" path
  let (line, lines) := nextLine lines
  let last ← parseControlValue line "last_durable_txn_id" path
  let lastDurableTxnId ← parseOptionalTxn last "last_durable_txn_id" path
  let (line, lines) := nextLine lines
  let segmentCount ← parseControlValue line "segments" path
  let segmentCount ← parseCount segmentCount "segments" path
  let (segments, lines) ← parseSegments path segmentCount lines
  let recordTimestamps ← parseTimestamps path lines
  return { segments, checkpoint := { durableRecordCount, lastDurableTxnId }, recordTimestamps }

def readWalArchiveManifest (fs : FileStore) (path : UnixPath) : Except EngineError WalArchiveManifest :=
  match fs path.file with
  | none => .error (.durability ("failed to read WAL archive manifest " ++ display path ++
      ": No such file or directory (os error 2)"))
  | some bytes =>
    match utf8Text bytes with
    | none => .error (.durability ("failed to read WAL archive manifest " ++ display path ++
        ": stream did not contain valid UTF-8"))
    | some text => do
      let body ← manifestBody sha256 text path
      let manifest ← parseManifest body path
      validateArchiveManifestShape path manifest
      return manifest

/-! ### Paths of an archive -/

/-- The directory relative segment paths start from. -/
def manifestDir : UnixPath := manifestPath.parent.getD UnixPath.dot

/-- How a manifest names a segment: relative to its own directory where that is possible. -/
def manifestSegmentPath (manifestPath segmentPath : UnixPath) : UnixPath :=
  (UnixPath.stripPrefix segmentPath (manifestDir manifestPath)).getD segmentPath

def resolveManifestPath (manifestPath dataPath : UnixPath) : UnixPath :=
  if dataPath.isAbsolute then dataPath else (manifestDir manifestPath).join dataPath

/-- `.{name}.tmp.{pid}`. -/
def temporaryName (name : PathName) (pid : ℕ) : PathName where
  chars := '.' :: (name.chars ++ (".tmp.".toList ++ decimalText pid))
  nonempty := List.cons_ne_nil _ _
  ne_dot := by simp
  no_slash := by
    have hpid : '/' ∉ decimalText pid := fun h => absurd (isDigit_of_mem_decimalText h) (by decide)
    simp [name.no_slash, hpid]

def defaultControlName : PathName :=
  ⟨"wal.control".toList, by decide, by decide, by decide⟩

def defaultSegmentName : PathName :=
  ⟨"wal.segment".toList, by decide, by decide, by decide⟩

variable (pid : ℕ)

def temporaryControlPath : UnixPath :=
  path.withFileName (temporaryName (path.fileName.getD defaultControlName) pid)

def temporarySegmentPath : UnixPath :=
  path.withFileName (temporaryName (path.fileName.getD defaultSegmentName) pid)

/-- `segment-{:04}.wal` of the segment's number. -/
def segmentFileName (index : ℕ) : PathName where
  chars := "segment-".toList ++ (paddedText 4 (index + 1) ++ ".wal".toList)
  nonempty := by simp
  ne_dot := by simp
  no_slash := by
    have hnumber : '/' ∉ paddedText 4 (index + 1) := fun h =>
      absurd (isDigit_of_mem_paddedText h) (by decide)
    simp [hnumber]

/-- `segment_dir.join(file_name)`. -/
def archiveSegmentPath (segmentDir : UnixPath) (index : ℕ) : UnixPath :=
  segmentDir.join ⟨.nothing, [segmentFileName index]⟩

/-! ### Reading and writing an archive -/

/-- The segment loop of `read_wal_archive`. -/
def readArchiveSegments (fs : FileStore) (manifestPath : UnixPath) :
    List WalArchiveSegment → Except EngineError (List WalRecord)
  | [] => .ok []
  | segment :: segments => do
    let segmentPath := resolveManifestPath manifestPath segment.segmentPath
    let segmentRecords ← readWalSegment (display segmentPath) (fs segmentPath.file)
    validateArchiveSegment manifestPath segment segmentRecords
    let records ← readArchiveSegments fs manifestPath segments
    return segmentRecords ++ records

variable (fs : FileStore)

def readWalArchive (manifestPath : UnixPath) : Except EngineError (WalArchiveManifest × List WalRecord) := do
  let manifest ← readWalArchiveManifest sha256 fs manifestPath
  let records ← readArchiveSegments fs manifestPath manifest.segments
  validateArchiveRecords manifestPath manifest records
  validateArchiveTimestamps manifestPath manifest records
  return (manifest, records)

def writeWalArchiveManifest (path : UnixPath) (manifest : WalArchiveManifest) :
    Except EngineError FileStore := do
  let body ← renderWalArchiveManifestBody manifest
  return fs.install (temporaryControlPath path pid) path (utf8Bytes (appendSha256Trailer sha256 body))

/-- `records.chunks(n)`, with the number of records as fuel. -/
def chunksFrom (n : ℕ) : ℕ → List WalRecord → List (List WalRecord)
  | _, [] => []
  | 0, _ => []
  | fuel + 1, records => records.take n :: chunksFrom n fuel (records.drop n)

def chunks (n : ℕ) (records : List WalRecord) : List (List WalRecord) :=
  chunksFrom n records.length records

/-- The manifest entry of a segment file. -/
def archiveSegment (manifestPath segmentPath : UnixPath) (records : List WalRecord) :
    WalArchiveSegment where
  segmentPath := manifestSegmentPath manifestPath segmentPath
  recordCount := records.length
  firstTxnId := records.head?.map txnId
  lastTxnId := records.getLast?.map txnId

/-- The segment loop of `write_wal_archive_with_timestamps`. -/
def writeArchiveSegments (pid : ℕ) (manifestPath segmentDir : UnixPath) :
    FileStore → ℕ → List (List WalRecord) → FileStore × List WalArchiveSegment
  | fs, _, [] => (fs, [])
  | fs, index, chunk :: chunks =>
    let segmentPath := archiveSegmentPath segmentDir index
    let fs := fs.install (temporarySegmentPath segmentPath pid) segmentPath (writeWalSegment chunk)
    let (fs, segments) := writeArchiveSegments pid manifestPath segmentDir fs (index + 1) chunks
    (fs, archiveSegment manifestPath segmentPath chunk :: segments)

def writeWalArchiveWithTimestamps (manifestPath segmentDir : UnixPath)
    (records : List WalRecord) (recordsPerSegment : ℕ) (recordTimestamps : List WalArchiveRecordTimestamp) :
    Except EngineError (FileStore × WalArchiveManifest) := do
  refuse (recordsPerSegment = 0) (.durability "WAL archive records_per_segment must be non-zero")
  validateTimestampMetadata manifestPath records recordTimestamps
  let (fs, segments) := writeArchiveSegments pid manifestPath segmentDir fs 0
    (chunks recordsPerSegment records)
  let manifest := { segments, checkpoint := checkpointMeta records, recordTimestamps }
  let fs ← writeWalArchiveManifest sha256 pid fs manifestPath manifest
  return (fs, manifest)

def appendWalArchiveSegmentWithTimestamps (manifestPath segmentPath : UnixPath)
    (recordTimestamps : List WalArchiveRecordTimestamp) :
    Except EngineError (FileStore × WalArchiveManifest) := do
  let (manifest, records) ← readWalArchive sha256 fs manifestPath
  let segmentRecords ← readWalSegment (display segmentPath) (fs segmentPath.file)
  refuse (segmentRecords = []) (archiveError manifestPath
    ("cannot ingest empty segment " ++ display segmentPath))
  validateArchiveIngestTimestamps manifestPath manifest segmentRecords recordTimestamps
  validateArchiveIngestContinuity manifestPath manifest segmentRecords
  let records := records ++ segmentRecords
  let combinedTimestamps := manifest.recordTimestamps ++ recordTimestamps
  validateTimestampMetadata manifestPath records combinedTimestamps
  let appended := {
    segments := manifest.segments ++ [archiveSegment manifestPath segmentPath segmentRecords]
    checkpoint := checkpointMeta records
    recordTimestamps := combinedTimestamps }
  validateArchiveManifestShape manifestPath appended
  validateArchiveRecords manifestPath appended records
  validateArchiveTimestamps manifestPath appended records
  let fs ← writeWalArchiveManifest sha256 pid fs manifestPath appended
  return (fs, appended)

end Manifest

end ThunderboltDb.Wal
