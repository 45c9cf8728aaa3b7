import ThunderboltDb.Wal.ArchiveRoundTrip
import ThunderboltDb.Lib.FileProgram

/-!
# Archive retention: cutting an archive at a transaction or a timestamp

A retention target keeps a prefix of an archive (up to a transaction or a timestamp) or a suffix of it (from
a base transaction). The plan functions read the archive and say what would be kept and which segment files
would go; the apply functions write the kept records as a new archive over the old one, segment by segment,
install its manifest and remove the segment files that are no longer named.

Programs run over a `Naming`, so that several paths may name one file. Directories, their syncs, I/O errors
and the durable-identity anchor beside a segment are not modelled.

* `readWalArchiveToTxn`, `readWalArchiveToTimestampMicros` — the prefix readers;
* `planWalArchiveRetention…`, `applyWalArchiveRetention…` — plans and their application.
-/

namespace ThunderboltDb.Wal

open Lib List FileM WalRecord
open Canonical (Sha256 sampleHash)

variable {timestamps : List WalArchiveRecordTimestamp}

/-! ### Reading up to a target -/

structure WalArchiveRecoveryTarget where
  targetTxnId : TxnId
  recoveredRecordCount : ℕ
  lastRecoveredTxnId : TxnId
  deriving DecidableEq

structure WalArchiveTimestampRecoveryTarget where
  targetTimestampMicros : UInt64
  targetTxnId : TxnId
  recoveredRecordCount : ℕ
  lastRecoveredTxnId : TxnId
  deriving DecidableEq

section Retention

variable (sha : Sha256)

def readWalArchiveToTxn (fs : FileStore) (mpath : UnixPath) (targetTxnId : TxnId) :
    Except EngineError (WalArchiveManifest × WalArchiveRecoveryTarget × List WalRecord) := do
  let (manifest, records) ← readWalArchive sha fs mpath
  match records.head?.map txnId with
  | none => .error (archiveError mpath s!"has no records for target transaction {targetTxnId}")
  | some firstTxnId => do
    refuse (targetTxnId < firstTxnId) (archiveError mpath
      s!"target transaction {targetTxnId} is before first archived transaction {firstTxnId}")
    refuse (manifest.checkpoint.lastDurableTxnId.getD 0 < targetTxnId) (archiveError mpath
      (s!"target transaction {targetTxnId} is beyond last durable transaction " ++
        txnText manifest.checkpoint.lastDurableTxnId))
    let recoveredRecordCount := (records.takeWhile fun record => record.txnId ≤ targetTxnId).length
    refuse (records[recoveredRecordCount - 1]?.map txnId ≠ some targetTxnId)
      (archiveError mpath s!"does not contain target transaction {targetTxnId}")
    return (manifest, { targetTxnId, recoveredRecordCount, lastRecoveredTxnId := targetTxnId },
      records.take recoveredRecordCount)

/-- The indexes of the records with the target's timestamp. -/
def matchingIndexes (recordTimestamps : List WalArchiveRecordTimestamp) (targetTimestampMicros : UInt64) :
    List ℕ :=
  recordTimestamps.zipIdx.filterMap fun (timestamp, idx) =>
    if timestamp.timestampMicros = targetTimestampMicros then some idx else none

def readWalArchiveToTimestampMicros (fs : FileStore) (mpath : UnixPath)
    (targetTimestampMicros : UInt64) :
    Except EngineError (WalArchiveManifest × WalArchiveTimestampRecoveryTarget × List WalRecord) := do
  let (manifest, records) ← readWalArchive sha fs mpath
  refuse (records = []) (archiveError mpath
    s!"has no records for target timestamp {targetTimestampMicros}")
  match manifest.recordTimestamps.head?, manifest.recordTimestamps.getLast? with
  | some first, some last => do
    refuse (targetTimestampMicros < first.timestampMicros) (archiveError mpath
      (s!"target timestamp {targetTimestampMicros} is before first archived timestamp " ++
        s!"{first.timestampMicros}"))
    refuse (last.timestampMicros < targetTimestampMicros) (archiveError mpath
      (s!"target timestamp {targetTimestampMicros} is beyond last durable timestamp " ++
        s!"{last.timestampMicros}"))
    match matchingIndexes manifest.recordTimestamps targetTimestampMicros with
    | [] => .error (archiveError mpath
        (s!"target timestamp {targetTimestampMicros} falls between archived transaction boundaries"))
    | [idx] =>
      -- the reader has checked that there is a record for every timestamp
      let targetTxnId := (records[idx]?.map txnId).getD 0
      let target : WalArchiveTimestampRecoveryTarget :=
        { targetTimestampMicros, targetTxnId, recoveredRecordCount := idx + 1
          lastRecoveredTxnId := targetTxnId }
      return (manifest, target, records.take (idx + 1))
    | _ :: _ :: _ => .error (archiveError mpath
        (s!"target timestamp {targetTimestampMicros} is ambiguous across multiple transaction " ++
          "boundaries"))
  | _, _ => .error (archiveError mpath
      s!"has no timestamp metadata for target timestamp {targetTimestampMicros}")

/-! ### The geometry of the archive that is kept -/

def retainedTimestamps (manifest : WalArchiveManifest) (retainedRecordCount : ℕ) :
    List WalArchiveRecordTimestamp :=
  manifest.recordTimestamps.take (min retainedRecordCount manifest.recordTimestamps.length)

variable (mpath : UnixPath) (manifest : WalArchiveManifest) (fs : FileStore)

def archiveRecordsPerSegment : Except EngineError ℕ :=
  match (manifest.segments.head?.map (·.recordCount)).filter (0 < ·) with
  | some recordCount => .ok recordCount
  | none => .error (archiveError mpath "has no segment sizing for retention")

def archiveSegmentDir : Except EngineError UnixPath :=
  match manifest.segments.head? with
  | none => .error (archiveError mpath "has no segment directory for retention")
  | some firstSegment =>
    .ok ((resolveManifestPath mpath firstSegment.segmentPath).parent.getD UnixPath.dot)

/-- The segment loop of `build_wal_archive_manifest`. -/
def buildArchiveSegments (mpath segDir : UnixPath) :
    ℕ → List (List WalRecord) → List WalArchiveSegment
  | _, [] => []
  | index, chunk :: chunks =>
    archiveSegment mpath (archiveSegmentPath segDir index) chunk ::
      buildArchiveSegments mpath segDir (index + 1) chunks

def buildWalArchiveManifest (mpath segDir : UnixPath) (records : List WalRecord)
    (perSeg : ℕ) (recordTimestamps : List WalArchiveRecordTimestamp) : WalArchiveManifest where
  segments := buildArchiveSegments mpath segDir 0 (chunks perSeg records)
  checkpoint := checkpointMeta records
  recordTimestamps := recordTimestamps

/-! ### Plans -/

structure WalArchiveRetentionPlan where
  targetTxnId : TxnId
  retainedRecordCount : ℕ
  removedRecordCount : ℕ
  retainedManifest : WalArchiveManifest
  removedSegments : List UnixPath
  deriving DecidableEq

/-- The files a manifest names, as paths. -/
def resolvedPaths : List UnixPath :=
  manifest.segments.map fun segment => resolveManifestPath mpath segment.segmentPath

/-- The end of the three plan functions: the manifest that will be written, and the files of the old one that
it does not name. Paths are compared as they are written. -/
def planRetention (targetTxnId : TxnId)
    (retainedRecordCount removedRecordCount : ℕ) (retainedRecords : List WalRecord)
    (retainedTimestamps : List WalArchiveRecordTimestamp) : Except EngineError WalArchiveRetentionPlan := do
  let perSeg ← archiveRecordsPerSegment mpath manifest
  let segDir ← archiveSegmentDir mpath manifest
  let retainedManifest := buildWalArchiveManifest mpath segDir retainedRecords perSeg
    retainedTimestamps
  let retainedPaths := resolvedPaths mpath retainedManifest
  return { targetTxnId, retainedRecordCount, removedRecordCount, retainedManifest
           removedSegments := (resolvedPaths mpath manifest).filter (· ∉ retainedPaths) }

def planWalArchiveRetentionToTxn (mpath : UnixPath) (targetTxnId : TxnId) :
    Except EngineError WalArchiveRetentionPlan := do
  let (manifest, target, retainedRecords) ← readWalArchiveToTxn sha fs mpath targetTxnId
  planRetention mpath manifest targetTxnId target.recoveredRecordCount
    (manifest.checkpoint.durableRecordCount - target.recoveredRecordCount) retainedRecords
    (retainedTimestamps manifest target.recoveredRecordCount)

def planWalArchiveRetentionToTimestampMicros (mpath : UnixPath)
    (targetTimestampMicros : UInt64) : Except EngineError WalArchiveRetentionPlan := do
  let (manifest, target, retainedRecords) ←
    readWalArchiveToTimestampMicros sha fs mpath targetTimestampMicros
  planRetention mpath manifest target.targetTxnId target.recoveredRecordCount
    (manifest.checkpoint.durableRecordCount - target.recoveredRecordCount) retainedRecords
    (retainedTimestamps manifest target.recoveredRecordCount)

def missingBaseBoundary (baseTxnId : TxnId) : EngineError :=
  archiveError mpath s!"does not contain base backup transaction boundary {baseTxnId}"

/-- `records.iter().position(…)` of the base transaction. -/
def baseIndex (records : List WalRecord) (baseTxnId : TxnId) : Except EngineError ℕ :=
  match records.findIdx? fun record => record.txnId = baseTxnId with
  | some startIndex => .ok startIndex
  | none => .error (missingBaseBoundary mpath baseTxnId)

/-- The timestamps behind the base transaction. -/
def timestampsFrom (startIndex : ℕ) : List WalArchiveRecordTimestamp :=
  if manifest.recordTimestamps = [] then [] else manifest.recordTimestamps.drop startIndex

def planWalArchiveRetentionFromTxn (mpath : UnixPath) (baseTxnId : TxnId) :
    Except EngineError WalArchiveRetentionPlan := do
  let (manifest, records) ← readWalArchive sha fs mpath
  match records.head?.map txnId with
  | none => .error (archiveError mpath s!"has no records for base transaction {baseTxnId}")
  | some firstTxn => do
    refuse (baseTxnId < firstTxn) (archiveError mpath
      s!"base transaction {baseTxnId} is before first archived transaction {firstTxn}")
    match manifest.checkpoint.lastDurableTxnId with
    | none => .error (archiveError mpath
        s!"has no durable transaction for base transaction {baseTxnId}")
    | some lastTxn => do
      refuse (lastTxn < baseTxnId) (archiveError mpath
        s!"base transaction {baseTxnId} is beyond last durable transaction {lastTxn}")
      let startIndex ← baseIndex mpath records baseTxnId
      let retainedRecords := records.drop startIndex
      planRetention mpath manifest baseTxnId retainedRecords.length startIndex retainedRecords
        (timestampsFrom manifest startIndex)

/-! ### Application -/

variable {ι : Type} [DecidableEq ι] (N : Naming ι) (pid : ℕ)

/-- The steps of the segment loop of `write_wal_archive_with_timestamps`. -/
def segmentSteps (segDir : UnixPath) : ℕ → List (List WalRecord) → List FileStep
  | _, [] => []
  | index, chunk :: chunks =>
    installSteps (temporarySegmentPath (archiveSegmentPath segDir index) pid)
        (archiveSegmentPath segDir index) (writeWalSegment chunk) ++
      segmentSteps segDir (index + 1) chunks

def manifestBytes : Bytes :=
  utf8Bytes (appendSha256Trailer sha (unlines (manifestLines manifest)))

/-- `write_wal_archive_with_timestamps`, step by step. -/
def writeWalArchiveStepwise (mpath segDir : UnixPath) (records : List WalRecord)
    (perSeg : ℕ) (recordTimestamps : List WalArchiveRecordTimestamp) :
    FileM N EngineError WalArchiveManifest := do
  ofExcept (refuse (perSeg = 0)
    (.durability "WAL archive records_per_segment must be non-zero"))
  ofExcept (validateTimestampMetadata mpath records recordTimestamps)
  perform (segmentSteps pid segDir 0 (chunks perSeg records))
  let manifest := buildWalArchiveManifest mpath segDir records perSeg recordTimestamps
  let body ← ofExcept (renderWalArchiveManifestBody manifest)
  perform (installSteps (temporaryControlPath mpath pid) mpath
    (utf8Bytes (appendSha256Trailer sha body)))
  return manifest

/-- The end of the three apply functions: the rewrite, then the removals. -/
def rewriteRetained (mpath segDir : UnixPath) (plan : WalArchiveRetentionPlan)
    (retainedRecords : List WalRecord) (perSeg : ℕ)
    (retainedTimestamps : List WalArchiveRecordTimestamp) : FileM N EngineError WalArchiveRetentionPlan := do
  let retainedManifest ← writeWalArchiveStepwise sha N pid mpath segDir retainedRecords
    perSeg retainedTimestamps
  perform (plan.removedSegments.map .remove)
  return { plan with retainedManifest }

variable (mpath : UnixPath)

def applyWalArchiveRetentionToTxn (targetTxnId : TxnId) : FileM N EngineError WalArchiveRetentionPlan := do
  let fs ← look
  let (manifest, _, retainedRecords) ←
    ofExcept (readWalArchiveToTxn sha fs mpath targetTxnId)
  let perSeg ← ofExcept (archiveRecordsPerSegment mpath manifest)
  let segDir ← ofExcept (archiveSegmentDir mpath manifest)
  let plan ← ofExcept (planWalArchiveRetentionToTxn sha fs mpath targetTxnId)
  rewriteRetained sha N pid mpath segDir plan retainedRecords perSeg
    (retainedTimestamps manifest plan.retainedRecordCount)

def applyWalArchiveRetentionToTimestampMicros (targetTimestampMicros : UInt64) :
    FileM N EngineError WalArchiveRetentionPlan := do
  let fs ← look
  let (manifest, _, retainedRecords) ←
    ofExcept (readWalArchiveToTimestampMicros sha fs mpath targetTimestampMicros)
  let perSeg ← ofExcept (archiveRecordsPerSegment mpath manifest)
  let segDir ← ofExcept (archiveSegmentDir mpath manifest)
  let plan ← ofExcept
    (planWalArchiveRetentionToTimestampMicros sha fs mpath targetTimestampMicros)
  rewriteRetained sha N pid mpath segDir plan retainedRecords perSeg
    (retainedTimestamps manifest plan.retainedRecordCount)

def applyWalArchiveRetentionFromTxn (baseTxnId : TxnId) : FileM N EngineError WalArchiveRetentionPlan := do
  let fs ← look
  let (manifest, records) ← ofExcept (readWalArchive sha fs mpath)
  let plan ← ofExcept (planWalArchiveRetentionFromTxn sha fs mpath baseTxnId)
  let startIndex ← ofExcept (baseIndex mpath records baseTxnId)
  let perSeg ← ofExcept (archiveRecordsPerSegment mpath manifest)
  let segDir ← ofExcept (archiveSegmentDir mpath manifest)
  rewriteRetained sha N pid mpath segDir plan (records.drop startIndex) perSeg
    (timestampsFrom manifest startIndex)

/-! ### What a target keeps -/

/-- Where an archive is cut. -/
inductive RetentionTarget where
  | toTxn (targetTxnId : TxnId)
  | toTimestampMicros (targetTimestampMicros : UInt64)
  | fromTxn (baseTxnId : TxnId)

namespace RetentionTarget

def plan (mpath : UnixPath) : RetentionTarget → Except EngineError WalArchiveRetentionPlan
  | .toTxn targetTxnId => planWalArchiveRetentionToTxn sha fs mpath targetTxnId
  | .toTimestampMicros target => planWalArchiveRetentionToTimestampMicros sha fs mpath target
  | .fromTxn baseTxnId => planWalArchiveRetentionFromTxn sha fs mpath baseTxnId

def apply : RetentionTarget → FileM N EngineError WalArchiveRetentionPlan
  | .toTxn targetTxnId => applyWalArchiveRetentionToTxn sha N pid mpath targetTxnId
  | .toTimestampMicros target => applyWalArchiveRetentionToTimestampMicros sha N pid mpath target
  | .fromTxn baseTxnId => applyWalArchiveRetentionFromTxn sha N pid mpath baseTxnId

/-- The records a target keeps: up to the transaction, up to the timestamp, or from the transaction. -/
def keptRecords (records : List WalRecord) : RetentionTarget → List WalRecord
  | .toTxn targetTxnId => records.takeWhile fun record => record.txnId ≤ targetTxnId
  | .toTimestampMicros target => records.take
      (manifest.recordTimestamps.takeWhile fun timestamp => timestamp.timestampMicros ≤ target).length
  | .fromTxn baseTxnId => records.dropWhile fun record => record.txnId < baseTxnId

def keptTimestamps : RetentionTarget → List WalArchiveRecordTimestamp
  | .toTxn targetTxnId => manifest.recordTimestamps.takeWhile fun timestamp => timestamp.txnId ≤ targetTxnId
  | .toTimestampMicros target =>
    manifest.recordTimestamps.takeWhile fun timestamp => timestamp.timestampMicros ≤ target
  | .fromTxn baseTxnId =>
    manifest.recordTimestamps.dropWhile fun timestamp => timestamp.txnId < baseTxnId

end RetentionTarget

end Retention

open RetentionTarget

/-! ### The cut of an ordered archive -/

variable {records : List WalRecord} {recordTimestamps : List WalArchiveRecordTimestamp}
  {mpath : UnixPath} {α : Type} {target : UInt64} {idx : ℕ} {baseTxnId : TxnId} {startIndex : ℕ}

theorem map_txnId_eq_iff :
    recordTimestamps.map (·.txnId) = records.map (·.txnId) ↔ recordTimestamps.length = records.length ∧
        ∀ pair ∈ records.zip recordTimestamps, pair.1.txnId = pair.2.txnId := by
  induction recordTimestamps generalizing records with
  | nil => cases records <;> simp
  | cons timestamp timestamps ih =>
    cases records with
    | nil => simp
    | cons record records =>
      simp only [length_cons, Nat.add_right_cancel_iff, zip_cons_cons, forall_mem_cons,
        map_cons, List.cons.injEq, ih]
      constructor
      · rintro ⟨hfirst, hlength, hzip⟩
        exact ⟨hlength, hfirst.symm, hzip⟩
      · rintro ⟨hlength, hfirst, hzip⟩
        exact ⟨hfirst.symm, hlength, hzip⟩

theorem validateTimestampMetadata_ok : validateTimestampMetadata mpath records recordTimestamps = .ok () ↔
      recordTimestamps = [] ∨ recordTimestamps.map (·.txnId) = records.map (·.txnId) := by
  by_cases hnil : recordTimestamps = []
  · simp [validateTimestampMetadata, hnil]
  · rw [validateTimestampMetadata, if_neg hnil, except_seq_ok, refuse_eq_ok, not_not, map_txnId_eq_iff]
    simp only [hnil, false_or]
    refine and_congr_right fun _ => ?_
    split
    · rename_i hnone
      simpa using find?_eq_none.mp hnone
    · rename_i pair hsome
      have hbad := find?_some hsome
      simp only [reduceCtorEq, false_iff, not_forall]
      exact ⟨_, mem_of_find?_eq_some hsome, by simpa using hbad⟩

theorem take_length_of_start {as bs : List α} (h : as <+: bs) : bs.take as.length = as :=
  (prefix_iff_eq_take.mp h).symm

/-- A single match: nothing behind it has the target's timestamp. -/
theorem matchingIndexes_eq_singleton {start : ℕ} (h : ((timestamps.zipIdx start).filterMap fun (timestamp, i) =>
      if timestamp.timestampMicros = target then some i else none) = [idx]) :
    ∃ before timestamp behind, timestamps = before ++ timestamp :: behind ∧ idx = start + before.length ∧
      timestamp.timestampMicros = target ∧ ∀ other ∈ behind, other.timestampMicros ≠ target := by
  induction timestamps generalizing start with
  | nil => cases h
  | cons timestamp timestamps ih =>
    rw [zipIdx_cons, filterMap_cons] at h
    by_cases hmatch : timestamp.timestampMicros = target
    · simp only [if_pos hmatch, List.cons.injEq] at h
      obtain ⟨rfl, hrest⟩ := h
      refine ⟨[], timestamp, timestamps, rfl, rfl, hmatch, ?_⟩
      intro other hmem heq
      rw [← zipIdx_map_fst (start + 1) timestamps] at hmem
      obtain ⟨pair, hpair, rfl⟩ := mem_map.mp hmem
      have hnone := filterMap_eq_nil_iff.mp hrest pair hpair
      simp [heq] at hnone
    · simp only [if_neg hmatch] at h
      obtain ⟨before, found, behind, rfl, rfl, hfound, hbehind⟩ := ih h
      exact ⟨timestamp :: before, found, behind, rfl, by rw [length_cons]; omega, hfound, hbehind⟩

theorem pairwise_timestampMicros (h : timestamps.IsChain fun a b => a.timestampMicros ≤ b.timestampMicros) :
    timestamps.Pairwise fun a b => a.timestampMicros ≤ b.timestampMicros := by
  let earlier : WalArchiveRecordTimestamp → WalArchiveRecordTimestamp → Prop :=
    fun a b => a.timestampMicros ≤ b.timestampMicros
  have htrans : Trans earlier earlier earlier := ⟨fun hab hbc => UInt64.le_trans hab hbc⟩
  exact @List.IsChain.pairwise _ earlier _ htrans h

theorem pairwise_txnId (h : records.IsChain fun a b => a.txnId < b.txnId) :
    records.Pairwise fun a b => a.txnId < b.txnId := by
  let earlier : WalRecord → WalRecord → Prop := fun a b => a.txnId < b.txnId
  have htrans : Trans earlier earlier earlier := ⟨fun hab hbc => UInt64.lt_trans hab hbc⟩
  exact @List.IsChain.pairwise _ earlier _ htrans h

/-- In an ordered archive a single match ends the records up to the target. -/
theorem length_takeWhile_of_matchingIndexes (h : matchingIndexes timestamps target = [idx])
    (hchain : timestamps.IsChain fun a b => a.timestampMicros ≤ b.timestampMicros) :
    (timestamps.takeWhile fun timestamp => timestamp.timestampMicros ≤ target).length = idx + 1 := by
  obtain ⟨before, timestamp, behind, rfl, rfl, rfl, hbehind⟩ := matchingIndexes_eq_singleton h
  obtain ⟨-, hrest, hbefore⟩ := pairwise_append.mp (pairwise_timestampMicros hchain)
  have hpos : ∀ a ∈ before, decide (a.timestampMicros ≤ timestamp.timestampMicros) = true :=
    fun a ha => decide_eq_true (hbefore a ha timestamp mem_cons_self)
  have hstop : (behind.takeWhile fun other => other.timestampMicros ≤ timestamp.timestampMicros) = [] := by
    cases behind with
    | nil => rfl
    | cons other behind =>
      have hle := rel_of_pairwise_cons hrest (@mem_cons_self _ other behind)
      have hne := hbehind other mem_cons_self
      refine takeWhile_cons_of_neg ?_
      rw [decide_eq_true_eq]
      exact fun hge => hne (UInt64.le_antisymm hge hle)
  rw [takeWhile_append_of_pos hpos, takeWhile_cons_of_pos (by simp), hstop]
  simp

/-- The base transaction starts the records from it on. -/
theorem drop_of_findIdx? (h : records.findIdx? (fun record => record.txnId = baseTxnId) = some startIndex)
    (hchain : records.IsChain fun a b => a.txnId < b.txnId) :
    (records.takeWhile fun record => record.txnId < baseTxnId).length = startIndex := by
  obtain ⟨hlt, hbase, -⟩ := findIdx?_eq_some_iff_getElem.mp h
  have hsplit : records = records.take startIndex ++ records[startIndex] :: records.drop (startIndex + 1) := by
    rw [getElem_cons_drop, take_append_drop]
  have hid : records[startIndex].txnId = baseTxnId := of_decide_eq_true hbase
  have hpairs := pairwise_txnId hchain
  rw [hsplit] at hpairs ⊢
  obtain ⟨-, -, hbefore⟩ := pairwise_append.mp hpairs
  have hpos : ∀ a ∈ records.take startIndex, decide (a.txnId < baseTxnId) = true :=
    fun a ha => decide_eq_true (hid ▸ hbefore a ha _ mem_cons_self)
  rw [takeWhile_append_of_pos hpos, takeWhile_cons_of_neg (by simp [hid])]
  simpa using Nat.le_of_lt hlt

theorem drop_length_takeWhile (p : α → Bool) (as : List α) : as.drop (as.takeWhile p).length = as.dropWhile p := by
  conv_lhs => rw [← @takeWhile_append_dropWhile _ p as]
  rw [drop_append_of_le_length (by rw [takeWhile_append_dropWhile]), takeWhile_append_dropWhile]
  simp

/-- What the reader has checked of an archive as a whole. -/
structure Sound (manifest : WalArchiveManifest) (records : List WalRecord) : Prop where
  checkpoint : manifest.checkpoint = checkpointMeta records
  metadata : manifest.recordTimestamps = [] ∨
    manifest.recordTimestamps.map (·.txnId) = records.map (·.txnId)
  ordered : Ordered records manifest.recordTimestamps

variable {manifest : WalArchiveManifest}

theorem sound_of_read {sha : Sha256} {fs : FileStore}
    (h : readWalArchive sha fs mpath = .ok (manifest, records)) : Sound manifest records := by
  obtain ⟨-, -, hrecords, htimestamps⟩ := readWalArchive_ok.mp h
  obtain ⟨hcheckpoint, hids⟩ := validateArchiveRecords_ok.mp hrecords
  obtain ⟨hmetadata, hchain⟩ := validateArchiveTimestamps_ok.mp htimestamps
  exact ⟨hcheckpoint, validateTimestampMetadata_ok.mp hmetadata, hids, hchain⟩

namespace RetentionTarget

variable {manifest : WalArchiveManifest} {records : List WalRecord}

theorem keptRecords_slice (target : RetentionTarget) : target.keptRecords manifest records <:+: records := by
  cases target with
  | toTxn t => exact IsPrefix.isInfix <| takeWhile_prefix _
  | toTimestampMicros t => exact IsPrefix.isInfix <| take_prefix _ _
  | fromTxn t => exact (dropWhile_suffix _).isInfix

theorem keptTimestamps_slice (target : RetentionTarget) :
    target.keptTimestamps manifest <:+: manifest.recordTimestamps := by
  cases target with
  | toTxn t | toTimestampMicros t => exact IsPrefix.isInfix <| takeWhile_prefix _
  | fromTxn t => exact (dropWhile_suffix _).isInfix

theorem kept_metadata (h : Sound manifest records) (target : RetentionTarget) :
    target.keptTimestamps manifest = [] ∨
      (target.keptTimestamps manifest).map (·.txnId) = (target.keptRecords manifest records).map (·.txnId) := by
  rcases h.metadata with hnil | hmap
  · left
    cases target <;> simp [keptTimestamps, hnil]
  · right
    cases target with
    | toTxn t =>
      have htake := congrArg (takeWhile fun txnId : TxnId => decide (txnId ≤ t)) hmap
      rwa [takeWhile_map, takeWhile_map] at htake
    | toTimestampMicros t =>
      rw [keptTimestamps, keptRecords, map_take, ← hmap, ← map_take, take_length_of_start <| takeWhile_prefix _]
    | fromTxn t =>
      have hdrop := congrArg (dropWhile fun txnId : TxnId => decide (txnId < t)) hmap
      rwa [dropWhile_map, dropWhile_map] at hdrop

theorem kept_ordered (h : Sound manifest records) (target : RetentionTarget) :
    Ordered (target.keptRecords manifest records) (target.keptTimestamps manifest) :=
  ⟨ List.IsChain.infix h.ordered.ids target.keptRecords_slice,
    List.IsChain.infix h.ordered.timestamps target.keptTimestamps_slice⟩

end RetentionTarget

/-! ### Plans and applications as data -/

/-- What a plan says of an archive. -/
structure Planned (mpath : UnixPath) (manifest : WalArchiveManifest) (records : List WalRecord)
    (target : RetentionTarget) (perSeg : ℕ) (segDir : UnixPath)
    (plan : WalArchiveRetentionPlan) : Prop where
  perSegment : archiveRecordsPerSegment mpath manifest = .ok perSeg
  dir : archiveSegmentDir mpath manifest = .ok segDir
  retained : plan.retainedManifest = buildWalArchiveManifest mpath segDir
    (target.keptRecords manifest records) perSeg (target.keptTimestamps manifest)
  removed : plan.removedSegments = (resolvedPaths mpath manifest).filter
    (· ∉ resolvedPaths mpath plan.retainedManifest)

variable {targetTxnId : TxnId} {retainedCount removedCount : ℕ}

theorem planRetention_ok {target : RetentionTarget} {plan : WalArchiveRetentionPlan}
    (h : planRetention mpath manifest targetTxnId retainedCount removedCount
      (target.keptRecords manifest records) (target.keptTimestamps manifest) = .ok plan) :
    plan.retainedRecordCount = retainedCount ∧ ∃ perSeg segDir,
        Planned mpath manifest records target perSeg segDir plan := by
  rw [planRetention] at h
  obtain ⟨perSeg, hper, h⟩ := bind_ok.mp h
  obtain ⟨segDir, hdir, h⟩ := bind_ok.mp h
  cases h
  exact ⟨rfl, perSeg, segDir, hper, hdir, rfl, rfl⟩

section Cases

variable {sha : Sha256} {fs : FileStore} {mpath : UnixPath} {manifest : WalArchiveManifest}
  {records : List WalRecord}

/-- Timestamps are cut where their records are. -/
theorem Sound.length_takeWhile (h : Sound manifest records) (hne : manifest.recordTimestamps ≠ [])
    (p : TxnId → Bool) :
    (records.takeWhile fun record => p record.txnId).length =
      (manifest.recordTimestamps.takeWhile fun timestamp => p timestamp.txnId).length := by
  have hmap := h.metadata.resolve_left hne
  have hlength := congrArg (fun ids => (ids.takeWhile p).length) hmap
  simp only [takeWhile_map, length_map] at hlength
  exact hlength.symm

section

variable (hread : readWalArchive sha fs mpath = .ok (manifest, records))
include hread

variable {found : WalArchiveManifest} {recovered : List WalRecord}

theorem readWalArchiveToTxn_ok {target : WalArchiveRecoveryTarget}
    (h : readWalArchiveToTxn sha fs mpath targetTxnId = .ok (found, target, recovered)) :
    found = manifest ∧ recovered = (toTxn targetTxnId).keptRecords manifest records ∧
      retainedTimestamps manifest target.recoveredRecordCount =
        (toTxn targetTxnId).keptTimestamps manifest ∧
      recovered.getLast?.map txnId = some targetTxnId := by
  have hsound := sound_of_read hread
  rw [readWalArchiveToTxn, hread, except_ok_bind] at h
  dsimp only at h
  split at h
  · cases h
  · rename_i firstTxnId hfirst
    obtain ⟨hle, h⟩ := except_seq_ok.mp h
    obtain ⟨-, h⟩ := except_seq_ok.mp h
    obtain ⟨hlast, h⟩ := except_seq_ok.mp h
    rw [refuse_eq_ok, not_not] at hlast
    cases h
    refine ⟨rfl, take_length_of_start <| takeWhile_prefix _, ?_, ?_⟩
    · rw [retainedTimestamps, ← take_eq_take_min, keptTimestamps]
      by_cases hne : manifest.recordTimestamps = []
      · simp [hne]
      · rw [hsound.length_takeWhile hne fun txnId => decide (txnId ≤ targetTxnId)]
        exact take_length_of_start <| takeWhile_prefix _
    · -- the first record is not behind the target, so the part is not empty
      obtain ⟨first, hhead, rfl⟩ := Option.map_eq_some_iff.mp hfirst
      obtain ⟨rest, rfl⟩ := head?_eq_some_iff.mp hhead
      have hne : ((first :: rest).takeWhile fun record => record.txnId ≤ targetTxnId).length ≠ 0 := by
        simpa [takeWhile_cons] using hle
      obtain ⟨last, hat, hid⟩ := Option.map_eq_some_iff.mp hlast
      rw [getLast?_take, if_neg hne, hat, Option.some_or, Option.map_some, hid]

theorem readWalArchiveToTimestampMicros_ok {micros : UInt64} {target : WalArchiveTimestampRecoveryTarget}
    (h : readWalArchiveToTimestampMicros sha fs mpath micros = .ok (found, target, recovered)) :
    found = manifest ∧ recovered = (toTimestampMicros micros).keptRecords manifest records ∧
      retainedTimestamps manifest target.recoveredRecordCount =
        (toTimestampMicros micros).keptTimestamps manifest ∧
      manifest.recordTimestamps ≠ [] := by
  have hsound := sound_of_read hread
  rw [readWalArchiveToTimestampMicros, hread, except_ok_bind] at h
  obtain ⟨-, h⟩ := except_seq_ok.mp h
  split at h
  · obtain ⟨-, h⟩ := except_seq_ok.mp h
    obtain ⟨-, h⟩ := except_seq_ok.mp h
    split at h
    · cases h
    · rename_i idx hidx
      have hlength := length_takeWhile_of_matchingIndexes hidx hsound.ordered.timestamps
      cases h
      refine ⟨rfl, ?_, ?_, fun hnil => ?_⟩
      · rw [keptRecords, hlength]
      · rw [retainedTimestamps, ← take_eq_take_min, keptTimestamps]
        rw [← hlength]
        exact take_length_of_start <| takeWhile_prefix _
      · rw [hnil] at hidx
        cases hidx
    · cases h
  · cases h

end

/-- The longest initial part of `records` with the property `P`. -/
structure LongestStart {α : Type} (P : List α → Prop) (records part : List α) : Prop where
  start : part <+: records
  holds : P part
  longest : ∀ other, other <+: records → P other → other.length ≤ part.length

theorem length_le_takeWhile {p : α → Bool} {as start : List α} (h : start <+: as)
    (hall : ∀ a ∈ start, p a = true) : start.length ≤ (as.takeWhile p).length := by
  obtain ⟨rest, rfl⟩ := h
  rw [takeWhile_append_of_pos hall, length_append]
  exact Nat.le_add_right _ _

/-- **Point-in-time reads.**  The result is described by the records and their timestamps alone, whatever
segments they stand in. -/
theorem wal_archive_point_in_time_reads (sha : Sha256) (fs : FileStore) (mpath : UnixPath) :
    (∀ targetTxnId manifest target recovered,
      readWalArchiveToTxn sha fs mpath targetTxnId = .ok (manifest, target, recovered) →
      ∃ records, readWalArchive sha fs mpath = .ok (manifest, records) ∧
        LongestStart (fun part => part.getLast?.map txnId = some targetTxnId) records recovered) ∧
    ∀ micros manifest target recovered,
      readWalArchiveToTimestampMicros sha fs mpath micros = .ok (manifest, target, recovered) →
      ∃ records, readWalArchive sha fs mpath = .ok (manifest, records) ∧
        LongestStart (fun part => ∀ timestamp ∈ manifest.recordTimestamps.take part.length,
          timestamp.timestampMicros ≤ micros) records recovered := by
  constructor
  · intro targetTxnId manifest target recovered h
    obtain ⟨⟨manifest', records⟩, hread, -⟩ := bind_ok.mp h
    obtain ⟨rfl, rfl, -, hlast⟩ := readWalArchiveToTxn_ok hread h
    refine ⟨records, hread, takeWhile_prefix _, hlast, fun other hother hend => ?_⟩
    refine length_le_takeWhile hother fun record hmem => ?_
    -- the ids ascend, so the last one is the greatest
    obtain ⟨last, hat, rfl⟩ := Option.map_eq_some_iff.mp hend
    have hids := (pairwise_txnId (sound_of_read hread).ordered.ids).sublist hother.sublist
    obtain ⟨start, rfl⟩ := getLast?_eq_some_iff.mp hat
    rcases mem_append.mp hmem with hmem | hmem
    · exact decide_eq_true (UInt64.le_of_lt ((pairwise_append.mp hids).2.2 record hmem last (.head _)))
    · rw [mem_singleton.mp hmem, decide_eq_true_eq]
      exact UInt64.le_refl _
  · intro micros manifest target recovered h
    obtain ⟨⟨manifest', records⟩, hread, -⟩ := bind_ok.mp h
    obtain ⟨rfl, rfl, -, hne⟩ := readWalArchiveToTimestampMicros_ok hread h
    have hlength := congrArg List.length ((sound_of_read hread).metadata.resolve_left hne)
    rw [length_map, length_map] at hlength
    have hwhile := takeWhile_prefix (l := manifest.recordTimestamps)
      fun timestamp => timestamp.timestampMicros ≤ micros
    have hkept : ((toTimestampMicros micros).keptRecords manifest records).length =
        (manifest.recordTimestamps.takeWhile fun timestamp => timestamp.timestampMicros ≤ micros).length :=
      length_take_of_le (hwhile.length_le.trans hlength.le)
    refine ⟨records, hread, take_prefix _ _, ?_, fun other hother hall => ?_⟩
    · rw [hkept, take_length_of_start hwhile]
      intro timestamp hmem
      simpa using mem_takeWhile_imp hmem
    · rw [hkept, ← length_take_of_le (hother.length_le.trans hlength.ge)]
      have hstart := take_prefix other.length manifest.recordTimestamps
      exact length_le_takeWhile hstart fun a ha => decide_eq_true (hall a ha)

/-- Two segments, and a target between them. -/
theorem wal_archive_point_in_time_reads_between : ∃ fs manifest target target',
    readWalArchiveToTxn sampleHash fs samplePath 1 = .ok (manifest, target, [sampleRecord 1]) ∧
    readWalArchiveToTimestampMicros sampleHash fs samplePath 10 = .ok (manifest, target', [sampleRecord 1]) ∧
    (∃ records, readWalArchive sampleHash fs samplePath = .ok (manifest, records) ∧
      LongestStart (fun part => part.getLast?.map txnId = some 1) records [sampleRecord 1]) ∧
    ∃ records, readWalArchive sampleHash fs samplePath = .ok (manifest, records) ∧
      LongestStart (fun part => ∀ timestamp ∈ manifest.recordTimestamps.take part.length,
        timestamp.timestampMicros ≤ 10) records [sampleRecord 1] := by
  obtain ⟨fs, manifest, hwrite, htimes⟩ : ∃ fs manifest, writeWalArchiveWithTimestamps sampleHash 1
      (fun _ => none) samplePath sampleSegmentDir [sampleRecord 1, sampleRecord 2] 1
        [⟨1, 10⟩, ⟨2, 20⟩] = .ok (fs, manifest) ∧ manifest.recordTimestamps = [⟨1, 10⟩, ⟨2, 20⟩] ∧
      manifest.checkpoint.lastDurableTxnId = some 2 := ⟨_, _, rfl, rfl, rfl⟩
  have hread := (@read_after_writeWalArchive samplePath [sampleRecord 1, sampleRecord 2] _
    sampleHash (fun _ => none) _ 1 _ sampleSegmentDir 1 hwrite fun i hi => nameable_sample hi).2.1.mpr
      ⟨by decide, by decide⟩
  have htxn : readWalArchiveToTxn sampleHash fs samplePath 1 =
      .ok (manifest, ⟨1, 1, 1⟩, [sampleRecord 1]) := by
    rw [readWalArchiveToTxn, hread, except_ok_bind]
    simp only [htimes.2]
    rfl
  have htime : readWalArchiveToTimestampMicros sampleHash fs samplePath 10 =
      .ok (manifest, ⟨10, 1, 1, 1⟩, [sampleRecord 1]) := by
    rw [readWalArchiveToTimestampMicros, hread, except_ok_bind]
    simp only [htimes.1]
    rfl
  obtain ⟨hbyTxn, hbyTime⟩ := wal_archive_point_in_time_reads sampleHash fs samplePath
  exact ⟨fs, manifest, _, _, htxn, htime, hbyTxn 1 _ _ _ htxn, hbyTime 10 _ _ _ htime⟩

theorem baseIndex_ok (hread : readWalArchive sha fs mpath = .ok (manifest, records))
    (h : baseIndex mpath records baseTxnId = .ok startIndex) :
    records.drop startIndex = (fromTxn baseTxnId).keptRecords manifest records ∧
      timestampsFrom manifest startIndex = (fromTxn baseTxnId).keptTimestamps manifest := by
  have hsound := sound_of_read hread
  rw [baseIndex] at h
  split at h
  · rename_i hfind
    cases h
    have hlength := drop_of_findIdx? hfind hsound.ordered.ids
    rw [keptRecords, keptTimestamps, timestampsFrom, ← hlength]
    refine ⟨drop_length_takeWhile _ _, ?_⟩
    by_cases hne : manifest.recordTimestamps = []
    · simp [hne]
    · rw [if_neg hne, hsound.length_takeWhile hne fun txnId => decide (txnId < baseTxnId)]
      exact drop_length_takeWhile _ _
  · cases h

variable {ι : Type} [DecidableEq ι] {N : Naming ι} {pid : ℕ} {disk : Disk ι}

/-- Nothing is performed where a plan fails, whichever of the two reads of the geometry fails first. -/
theorem planRetention_error {retainedRecords : List WalRecord} {e : EngineError}
    (h : planRetention mpath manifest targetTxnId retainedCount removedCount retainedRecords
      timestamps = .error e) (rest : ℕ → UnixPath → FileM N EngineError WalArchiveRetentionPlan)
    (hrest : ∀ perSeg segDir, rest perSeg segDir = ofExcept (.error e)) :
    (do let perSeg ← ofExcept (archiveRecordsPerSegment mpath manifest)
        let segDir ← ofExcept (archiveSegmentDir mpath manifest)
        rest perSeg segDir) disk = ([], .error e) := by
  rw [planRetention] at h
  cases hper : archiveRecordsPerSegment mpath manifest with
  | error e' =>
    rw [hper] at h
    cases h
    rfl
  | ok perSeg =>
    rw [hper, except_ok_bind] at h
    cases hdir : archiveSegmentDir mpath manifest with
    | error e' =>
      rw [hdir] at h
      cases h
      rfl
    | ok segDir =>
      rw [ok_bind, ok_bind, hrest]
      rfl

/-- An application fails before its first step where the plan fails; otherwise it rewrites the archive as the
plan says, with the records and timestamps that the target keeps. -/
theorem RetentionTarget.apply_cases
    (hread : readWalArchive sha (N.view disk) mpath = .ok (manifest, records))
    (target : RetentionTarget) :
    (∃ e, target.plan sha (N.view disk) mpath = .error e ∧
      target.apply sha N pid mpath disk = ([], .error e)) ∨
    ∃ perSeg segDir plan, target.plan sha (N.view disk) mpath = .ok plan ∧
      Planned mpath manifest records target perSeg segDir plan ∧
      target.apply sha N pid mpath disk = rewriteRetained sha N pid mpath segDir plan
        (target.keptRecords manifest records) perSeg (target.keptTimestamps manifest) disk := by
  cases target with
  | toTxn t =>
    rw [plan, apply, applyWalArchiveRetentionToTxn, look_bind,
      planWalArchiveRetentionToTxn]
    cases hcut : readWalArchiveToTxn sha (N.view disk) mpath t with
    | error e => exact .inl ⟨e, rfl, rfl⟩
    | ok cut =>
      obtain ⟨found, cutTarget, recovered⟩ := cut
      obtain ⟨rfl, rfl, htimestamps, -⟩ := readWalArchiveToTxn_ok hread hcut
      simp only [ok_bind, except_ok_bind, htimestamps]
      cases hplan : planRetention mpath found t cutTarget.recoveredRecordCount
          (found.checkpoint.durableRecordCount - cutTarget.recoveredRecordCount)
          ((toTxn t).keptRecords found records)
          ((toTxn t).keptTimestamps found) with
      | error e => exact .inl ⟨e, rfl, planRetention_error hplan _ fun _ _ => rfl⟩
      | ok plan =>
        obtain ⟨hcount, perSeg, segDir, hplanned⟩ := planRetention_ok hplan
        right
        refine ⟨perSeg, segDir, plan, rfl, hplanned, ?_⟩
        simp only [hplanned.perSegment, hplanned.dir, ok_bind, hcount, htimestamps]
  | toTimestampMicros t =>
    rw [plan, apply, applyWalArchiveRetentionToTimestampMicros,
      look_bind, planWalArchiveRetentionToTimestampMicros]
    cases hcut : readWalArchiveToTimestampMicros sha (N.view disk) mpath t with
    | error e => exact .inl ⟨e, rfl, rfl⟩
    | ok cut =>
      obtain ⟨found, cutTarget, recovered⟩ := cut
      obtain ⟨rfl, rfl, htimestamps, -⟩ := readWalArchiveToTimestampMicros_ok hread hcut
      simp only [ok_bind, except_ok_bind, htimestamps]
      cases hplan : planRetention mpath found cutTarget.targetTxnId cutTarget.recoveredRecordCount
          (found.checkpoint.durableRecordCount - cutTarget.recoveredRecordCount)
          ((toTimestampMicros t).keptRecords found records)
          ((toTimestampMicros t).keptTimestamps found) with
      | error e => exact .inl ⟨e, rfl, planRetention_error hplan _ fun _ _ => rfl⟩
      | ok plan =>
        obtain ⟨hcount, perSeg, segDir, hplanned⟩ := planRetention_ok hplan
        right
        refine ⟨perSeg, segDir, plan, rfl, hplanned, ?_⟩
        simp only [hplanned.perSegment, hplanned.dir, ok_bind, hcount, htimestamps]
  | fromTxn t =>
    rw [plan, apply, applyWalArchiveRetentionFromTxn, look_bind, hread]
    simp only [ok_bind]
    cases hplan : planWalArchiveRetentionFromTxn sha (N.view disk) mpath t with
    | error e => exact .inl ⟨e, rfl, rfl⟩
    | ok plan =>
      have hcut := hplan
      rw [planWalArchiveRetentionFromTxn, hread, except_ok_bind] at hcut
      dsimp only at hcut
      split at hcut
      · cases hcut
      · obtain ⟨-, hcut⟩ := except_seq_ok.mp hcut
        split at hcut
        · cases hcut
        · obtain ⟨-, hcut⟩ := except_seq_ok.mp hcut
          obtain ⟨startIndex, hindex, hcut⟩ := bind_ok.mp hcut
          obtain ⟨hrecords, htimestamps⟩ := baseIndex_ok hread hindex
          rw [hrecords, htimestamps] at hcut
          obtain ⟨-, perSeg, segDir, hplanned⟩ := planRetention_ok hcut
          right
          refine ⟨perSeg, segDir, plan, rfl, hplanned, ?_⟩
          simp only [hindex, hplanned.perSegment, hplanned.dir, ok_bind, hrecords, htimestamps]

end Cases

end ThunderboltDb.Wal
