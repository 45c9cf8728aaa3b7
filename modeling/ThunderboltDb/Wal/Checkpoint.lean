import ThunderboltDb.Wal.Segment

/-!
# Checkpoints: a strict segment and the control file that commits it

A rotation copies the flushed history into a checkpoint segment and then installs a control file with
the record count and the last transaction id. The control file is the commit point: a checkpoint
segment longer than its control's count is one that a later rotation replaced without getting as far as
its own control file, and is cut back to the count.

The control file is modelled by what it says, not by its text: the checkpoint it names is the one
checkpoint segment of the database, and rotations write no sealed rebuild manifest.
-/

namespace ThunderboltDb.Wal

structure WalCheckpointMeta where
  durableRecordCount : ℕ
  lastDurableTxnId : Option TxnId
  deriving DecidableEq

/-- `WalBuffer::checkpoint_meta` of the flushed records. -/
def checkpointMeta (flushed : List WalRecord) : WalCheckpointMeta where
  durableRecordCount := flushed.length
  lastDurableTxnId := flushed.getLast?.map WalRecord.txnId

/-- The files a rotation adds to a live segment. -/
structure CheckpointFiles where
  checkpoint : Option Bytes
  control : Option WalCheckpointMeta
  deriving DecidableEq

/-- A transaction id in an error text. -/
def txnText : Option TxnId → String
  | none => "None"
  | some txnId => s!"Some({txnId.toNat})"

def validateCheckpointControl (controlPath : String) (control : WalCheckpointMeta)
    (records : List WalRecord) : Except EngineError Unit :=
  let actualLastTxn := records.getLast?.map WalRecord.txnId
  if records.length ≠ control.durableRecordCount then
    .error (.durability (s!"WAL control {controlPath} expected {control.durableRecordCount} durable " ++
      s!"records but segment contains {records.length}"))
  else if actualLastTxn ≠ control.lastDurableTxnId then
    .error (.durability (s!"WAL control {controlPath} expected last durable txn " ++
      txnText control.lastDurableTxnId ++ " but segment contains " ++ txnText actualLastTxn))
  else .ok ()

variable (controlPath checkpointPath : String)

def readWalCheckpoint (files : CheckpointFiles) : Except EngineError (WalCheckpointMeta × List WalRecord) :=
  match files.control with
  | none => .error (.durability
      s!"failed to read WAL control file {controlPath}: No such file or directory (os error 2)")
  | some control => do
    let stored ← readWalSegment checkpointPath files.checkpoint
    let records :=
      if control.durableRecordCount < stored.length then stored.take control.durableRecordCount
      else stored
    validateCheckpointControl controlPath control records
    return (control, records)

theorem validateCheckpointControl_meta (controlPath : String) (records : List WalRecord) :
    validateCheckpointControl controlPath (checkpointMeta records) records = .ok () := by
  simp [validateCheckpointControl, checkpointMeta]

/-- A checkpoint segment that extends what its control file committed reads as the committed part. -/
theorem readWalCheckpoint_committed {H : List WalRecord}
    {committed stored : ℕ} (hle : committed ≤ stored) (hH : stored ≤ H.length) :
    readWalCheckpoint controlPath checkpointPath
        ⟨some (writeWalSegment (H.take stored)), some (checkpointMeta (H.take committed))⟩ =
      .ok (checkpointMeta (H.take committed), H.take committed) := by
  have hcount : (checkpointMeta (H.take committed)).durableRecordCount = committed := by
    simp only [checkpointMeta, List.length_take]
    omega
  have hrecords : (if (checkpointMeta (H.take committed)).durableRecordCount < (H.take stored).length
      then (H.take stored).take (checkpointMeta (H.take committed)).durableRecordCount
      else H.take stored) = H.take committed := by
    rw [hcount, List.length_take, min_eq_left hH]
    by_cases hlt : committed < stored
    · rw [if_pos hlt, List.take_take, min_eq_left hle]
    · rw [if_neg hlt, show stored = committed by omega]
  simp only [readWalCheckpoint, readWalSegment_writeWalSegment, bind, Except.bind, hrecords,
    validateCheckpointControl_meta]
  rfl

end ThunderboltDb.Wal
