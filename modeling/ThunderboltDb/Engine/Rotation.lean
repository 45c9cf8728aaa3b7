import ThunderboltDb.Wal.WalSafety
import ThunderboltDb.Wal.Checkpoint

/-!
# Checkpoint rotation and the checkpoint-aware reopen

`checkpointAndTruncateDurableWal` writes the flushed history into the checkpoint segment, commits it
with the control file and rewrites the live segment without it; `openDurableWalSegmentWithCheckpoint`
reads the checkpoint, recovers the live segment, skips the records that both hold and replays the rest.

* `rotation_reopens_iff` — which cuts of a rotation reopen.
* `CheckpointedDb.rotated` — a completed rotation leaves a database that can be rotated again.

Everything the engine does with the replayed records is one parameter of the reopen.
-/

namespace ThunderboltDb.Engine

open Lib Wal List WalRecord

variable {ι : Type} {H : List WalRecord} {disk : WalDisk ι}

/-! ### The rotation -/

/-- A durable database: the WAL with its live files, and the checkpoint beside them. -/
structure DurableDb (ι : Type) where
  wal : WalState ι
  files : CheckpointFiles

/-- Calls on a durable database. -/
abbrev DbM (ι : Type) := EStateM CallFailure (DurableDb ι)

def onWal {α : Type} (m : WalM ι α) : DbM ι α := fun db =>
  match m db.wal with
  | .ok a w => .ok a { db with wal := w }
  | .error e w => .error e { db with wal := w }

section

variable {io : IoOutcome} {w : WalState ι}

theorem recordTailOffset_run : recordTailOffset io w =
    if w.core.tailOffsetRecorded = w.core.durableBytes then .ok () w
    else if io = .ok then .ok () { w with
        disk := { w.disk with tail := some (writeWalTailOffset w.core.durableBytes) }
        core := { w.core with tailOffsetRecorded := w.core.durableBytes } }
    else .error (.error (.durability "failed to write WAL tail-offset file")) w := by
  unfold recordTailOffset
  show (ite _ _ _ : WalM ι Unit) w = _
  split
  · rfl
  · cases io <;> rfl

theorem disk_recordTailOffset : (stateAfter (recordTailOffset io) w).disk = { w.disk with
      tail := if w.core.tailOffsetRecorded ≠ w.core.durableBytes ∧ io = .ok
        then some (writeWalTailOffset w.core.durableBytes) else w.disk.tail } := by
  rw [stateAfter, recordTailOffset_run]
  by_cases hrec : w.core.tailOffsetRecorded = w.core.durableBytes
  · simp [hrec]
  · cases io <;> simp [hrec]

end

/-- The outcomes of the file-system calls of one rotation, by call site. -/
structure RotationIo where
  bindCheckpoint : IoOutcome := .ok
  installCheckpoint : IoOutcome := .ok
  installControl : IoOutcome := .ok
  syncCheckpointDir : IoOutcome := .ok
  syncControlDir : IoOutcome := .ok
  segment : SegmentIo := {}

def dbError {α : Type} (message : String) : DbM ι α := throw (.error (.durability message))

def requireIo (io : IoOutcome) (message : String) : DbM ι Unit :=
  if io = .ok then pure () else dbError message

/-- Temporary file, rename and directory fsync. A failure with progress comes after the rename. -/
def installFile (io : IoOutcome) (message : String) (f : CheckpointFiles → CheckpointFiles) :
    DbM ι Unit :=
  match io with
  | .ok => modify fun db => { db with files := f db.files }
  | .fail progress => do
    modify fun db => if 0 < progress then { db with files := f db.files } else db
    dbError message

section

variable [DecidableEq ι] (env : WalEnv ι)

/-- `checkpoint_and_truncate_durable_wal`, after wave quiescence. Pruning timestamps and compacting the
replication log touch no file. -/
def checkpointAndTruncateDurableWal (io : RotationIo) : DbM ι WalCheckpointMeta := do
  let db ← get
  let boundary := db.wal.core.flushedRecords
  let flushed := db.wal.buffer.records.take boundary
  requireIo io.bindCheckpoint "failed to bind the durable identity beside the checkpoint"
  installFile io.installCheckpoint "failed to install WAL segment" fun f =>
    { f with checkpoint := some (writeWalSegment flushed) }
  installFile io.installControl "failed to install WAL control file" fun f =>
    { f with control := some (checkpointMeta flushed) }
  requireIo io.syncCheckpointDir "failed to fsync WAL segment directory"
  requireIo io.syncControlDir "failed to fsync WAL segment directory"
  onWal (truncateDurableSegmentPrefix env io.segment boundary)
  return checkpointMeta flushed

/-- Where a crash cuts a rotation. -/
inductive RotationCut where
  | beforeCheckpoint
  | beforeControl
  | beforeLive
  | zeroFill (progress : ℕ)
  | beforeTail
  | completed
  deriving DecidableEq

/-- The call at the cut fails without effect; zero-filling stops after `progress` bytes. -/
def RotationCut.io : RotationCut → RotationIo
  | .beforeCheckpoint => { installCheckpoint := .fail 0 }
  | .beforeControl => { installControl := .fail 0 }
  | .beforeLive => { segment := { rewriteSegment := .fail 0 } }
  | .zeroFill progress => { segment := { zeroFillRewritten := .fail progress } }
  | .beforeTail => { segment := { recordTail := .fail 0 } }
  | .completed => {}

/-- The database a cut leaves; only its files survive. -/
def rotationCut (db : DurableDb ι) (cut : RotationCut) : DurableDb ι :=
  stateAfter (checkpointAndTruncateDurableWal env cut.io) db

/-! ### The reopen -/

/-- The last `k` checkpointed records are the first `k` live ones. -/
def overlapAt (checkpoint live : List WalRecord) (k : ℕ) : Bool :=
  ((checkpoint.drop (checkpoint.length - k)).zip (live.take k)).all fun p =>
    p.1.txnId = p.2.txnId && p.1.payload = p.2.payload

/-- The largest overlap of at most `k` records. -/
def largestOverlap (checkpoint live : List WalRecord) : ℕ → ℕ
  | 0 => 0
  | k + 1 => if overlapAt checkpoint live (k + 1) then k + 1 else largestOverlap checkpoint live k

/-- `open_durable_wal_segment_with_checkpoint_once`. `bindAndReplay` is what the engine does with the
recovered history before the WAL is installed: binding the identity and replaying. -/
def openDurableWalSegmentWithCheckpoint {σ : Type} (io : SegmentIo) (ownerId : ℕ)
    (controlPath checkpointPath segmentPath : String)
    (bindAndReplay : List WalRecord → Except EngineError (Option ι × σ))
    (files : CheckpointFiles) (disk : WalDisk ι) : Except EngineError (σ × WalState ι) := do
  let (_, checkpointRecords) ← readWalCheckpoint controlPath checkpointPath files
  let recovered ← recoverWalSegment segmentPath ⟨disk.segment, disk.tail⟩
  let overlap := largestOverlap checkpointRecords recovered.records
    (min checkpointRecords.length recovered.records.length)
  let recovery := { recovered with records := recovered.records.drop overlap }
  let records := checkpointRecords ++ recovery.records
  let (identity, engine) ← bindAndReplay records
  if recovery.records <:+ records then
    let wal := withRecoveredDurableSegment env ownerId segmentPath records recovery identity disk
    -- the repair finishes the crashed rotation; its failure is not fatal
    return (engine, if 0 < overlap then
      stateAfter (truncateDurableSegmentPrefix env io checkpointRecords.length) wal else wal)
  else .error (.durability
    "recovered logical WAL history must end with the exact recovered segment suffix")

/-- The reopen does not fail by itself and hands exactly `history` to the engine. -/
def Reopens (files : CheckpointFiles) (disk : WalDisk ι) (history : List WalRecord) : Prop :=
  ∀ (σ : Type) (io : SegmentIo) (ownerId : ℕ) (controlPath checkpointPath segmentPath : String)
    (bindAndReplay : List WalRecord → Except EngineError (Option ι × σ)),
    ∃ wal : Option ι → WalState ι,
      openDurableWalSegmentWithCheckpoint env io ownerId controlPath checkpointPath segmentPath
        bindAndReplay files disk = (bindAndReplay history).map fun r => (r.2, wal r.1)

end

open RotationCut

/-! ### The overlap search -/

theorem largestOverlap_eq {checkpoint live : List WalRecord} {k n : ℕ} (hk : k ≤ n)
    (hat : overlapAt checkpoint live k = true)
    (hmore : ∀ j, k < j → j ≤ n → overlapAt checkpoint live j = false) :
    largestOverlap checkpoint live n = k := by
  induction n with
  | zero => rw [largestOverlap, Nat.le_zero.mp hk]
  | succ n ih =>
    rw [largestOverlap]
    by_cases hlast : k = n + 1
    · rw [← hlast, if_pos hat]
    · rw [if_neg (by simp [hmore (n + 1) (by omega) le_rfl])]
      exact ih (by omega) fun j hj hn => hmore j hj (by omega)

variable {b d : ℕ} {tail : Option (List Char)}

/-- A history's records from `d` up to `b` are a shared region. -/
theorem overlapAt_take_drop (hdb : d ≤ b) (hb : b ≤ H.length) : overlapAt (H.take b) (H.drop d) (b - d) = true := by
  have hlen : (H.take b).length - (b - d) = d := by
    rw [length_take]
    omega
  rw [overlapAt, hlen, drop_take, all_eq_true]
  intro p hp
  obtain ⟨i, hi⟩ := mem_iff_getElem?.mp hp
  rw [getElem?_zip_eq_some] at hi
  have heq : p.1 = p.2 := Option.some.inj (hi.1.symm.trans hi.2)
  simp [heq]

/-- A longer region would match two records of one history at different positions. -/
theorem not_overlapAt_take_drop {k : ℕ}
    (hdistinct : (H.map txnId).Nodup) (hdb : d ≤ b) (hb : b ≤ H.length) (hk : b - d < k)
    (hkb : k ≤ b) (hkd : k ≤ H.length - d) : overlapAt (H.take b) (H.drop d) k = false := by
  have hlen : (H.take b).length - k = b - k := by rw [length_take, min_eq_left hb]
  have hfirst : b - k < H.length := by omega
  have hlive : d < H.length := by omega
  have hlive' : d < (H.map txnId).length := by rwa [length_map]
  have hids : H[b - k].txnId ≠ H[d].txnId := by
    intro heq
    have heq' : (H.map txnId)[b - k] = (H.map txnId)[d] := by simpa using heq
    have := hdistinct.getElem_inj_iff.mp heq'
    omega
  rw [overlapAt, hlen, all_eq_false]
  refine ⟨(H[b - k], H[d]), ?_, by simp [hids]⟩
  refine mem_iff_getElem?.mpr ⟨0, ?_⟩
  rw [getElem?_zip_eq_some]
  constructor
  · rw [getElem?_drop, getElem?_take_of_lt (by omega), Nat.add_zero, getElem?_eq_getElem hfirst]
  · rw [getElem?_take_of_lt (by omega), getElem?_drop, Nat.add_zero, getElem?_eq_getElem hlive]

/-- **The overlap search.**  With distinct transaction ids it finds exactly the shared region. -/
theorem largestOverlap_take_drop (hdistinct : (H.map txnId).Nodup) (hdb : d ≤ b) (hb : b ≤ H.length) :
    largestOverlap (H.take b) (H.drop d) (min (H.take b).length (H.drop d).length) = b - d := by
  rw [length_take, length_drop, min_eq_left hb]
  refine largestOverlap_eq (by omega) (overlapAt_take_drop hdb hb) fun j hj hn => ?_
  exact not_overlapAt_take_drop hdistinct hdb hb hj (by omega) (by omega)

/-! ### Which file combinations reopen -/

theorem recover_rewritten {path : String} {n : ℕ} (ht : readWalTailOffset tail ≤ 10) :
    recoverWalSegment path ⟨some (walSegmentMagic ++ zeros n), tail⟩ = .ok ⟨[], 10, tornZeros n⟩ := by
  have hrec := recoverWalSegment_complete path [] n tail ht
  rwa [encodedRecords_nil, append_nil] at hrec

/-- A sidecar of the longer segment makes recovery of the rewritten one fail. -/
theorem recover_rewritten_stale {path : String} {n : ℕ} (ht : 10 < readWalTailOffset tail) :
    ∃ err, recoverWalSegment path ⟨some (walSegmentMagic ++ zeros n), tail⟩ = .error err := by
  have hrec := recoverWalSegment_stale_tail path [] n tail ht
  rwa [encodedRecords_nil, append_nil] at hrec

section

variable [DecidableEq ι] (env : WalEnv ι)

/-- **Recoverable images.**  The control file commits `b` records of the history, the checkpoint holds
those and possibly more, and the live segment reaches back to the committed part. -/
theorem reopens_of_image {c : ℕ}
    (hdistinct : (H.map txnId).Nodup) (hdb : d ≤ b) (hbc : b ≤ c) (hc : c ≤ H.length)
    (hlive : ∀ path, ∃ recovery, recoverWalSegment path ⟨disk.segment, disk.tail⟩ = .ok recovery ∧
      recovery.records = H.drop d) :
    Reopens env ⟨some (writeWalSegment (H.take c)), some (checkpointMeta (H.take b))⟩ disk H := by
  intro σ io ownerId controlPath checkpointPath segmentPath bindAndReplay
  obtain ⟨recovery, hrec, hrecords⟩ := hlive segmentPath
  have hoverlap := largestOverlap_take_drop hdistinct hdb (le_trans hbc hc)
  have hrest : (H.drop d).drop (b - d) = H.drop b := by
    rw [drop_drop, show d + (b - d) = b by omega]
  have hsuffix : H.drop b <:+ H := drop_suffix b H
  let wal := fun identity : Option ι => withRecoveredDurableSegment env ownerId segmentPath H
    { recovery with records := H.drop b } identity disk
  refine ⟨fun identity => if 0 < b - d then
    stateAfter (truncateDurableSegmentPrefix env io (H.take b).length) (wal identity)
    else wal identity, ?_⟩
  simp only [openDurableWalSegmentWithCheckpoint, readWalCheckpoint_committed controlPath checkpointPath
    hbc hc, hrec, bind, Except.bind, hrecords, hoverlap, hrest, take_append_drop, hsuffix, if_true]
  cases bindAndReplay H with
  | error e | ok r => rfl

/-- Without a control file the reopen refuses the database. -/
theorem not_reopens_of_control_none {files : CheckpointFiles}
    (h : files.control = none) : ¬ Reopens env files disk H := by
  intro hopen
  obtain ⟨wal, hwal⟩ := hopen Unit {} 0 "control" "checkpoint" "segment" fun _ => .ok (none, ())
  simp [openDurableWalSegmentWithCheckpoint, readWalCheckpoint, h, bind, Except.bind, Except.map] at hwal

/-- A live segment that recovery rejects makes the reopen fail. -/
theorem not_reopens_of_recover_error {files : CheckpointFiles}
    (h : ∀ path, ∃ err, recoverWalSegment path ⟨disk.segment, disk.tail⟩ = .error err) :
    ¬ Reopens env files disk H := by
  intro hopen
  obtain ⟨wal, hwal⟩ := hopen Unit {} 0 "control" "checkpoint" "segment" fun _ => .ok (none, ())
  obtain ⟨err, herr⟩ := h "segment"
  cases hck : readWalCheckpoint "control" "checkpoint" files with
  | error e =>
    simp [openDurableWalSegmentWithCheckpoint, hck, bind, Except.bind, Except.map] at hwal
  | ok r =>
    simp [openDurableWalSegmentWithCheckpoint, hck, herr, bind, Except.bind, Except.map] at hwal

/-! ### The files a cut leaves -/

def DurableDb.history (db : DurableDb ι) : List WalRecord :=
  db.wal.buffer.records.take db.wal.core.flushedRecords

/-- The recorded tail that the sidecar holds. -/
def DurableDb.recordedTail (db : DurableDb ι) : ℕ := readWalTailOffset db.wal.disk.tail

/-- A durable database at rest, with the checkpoint that earlier rotations left. The sidecar may hold
anything: it is not synced, so an older value can come back. -/
structure CheckpointedDb (db : DurableDb ι) : Prop where
  inv : LogInv none db.wal.core.flushedRecords db.wal.view
  closed : db.wal.core.fileOpen = false →
    ∀ bytes ∈ db.wal.disk.segment, bytes <+: walSegmentMagic ∧ bytes.length < walSegmentMagic.length
  distinct : (db.history.map txnId).Nodup
  committed : (db.files.control = none ∧ db.wal.core.segmentBaseRecords = 0) ∨
    ∃ c, db.wal.core.segmentBaseRecords ≤ c ∧ c ≤ db.history.length ∧
      db.files = ⟨some (writeWalSegment (db.history.take c)),
        some (checkpointMeta (db.history.take db.wal.core.segmentBaseRecords))⟩
  noFault : db.wal.core.fixedFault = none
  lineage : ∀ identity ∈ db.wal.buffer.durableIdentityBinding.identity,
    requireDurableIdentity db.wal.core.segmentPath db.wal.disk.anchor identity = .ok ()

namespace CheckpointedDb

variable {db : DurableDb ι}

/-- The state in which the live segment is rewritten. -/
def closeLive (w : WalState ι) : WalState ι := { w with core := { w.core with fileOpen := false } }

section

variable (h : CheckpointedDb db)
include h

theorem base_le : db.wal.core.segmentBaseRecords ≤ db.history.length := by
  have hbase : db.wal.core.segmentBaseRecords ≤ db.wal.core.flushedRecords := h.inv.base_le
  have hlen : db.wal.core.flushedRecords ≤ db.wal.buffer.records.length := h.inv.flushed_le
  rw [DurableDb.history, length_take]
  omega

/-- An open live segment: the records behind the base, then zeros. -/
theorem live_image (hopen : db.wal.core.fileOpen = true) : db.wal.core.durableBytes =
      10 + (encodedRecords (db.history.drop db.wal.core.segmentBaseRecords)).length ∧
    ∃ n, db.wal.disk.segment = some (walSegmentMagic ++
      encodedRecords (db.history.drop db.wal.core.segmentBaseRecords) ++ zeros n) := by
  obtain ⟨hdur, n, beyond, hseg, -⟩ := h.inv.opened hopen
  refine ⟨hdur, n + beyond, ?_⟩
  rw [zeros_add, ← append_assoc]
  rw [pendingBytes, append_nil] at hseg
  exact hseg

/-- A live segment that does not exist yet holds no record. -/
theorem history_drop_of_closed (hclosed : db.wal.core.fileOpen = false) :
    db.wal.core.durableBytes = 0 ∧ db.history.drop db.wal.core.segmentBaseRecords = [] := by
  obtain ⟨hdur, -, hbase⟩ := h.inv.closed hclosed
  exact ⟨hdur, (congrArg (db.history.drop ·) hbase).trans (recordRange_self _ _)⟩

theorem recover_live (ht : db.recordedTail ≤ db.wal.core.durableBytes) (path : String) :
    ∃ recovery, recoverWalSegment path ⟨db.wal.disk.segment, db.wal.disk.tail⟩ = .ok recovery ∧
      recovery.records = db.history.drop db.wal.core.segmentBaseRecords := by
  cases hopen : db.wal.core.fileOpen with
  | true =>
    obtain ⟨hdur, n, hseg⟩ := h.live_image hopen
    rw [hseg, recoverWalSegment_complete path _ _ _ (by rw [← hdur]; exact ht)]
    exact ⟨_, rfl, rfl⟩
  | false =>
    obtain ⟨hdur, hnil⟩ := h.history_drop_of_closed hopen
    have ht0 : ¬ readWalTailOffset db.wal.disk.tail > 0 := by
      rw [DurableDb.recordedTail] at ht
      omega
    rw [hnil]
    cases hseg : db.wal.disk.segment with
    | none => exact ⟨.empty, if_neg ht0, rfl⟩
    | some bytes =>
      obtain ⟨hmagic, hshort⟩ := h.closed hopen bytes hseg
      exact ⟨_, (recoverWalSegment_torn_magic path _ hmagic hshort).trans (if_neg ht0), rfl⟩

/-- A sidecar beyond the durable bytes makes recovery fail. -/
theorem recover_live_stale (ht : db.wal.core.durableBytes < db.recordedTail) (path : String) :
    ∃ err, recoverWalSegment path ⟨db.wal.disk.segment, db.wal.disk.tail⟩ = .error err := by
  cases hopen : db.wal.core.fileOpen with
  | true =>
    obtain ⟨hdur, n, hseg⟩ := h.live_image hopen
    rw [hseg]
    exact recoverWalSegment_stale_tail path _ _ _ (by rw [← hdur]; exact ht)
  | false =>
    have hpos : readWalTailOffset db.wal.disk.tail > 0 := by
      rw [DurableDb.recordedTail] at ht
      omega
    cases hseg : db.wal.disk.segment with
    | none => exact ⟨_, if_pos hpos⟩
    | some bytes =>
      obtain ⟨hmagic, hshort⟩ := h.closed hopen bytes hseg
      exact ⟨_, (recoverWalSegment_torn_magic path _ hmagic hshort).trans (if_pos hpos)⟩

/-- The truncation of a rotation retains nothing: it closes the file, installs the bare magic,
zero-fills it, reopens it and records the new tail. -/
theorem truncate_history (io : SegmentIo) :
    truncateDurableSegmentPrefix env io db.wal.core.flushedRecords db.wal = (do
      onError (replaceSegment env io [] 10 (max 10 env.walPreallocChunkBytes)) fun w =>
        { w with core := { w.core with poisoned := some "prefix-truncation rewrite failed" } }
      modifyCore fun c => { c with
        preallocBytes := max 10 env.walPreallocChunkBytes, fileOpen := true, durableBytes := 10,
        segmentBaseRecords := db.wal.core.flushedRecords, poisoned := none }
      recordTailOffset io.recordTail : WalM ι Unit) (closeLive db.wal) := by
  have hidle : db.wal.core.ioInFlight = false := h.inv.flight
  have hbase : ¬ db.wal.core.flushedRecords < db.wal.core.segmentBaseRecords := by
    have : db.wal.core.segmentBaseRecords ≤ db.wal.core.flushedRecords := h.inv.base_le
    omega
  have hnil : (db.wal.buffer.records.take db.wal.core.flushedRecords).drop db.wal.core.flushedRecords =
      [] := recordRange_self _ _
  unfold truncateDurableSegmentPrefix
  show (ite _ _ _ : WalM ι Unit) db.wal = _
  rw [if_neg (by simp [hidle]), if_neg (by simp [h.noFault]), if_neg (lt_irrefl _), if_neg hbase]
  cases hid : db.wal.buffer.durableIdentityBinding.identity with
  | none =>
    rw [hnil]
    rfl
  | some identity =>
    rw [Option.map_some, h.lineage identity hid, hnil]
    rfl

end

/-- With nothing retained, the identity check of the rewrite is the one that already passed. -/
theorem bindRetained_nil (h : CheckpointedDb db) {io : IoOutcome} :
    bindRetained env io [] (closeLive db.wal) = .ok () (closeLive db.wal) := by
  have hget : (MonadState.get : WalM ι (WalState ι)) (closeLive db.wal) =
      .ok (closeLive db.wal) (closeLive db.wal) := rfl
  rw [bindRetained, bind_of_ok hget]
  cases hid : (closeLive db.wal).buffer.durableIdentityBinding.identity with
  | none => rfl
  | some identity =>
    have hbound : requireDurableIdentity (closeLive db.wal).core.segmentPath (closeLive db.wal).disk.anchor identity =
        .ok () := h.lineage identity hid
    dsimp only
    rw [anchorIdentity, bind_of_ok hget, if_pos rfl, hbound]
    rfl

theorem replaceSegment_fail (h : CheckpointedDb db) {io : SegmentIo} (hio : io.rewriteSegment = .fail 0)
    {preallocTo : ℕ} :
    ∃ e, replaceSegment env io [] 10 preallocTo (closeLive db.wal) = .error e (closeLive db.wal) := by
  refine ⟨.error (.durability "failed to install WAL segment"), ?_⟩
  rw [replaceSegment, bind_of_ok (h.bindRetained_nil env), hio]
  rfl

theorem replaceSegment_run (h : CheckpointedDb db) {io : SegmentIo} (hwrite : io.rewriteSegment = .ok)
    (hsync : io.syncRewrittenDir = .ok) (hopen : io.reopenRewritten = .ok) (preallocTo : ℕ) :
    replaceSegment env io [] 10 preallocTo (closeLive db.wal) = require (io.zeroFillRewritten = .ok)
        "failed to re-preallocate WAL segment after prefix truncation"
        { closeLive db.wal with disk := { db.wal.disk with
          segment := some (zeroFillExtend io.zeroFillRewritten 10 preallocTo walSegmentMagic) } } := by
  rw [replaceSegment, bind_of_ok (h.bindRetained_nil env), hwrite, hsync, hopen]
  rfl

theorem zeroFillExtend_magic (io : IoOutcome) (preallocTo : ℕ) :
    ∃ n, zeroFillExtend io 10 preallocTo walSegmentMagic = walSegmentMagic ++ zeros n := by
  have hfill : ∀ n, writeAt walSegmentMagic 10 (zeros n) = walSegmentMagic ++ zeros n := by
    intro n
    have := writeAt_append walSegmentMagic [] (zeros n)
    rwa [append_nil, drop_nil, append_nil, length_walSegmentMagic] at this
  cases io with
  | ok | fail progress => exact ⟨_, hfill _⟩

/-- A crash before the live segment is renamed leaves it as it was. -/
theorem disk_of_rewrite_failed (h : CheckpointedDb db) {io : SegmentIo} (hio : io.rewriteSegment = .fail 0) :
    (stateAfter (truncateDurableSegmentPrefix env io db.wal.core.flushedRecords) db.wal).disk = db.wal.disk := by
  obtain ⟨e, he⟩ := h.replaceSegment_fail env hio
  rw [stateAfter, truncate_history env h, bind_of_error (onError_of_error he)]
  rfl

section

variable (h : CheckpointedDb db) (io : SegmentIo) (hwrite : io.rewriteSegment = .ok)
  (hsync : io.syncRewrittenDir = .ok) (hopen : io.reopenRewritten = .ok)
include h io hwrite hsync hopen

/-- A crash while the new live segment is zero-filled: the magic and some zeros. -/
theorem disk_of_zeroFill_failed (hfill : io.zeroFillRewritten ≠ .ok) :
    ∃ n, (stateAfter (truncateDurableSegmentPrefix env io db.wal.core.flushedRecords) db.wal).disk =
      { db.wal.disk with segment := some (walSegmentMagic ++ zeros n) } := by
  have hrun := h.replaceSegment_run env hwrite hsync hopen (max 10 env.walPreallocChunkBytes)
  obtain ⟨n, hn⟩ := zeroFillExtend_magic io.zeroFillRewritten (max 10 env.walPreallocChunkBytes)
  rw [require, if_neg hfill, hn] at hrun
  refine ⟨n, ?_⟩
  rw [stateAfter, truncate_history env h, bind_of_error (onError_of_error hrun)]

/-- Once the new live segment is complete, only the sidecar is left to write. -/
theorem truncate_rewritten (hfill : io.zeroFillRewritten = .ok) :
    ∃ n, truncateDurableSegmentPrefix env io db.wal.core.flushedRecords db.wal =
      recordTailOffset io.recordTail { db.wal with
        core := { db.wal.core with
          preallocBytes := max 10 env.walPreallocChunkBytes, fileOpen := true, durableBytes := 10,
          segmentBaseRecords := db.wal.core.flushedRecords, poisoned := none }
        disk := { db.wal.disk with segment := some (walSegmentMagic ++ zeros n) } } := by
  have hrun := h.replaceSegment_run env hwrite hsync hopen (max 10 env.walPreallocChunkBytes)
  obtain ⟨n, hn⟩ := zeroFillExtend_magic io.zeroFillRewritten (max 10 env.walPreallocChunkBytes)
  rw [require, if_pos hfill, hn] at hrun
  refine ⟨n, ?_⟩
  rw [truncate_history env h, bind_of_ok (onError_of_ok hrun)]
  rfl

/-- The sidecar is not written when the recorded tail is already the bare magic. -/
theorem disk_of_rewritten (hfill : io.zeroFillRewritten = .ok) :
    ∃ n, (stateAfter (truncateDurableSegmentPrefix env io db.wal.core.flushedRecords) db.wal).disk =
      { db.wal.disk with
        segment := some (walSegmentMagic ++ zeros n)
        tail := if db.wal.core.tailOffsetRecorded ≠ 10 ∧ io.recordTail = .ok
          then some (writeWalTailOffset 10) else db.wal.disk.tail } := by
  obtain ⟨n, hrun⟩ := h.truncate_rewritten env io hwrite hsync hopen hfill
  refine ⟨n, ?_⟩
  rw [stateAfter, hrun]
  exact disk_recordTailOffset

end

end CheckpointedDb

/-- Once the checkpoint and its control file are installed, the truncation decides the live files. -/
theorem stateAfter_rotation_installed (db : DurableDb ι) (io : SegmentIo) :
    stateAfter (checkpointAndTruncateDurableWal env { segment := io }) db =
      ⟨stateAfter (truncateDurableSegmentPrefix env io db.wal.core.flushedRecords) db.wal,
        some (writeWalSegment db.history), some (checkpointMeta db.history)⟩ := by
  let installed : DurableDb ι := ⟨db.wal, some (writeWalSegment db.history), some (checkpointMeta db.history)⟩
  have hstep : checkpointAndTruncateDurableWal env { segment := io } db =
      (onWal (truncateDurableSegmentPrefix env io db.wal.core.flushedRecords) >>= fun _ =>
        pure (checkpointMeta db.history)) installed := rfl
  rw [stateAfter, stateAfter, hstep]
  cases hrun : truncateDurableSegmentPrefix env io db.wal.core.flushedRecords db.wal with
  | ok a w =>
    have hon : onWal (truncateDurableSegmentPrefix env io db.wal.core.flushedRecords) installed =
        .ok a { installed with wal := w } := by rw [onWal, hrun]
    rw [bind_of_ok hon]
    rfl
  | error e w =>
    have hon : onWal (truncateDurableSegmentPrefix env io db.wal.core.flushedRecords) installed =
        .error e { installed with wal := w } := by rw [onWal, hrun]
    rw [bind_of_error hon]

/-- **A completed rotation can be followed by another.**  It keeps the history, commits all of it and
leaves an open live segment with no record. -/
theorem CheckpointedDb.rotated {db : DurableDb ι} (h : CheckpointedDb db) :
    (rotationCut env db .completed).history = db.history ∧ CheckpointedDb (rotationCut env db .completed) := by
  obtain ⟨n, hrun⟩ := h.truncate_rewritten env {} rfl rfl rfl rfl
  have hinv := triple_truncateDurableSegmentPrefix env {} db.wal.core.flushedRecords db.wal h.inv
  have hlen : db.history.length = db.wal.core.flushedRecords :=
    (length_take ..).trans (min_eq_left h.inv.flushed_le)
  have hcommitted : (⟨some (writeWalSegment db.history), some (checkpointMeta db.history)⟩ : CheckpointFiles) =
      ⟨some (writeWalSegment (db.history.take db.history.length)),
        some (checkpointMeta (db.history.take db.wal.core.flushedRecords))⟩ := by
    rw [← hlen, take_length]
  rw [rotationCut, io, stateAfter_rotation_installed, stateAfter]
  rw [hrun, recordTailOffset_run, if_pos rfl] at hinv ⊢
  by_cases hrec : db.wal.core.tailOffsetRecorded = 10
  · rw [if_pos hrec] at hinv ⊢
    exact ⟨rfl, hinv, (fun hclosed => by cases hclosed), h.distinct,
      .inr ⟨_, hlen.ge, le_rfl, hcommitted⟩, h.noFault, h.lineage⟩
  · rw [if_neg hrec] at hinv ⊢
    exact ⟨rfl, hinv, (fun hclosed => by cases hclosed), h.distinct,
      .inr ⟨_, hlen.ge, le_rfl, hcommitted⟩, h.noFault, h.lineage⟩

/-! ### Which cuts reopen -/

/-- The cuts after which the database reopens. A control file must exist: one from an earlier rotation,
or this one's. And the sidecar must not lie beyond the records of the live segment: before the rename
these are the durable bytes, after it the bare magic. -/
def RecoverableCut (db : DurableDb ι) : RotationCut → Prop
  | .beforeCheckpoint | .beforeControl =>
      db.files.control ≠ none ∧ db.recordedTail ≤ db.wal.core.durableBytes
  | .beforeLive => db.recordedTail ≤ db.wal.core.durableBytes
  | .zeroFill _ | .beforeTail => db.recordedTail ≤ 10
  | .completed => db.wal.core.tailOffsetRecorded = 10 → db.recordedTail ≤ 10

section

variable {db : DurableDb ι} (h : CheckpointedDb db)
include h

/-- With the whole history committed, the live segment may hold its end or nothing. -/
theorem reopens_of_committed (hd : d ≤ db.history.length)
    (hlive : ∀ path, ∃ recovery, recoverWalSegment path ⟨disk.segment, disk.tail⟩ = .ok recovery ∧
      recovery.records = db.history.drop d) :
    Reopens env ⟨some (writeWalSegment db.history), some (checkpointMeta db.history)⟩ disk db.history := by
  have himage := reopens_of_image env h.distinct hd le_rfl le_rfl hlive
  rwa [take_length] at himage

/-- Whether a database whose live segment was rewritten reopens. -/
theorem reopens_rewritten_iff {n : ℕ} (hseg : disk.segment = some (walSegmentMagic ++ zeros n)) :
    Reopens env ⟨some (writeWalSegment db.history), some (checkpointMeta db.history)⟩ disk
      db.history ↔ readWalTailOffset disk.tail ≤ 10 := by
  constructor
  · intro hopen
    by_contra ht
    refine not_reopens_of_recover_error env (fun path => ?_) hopen
    rw [hseg]
    exact recover_rewritten_stale (by omega)
  · intro ht
    refine reopens_of_committed env h le_rfl fun path => ⟨⟨[], 10, tornZeros n⟩, ?_, ?_⟩
    · rw [hseg]
      exact recover_rewritten ht
    · exact (drop_length).symm

/-- Whether a database with its old live segment and checkpoint reopens. -/
theorem reopens_unrotated_iff {files : CheckpointFiles} (hcontrol : files.control = db.files.control)
    (hcheckpoint : db.files.control ≠ none → ∃ c, db.wal.core.segmentBaseRecords ≤ c ∧
      c ≤ db.history.length ∧ files.checkpoint = some (writeWalSegment (db.history.take c))) :
    Reopens env files db.wal.disk db.history ↔
      db.files.control ≠ none ∧ db.recordedTail ≤ db.wal.core.durableBytes := by
  constructor
  · intro hopen
    refine ⟨fun hnone => not_reopens_of_control_none env (hcontrol.trans hnone) hopen, ?_⟩
    by_contra ht
    exact not_reopens_of_recover_error env (h.recover_live_stale (by omega)) hopen
  · rintro ⟨hsome, ht⟩
    obtain ⟨c, hbc, hc, hck⟩ := hcheckpoint hsome
    have hmeta : files.control = some (checkpointMeta (db.history.take db.wal.core.segmentBaseRecords)) := by
      rcases h.committed with ⟨hnone, -⟩ | ⟨_, -, -, hfiles⟩
      · exact absurd hnone hsome
      · rw [hcontrol, hfiles]
    have himage := reopens_of_image env h.distinct le_rfl hbc hc (h.recover_live ht)
    rwa [← hck, ← hmeta] at himage

end

/-- **Crash cuts of a rotation.**  After a crash at any point of a rotation, the checkpoint-aware reopen
replays exactly the flushed history, each record once and in order, if and only if a control file exists
at the cut and the sidecar does not lie beyond the records of the live segment. -/
theorem rotation_reopens_iff (db : DurableDb ι) (h : CheckpointedDb db) (cut : RotationCut) :
    Reopens env (rotationCut env db cut).files (rotationCut env db cut).wal.disk db.history ↔
      RecoverableCut db cut := by
  have hcommitted : db.files.control ≠ none → ∃ c, db.wal.core.segmentBaseRecords ≤ c ∧
      c ≤ db.history.length ∧ db.files.checkpoint = some (writeWalSegment (db.history.take c)) := by
    intro hsome
    rcases h.committed with ⟨hnone, -⟩ | ⟨c, hbc, hc, hfiles⟩
    · exact absurd hnone hsome
    · exact ⟨c, hbc, hc, by rw [hfiles]⟩
  cases cut with
  | beforeCheckpoint => exact reopens_unrotated_iff env h rfl hcommitted
  | beforeControl =>
    refine reopens_unrotated_iff env h rfl fun _ => ⟨db.history.length, h.base_le, le_rfl, ?_⟩
    rw [take_length]
    rfl
  | beforeLive =>
    rw [rotationCut, io, stateAfter_rotation_installed, h.disk_of_rewrite_failed env rfl]
    constructor
    · intro hopen
      by_contra ht
      rw [RecoverableCut] at ht
      exact not_reopens_of_recover_error env (h.recover_live_stale (by omega)) hopen
    · intro ht
      exact reopens_of_committed env h h.base_le (h.recover_live ht)
  | zeroFill progress =>
    obtain ⟨n, hdisk⟩ := h.disk_of_zeroFill_failed env { zeroFillRewritten := .fail progress } rfl rfl rfl (by simp)
    rw [rotationCut, io, stateAfter_rotation_installed, hdisk]
    exact reopens_rewritten_iff env h rfl
  | beforeTail =>
    obtain ⟨n, hdisk⟩ := h.disk_of_rewritten env { recordTail := .fail 0 } rfl rfl rfl rfl
    rw [rotationCut, io, stateAfter_rotation_installed, hdisk, reopens_rewritten_iff env h rfl]
    simp [RecoverableCut, DurableDb.recordedTail]
  | completed =>
    obtain ⟨n, hdisk⟩ := h.disk_of_rewritten env {} rfl rfl rfl rfl
    rw [rotationCut, io, stateAfter_rotation_installed, hdisk, reopens_rewritten_iff env h rfl]
    by_cases hrec : db.wal.core.tailOffsetRecorded = 10
    · simp [RecoverableCut, DurableDb.recordedTail, hrec]
    · simp [RecoverableCut, hrec, readWalTailOffset_write (show 10 < 2 ^ 64 by decide)]

end

/-! ### A database that was reopened once -/

def oneRecord : WalRecord := ⟨7, [1, 2, 3], by decide⟩

/-- A database reopened over a segment with one record: its sidecar records the 37 valid bytes. -/
def reopenedDb : DurableDb Unit where
  wal := withRecoveredDurableSegment plainEnv 0 "wal.segment" [oneRecord] ⟨[oneRecord], 37, 0⟩ none
    ⟨some (walSegmentMagic ++ encodedRecords [oneRecord]), none, .ok none⟩
  files := ⟨none, none⟩

theorem checkpointedDb_reopenedDb : CheckpointedDb reopenedDb := by
  have hrec : recoverWalSegment "wal.segment"
      ⟨some (walSegmentMagic ++ encodedRecords [oneRecord]), none⟩ = .ok ⟨[oneRecord], 37, 0⟩ := by
    have h := recoverWalSegment_complete "wal.segment" [oneRecord] 0 none (by decide)
    rw [zeros_zero, append_nil] at h
    exact h
  refine ⟨sysInv_recovered plainEnv 0 "wal.segment" [oneRecord] _ none _ hrec (suffix_refl _),
    ?_, ?_, .inl ⟨rfl, rfl⟩, rfl, ?_⟩
  · intro hclosed
    cases hclosed
  · decide
  · intro identity hid
    cases hid

/-- The reopened database survives a crash before the live segment is rewritten, a whole rotation, and
then a second one that is cut before its control file. -/
theorem rotation_reopens_reopenedDb : Reopens plainEnv (rotationCut plainEnv reopenedDb .beforeLive).files
      (rotationCut plainEnv reopenedDb .beforeLive).wal.disk reopenedDb.history ∧
    Reopens plainEnv (rotationCut plainEnv reopenedDb .completed).files
      (rotationCut plainEnv reopenedDb .completed).wal.disk reopenedDb.history ∧
    Reopens plainEnv (rotationCut plainEnv (rotationCut plainEnv reopenedDb .completed) .beforeControl).files
      (rotationCut plainEnv (rotationCut plainEnv reopenedDb .completed) .beforeControl).wal.disk
      reopenedDb.history := by
  refine ⟨?_, ?_, ?_⟩
  · refine (rotation_reopens_iff plainEnv reopenedDb checkpointedDb_reopenedDb .beforeLive).mpr ?_
    rw [RecoverableCut]
    decide
  · refine (rotation_reopens_iff plainEnv reopenedDb checkpointedDb_reopenedDb .completed).mpr ?_
    rw [RecoverableCut]
    decide
  · obtain ⟨hhistory, hdb⟩ := checkpointedDb_reopenedDb.rotated plainEnv
    rw [← hhistory]
    refine (rotation_reopens_iff plainEnv _ hdb .beforeControl).mpr ?_
    rw [RecoverableCut]
    decide

/-- **Stale sidecar.**  A crash between the rename of the live segment and the rewrite of its sidecar
leaves a recorded tail of 37 bytes beside a segment of 10: the reopen fails. And a first rotation that
is cut before its control file leaves none to open with. -/
theorem rotation_cut_stale_sidecar : CheckpointedDb reopenedDb ∧
    ¬ Reopens plainEnv (rotationCut plainEnv reopenedDb .beforeTail).files
      (rotationCut plainEnv reopenedDb .beforeTail).wal.disk reopenedDb.history ∧
    ¬ Reopens plainEnv (rotationCut plainEnv reopenedDb .beforeControl).files
      (rotationCut plainEnv reopenedDb .beforeControl).wal.disk reopenedDb.history := by
  have h := checkpointedDb_reopenedDb
  refine ⟨h, ?_, not_reopens_of_control_none plainEnv rfl⟩
  obtain ⟨n, hdisk⟩ := h.disk_of_rewritten plainEnv { recordTail := .fail 0 } rfl rfl rfl rfl
  rw [rotationCut, io, stateAfter_rotation_installed, hdisk, reopens_rewritten_iff plainEnv h rfl]
  show ¬ readWalTailOffset reopenedDb.wal.disk.tail ≤ 10
  decide

end ThunderboltDb.Engine
