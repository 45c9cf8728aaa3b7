import ThunderboltDb.Wal.GroupFlush
import ThunderboltDb.Lib.Transition

/-!
# The serial WAL as a transition system

The calls on one `WalBuffer` and the I/O of its in-flight job interleave: a job is formed under the
buffer's lock, writes and syncs without it, and takes only the core's lock to finish. A state is the
buffer with its core and disk, the job in flight with how far its I/O got, and the reservations that
callers hold.

A call that returns an error is a step (what it changed stays); a call that panics or still waits is
not. A write step is one successful `pwritev`, so that every state between two partial writes is a
state of the system.
-/

namespace ThunderboltDb.Wal

open Lib

/-- A job in flight: the bytes written so far and whether `fdatasync` has returned success. -/
structure FlushProgress where
  job : SerialFlushJob
  written : ℕ
  synced : Bool
  deriving DecidableEq

structure WalSystem (ι : Type) where
  wal : WalState ι
  flight : Option FlushProgress
  reservations : List (WalTypedExactAppendReservation ι)

/-- The calls on a buffer and the I/O steps of its job. -/
inductive WalAction (ι : Type) where
  | append (r : WalRecord)
  | appendCanonical (prepared : PreparedCanonicalWalRecord ι)
  | reserve (io : SegmentIo) (prepared : PreparedCanonicalWalRecord ι)
  | tentative (i : ℕ)
  | rollback (i : ℕ)
  | claim (i : ℕ)
  | dropReservation (i : ℕ)
  | beginGroupFlush (io : SegmentIo)
  | jobWrite (n : ℕ)
  | jobSync
  | jobCommit
  | jobFail (stage : DurabilityStage) (rawOsError : Option ℤ)
  | jobAbandon
  | truncate (io : SegmentIo) (len : ℕ)
  | truncateDurableSegmentPrefix (io : SegmentIo) (base : ℕ)
  | failNextFlush

section

variable {ι : Type} (s : WalSystem ι)

/-- A call that either returns a value or an error. -/
def WalSystem.call {α : Type} (m : WalM ι α) (k : α → WalSystem ι → WalSystem ι) : Option (WalSystem ι) :=
  match m s.wal with
  | .ok a w => some (k a { s with wal := w })
  | .error (.error _) w => some { s with wal := w }
  | .error _ _ => none

/-- A call on the `i`-th reservation, which it updates in place. -/
def WalSystem.callReservation (i : ℕ) (m : ReservationM ι Unit) : Option (WalSystem ι) :=
  match s.reservations[i]? with
  | none => none
  | some r =>
    match m (s.wal, r) with
    | .ok _ (w, r') => some { s with wal := w, reservations := s.reservations.set i r' }
    | .error (.error _) (w, r') => some { s with wal := w, reservations := s.reservations.set i r' }
    | .error _ _ => none

/-- A call that ends the job in flight, with an error or not. -/
def WalSystem.endJob {α : Type} (m : WalM ι α) : Option (WalSystem ι) :=
  (s.call m fun _ s => s).map fun s => { s with flight := none }

/-- `pwritev` wrote the next `n` bytes of the group. -/
def WalSystem.jobWrite (p : FlushProgress) (n : ℕ) : WalSystem ι :=
  let bytes := (p.job.group.bytes.drop p.written).take n
  { s with
    wal := { s.wal with disk := { s.wal.disk with
      segment := some (writeAt s.wal.disk.bytes (p.job.offset + p.written) bytes) } }
    flight := some { p with written := p.written + n } }

variable [DecidableEq ι] (env : WalEnv ι)

def WalSystem.step (s : WalSystem ι) : WalAction ι → Option (WalSystem ι)
  | .append r => s.call (append r) fun _ s => s
  | .appendCanonical prepared => s.call (appendCanonical prepared) fun _ s => s
  | .reserve io prepared => s.call (reserveTypedExactAppend env io prepared) fun r s =>
      { s with reservations := s.reservations ++ [r] }
  | .tentative i => s.callReservation i appendTypedExactTentative
  | .rollback i => s.callReservation i rollbackTypedExactAppend
  | .claim i =>
    -- the reservation is moved into the call and dropped at its end
    match s.reservations[i]? with
    | none => none
    | some r => (s.call (claimTypedExactAppend r) fun _ s => s).bind fun s =>
        { s with reservations := s.reservations.eraseIdx i }.call (dropReservation r) fun _ s => s
  | .dropReservation i =>
    match s.reservations[i]? with
    | none => none
    | some r =>
      { s with reservations := s.reservations.eraseIdx i }.call (dropReservation r) fun _ s => s
  | .beginGroupFlush io => s.call (beginGroupFlush env io) fun begun s =>
      match begun with
      | .job job => { s with flight := some ⟨job, 0, false⟩ }
      | _ => s
  | .jobWrite n =>
    match s.flight with
    | none => none
    | some p =>
      if p.synced = false ∧ 0 < n ∧ p.written + n ≤ p.job.group.wireBytes then some (s.jobWrite p n)
      else none
  | .jobSync =>
    match s.flight with
    | none => none
    | some p =>
      if p.synced = false ∧ p.written = p.job.group.wireBytes then
        some { s with flight := some { p with synced := true } }
      else none
  | .jobCommit =>
    match s.flight with
    | none => none
    | some p => if p.synced then s.endJob (p.job.commit (.ok ())) else none
  | .jobFail stage rawOsError =>
    match s.flight with
    | none => none
    | some p =>
      if p.synced = false then
        s.endJob (p.job.commit (.error (p.job.group.fault stage rawOsError)))
      else none
  | .jobAbandon =>
    match s.flight with
    | none => none
    | some p => if p.written = 0 ∧ p.synced = false then s.endJob p.job.abandon else none
  | .truncate io len => s.call (truncate io len) fun _ s => s
  | .truncateDurableSegmentPrefix io base =>
    s.call (truncateDurableSegmentPrefix env io base) fun _ s => s
  | .failNextFlush =>
    s.call (modifyBuffer fun b => { b with failNextFlush := true }) fun _ s => s

/-! ### Initial states -/

/-- `with_recovered_durable_segment_with_binding`, after the history check: the segment is cut at the
valid bytes, zero-filled again and its tail recorded. -/
def withRecoveredDurableSegment (ownerId : ℕ) (path : String) (records : List WalRecord)
    (recovery : WalSegmentRecovery) (identity : Option ι) (disk : WalDisk ι) : WalState ι :=
  let preallocTo := max (max recovery.validBytes env.walPreallocChunkBytes)
    (recovery.validBytes + env.walPreallocChunkBytes / 2)
  let opened : Bool := 0 < recovery.validBytes
  { buffer := { WalBuffer.withDurableSegment ownerId identity with
      records := records
      highestClaimedTypedExactRecord := if records = [] then none else some (records.length - 1)
      typedExactHandoffCursor := records.length
      canonicalCatalogTail := .dirty
      durableIdentityBinding := ⟨identity, records.length⟩ }
    core := { WalDurableState.fresh path with
      fileOpen := opened
      preallocBytes := if opened then preallocTo else 0
      durableBytes := recovery.validBytes
      tailOffsetRecorded := recovery.validBytes
      segmentBaseRecords := records.length - recovery.records.length
      flushedRecords := records.length }
    disk := if opened then { disk with
        segment := some (zeroFillExtend .ok recovery.validBytes preallocTo
          (disk.bytes.take recovery.validBytes))
        tail := some (writeWalTailOffset recovery.validBytes) }
      else disk }

/-- A fresh durable buffer over whatever files are there, or one installed over a segment that
`recover_wal_segment` accepted and a history that ends with its records
(`validate_recovered_segment_history`). -/
inductive WalInit : WalSystem ι → Prop
  | fresh (ownerId : ℕ) (path : String) (identity : Option ι) (disk : WalDisk ι) :
      WalInit ⟨⟨.withDurableSegment ownerId identity, .fresh path, disk⟩, none, []⟩
  | recovered (ownerId : ℕ) (path : String) (records : List WalRecord)
      (recovery : WalSegmentRecovery) (identity : Option ι) (disk : WalDisk ι)
      (hrec : recoverWalSegment path ⟨disk.segment, disk.tail⟩ = .ok recovery)
      (hsuffix : recovery.records <:+ records) :
      WalInit ⟨withRecoveredDurableSegment env ownerId path records recovery identity disk, none, []⟩

def walSystem : TransitionSystem (WalSystem ι) (WalAction ι) where
  init := WalInit env
  step := WalSystem.step env

end

end ThunderboltDb.Wal
