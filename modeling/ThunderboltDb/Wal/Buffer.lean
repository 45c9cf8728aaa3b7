import ThunderboltDb.Wal.Segment
import ThunderboltDb.Lib.StateResult

/-!
# The durable WAL buffer: state, file primitives and identity binding

`WalBuffer` keeps the whole logical record history in memory; its serial backing (`WalDurableState`)
says how much of it is on disk. Here is the state of both, the disk they write to and the small
functions the public operations are built from.

A method that takes `&mut self` and returns a `Result` is a `WalM` computation: what it changed before
an error stays changed. Three ways of not returning normally are kept apart (`CallFailure`): an
error value, a panic, and waiting for an in-flight group.

File-system calls can fail. Each call site has its own outcome in `SegmentIo`, chosen by the
environment; a failed write may have written part of its bytes.

Modelled by value: `Arc` identity (`Arc::ptr_eq`) is equality of the shared bytes. Left out: `Vec`
capacities, which only change together with the lengths that are compared beside them, the in-memory
and the FUA backend.
-/

namespace ThunderboltDb.Wal

open Lib

/-! ### Constants -/

def maxWalGroupWireBytes : ℕ := 65 * 1024 * 1024 + walRecordHeaderLen

def maxWalGroupRecords : ℕ := 1024

def groupDescriptorSlots : ℕ := 2

/-! ### Environment -/

/-- What the WAL takes from outside: the canonical identity a record carries
(`decode_canonical_record_payload`) and the preallocation chunk, which is at least 1 MiB. -/
structure WalEnv (ι : Type) where
  decodeIdentity : WalRecord → Except EngineError (Option ι)
  walPreallocChunkBytes : ℕ
  chunk_ge : 1024 * 1024 ≤ walPreallocChunkBytes

/-- The result of one file-system call. A failed write got as far as `progress` bytes. -/
inductive IoOutcome where
  | ok
  | fail (progress : ℕ)
  deriving DecidableEq

/-- The outcomes of the file-system calls of one operation, by call site. -/
structure SegmentIo where
  removeTail : IoOutcome := .ok
  createDir : IoOutcome := .ok
  createFile : IoOutcome := .ok
  writeMagic : IoOutcome := .ok
  syncCreatedDir : IoOutcome := .ok
  reopenCreated : IoOutcome := .ok
  zeroFillCreated : IoOutcome := .ok
  recordTail : IoOutcome := .ok
  zeroFillExtend : IoOutcome := .ok
  installIdentity : IoOutcome := .ok
  rewind : IoOutcome := .ok
  rewriteSegment : IoOutcome := .ok
  syncRewrittenDir : IoOutcome := .ok
  reopenRewritten : IoOutcome := .ok
  zeroFillRewritten : IoOutcome := .ok

/-! ### State -/

structure CanonicalCatalogTail (ι : Type) where
  identity : ι
  catalogAfterEpoch : ℕ
  catalogAfterDigest : Bytes
  deriving DecidableEq

inductive CanonicalCatalogTailCache (ι : Type) where
  | known (recordCount : ℕ) (tail : Option (CanonicalCatalogTail ι))
  | dirty
  deriving DecidableEq

/-- `ExactCanonicalRecordAuthority`: identity and stable transaction id of the sealed header, and the
serialized record. -/
structure ExactAuthority (ι : Type) where
  identity : ι
  stableTransactionId : TxnId
  serializedRecord : Bytes
  deriving DecidableEq

/-- `PreparedCanonicalWalRecord`. The exact constructor fills the serialized bytes from the record it
seals, so an exact authority holds exactly the record's encoding. -/
structure PreparedCanonicalWalRecord (ι : Type) where
  record : WalRecord
  tail : CanonicalCatalogTail ι
  exact : Option (ExactAuthority ι)
  exact_serialized : ∀ e ∈ exact, e.serializedRecord = encodedRecord record

inductive ExactTypedWireState where
  | tentative
  | claimedPending
  | inFlight
  deriving DecidableEq

/-- `ExactTypedWireRecord`. Its credit is the serialized length it was reserved for. -/
structure ExactTypedWireRecord where
  recordIndex : ℕ
  packedPayload : Bytes
  serializedRecord : Bytes
  state : ExactTypedWireState
  pendingGroupCredit : ℕ
  deriving DecidableEq

/-- `GroupSlotState`, without the descriptor storage it keeps. -/
inductive GroupSlotState where
  | idle
  | busy
  | poisoned (fault : DurabilityFault)
  deriving DecidableEq

/-- `WalPreparedGroupArena`: the two descriptor slots and the exact-admission credits. -/
structure WalPreparedGroupArena where
  slots : List GroupSlotState
  creditRecords : ℕ
  creditBytes : ℕ
  deriving DecidableEq

def WalPreparedGroupArena.default : WalPreparedGroupArena :=
  ⟨List.replicate groupDescriptorSlots .idle, 0, 0⟩

structure DurableIdentityBinding (ι : Type) where
  identity : Option ι
  verifiedRecords : ℕ
  deriving DecidableEq

/-- `WalBuffer` with a serial backing. -/
structure WalBuffer (ι : Type) where
  records : List WalRecord
  exactTypedWireRecords : List ExactTypedWireRecord
  typedExactTentativeCount : ℕ
  highestClaimedTypedExactRecord : Option ℕ
  typedExactHandoffCursor : ℕ
  preparedGroupArena : WalPreparedGroupArena
  generation : ℕ
  ownerId : ℕ
  canonicalCatalogTail : CanonicalCatalogTailCache ι
  durableIdentityBinding : DurableIdentityBinding ι
  failNextFlush : Bool

structure WalGroupCommitStats where
  flushGroups : ℕ
  durableRecords : ℕ
  maxGroupSize : ℕ
  deriving DecidableEq

/-- `WalDurableState` with the core's path and its fixed poison; `fileOpen` is `file.is_some()`. -/
structure WalDurableState where
  segmentPath : String
  fileOpen : Bool
  preallocBytes : ℕ
  durableBytes : ℕ
  flushedRecords : ℕ
  segmentBaseRecords : ℕ
  tailOffsetRecorded : ℕ
  ioInFlight : Bool
  poisoned : Option String
  fixedFault : Option DurabilityFault
  stats : WalGroupCommitStats
  deriving DecidableEq

/-- The files beside the segment: the segment, its tail sidecar and what `read_durable_identity`
returns for the identity anchor. -/
structure WalDisk (ι : Type) where
  segment : Option Bytes
  tail : Option (List Char)
  anchor : Except EngineError (Option ι)

/-- A buffer, its core and the disk. -/
structure WalState (ι : Type) where
  buffer : WalBuffer ι
  core : WalDurableState
  disk : WalDisk ι

/-- How a call fails to return a value. -/
inductive CallFailure where
  | error (e : EngineError)
  | panic (message : String)
  | blocked
  deriving DecidableEq

/-- A method on the buffer. -/
abbrev WalM (ι : Type) := EStateM CallFailure (WalState ι)

section

variable {ι : Type} (io : IoOutcome) (env : WalEnv ι)

def failWith {α : Type} (e : EngineError) : WalM ι α := throw (.error e)

def failDurability {α : Type} (message : String) : WalM ι α := failWith (.durability message)

/-- Go on only if `c` holds. -/
def require (c : Prop) [Decidable c] (message : String) : WalM ι Unit :=
  if c then pure () else failDurability message

def modifyBuffer (f : WalBuffer ι → WalBuffer ι) : WalM ι Unit :=
  modify fun w => { w with buffer := f w.buffer }

def modifyCore (f : WalDurableState → WalDurableState) : WalM ι Unit :=
  modify fun w => { w with core := f w.core }

def modifyDisk (f : WalDisk ι → WalDisk ι) : WalM ι Unit :=
  modify fun w => { w with disk := f w.disk }

/-! ### Constructors -/

def WalDurableState.fresh (segmentPath : String) : WalDurableState where
  segmentPath := segmentPath
  fileOpen := false
  preallocBytes := 0
  durableBytes := 0
  flushedRecords := 0
  segmentBaseRecords := 0
  tailOffsetRecorded := 0
  ioInFlight := false
  poisoned := none
  fixedFault := none
  stats := ⟨0, 0, 0⟩

/-- `WalBuffer::with_durable_segment`; with an identity,
`with_durable_segment_bound_to_identity` after its anchor check. -/
def WalBuffer.withDurableSegment (ownerId : ℕ) (identity : Option ι) : WalBuffer ι where
  records := []
  exactTypedWireRecords := []
  typedExactTentativeCount := 0
  highestClaimedTypedExactRecord := none
  typedExactHandoffCursor := 0
  preparedGroupArena := .default
  generation := 0
  ownerId := ownerId
  canonicalCatalogTail := .known 0 none
  durableIdentityBinding := ⟨identity, 0⟩
  failNextFlush := false

/-! ### Files -/

/-- A positional write at `offset`, growing the file with zeros if it is shorter. -/
def writeAt (file : Bytes) (offset : ℕ) (bytes : Bytes) : Bytes :=
  (file ++ zeros (offset - file.length)).take offset ++ bytes ++ file.drop (offset + bytes.length)

/-- `zero_fill_extend`: write zeros over `[offset, upTo)`, up to the failure. -/
def zeroFillExtend (offset upTo : ℕ) (file : Bytes) : Bytes :=
  match io with
  | .ok => writeAt file offset (zeros (upTo - offset))
  | .fail progress => writeAt file offset (zeros (min progress (upTo - offset)))

/-- The open segment's bytes. -/
def WalDisk.bytes (d : WalDisk ι) : Bytes := d.segment.getD []

def recordTailOffset : WalM ι Unit := do
  let w ← get
  if w.core.tailOffsetRecorded = w.core.durableBytes then pure ()
  else
    match io with
    | .fail _ => failDurability "failed to write WAL tail-offset file"
    | .ok => do
      modifyDisk fun d => { d with tail := some (writeWalTailOffset w.core.durableBytes) }
      modifyCore fun c => { c with tailOffsetRecorded := c.durableBytes }

/-- `File::create` and the write of the magic; a failed write leaves a part of it. -/
def writeMagicFile : WalM ι Unit := do
  let path := (← get).core.segmentPath
  match io with
  | .ok => modifyDisk fun d => { d with segment := some walSegmentMagic }
  | .fail progress => do
    modifyDisk fun d => { d with segment := some (walSegmentMagic.take progress) }
    failDurability s!"failed to write WAL segment {path}"

/-- The file half of `ensure_created`, up to the preallocation of the first chunk. -/
def createSegmentFile (io : SegmentIo) : WalM ι Unit := do
  let path := (← get).core.segmentPath
  modifyDisk fun d => { d with tail := if io.removeTail = .ok then none else d.tail }
  require (io.createDir = .ok) s!"failed to create WAL segment directory {path}"
  require (io.createFile = .ok) s!"failed to create WAL segment {path}"
  writeMagicFile io.writeMagic
  require (io.syncCreatedDir = .ok) s!"failed to fsync WAL segment directory {path}"
  require (io.reopenCreated = .ok) s!"failed to reopen WAL segment for positional IO {path}"
  modifyDisk fun d =>
    { d with segment := some (zeroFillExtend io.zeroFillCreated walSegmentMagic.length
        env.walPreallocChunkBytes d.bytes) }
  require (io.zeroFillCreated = .ok) s!"failed to preallocate WAL segment {path}"

def ensureCreated (io : SegmentIo) : WalM ι Unit := do
  if (← get).core.fileOpen then pure ()
  else
    createSegmentFile env io
    modifyCore fun c =>
      { c with preallocBytes := env.walPreallocChunkBytes, fileOpen := true,
               durableBytes := walSegmentMagic.length }
    recordTailOffset io.recordTail

def ensurePreallocatedThrough (io : IoOutcome) (writeEnd : ℕ) : WalM ι Unit := do
  let c := (← get).core
  if writeEnd ≤ c.preallocBytes then pure ()
  else
    let newPrealloc :=
      max (max writeEnd (c.preallocBytes + env.walPreallocChunkBytes)) env.walPreallocChunkBytes
    if c.fileOpen = false then
      failDurability "WAL preallocation requires an open segment handle"
    else
      modifyDisk fun d =>
        { d with segment := some (zeroFillExtend io c.preallocBytes newPrealloc d.bytes) }
      let path := c.segmentPath
      require (io = .ok) s!"failed to extend WAL segment preallocation {path}"
      modifyCore fun c => { c with preallocBytes := newPrealloc }

/-! ### Identity binding -/

def spanMultipleIdentities : String := "canonical WAL records span multiple durable identities"

variable [DecidableEq ι]

/-- One turn of the identity scan over a record run. -/
def mergeIdentity (identity : Option ι) (r : WalRecord) : Except EngineError (Option ι) :=
  match env.decodeIdentity r with
  | .error e => .error e
  | .ok none => .ok identity
  | .ok (some found) =>
    match identity with
    | none => .ok (some found)
    | some expected =>
      if expected = found then .ok (some expected) else .error (.durability spanMultipleIdentities)

/-- The identity of a record run that starts from a known one. -/
def scanIdentity (identity : Option ι) (rs : List WalRecord) : Except EngineError (Option ι) :=
  rs.foldlM (mergeIdentity env) identity

def anchorForeign (path : String) : String :=
  s!"durable identity anchor beside {path} belongs to another database/timeline"

def requireDurableIdentity (path : String) (anchor : Except EngineError (Option ι)) (identity : ι) :
    Except EngineError Unit :=
  match anchor with
  | .error e => .error e
  | .ok (some existing) =>
    if existing = identity then .ok () else .error (.durability (anchorForeign path))
  | .ok none => .error (.durability
      s!"canonical WAL exists beside {path} but its durable identity anchor is missing")

/-- `check_or_install_durable_identity`. The install may fail before or after its rename. -/
def checkOrInstallDurableIdentity (identity : ι) : WalM ι Unit := do
  let w ← get
  match w.disk.anchor with
  | .error e => failWith e
  | .ok (some existing) =>
    if existing = identity then
      if io = .ok then pure () else failDurability "failed to fsync WAL segment directory"
    else failDurability (anchorForeign w.core.segmentPath)
  | .ok none =>
    match io with
    | .ok => modifyDisk fun d => { d with anchor := .ok (some identity) }
    | .fail progress => do
      -- with progress, the rename happened and the directory fsync after it did not
      modifyDisk fun d => { d with anchor := if 0 < progress then .ok (some identity) else d.anchor }
      failDurability "failed to install durable identity"

/-- The anchor of an identity: required when the binding had one, installed at the first bind. -/
def anchorIdentity (wasBound : Bool) : Option ι → WalM ι Unit
  | none => pure ()
  | some identity => do
    let w ← get
    if wasBound then
      match requireDurableIdentity w.core.segmentPath w.disk.anchor identity with
      | .error e => failWith e
      | .ok () => pure ()
    else checkOrInstallDurableIdentity io identity

/-- `DurableIdentityBinding::verify_through`. The record slice `verified..target` panics when it is
not a range of the records. -/
def verifyThrough (io : IoOutcome) (target : ℕ) : WalM ι Unit := do
  let w ← get
  let binding := w.buffer.durableIdentityBinding
  if binding.verifiedRecords = target then pure ()
  else if target < binding.verifiedRecords ∨ w.buffer.records.length < target then
    throw (.panic "slice index out of range")
  else
    match scanIdentity env binding.identity
        ((w.buffer.records.take target).drop binding.verifiedRecords) with
    | .error e => failWith e
    | .ok identity => do
      anchorIdentity io binding.identity.isSome identity
      modifyBuffer fun b => { b with durableIdentityBinding := ⟨identity, target⟩ }

end

end ThunderboltDb.Wal
