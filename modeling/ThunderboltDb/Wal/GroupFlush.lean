import ThunderboltDb.Wal.TypedExact

/-!
# Group flushes and rotation of the live segment

`beginGroupFlush` selects a bounded prefix of the unflushed tail under the lock, prepares the file
extent and hands the prefix to a job; the job writes and syncs without the lock; the post-handoff
functions take the lock again and advance the durable watermark. `truncateDurableSegmentPrefix`
rewrites the live segment without its checkpointed prefix.
-/

namespace ThunderboltDb.Wal

open Lib

variable {ι : Type} (b : WalBuffer ι)

/-! ### Prefix selection -/

structure WalGroupPrefix where
  firstRecord : ℕ
  targetRecords : ℕ
  wireBytes : ℕ
  exactRecords : ℕ
  deriving DecidableEq

def WalGroupPrefix.groupSize (p : WalGroupPrefix) : ℕ := p.targetRecords - p.firstRecord

def WalBuffer.exactWireForGroup (index : ℕ) (record : WalRecord) :
    Except EngineError (Option ExactTypedWireRecord) :=
  match b.wireAt index with
  | none => .ok none
  | some wire =>
    if wire.state ≠ .claimedPending then .error (.durability
      "attempted to form a WAL group around a non-claimed typed exact record")
    else if wire.packedPayload ≠ record.payload then .error (.durability
      "typed exact WAL wire authority diverged from its packed record")
    else .ok (some wire)

def WalBuffer.exactWirePrefixCount (upTo : ℕ) : Except EngineError ℕ :=
  let owners := b.exactTypedWireRecords.takeWhile fun wire => wire.recordIndex < upTo
  if owners.all (fun wire => wire.state = .claimedPending) then .ok owners.length
  else .error (.durability "attempted to hand off a non-claimed typed exact WAL owner")

/-- The selection loop. The first argument counts the records the group may still take, from
`MAX_WAL_GROUP_RECORDS` down. -/
def WalBuffer.selectLoop (b : WalBuffer ι) (firstRecord : ℕ) (serialFreeBytes : Option ℕ) :
    ℕ → ℕ → ℕ → Bool → Except EngineError (ℕ × ℕ)
  | 0, target, wireBytes, _ => .ok (target, wireBytes)
  | room + 1, target, wireBytes, includesExact =>
    match b.records[target]? with
    | none => .ok (target, wireBytes)
    | some record =>
      match b.exactWireForGroup target record with
      | .error e => .error e
      | .ok exact =>
        -- a legacy record behind an exact one belongs to the next group
        if includesExact ∧ exact = none then .ok (target, wireBytes)
        else
          let recordBytes := match exact with
            | some wire => wire.serializedRecord.length
            | none => encodedRecordLen record
          let nextBytes := wireBytes + recordBytes
          if maxWalGroupWireBytes < nextBytes ∨ serialFreeBytes.any (· < nextBytes) then
            if target = firstRecord then .error (.durability
              s!"WAL record of {recordBytes} bytes exceeds its configured group or preallocated serial extent bound")
            else .ok (target, wireBytes)
          else b.selectLoop firstRecord serialFreeBytes room (target + 1) nextBytes
            (includesExact || exact.isSome)

def WalBuffer.selectPreparedGroupPrefix (firstRecord : ℕ)
    (serialFreeBytes : Option ℕ) : Except EngineError (Option WalGroupPrefix) :=
  if b.records.length ≤ firstRecord then .ok none
  else
    match b.selectLoop firstRecord serialFreeBytes maxWalGroupRecords firstRecord 0 false with
    | .error e => .error e
    | .ok (target, wireBytes) =>
      match b.exactWirePrefixCount target with
      | .error e => .error e
      | .ok exactRecords => .ok (some ⟨firstRecord, target, wireBytes, exactRecords⟩)

/-! ### Handoff -/

inductive GroupEntry where
  | exact (wire : ExactTypedWireRecord)
  | legacy (header payload : Bytes)
  deriving DecidableEq

def GroupEntry.bytes : GroupEntry → Bytes
  | .exact wire => wire.serializedRecord
  | .legacy header payload => header ++ payload

def GroupEntry.credits : GroupEntry → List ℕ
  | .exact wire => [wire.pendingGroupCredit]
  | .legacy _ _ => []

/-- `PreparedWalGroup`; `slot` is the index of its descriptor. -/
structure PreparedWalGroup where
  slot : ℕ
  entries : List GroupEntry
  wireBytes : ℕ
  firstRecord : ℕ
  targetRecords : ℕ
  containsExact : Bool
  deriving DecidableEq

/-- The group's bytes in file order. -/
def PreparedWalGroup.bytes (g : PreparedWalGroup) : Bytes := g.entries.flatMap GroupEntry.bytes

def PreparedWalGroup.credits (g : PreparedWalGroup) : List ℕ := g.entries.flatMap GroupEntry.credits

variable (g : PreparedWalGroup) (p : WalGroupPrefix)

def PreparedWalGroup.fault (stage : DurabilityStage) (rawOsError : Option ℤ) : DurabilityFault :=
  ⟨stage, rawOsError, g.firstRecord⟩

/-- `WalPreparedGroupArena::try_acquire`: the first idle slot, unless a poisoned one comes before. -/
def tryAcquire : List GroupSlotState → Except DurabilityFault (Option ℕ)
  | [] => .ok none
  | .idle :: _ => .ok (some 0)
  | .busy :: slots => (tryAcquire slots).map (Option.map (· + 1))
  | .poisoned fault :: _ => .error fault

def WalBuffer.setSlot (slot : ℕ) (state : GroupSlotState) : WalBuffer ι :=
  { b with preparedGroupArena :=
    { b.preparedGroupArena with slots := b.preparedGroupArena.slots.set slot state } }

/-- `push_legacy`. -/
def legacyEntry (r : WalRecord) : GroupEntry := .legacy (encodeRecordHeader r) r.payload

/-- The loop that moves claimed owners and borrows legacy payloads, in record order. -/
def formEntries : List (WalRecord × ℕ) → List ExactTypedWireRecord → List GroupEntry
  | [], _ => []
  | (r, _) :: records, [] => legacyEntry r :: formEntries records []
  | (r, index) :: records, wire :: wires =>
    if wire.recordIndex = index then
      .exact { wire with state := .inFlight } :: formEntries records wires
    else legacyEntry r :: formEntries records (wire :: wires)

def WalBuffer.prefixRecords : List (WalRecord × ℕ) :=
  (b.records.zipIdx.take p.targetRecords).drop p.firstRecord

/-- The group that `handoff_prepared_group` forms in `slot` from the first `exactCount` owners. -/
def WalBuffer.formGroup (slot exactCount : ℕ) : PreparedWalGroup where
  slot := slot
  entries := formEntries (b.prefixRecords p) (b.exactTypedWireRecords.take exactCount)
  wireBytes := p.wireBytes
  firstRecord := p.firstRecord
  targetRecords := p.targetRecords
  containsExact := p.exactRecords ≠ 0

/-- A descriptor dropped before its group was formed is poisoned. -/
def descriptorPoison : GroupSlotState := .poisoned ⟨.descriptorPoison, none, 0⟩

/-- `handoff_prepared_group`; `none` is backpressure. -/
def handoffPreparedGroup : WalM ι (Option PreparedWalGroup) := do
  let b := (← get).buffer
  match tryAcquire b.preparedGroupArena.slots with
  | .error fault => failWith (.durabilityFault fault)
  | .ok none => pure none
  | .ok (some slot) =>
    match b.exactWirePrefixCount p.targetRecords with
    | .error e => do
      modifyBuffer fun b => b.setSlot slot descriptorPoison
      failWith e
    | .ok exactCount =>
      if exactCount ≠ p.exactRecords then do
        modifyBuffer fun b => b.setSlot slot descriptorPoison
        failDurability "WAL exact-owner prefix drifted after group preflight"
      else
        let group := b.formGroup p slot exactCount
        if group.entries.length ≠ p.groupSize ∨ group.bytes.length ≠ p.wireBytes then
          throw (.panic "assertion failed: group formation")
        else do
          modifyBuffer fun b => { b.setSlot slot .busy with
            exactTypedWireRecords := b.exactTypedWireRecords.drop exactCount
            typedExactHandoffCursor :=
              if p.exactRecords ≠ 0 then max b.typedExactHandoffCursor p.targetRecords
              else b.typedExactHandoffCursor }
          pure (some group)

/-! ### Beginning a group -/

structure SerialFlushJob where
  offset : ℕ
  targetRecords : ℕ
  groupSize : ℕ
  group : PreparedWalGroup
  deriving DecidableEq

inductive WalGroupFlushBegin where
  | job (job : SerialFlushJob)
  | clean (flushedRecords : ℕ)
  | busy

/-- Cap a prefix that holds exact owners to the preallocated extent. -/
def capToExtent (natural : WalGroupPrefix) : WalM ι WalGroupPrefix := do
  let w ← get
  if natural.exactRecords = 0 then pure natural
  else if w.core.preallocBytes < w.core.durableBytes then
    failDurability "serial WAL preallocation frontier is behind its durable tail"
  else
    match w.buffer.selectPreparedGroupPrefix w.core.flushedRecords
        (some (w.core.preallocBytes - w.core.durableBytes)) with
    | .error e => failWith e
    | .ok none => throw (.panic
        "nonempty serial WAL prefix remains nonempty after extent cap")
    | .ok (some p) =>
      if p.exactRecords ≠ 0 ∧ (w.core.fileOpen = false ∨
          w.core.preallocBytes < w.core.durableBytes + p.wireBytes) then
        failDurability "claimed typed exact WAL group escaped its pre-proposal serial extent"
      else pure p

section

variable [DecidableEq ι] (env : WalEnv ι)

/-- Without exact owners the identity of the group's records is checked here; with them it was checked
at their admission. -/
def verifyGroupIdentity (io : IoOutcome) (p : WalGroupPrefix) : WalM ι Unit := do
  if (← get).buffer.exactTypedWireRecords = [] then verifyThrough env io p.targetRecords else pure ()

/-- The file extent of a group: a legacy-only log creates and extends the file here; a legacy prefix
before exact owners must fit the extent their admission prepared. -/
def prepareGroupExtent (io : SegmentIo) (p : WalGroupPrefix) : WalM ι Unit := do
  let w ← get
  if p.exactRecords ≠ 0 then pure ()
  else if w.buffer.exactTypedWireRecords = [] then do
    ensureCreated env io
    ensurePreallocatedThrough env io.zeroFillExtend ((← get).core.durableBytes + p.wireBytes)
  else
    require (w.core.fileOpen ∧ w.core.durableBytes + p.wireBytes ≤ w.core.preallocBytes)
      "legacy prefix before a claimed typed exact WAL owner escaped its pre-proposal serial extent"

/-- Hand a prepared prefix to a job and mark the file busy. -/
def startJob : WalM ι WalGroupFlushBegin := do
  let c := (← get).core
  if c.fileOpen = false then throw (.panic "write handle present")
  else do
    let group ← handoffPreparedGroup p
    match group with
    | none => pure .busy
    | some group => do
      modifyCore fun c => { c with ioInFlight := true }
      pure (.job ⟨c.durableBytes, p.targetRecords, p.groupSize, group⟩)

def requireNoUnclaimedTypedExactTail : WalM ι Unit := do
  if (← get).buffer.typedExactTentativeCount ≠ 0 then
    failDurability "cannot flush an unclaimed tentative typed exact WAL tail"
  else pure ()

/-- The test hook that makes one flush fail. -/
def takeSimulatedFailure : WalM ι Unit := do
  if (← get).buffer.failNextFlush then
    modifyBuffer fun b => { b with failNextFlush := false }
    failDurability "simulated wal flush failure"
  else pure ()

/-- Select, prepare and hand off the next group. -/
def formNextGroup (io : SegmentIo) : WalM ι WalGroupFlushBegin := do
  let w ← get
  match w.buffer.selectPreparedGroupPrefix w.core.flushedRecords none with
  | .error e => failWith e
  | .ok none => pure (.clean w.core.flushedRecords)
  | .ok (some natural) => do
    let p ← capToExtent natural
    verifyGroupIdentity env io.installIdentity p
    prepareGroupExtent env io p
    startJob p

/-- `begin_group_flush` on the serial backend. The in-flight test stands between the two poison
tests. -/
def beginGroupFlush (io : SegmentIo) : WalM ι WalGroupFlushBegin := do
  pruneDurableTypedExactWireRecords
  requireNoUnclaimedTypedExactTail
  takeSimulatedFailure
  let c := (← get).core
  if c.fixedFault = none ∧ c.ioInFlight then pure .busy
  else do
    requireUnpoisoned
    formNextGroup env io

end

/-! ### Finishing a group -/

variable (c : WalDurableState) (fault : DurabilityFault) (job : SerialFlushJob)
  (ioResult : Except DurabilityFault Unit)

def WalDurableState.noteGroup (groupSize targetRecords : ℕ) : WalDurableState :=
  { c with flushedRecords := targetRecords,
           stats := ⟨c.stats.flushGroups + 1, c.stats.durableRecords + groupSize,
             max c.stats.maxGroupSize groupSize⟩ }

/-- `DurabilityPoison::install`: the first fault wins. -/
def WalDurableState.installFixedFault : WalDurableState :=
  { c with fixedFault := some (c.fixedFault.getD fault) }

/-- Give a group's descriptor back; its entries and their credits are dropped. -/
def settleGroup (state : GroupSlotState) : WalM ι Unit :=
  modifyBuffer fun b => (b.releaseCredits g.credits).setSlot g.slot state

/-- `serial_exact_fault`, also the body of `serial_exact_abandon`. -/
def serialExactFault {α : Type} : WalM ι α := do
  modifyCore fun c => c.installFixedFault fault
  let first := (← get).core.fixedFault.getD fault
  settleGroup g (.poisoned first)
  modifyCore fun c => { c with ioInFlight := false }
  failWith (.durabilityFault first)

/-- The watermark advance both backends make once write and sync have succeeded. -/
def advanceDurable : WalM ι ℕ := do
  modifyCore fun c => { c.noteGroup job.groupSize job.targetRecords with
    durableBytes := job.offset + job.group.wireBytes, ioInFlight := false }
  settleGroup job.group .idle
  pure job.targetRecords

/-- The frontier the job was formed against is still there. -/
def frontierHolds (job : SerialFlushJob) : Prop :=
  c.durableBytes = job.offset ∧ job.offset + job.group.wireBytes ≤ c.preallocBytes

instance (c : WalDurableState) (job : SerialFlushJob) : Decidable (frontierHolds c job) :=
  inferInstanceAs (Decidable (_ ∧ _))

/-- `serial_exact_post_handoff`, after the write and the sync returned `ioResult`. -/
def serialExactPostHandoff : WalM ι ℕ := do
  match ioResult with
  | .error fault => serialExactFault job.group fault
  | .ok () =>
    if frontierHolds (← get).core job then advanceDurable job
    else serialExactFault job.group (job.group.fault .frontierDrift none)

/-- A failed legacy group poisons its descriptor and the core. -/
def serialLegacyFault {α : Type} (reason message : String) : WalM ι α := do
  settleGroup g (.poisoned fault)
  modifyCore fun c => { c with ioInFlight := false, poisoned := some reason }
  failDurability message

def serialLegacyPostHandoff : WalM ι ℕ := do
  let c := (← get).core
  let path := c.segmentPath
  match ioResult with
  | .error fault =>
    let text := fault.text
    serialLegacyFault job.group fault s!"group flush failed ({text})"
      s!"failed to flush WAL segment group {path}: {text}"
  | .ok () =>
    if frontierHolds c job then advanceDurable job
    else
      let fault := job.group.fault .frontierDrift none
      let text := fault.text
      serialLegacyFault job.group fault s!"serial WAL group frontier drifted ({text})"
        s!"serial WAL group frontier drifted for {path}: {text}"

/-- `SerialFlushJob::commit`, after its I/O. -/
def SerialFlushJob.commit : WalM ι ℕ :=
  if job.group.containsExact then serialExactPostHandoff job ioResult
  else serialLegacyPostHandoff job ioResult

def SerialFlushJob.abandon : WalM ι Unit :=
  let fault := job.group.fault .abandoned none
  if job.group.containsExact then serialExactFault job.group fault
  else serialLegacyFault job.group fault "group flush abandoned mid-IO" "group flush abandoned mid-IO"

/-! ### Rotation of the live segment -/

section

variable [DecidableEq ι] (env : WalEnv ι)

/-- The identity check of the rewrite: a bound buffer requires its anchor, an unbound one binds the
retained records. -/
def bindRetained (io : IoOutcome) (retained : List WalRecord) : WalM ι Unit := do
  let w ← get
  match w.buffer.durableIdentityBinding.identity with
  | some identity => anchorIdentity io true (some identity)
  | none =>
    match scanIdentity env none retained with
    | .error e => failWith e
    | .ok identity => anchorIdentity io false identity

/-- Temporary file, rename and directory fsync. A failure with progress comes after the rename. -/
def installSegment (io : IoOutcome) (retained : List WalRecord) : WalM ι Unit :=
  match io with
  | .ok => modifyDisk fun d => { d with segment := some (writeWalSegment retained) }
  | .fail progress => do
    modifyDisk fun d =>
      { d with segment := if 0 < progress then some (writeWalSegment retained) else d.segment }
    failDurability "failed to install WAL segment"

/-- The part of `truncate_durable_segment_prefix` during which the handle is closed: every failure
poisons the core. -/
def replaceSegment (io : SegmentIo) (retained : List WalRecord) (durableBytes preallocTo : ℕ) :
    WalM ι Unit := do
  bindRetained env io.installIdentity retained
  installSegment io.rewriteSegment retained
  require (io.syncRewrittenDir = .ok) "failed to fsync WAL segment directory"
  require (io.reopenRewritten = .ok) "failed to reopen WAL segment after prefix truncation"
  modifyDisk fun d =>
    { d with segment := some (zeroFillExtend io.zeroFillRewritten durableBytes preallocTo d.bytes) }
  require (io.zeroFillRewritten = .ok)
    "failed to re-preallocate WAL segment after prefix truncation"

def truncateDurableSegmentPrefix (io : SegmentIo) (base : ℕ) : WalM ι Unit := do
  let w ← get
  let flushed := w.core.flushedRecords
  let segmentBase := w.core.segmentBaseRecords
  if w.core.ioInFlight then throw .blocked
  else if w.core.fixedFault.isSome then failWith (w.core.fixedFault.elim .notLeader .durabilityFault)
  else if flushed < base then
    failDurability s!"WAL segment prefix truncation boundary {base} exceeds the durable watermark {flushed}"
  else if base < segmentBase then
    failDurability s!"WAL segment prefix truncation boundary {base} precedes the existing checkpoint base {segmentBase}"
  else
    match w.buffer.durableIdentityBinding.identity.map
        (requireDurableIdentity w.core.segmentPath w.disk.anchor) with
    | some (.error e) => failWith e
    | _ => do
      modifyCore fun c => { c with fileOpen := false }
      let retained := (w.buffer.records.take flushed).drop base
      let durableBytes := walSegmentMagic.length + (retained.map encodedRecordLen).sum
      let preallocTo := max durableBytes env.walPreallocChunkBytes
      onError (replaceSegment env io retained durableBytes preallocTo) fun w =>
        { w with core := { w.core with poisoned := some "prefix-truncation rewrite failed" } }
      modifyCore fun c => { c with
        preallocBytes := preallocTo, fileOpen := true, durableBytes := durableBytes,
        segmentBaseRecords := base, poisoned := none }
      recordTailOffset io.recordTail

end

end ThunderboltDb.Wal
