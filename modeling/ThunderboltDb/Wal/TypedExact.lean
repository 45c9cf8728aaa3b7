import ThunderboltDb.Wal.Buffer

/-!
# Appending: plain records and the typed exact lifecycle

Plain records are pushed (`append`, `appendCanonical`). A typed exact record goes through
`reserveTypedExactAppend` (bytes, credit and file extent are provided before replication), a tentative
append, and then either a claim, after which it can be flushed, or a rollback. `truncate` drops the
unflushed tail and refuses to cut into exact records.

The reservation is a value the caller owns. Methods that take `&mut reservation` run on the pair of
buffer and reservation, so that what an error leaves in either is visible.
-/

namespace ThunderboltDb.Wal

open Lib

variable {ι : Type} (b : WalBuffer ι)

/-! ### Shared helpers -/

/-- `binary_search_by_key` on the wire records, which are sorted by index. -/
def WalBuffer.wireAt (index : ℕ) : Option ExactTypedWireRecord :=
  b.exactTypedWireRecords.find? fun wire => wire.recordIndex = index

/-- Release credits, as dropping their owners does. -/
def WalPreparedGroupArena.releaseCredits (a : WalPreparedGroupArena) (credits : List ℕ) :
    WalPreparedGroupArena :=
  { a with creditRecords := a.creditRecords - credits.length,
           creditBytes := a.creditBytes - credits.sum }

def WalBuffer.releaseCredits (credits : List ℕ) : WalBuffer ι :=
  { b with preparedGroupArena := b.preparedGroupArena.releaseCredits credits }

/-- `prune_durable_typed_exact_wire_records`. -/
def WalBuffer.pruneDurable (durable : ℕ) : WalBuffer ι :=
  let retired := b.exactTypedWireRecords.takeWhile fun wire => wire.recordIndex < durable
  { b.releaseCredits (retired.map (·.pendingGroupCredit)) with
    exactTypedWireRecords := b.exactTypedWireRecords.dropWhile fun wire => wire.recordIndex < durable }

def pruneDurableTypedExactWireRecords : WalM ι Unit :=
  modify fun w => { w with buffer := w.buffer.pruneDurable w.core.flushedRecords }

/-! ### Plain appends -/

def WalBuffer.push (r : WalRecord) (tail : CanonicalCatalogTailCache ι) :
    WalBuffer ι :=
  { b with records := b.records ++ [r], canonicalCatalogTail := tail, generation := b.generation + 1 }

def append (r : WalRecord) : WalM ι Unit := do
  pruneDurableTypedExactWireRecords
  modifyBuffer fun b => b.push r .dirty

def appendCanonical (prepared : PreparedCanonicalWalRecord ι) : WalM ι Unit := do
  pruneDurableTypedExactWireRecords
  if prepared.exact.isSome then
    throw (.panic "commit-path invariant violation: exact typed canonical records must use the move-only tentative/claim lifecycle")
  else
    modifyBuffer fun b =>
      b.push prepared.record (.known (b.records.length + 1) (some prepared.tail))

/-! ### Reservations -/

inductive TypedExactAppendState where
  | prepared
  | tentative (position expectedGeneration : ℕ)
  deriving DecidableEq

structure WalTypedExactAppendReservation (ι : Type) where
  expectedOwnerId : ℕ
  expectedRecordsLen : ℕ
  expectedExactWireLen : ℕ
  expectedGeneration : ℕ
  expectedSerializedLen : ℕ
  priorCatalogTail : CanonicalCatalogTailCache ι
  priorDurableIdentityBinding : DurableIdentityBinding ι
  rollbackAuthority : Option (ExactAuthority ι)
  prepared : Option (PreparedCanonicalWalRecord ι)
  pendingGroupCredit : Option ℕ
  state : TypedExactAppendState

/-- A method on the buffer and a borrowed reservation. -/
abbrev ReservationM (ι : Type) :=
  EStateM CallFailure (WalState ι × WalTypedExactAppendReservation ι)

def reserveTypedExactCredit (bytes : ℕ) : WalM ι Unit := do
  let a := (← get).buffer.preparedGroupArena
  let maxRecords := maxWalGroupRecords * groupDescriptorSlots
  let maxBytes := maxWalGroupWireBytes * groupDescriptorSlots
  let records := a.creditRecords
  let pending := a.creditBytes
  if maxWalGroupWireBytes < bytes then
    failWith (.proposalFailed s!"typed exact WAL record of {bytes} bytes exceeds the configured {maxWalGroupWireBytes}-byte group bound")
  else if maxRecords < records + 1 ∨ maxBytes < pending + bytes then
    failWith (.proposalFailed s!"typed exact WAL group credit is busy (pending records={records}/{pending}, bytes={maxRecords}/{maxBytes})")
  else
    modifyBuffer fun b =>
      { b with preparedGroupArena := { a with creditRecords := records + 1, creditBytes := pending + bytes } }

/-- The wire bytes one record will need: its exact owner's, or a header and its payload. -/
def WalBuffer.recordWireBytes (index : ℕ) (r : WalRecord) : ℕ :=
  match b.wireAt index with
  | some wire => wire.serializedRecord.length
  | none => encodedRecordLen r

/-- `current_tail_wire_bytes_for_admission`. -/
def WalBuffer.currentTailWireBytes (firstRecord : ℕ) : ℕ :=
  ((b.records.zipIdx.drop firstRecord).map fun p => b.recordWireBytes p.2 p.1).sum

/-- `validate_pending_legacy_group_geometry`: the first legacy record too long for any group. -/
def WalBuffer.oversizedLegacy (firstRecord : ℕ) : Option WalRecord :=
  ((b.records.zipIdx.drop firstRecord).find? fun p =>
    (b.wireAt p.2).isNone && decide (maxWalGroupWireBytes < encodedRecordLen p.1)).map (·.1)

section

variable [DecidableEq ι] (env : WalEnv ι)

def preverifyTypedExactLineage (io : IoOutcome) (exactIdentity : ι) :
    WalM ι (DurableIdentityBinding ι) := do
  verifyThrough env io (← get).buffer.records.length
  let w ← get
  let prior := w.buffer.durableIdentityBinding
  match prior.identity with
  | some identity =>
    if identity ≠ exactIdentity then
      failDurability "typed exact WAL identity diverges from the preverified logical lineage"
    else
      match requireDurableIdentity w.core.segmentPath w.disk.anchor identity with
      | .error e => failWith e
      | .ok () => pure prior
  | none => do
    checkOrInstallDurableIdentity io exactIdentity
    pure prior

/-- The poison checks at the start of a flush or an admission. -/
def requireUnpoisoned : WalM ι Unit := do
  let c := (← get).core
  match c.fixedFault with
  | some fault => failWith (.durabilityFault fault)
  | none =>
    match c.poisoned with
    | some reason =>
      let path := c.segmentPath
      failDurability s!"WAL segment {path} is poisoned by an earlier flush failure ({reason}); restart to recover from the durable prefix"
    | none => pure ()

variable (io : SegmentIo) (expectedSerializedLen : ℕ) (prepared : PreparedCanonicalWalRecord ι)

/-- The file half of `preflight_typed_exact_serial_admission`: the extent that the whole unflushed tail
and the new record need. It waits for an in-flight group only when the extent must grow. -/
def admitSerialExtent : WalM ι Unit := do
  requireUnpoisoned
  ensureCreated env io
  let w ← get
  match w.buffer.oversizedLegacy w.core.flushedRecords with
  | some r =>
    let bytes := encodedRecordLen r
    failWith (.proposalFailed s!"typed exact WAL admission is blocked by a pre-existing {bytes}-byte legacy record beyond the configured {maxWalGroupWireBytes}-byte group bound")
  | none =>
    let prospectiveEnd :=
      w.core.durableBytes + w.buffer.currentTailWireBytes w.core.flushedRecords + expectedSerializedLen
    if prospectiveEnd ≤ w.core.preallocBytes then pure ()
    else if w.core.ioInFlight then throw .blocked
    else ensurePreallocatedThrough env io.zeroFillExtend prospectiveEnd

def preflightTypedExactSerialAdmission (exactIdentity : ι) : WalM ι (DurableIdentityBinding ι) := do
  admitSerialExtent env io expectedSerializedLen
  preverifyTypedExactLineage env io.installIdentity exactIdentity

/-- `reserve_typed_exact_append` for an exact record. -/
def reserveExact (exact : ExactAuthority ι) : WalM ι (WalTypedExactAppendReservation ι) := do
  let len := exact.serializedRecord.length
  if exact.stableTransactionId ≠ prepared.record.txnId then
    failDurability "typed exact canonical record binding diverged before WAL reservation"
  else
    reserveTypedExactCredit len
    -- a failed preflight drops the credit it was given
    let prior ← onError (preflightTypedExactSerialAdmission env io len exact.identity) fun w =>
      { w with buffer := w.buffer.releaseCredits [len] }
    let b := (← get).buffer
    pure {
      expectedOwnerId := b.ownerId
      expectedRecordsLen := b.records.length
      expectedExactWireLen := b.exactTypedWireRecords.length
      expectedGeneration := b.generation
      expectedSerializedLen := len
      priorCatalogTail := b.canonicalCatalogTail
      priorDurableIdentityBinding := prior
      rollbackAuthority := some exact
      prepared := some prepared
      pendingGroupCredit := some len
      state := .prepared }

def reserveTypedExactAppend : WalM ι (WalTypedExactAppendReservation ι) := do
  pruneDurableTypedExactWireRecords
  if (← get).buffer.typedExactTentativeCount ≠ 0 then
    failWith (.proposalFailed
      "typed exact WAL group admission is busy behind a tentative pre-claim owner")
  else
    match prepared.exact with
    | none =>
      failDurability "typed exact WAL reservation requires a prebuilt exact canonical record"
    | some exact => reserveExact env io prepared exact

/-! ### Tentative append, rollback and claim -/

variable (r : WalTypedExactAppendReservation ι)

/-- The drift test of `append_typed_exact_tentative`. -/
def tentativeDrifted : Bool :=
  b.ownerId ≠ r.expectedOwnerId ∨ b.records.length ≠ r.expectedRecordsLen ∨
    b.exactTypedWireRecords.length ≠ r.expectedExactWireLen ∨ b.typedExactTentativeCount ≠ 0 ∨
    b.generation ≠ r.expectedGeneration ∨ r.state ≠ .prepared

/-- The buffer after a successful tentative append of `prepared` with its authority and credit. -/
def WalBuffer.pushTentative (exact : ExactAuthority ι) (credit : ℕ) : WalBuffer ι :=
  { b.push prepared.record (.known (b.records.length + 1) (some prepared.tail)) with
    exactTypedWireRecords := b.exactTypedWireRecords ++
      [⟨b.records.length, prepared.record.payload, exact.serializedRecord, .tentative, credit⟩]
    durableIdentityBinding := ⟨some exact.identity, b.records.length + 1⟩
    typedExactTentativeCount := 1 }

def appendTypedExactTentative : ReservationM ι Unit := do
  let (w, r) ← get
  let b := w.buffer
  if tentativeDrifted b r then
    throw (.error (.durability "typed exact WAL append state drifted before tentative consumption"))
  else
    match r.prepared, r.pendingGroupCredit with
    | none, _ => throw (.error (.durability "typed exact WAL record was already consumed"))
    | some _, none => do
      set (w, { r with prepared := none })
      throw (.error (.durability
        "typed exact WAL append lost its pre-proposal bounded group credit"))
    | some prepared, some credit =>
      -- both owners have left the reservation: an error below drops them
      let lost : WalState ι × WalTypedExactAppendReservation ι :=
        ({ w with buffer := b.releaseCredits [credit] },
         { r with prepared := none, pendingGroupCredit := none })
      match prepared.exact with
      | none => do
        set lost
        throw (.error (.durability "typed exact WAL record lost its outer wire authority"))
      | some exact =>
        if exact.serializedRecord.length ≠ r.expectedSerializedLen ∨
            exact.stableTransactionId ≠ prepared.record.txnId ∨
            r.rollbackAuthority.map (·.serializedRecord) ≠ some exact.serializedRecord then do
          set lost
          throw (.error (.durability
            "typed exact WAL record binding drifted before tentative append"))
        else if b.durableIdentityBinding ≠ r.priorDurableIdentityBinding then do
          set lost
          throw (.error (.durability
            "typed exact WAL lineage verification frontier drifted before tentative append"))
        else
          set ({ w with buffer := b.pushTentative prepared exact credit },
            { r with prepared := none, pendingGroupCredit := none,
                     state := .tentative b.records.length (b.generation + 1) })

/-- The drift test that `rollback_typed_exact_append` and `claim_typed_exact_append` share. -/
def settleDrifted (position expectedGeneration : ℕ) : Bool :=
  b.ownerId ≠ r.expectedOwnerId ∨ position + 1 ≠ b.records.length ∨
    b.exactTypedWireRecords.length ≠ r.expectedExactWireLen + 1 ∨
    b.generation ≠ expectedGeneration ∨ b.typedExactTentativeCount ≠ 1

/-- The prepared record that a rollback puts back into the reservation. -/
def restoredRecord (record : WalRecord) (tail : CanonicalCatalogTail ι) (authority : ExactAuthority ι)
    (h : authority.serializedRecord = encodedRecord record) : PreparedCanonicalWalRecord ι where
  record := record
  tail := tail
  exact := some authority
  exact_serialized := by
    intro e he
    rw [Option.mem_some_iff] at he
    rw [← he, h]

/-- `rollback_typed_exact_append`. The serialized bytes of the authority are those of the popped
wire, which the exact constructor bound to the record. -/
def rollbackTypedExactAppend : ReservationM ι Unit := do
  let (w, r) ← get
  let b := w.buffer
  match r.state with
  | .prepared => pure ()
  | .tentative position expectedGeneration =>
    if settleDrifted b r position expectedGeneration then
      throw (.error (.durability "typed exact WAL rollback state drifted after proposal"))
    else
      match b.exactTypedWireRecords.getLast?, b.canonicalCatalogTail, b.records.getLast? with
      | none, _, _ => throw (.error (.durability
          "typed exact WAL rollback lost its serialized-byte authority"))
      | some _, .dirty, _ | some _, .known _ none, _ | some _, _, none =>
        throw (.error (.durability
          "typed exact WAL catalog-tail frontier drifted before rollback"))
      | some wire, .known recordCount (some tail), some record =>
        if recordCount ≠ position + 1 then
          throw (.error (.durability
            "typed exact WAL catalog-tail frontier drifted before rollback"))
        else
          match r.rollbackAuthority with
          | none => throw (.error (.durability
              "typed exact WAL rollback lost its immutable authority"))
          | some authority =>
            if h : wire.recordIndex = position ∧ wire.state = .tentative ∧
                wire.serializedRecord.length = r.expectedSerializedLen ∧
                wire.packedPayload = record.payload ∧
                wire.serializedRecord = authority.serializedRecord ∧
                authority.serializedRecord = encodedRecord record then
              set ({ w with buffer := { b with
                  records := b.records.dropLast
                  exactTypedWireRecords := b.exactTypedWireRecords.dropLast
                  canonicalCatalogTail := r.priorCatalogTail
                  durableIdentityBinding := r.priorDurableIdentityBinding
                  generation := b.generation + 1
                  typedExactTentativeCount := 0 } },
                { r with
                  pendingGroupCredit := some wire.pendingGroupCredit
                  rollbackAuthority := none
                  prepared := some (restoredRecord record tail authority h.2.2.2.2.2)
                  state := .prepared
                  expectedGeneration := b.generation + 1
                  expectedRecordsLen := b.records.length - 1
                  expectedExactWireLen := b.exactTypedWireRecords.length - 1 })
            else
              throw (.error (.durability
                "claimed or drifted typed exact WAL position cannot be rolled back"))

def claimTypedExactAppend : WalM ι ℕ := do
  let b := (← get).buffer
  match r.state with
  | .prepared => failDurability "typed exact WAL claim requires a tentative append"
  | .tentative position expectedGeneration =>
    if settleDrifted b r position expectedGeneration then
      failDurability "typed exact WAL claim state drifted after proposal"
    else
      match b.exactTypedWireRecords.getLast? with
      | none => failDurability "typed exact WAL claim lost its serialized-byte authority"
      | some wire =>
        if wire.recordIndex ≠ position ∨ wire.state ≠ .tentative then
          failDurability "typed exact WAL position was already claimed"
        else
          modifyBuffer fun b => { b with
            exactTypedWireRecords :=
              b.exactTypedWireRecords.dropLast ++ [{ wire with state := .claimedPending }]
            typedExactTentativeCount := 0
            highestClaimedTypedExactRecord :=
              some ((b.highestClaimedTypedExactRecord.map (max · position)).getD position) }
          pure (position + 1)

/-- Dropping a reservation releases the credit it still owns. -/
def dropReservation : WalM ι Unit :=
  modifyBuffer fun b => b.releaseCredits r.pendingGroupCredit.toList

end

/-! ### Truncation of the tail -/

/-- The physical part of a rewind below the durable watermark: the file is cut. -/
def rewindFile (io : IoOutcome) (disowned : ℕ) : WalM ι Unit := do
  let c := (← get).core
  let target := c.durableBytes - disowned
  if 0 < disowned ∧ c.fileOpen then
    if io = .ok then do
      modifyDisk fun d => { d with segment := some (d.bytes.take target) }
      modifyCore fun c => { c with durableBytes := target, preallocBytes := target }
    else modifyCore fun c => { c with poisoned := some "durable-prefix truncate rewind failed" }
  else pure ()

/-- The rewind of `truncate` below the durable watermark. -/
def rewindDurable (io : IoOutcome) (len : ℕ) : WalM ι Unit := do
  let w ← get
  if w.core.flushedRecords ≤ len then pure ()
  else if w.core.ioInFlight then throw .blocked
  else do
    rewindFile io (((w.buffer.records.take w.core.flushedRecords).drop
      (max len w.core.segmentBaseRecords)).map encodedRecordLen).sum
    modifyCore fun c => { c with flushedRecords := len }

def truncate (io : SegmentIo) (len : ℕ) : WalM ι Unit := do
  let b := (← get).buffer
  if b.records.length ≤ len then pure ()
  else if b.highestClaimedTypedExactRecord.any (len ≤ ·) then
    throw (.panic "commit-path invariant violation: claimed typed exact WAL position is non-truncatable")
  else if b.exactTypedWireRecords.any (fun wire => len ≤ wire.recordIndex) then
    throw (.panic "commit-path invariant violation: typed exact WAL positions are non-truncatable; use their move-only rollback before claim")
  else do
    modifyBuffer fun b => { b with durableIdentityBinding :=
      { b.durableIdentityBinding with
        verifiedRecords := min b.durableIdentityBinding.verifiedRecords len } }
    rewindDurable io.rewind len
    modifyBuffer fun b => { b with
      records := b.records.take len
      canonicalCatalogTail := if len = 0 then .known 0 none else .dirty
      generation := b.generation + 1 }

end ThunderboltDb.Wal
