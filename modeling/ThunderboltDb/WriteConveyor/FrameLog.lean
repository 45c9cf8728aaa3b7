import ThunderboltDb.Lib.ByteCodec

/-!
# The frame log: frames, groups and the two publishers

A FUA frame log stores opaque payloads in frames of a 64-byte header, the payload and zero padding up to
4 KiB. One logical group is one frame (all reserved header words zero) or several fragments that share
their first sequence; only the terminal fragment carries the group's sequence count.

`publishInternal` is the common body of `publish_frame` and `publish_batch`, `stageSealedScatter` the body
of `publish_scatter`. Both check everything first and then lay the frames of the group out one behind
the other (`placeFrames`), so that `PlacedGroup.Lies` describes what either of them publishes.

CRC32C is the parameter `crc`, the function `crc32c_append`; `crc32c` is `crc32c_append` from zero.
-/

namespace ThunderboltDb.WriteConveyor

open Lib List

def frameMagic : UInt64 := 0x46554146524d4831
def frameAlign : ℕ := 4096
def frameHeaderBytes : ℕ := 64
def frameSlots : ℕ := 4096
def fuaScatterMaxFragments : ℕ := 16

/-- `u32::MAX` -/
def u32Max : ℕ := 2 ^ 32 - 1

structure FrameHeader where
  magic : UInt64
  frameId : UInt64
  firstSeq : UInt64
  reserved0 : UInt64
  epoch : UInt32
  payloadBytes : UInt32
  seqCount : UInt32
  payloadCrc : UInt32
  headerCrc : UInt32
  reserved1 : UInt32
  reserved2 : UInt32
  reserved3 : UInt32
  deriving DecidableEq

/-- `bytes_of` a frame header. -/
def FrameHeader.bytes (h : FrameHeader) : Bytes :=
  u64ToLe h.magic ++ u64ToLe h.frameId ++ u64ToLe h.firstSeq ++ u64ToLe h.reserved0 ++
    u32ToLe h.epoch ++ u32ToLe h.payloadBytes ++ u32ToLe h.seqCount ++ u32ToLe h.payloadCrc ++
    u32ToLe h.headerCrc ++ u32ToLe h.reserved1 ++ u32ToLe h.reserved2 ++ u32ToLe h.reserved3

@[simp] theorem FrameHeader.length_bytes (h : FrameHeader) : h.bytes.length = frameHeaderBytes := by
  simp [FrameHeader.bytes, frameHeaderBytes]

def crc32c (crc : UInt32 → Bytes → UInt32) (data : Bytes) : UInt32 := crc 0 data

def headerCrc (crc : UInt32 → Bytes → UInt32) (header : FrameHeader) : UInt32 :=
  crc32c crc { header with headerCrc := 0 }.bytes

def paddedFrameBytes (payloadBytes : ℕ) : ℕ :=
  (frameHeaderBytes + payloadBytes + (frameAlign - 1)) / frameAlign * frameAlign

theorem frame_le_paddedFrameBytes (n : ℕ) : frameHeaderBytes + n ≤ paddedFrameBytes n := by
  simp only [paddedFrameBytes, frameAlign, frameHeaderBytes]
  omega

structure FrameGroupMetadata where
  totalPayloadBytes : UInt64
  fragmentIndex : UInt32
  fragmentCount : UInt32
  groupCrc32c : UInt32
  deriving DecidableEq

/-! ### Errors -/

inductive IoErrorKind where
  | invalidData
  | storageFull
  | wouldBlock
  deriving DecidableEq

structure IoError where
  kind : IoErrorKind
  text : String
  deriving DecidableEq

def invalidData (text : String) : IoError := ⟨.invalidData, text⟩

inductive FuaFrameFaultStage where
  | fenceIo
  | fenceWriteZero
  | fenceWriteOverflow
  | frameSlot
  | frontier
  | fencePoison
  | join
  | spawn
  | scatterPlan
  | scatterSource
  | scatterCapacity
  | scatterSlots
  | scatterSequence
  | scatterReservationDrift
  deriving DecidableEq

structure FuaFrameFault where
  stage : FuaFrameFaultStage
  rawOsError : Option Int
  segmentId : UInt64
  frameId : ℕ
  deriving DecidableEq

/-! ### Segments and placed frames -/

/-- The identity and the size of an open segment. -/
structure FrameLogGeometry where
  segmentId : UInt64
  capacity : ℕ

def FrameLogGeometry.epoch (log : FrameLogGeometry) : UInt32 := log.segmentId.toUInt32

/-- The appender's own cursors. -/
structure AppenderCursor where
  nextFrame : ℕ
  nextOffset : ℕ
  deriving DecidableEq

structure PlacedFrame where
  frameId : ℕ
  offset : ℕ
  header : FrameHeader
  payload : Bytes

open PlacedFrame

namespace PlacedFrame

variable (f : PlacedFrame)

/-- The padded length on disk. -/
def paddedLen : ℕ := paddedFrameBytes f.payload.length

/-- `first_seq + seq_count` -/
def endSeq : ℕ := f.header.firstSeq.toNat + f.header.seqCount.toNat

/-- The zero bytes behind the payload. -/
def pad : Bytes :=
  List.replicate (f.paddedLen - (frameHeaderBytes + f.payload.length)) 0

/-- The bytes of the whole frame. -/
def image : Bytes := f.header.bytes ++ f.payload ++ f.pad

theorem length_image : f.image.length = f.paddedLen := by
  have := frame_le_paddedFrameBytes f.payload.length
  simp only [image, pad, paddedLen, length_append, FrameHeader.length_bytes, length_replicate]
  omega

end PlacedFrame

/-- The disk space of a list of frames. -/
def paddedTotal (frames : List PlacedFrame) : ℕ := (frames.map paddedLen).sum

/-- One atomically published physical group. -/
structure PlacedGroup where
  frames : List PlacedFrame
  firstSeq : ℕ
  lastSeq : ℕ

/-! ### Laying out a group -/

section

variable (crc : UInt32 → Bytes → UInt32) (log : FrameLogGeometry) (cursor : AppenderCursor)

/-- The header of one frame of a group; `group` holds the metadata all fragments share. -/
def frameHeader (frameId : ℕ) (firstSeq : UInt64) (seqCount : UInt32)
    (group : Option FrameGroupMetadata) (index : ℕ) (terminal : Bool) (payload : Bytes) :
    FrameHeader :=
  let header : FrameHeader :=
    { magic := frameMagic
      frameId := UInt64.ofNat frameId
      firstSeq := firstSeq
      reserved0 := (group.map FrameGroupMetadata.totalPayloadBytes).getD 0
      epoch := log.epoch
      payloadBytes := UInt32.ofNat payload.length
      seqCount := if terminal then seqCount else 0
      payloadCrc := crc32c crc payload
      headerCrc := 0
      reserved1 := (group.map fun _ => UInt32.ofNat index).getD 0
      reserved2 := (group.map FrameGroupMetadata.fragmentCount).getD 0
      reserved3 := (group.map FrameGroupMetadata.groupCrc32c).getD 0 }
  { header with headerCrc := headerCrc crc header }

/-- The staging loop of both publishers: the frame of each chunk behind the frame before it. -/
def placeFrames (firstFrame total : ℕ) (firstSeq : UInt64) (seqCount : UInt32)
    (group : Option FrameGroupMetadata) : ℕ → ℕ → List Bytes → List PlacedFrame
  | _, _, [] => []
  | index, offset, payload :: rest =>
    { frameId := firstFrame + index
      offset := offset
      header := frameHeader crc log (firstFrame + index) firstSeq seqCount group index
        (index + 1 == total) payload
      payload := payload } ::
      placeFrames firstFrame total firstSeq seqCount group (index + 1)
        (offset + paddedFrameBytes payload.length) rest

/-- All frames of a group whose chunks passed the checks. -/
def placeGroup (chunks : List Bytes) (firstSeq : UInt64)
    (seqCount : UInt32) (group : Option FrameGroupMetadata) : PlacedGroup where
  frames := placeFrames crc log cursor.nextFrame chunks.length firstSeq seqCount group 0
    cursor.nextOffset chunks
  firstSeq := firstSeq.toNat
  lastSeq := firstSeq.toNat + seqCount.toNat

/-! ### `publish_frame` and `publish_batch` -/

/-- One round of the totals loop of `preflight`: `(total_payload, total_padded)`. -/
def preflightChunk (totals : ℕ × ℕ) (chunk : Bytes) : Except IoError (ℕ × ℕ) := do
  refuse (chunk = [] ∨ u32Max < chunk.length)
    (invalidData "FUA frame payload must be 1..=u32::MAX bytes")
  refuse (2 ^ 64 ≤ totals.2 + paddedFrameBytes chunk.length)
    (invalidData "FUA batch padded length overflow")
  refuse (2 ^ 64 ≤ totals.1 + chunk.length) (invalidData "FUA batch payload length overflow")
  return (totals.1 + chunk.length, totals.2 + paddedFrameBytes chunk.length)

variable (durableFrames : ℕ) (chunks : List Bytes)

/-- `fn preflight`; `durableFrames` is the value its one atomic load returns. -/
def preflight : Except IoError (ℕ × ℕ) := do
  refuse (chunks = []) (invalidData "FUA batch must contain at least one chunk")
  let totals ← chunks.foldlM preflightChunk (0, 0)
  refuse (log.capacity < cursor.nextOffset + totals.2)
    ⟨.storageFull, "FUA frame log segment is full; roll before publishing the complete batch"⟩
  refuse (2 ^ 64 ≤ cursor.nextFrame + chunks.length) (invalidData "FUA frame id overflow")
  refuse (durableFrames + frameSlots < cursor.nextFrame + chunks.length)
    ⟨.wouldBlock, "FUA frame log slot ring lacks capacity for the complete batch"⟩
  return totals

/-- The checks of `fn publish_internal` and the frames it then stages. -/
def publishInternal (firstSeq : UInt64) (seqCount : UInt32) (group : Option FrameGroupMetadata) :
    Except IoError PlacedGroup := do
  refuse (seqCount = 0) (invalidData "FUA frame group seq_count must be non-zero")
  refuse (2 ^ 64 ≤ firstSeq.toNat + seqCount.toNat)
    (invalidData "FUA frame group sequence range overflow")
  let _ ← preflight log cursor durableFrames chunks
  return placeGroup crc log cursor chunks firstSeq seqCount group

def publishFrame (payload : Bytes)
    (firstSeq : UInt64) (seqCount : UInt32) : Except IoError PlacedGroup :=
  publishInternal crc log cursor durableFrames [payload] firstSeq seqCount none

def groupMetadata : FrameGroupMetadata where
  totalPayloadBytes := UInt64.ofNat (chunks.map List.length).sum
  fragmentIndex := 0
  fragmentCount := UInt32.ofNat chunks.length
  groupCrc32c := chunks.foldl crc 0

def publishBatch (firstSeq : UInt64) (seqCount : UInt32) : Except IoError PlacedGroup := do
  refuse (chunks.length < 2)
    (invalidData "FUA fragmented batch must contain at least two nonempty chunks")
  refuse (2 ^ 64 ≤ (chunks.map List.length).sum)
    (invalidData "FUA fragmented batch payload length overflow")
  refuse (u32Max < chunks.length) (invalidData "FUA fragmented batch has too many chunks")
  publishInternal crc log cursor durableFrames chunks firstSeq seqCount
    (some (groupMetadata crc chunks))

end

/-! ### `publish_scatter` -/

/-- An immutable byte source: `copyInto offset n` fills a destination of `n` bytes from `offset` on, or
fails and leaves some bytes there. -/
structure FuaScatterSource where
  len : ℕ
  copyInto : (offset n : ℕ) → Except (List.Vector UInt8 n) (List.Vector UInt8 n)

/-- A fixed split of a byte stream into nonempty fragments. -/
structure FuaScatterPlan where
  /-- the sizes of the active fragments -/
  chunks : List ℕ
  payloadBytes : ℕ
  paddedBytes : ℕ
  count_pos : 1 ≤ chunks.length
  count_le : chunks.length ≤ fuaScatterMaxFragments
  chunk_pos : ∀ n ∈ chunks, 0 < n ∧ n ≤ u32Max
  payload_eq : payloadBytes = chunks.sum
  padded_eq : paddedBytes = (chunks.map paddedFrameBytes).sum

def FuaScatterPlan.fragmentCount (plan : FuaScatterPlan) : ℕ := plan.chunks.length

variable (payloadBytes fragmentCount : ℕ)

/-- The fragment sizes that `FuaScatterPlan::new` computes: the first remainder fragments get one byte
more. -/
def scatterChunks : List ℕ :=
  (List.range fragmentCount).map fun index =>
    payloadBytes / fragmentCount + if index < payloadBytes % fragmentCount then 1 else 0

theorem sum_scatterChunks {payloadBytes fragmentCount : ℕ} (hcount : 1 ≤ fragmentCount) :
    (scatterChunks payloadBytes fragmentCount).sum = payloadBytes := by
  have hones : ∀ n r : ℕ, ((List.range n).map fun index => if index < r then 1 else 0).sum = min n r := by
    intro n r
    induction n with
    | zero => simp
    | succ n ih =>
      rw [range_succ, map_append, sum_append, ih]
      by_cases h : n < r <;> simp [h] <;> omega
  have hlt : payloadBytes % fragmentCount < fragmentCount := Nat.mod_lt _ hcount
  rw [scatterChunks, sum_map_add, hones, map_const', sum_replicate, length_range, min_eq_right hlt.le, smul_eq_mul]
  exact Nat.div_add_mod payloadBytes fragmentCount

def FuaScatterPlan.new : Option FuaScatterPlan :=
  if h : payloadBytes ≠ 0 ∧ 1 ≤ fragmentCount ∧ fragmentCount ≤ fuaScatterMaxFragments ∧
      fragmentCount ≤ payloadBytes ∧ ∀ n ∈ scatterChunks payloadBytes fragmentCount, n ≤ u32Max then
    some
      { chunks := scatterChunks payloadBytes fragmentCount
        payloadBytes := payloadBytes
        paddedBytes := ((scatterChunks payloadBytes fragmentCount).map paddedFrameBytes).sum
        count_pos := by simpa [scatterChunks] using h.2.1
        count_le := by simpa [scatterChunks] using h.2.2.1
        chunk_pos := by
          intro n hn
          refine ⟨?_, h.2.2.2.2 n hn⟩
          obtain ⟨index, -, rfl⟩ := List.mem_map.mp hn
          have := Nat.div_pos h.2.2.2.1 h.2.1
          omega
        payload_eq := (sum_scatterChunks h.2.1).symm
        padded_eq := rfl }
  else none

/-- A scatter geometry admitted at one appender cursor. -/
structure FuaScatterReservation where
  segmentId : UInt64
  firstFrame : ℕ
  firstOffset : ℕ
  plan : FuaScatterPlan
  sealedPlan : FuaScatterPlan

def FuaScatterReservation.geometryIsSealed (reservation : FuaScatterReservation) : Bool :=
  reservation.plan.chunks == reservation.sealedPlan.chunks &&
    reservation.plan.payloadBytes == reservation.sealedPlan.payloadBytes &&
    reservation.plan.paddedBytes == reservation.sealedPlan.paddedBytes

section

variable (crc : UInt32 → Bytes → UInt32) (log : FrameLogGeometry) (cursor : AppenderCursor)
  (durableFrames : ℕ) (reservation : FuaScatterReservation)

def scatterFault (stage : FuaFrameFaultStage) : FuaFrameFault :=
  ⟨stage, none, log.segmentId, cursor.nextFrame⟩

def validateScatterInput (source : FuaScatterSource) (plan : FuaScatterPlan)
    (firstSeq : UInt64) (seqCount : UInt32) : Except FuaFrameFault ℕ := do
  refuse (seqCount = 0) (scatterFault log cursor .scatterSequence)
  refuse (source.len ≠ plan.payloadBytes) (scatterFault log cursor .scatterSource)
  refuse (2 ^ 64 ≤ firstSeq.toNat + seqCount.toNat) (scatterFault log cursor .scatterSequence)
  return firstSeq.toNat + seqCount.toNat

/-- The part of `fn preflight_scatter` behind its `fence_failed` load; `durableFrames` is the value its
load returns. -/
def preflightScatter (plan : FuaScatterPlan) : Except FuaFrameFault (ℕ × ℕ) := do
  refuse (plan.fragmentCount = 0 ∨ fuaScatterMaxFragments < plan.fragmentCount ∨ plan.payloadBytes = 0)
    (scatterFault log cursor .scatterPlan)
  refuse (log.capacity < cursor.nextOffset + plan.paddedBytes)
    (scatterFault log cursor .scatterCapacity)
  refuse (2 ^ 64 ≤ cursor.nextFrame + plan.fragmentCount) (scatterFault log cursor .scatterPlan)
  refuse (durableFrames + frameSlots < cursor.nextFrame + plan.fragmentCount)
    (scatterFault log cursor .scatterSlots)
  return (plan.payloadBytes, plan.paddedBytes)

/-- `fn reserve_scatter` behind the `fence_failed` load. -/
def reserveScatter (plan : FuaScatterPlan) : Except FuaFrameFault FuaScatterReservation := do
  let _ ← preflightScatter log cursor durableFrames plan
  return ⟨log.segmentId, cursor.nextFrame, cursor.nextOffset, plan, plan⟩

/-- The part of `fn verify_scatter_reservation` behind its `fence_failed` load. -/
def verifyScatterReservation : Except FuaFrameFault Unit :=
  refuse (reservation.segmentId ≠ log.segmentId ∨ reservation.firstFrame ≠ cursor.nextFrame ∨
      reservation.firstOffset ≠ cursor.nextOffset ∨ ¬ reservation.geometryIsSealed)
    ⟨.scatterReservationDrift, none, log.segmentId, reservation.firstFrame⟩

/-- The source copies of `fn stage_sealed_scatter`: what stands in each fragment's destination, and
whether every copy succeeded. The loop stops at the first that fails. -/
def copyChunks (source : FuaScatterSource) : ℕ → List ℕ → List Bytes × Bool
  | _, [] => ([], true)
  | sourceOffset, chunkBytes :: rest =>
    match source.copyInto sourceOffset chunkBytes with
    | .error left => ([left.toList], false)
    | .ok destination =>
      let copied := copyChunks source (sourceOffset + chunkBytes) rest
      (destination.toList :: copied.1, copied.2)

/-- The metadata `fn stage_sealed_scatter` stamps: none for one fragment. -/
def scatterMetadata (chunks : List Bytes) : Option FrameGroupMetadata :=
  if 1 < chunks.length then some (groupMetadata crc chunks) else none

def stageSealedScatter (source : FuaScatterSource)
    (firstSeq : UInt64) (seqCount : UInt32) : Except FuaFrameFault PlacedGroup :=
  match copyChunks source 0 reservation.plan.chunks with
  | (_, false) => .error ⟨.scatterSource, none, log.segmentId, reservation.firstFrame⟩
  | (chunks, true) =>
    .ok (placeGroup crc log ⟨reservation.firstFrame, reservation.firstOffset⟩ chunks firstSeq seqCount
      (scatterMetadata crc chunks))

/-- `fn publish_scatter` while no fence has failed. -/
def publishScatter (source : FuaScatterSource)
    (plan : FuaScatterPlan) (firstSeq : UInt64) (seqCount : UInt32) : Except FuaFrameFault PlacedGroup := do
  let _ ← validateScatterInput log cursor source plan firstSeq seqCount
  let reservation ← reserveScatter log cursor durableFrames plan
  verifyScatterReservation log cursor reservation
  stageSealedScatter crc log reservation source firstSeq seqCount

end

/-! ### What an accepted call publishes -/

/-- The disk space of the frames of some chunks. -/
def paddedChunks (chunks : List Bytes) : ℕ :=
  (chunks.map fun chunk => paddedFrameBytes chunk.length).sum

/-- The call passed every check of its publisher. -/
structure Admitted (log : FrameLogGeometry) (cursor : AppenderCursor) (durableFrames : ℕ)
    (chunks : List Bytes) (firstSeq : UInt64) (seqCount : UInt32) : Prop where
  seqCount_ne : seqCount ≠ 0
  seq_lt : firstSeq.toNat + seqCount.toNat < 2 ^ 64
  chunks_ne : chunks ≠ []
  chunk_size : ∀ chunk ∈ chunks, chunk ≠ [] ∧ chunk.length ≤ u32Max
  fits : cursor.nextOffset + paddedChunks chunks ≤ log.capacity
  frame_lt : cursor.nextFrame + chunks.length < 2 ^ 64
  slots : cursor.nextFrame + chunks.length ≤ durableFrames + frameSlots

variable {totals totals' : ℕ × ℕ}

theorem preflightChunk_ok {chunk : Bytes} :
    preflightChunk totals chunk = .ok totals' ↔ (chunk ≠ [] ∧ chunk.length ≤ u32Max) ∧
        totals' = (totals.1 + chunk.length, totals.2 + paddedFrameBytes chunk.length) ∧
        totals'.1 < 2 ^ 64 ∧ totals'.2 < 2 ^ 64 := by
  simp only [preflightChunk, except_seq_ok, refuse_eq_ok, not_or, not_lt, not_le, pure, Except.pure,
    Except.ok.injEq]
  constructor
  · rintro ⟨hsize, hpadded, hpayload, rfl⟩
    exact ⟨hsize, rfl, hpayload, hpadded⟩
  · rintro ⟨hsize, rfl, hpayload, hpadded⟩
    exact ⟨hsize, hpadded, hpayload, rfl⟩

theorem preflightTotals_ok {chunks : List Bytes} : chunks.foldlM preflightChunk totals = .ok totals' ↔
      (∀ chunk ∈ chunks, chunk ≠ [] ∧ chunk.length ≤ u32Max) ∧
        totals' = (totals.1 + (chunks.map List.length).sum, totals.2 + paddedChunks chunks) ∧
        (chunks ≠ [] → totals'.1 < 2 ^ 64 ∧ totals'.2 < 2 ^ 64) := by
  induction chunks generalizing totals with
  | nil => simp [paddedChunks, pure, Except.pure, eq_comm]
  | cons chunk rest ih =>
    rw [foldlM_cons, bind_ok]
    simp only [preflightChunk_ok, ih, forall_mem_cons, map_cons, sum_cons, paddedChunks]
    constructor
    · rintro ⟨_, ⟨hsize, rfl, hlt⟩, hrest, rfl, hne⟩
      refine ⟨⟨hsize, hrest⟩, by simp [Nat.add_assoc], ?_⟩
      intro _
      cases rest with
      | nil => simpa using hlt
      | cons c cs => exact hne (by simp)
    · rintro ⟨⟨hsize, hrest⟩, rfl, hlt⟩
      have hlt := hlt (by simp)
      refine ⟨_, ⟨hsize, rfl, ?_, ?_⟩, hrest, by simp [Nat.add_assoc], fun _ => hlt⟩
      · have := hlt.1
        simp only at this ⊢
        omega
      · have := hlt.2
        simp only at this ⊢
        omega

section

variable {crc : UInt32 → Bytes → UInt32} {log : FrameLogGeometry} {cursor : AppenderCursor}
  {durableFrames : ℕ} {chunks : List Bytes} {firstSeq : UInt64} {seqCount : UInt32}
  {group : Option FrameGroupMetadata} {g : PlacedGroup} {source : FuaScatterSource} {sourceOffset : ℕ}
  {plan : FuaScatterPlan} {firstFrame total index offset : ℕ}

theorem publishInternal_ok : publishInternal crc log cursor durableFrames chunks firstSeq seqCount group = .ok g ↔
      Admitted log cursor durableFrames chunks firstSeq seqCount ∧
        (chunks.map List.length).sum < 2 ^ 64 ∧ paddedChunks chunks < 2 ^ 64 ∧
        g = placeGroup crc log cursor chunks firstSeq seqCount group := by
  simp only [publishInternal, preflight, bind_ok, refuse_eq_ok, exists_const,
    preflightTotals_ok, not_lt, not_le, zero_add, pure, Except.pure, Except.ok.injEq]
  constructor
  · rintro ⟨hcount, hseq, _, ⟨hne, _, ⟨hsize, rfl, hlt⟩, hfits, hframe, hslots, rfl⟩, rfl⟩
    exact ⟨⟨hcount, hseq, hne, hsize, hfits, hframe, hslots⟩, (hlt hne).1, (hlt hne).2, rfl⟩
  · rintro ⟨h, hpayload, hpadded, rfl⟩
    exact ⟨h.seqCount_ne, h.seq_lt, _,
      ⟨h.chunks_ne, _, ⟨h.chunk_size, rfl, fun _ => ⟨hpayload, hpadded⟩⟩, h.fits, h.frame_lt, h.slots,
        rfl⟩, rfl⟩

theorem copyChunks_lengths {sizes : List ℕ}
    (h : copyChunks source sourceOffset sizes = (chunks, true)) : chunks.map List.length = sizes := by
  induction sizes generalizing sourceOffset chunks with
  | nil =>
    cases h
    rfl
  | cons n sizes ih =>
    rw [copyChunks] at h
    split at h
    · cases h
    · rename_i destination _
      obtain ⟨rfl, hok⟩ := Prod.mk.inj h
      have hrest := ih (Prod.ext rfl hok)
      rw [map_cons, hrest, destination.toList_length]

/-- A reservation and the fragments of a source that did not fail give a call that passed its checks. -/
theorem admitted_of_reserve {reservation : FuaScatterReservation} {lastSeq : ℕ}
    (hinput : validateScatterInput log cursor source plan firstSeq seqCount = .ok lastSeq)
    (hreserve : reserveScatter log cursor durableFrames plan = .ok reservation)
    (hcopy : copyChunks source sourceOffset plan.chunks = (chunks, true)) :
    reservation = ⟨log.segmentId, cursor.nextFrame, cursor.nextOffset, plan, plan⟩ ∧
      Admitted log cursor durableFrames chunks firstSeq seqCount := by
  simp only [validateScatterInput, bind_ok, refuse_eq_ok, exists_const, not_le, pure, Except.pure] at hinput
  simp only [reserveScatter, preflightScatter, bind_ok, refuse_eq_ok, exists_const, not_or,
    not_lt, not_le, pure, Except.pure, Except.ok.injEq] at hreserve
  obtain ⟨hcount, -, hseq, -⟩ := hinput
  obtain ⟨_, ⟨-, hfits, hframe, hslots, -⟩, rfl⟩ := hreserve
  have hlens : chunks.map List.length = plan.chunks := copyChunks_lengths hcopy
  have hlen : chunks.length = plan.fragmentCount := by
    rw [FuaScatterPlan.fragmentCount, ← hlens, length_map]
  have hpadded : paddedChunks chunks = plan.paddedBytes := by
    rw [plan.padded_eq, ← hlens, map_map]
    rfl
  refine ⟨rfl, hcount, hseq, ?_, ?_, ?_, ?_, ?_⟩
  · rintro rfl
    have := plan.count_pos
    rw [← hlens] at this
    simp at this
  · intro chunk hmem
    have := plan.chunk_pos chunk.length (hlens ▸ mem_map_of_mem hmem)
    exact ⟨ne_nil_of_length_pos this.1, this.2⟩
  · rw [hpadded]
    exact hfits
  · rw [hlen]
    exact hframe
  · rw [hlen]
    exact hslots

/-- What `publish_scatter` publishes are the fragments the source delivered. -/
theorem publishScatter_ok (h : publishScatter crc log cursor durableFrames source plan firstSeq seqCount = .ok g) :
    ∃ chunks, copyChunks source 0 plan.chunks = (chunks, true) ∧
      Admitted log cursor durableFrames chunks firstSeq seqCount ∧
      g = placeGroup crc log cursor chunks firstSeq seqCount (scatterMetadata crc chunks) := by
  simp only [publishScatter, bind_ok] at h
  obtain ⟨_, hinput, reservation, hreserve, _, -, hstage⟩ := h
  rw [stageSealedScatter] at hstage
  split at hstage
  · cases hstage
  · rename_i chunks hcopy
    cases hstage
    have hplan : reservation.plan = plan := by
      simp only [reserveScatter, bind_ok, pure, Except.pure, Except.ok.injEq] at hreserve
      obtain ⟨_, -, rfl⟩ := hreserve
      rfl
    rw [hplan] at hcopy
    obtain ⟨rfl, hadmitted⟩ := admitted_of_reserve hinput hreserve hcopy
    exact ⟨chunks, hcopy, hadmitted, rfl⟩

/-- The frames of a published group: consecutive in id and on disk from the cursor on, all with the group's
first sequence, and none before the terminal one covers a sequence of the group. -/
structure PlacedGroup.Lies (cursor : AppenderCursor) (g : PlacedGroup) : Prop where
  frames_ne : g.frames ≠ []
  place : ∀ i f, g.frames[i]? = some f →
    f.frameId = cursor.nextFrame + i ∧ f.offset = cursor.nextOffset + paddedTotal (g.frames.take i)
  firstSeq_eq : ∀ f ∈ g.frames, f.header.firstSeq.toNat = g.firstSeq
  endSeq_le : ∀ f ∈ g.frames, f.endSeq ≤ g.lastSeq
  ordered : g.frames.Pairwise fun a b => a.endSeq ≤ b.header.firstSeq.toNat

theorem length_placeFrames :
    (placeFrames crc log firstFrame total firstSeq seqCount group index offset chunks).length = chunks.length := by
  induction chunks generalizing index offset with
  | nil => rfl
  | cons chunk rest ih => rw [placeFrames, length_cons, ih, length_cons]

theorem map_payload_placeFrames :
    (placeFrames crc log firstFrame total firstSeq seqCount group index offset chunks).map
      payload = chunks := by
  induction chunks generalizing index offset with
  | nil => rfl
  | cons chunk rest ih => rw [placeFrames, map_cons, ih]

variable {f : PlacedFrame}

theorem place_placeFrames {i : ℕ}
    (h : (placeFrames crc log firstFrame total firstSeq seqCount group index offset chunks)[i]? = some f) :
    f.frameId = firstFrame + index + i ∧ f.offset = offset + paddedTotal
        ((placeFrames crc log firstFrame total firstSeq seqCount group index offset chunks).take i) := by
  induction chunks generalizing index offset i with
  | nil => simp [placeFrames] at h
  | cons chunk rest ih =>
    rw [placeFrames] at h ⊢
    cases i with
    | zero =>
      cases h
      simp [paddedTotal]
    | succ i =>
      obtain ⟨hid, hoff⟩ := ih (by simpa using h)
      refine ⟨by omega, ?_⟩
      rw [hoff, take_succ_cons]
      simp only [paddedTotal, map_cons, sum_cons, paddedLen]
      omega

/-- The header of a placed frame carries the group's first sequence, and its count only at the end. -/
theorem mem_placeFrames (htotal : index + chunks.length = total)
    (h : f ∈ placeFrames crc log firstFrame total firstSeq seqCount group index offset chunks) :
    f.header.firstSeq = firstSeq ∧ (f.header.seqCount = seqCount ∨ f.header.seqCount = 0) := by
  induction chunks generalizing index offset with
  | nil => simp [placeFrames] at h
  | cons chunk rest ih =>
    rw [placeFrames, mem_cons] at h
    rcases h with rfl | h
    · refine ⟨rfl, ?_⟩
      by_cases hlast : index + 1 = total
      · exact .inl (by simp [frameHeader, hlast])
      · exact .inr (by simp [frameHeader, hlast])
    · exact ih (by simp only [length_cons] at htotal; omega) h

/-- Every header has the call's first sequence, and the terminal one alone its count. -/
theorem sequences_placeFrames (hne : chunks ≠ []) (htotal : index + chunks.length = total) :
    (placeFrames crc log firstFrame total firstSeq seqCount group index offset chunks).map
        (fun f => (f.header.firstSeq, f.header.seqCount)) =
      replicate (chunks.length - 1) (firstSeq, 0) ++ [(firstSeq, seqCount)] := by
  induction chunks generalizing index offset with
  | nil => exact absurd rfl hne
  | cons chunk rest ih =>
    rw [length_cons] at htotal ⊢
    rw [placeFrames, map_cons]
    cases rest with
    | nil => simp [placeFrames, frameHeader, show index + 1 = total from htotal]
    | cons next rest =>
      rw [length_cons] at htotal ih
      have hlast : index + 1 ≠ total := by omega
      rw [ih (by simp) (by omega)]
      simp [frameHeader, hlast, replicate_succ]

theorem ordered_placeFrames (htotal : index + chunks.length = total) :
    (placeFrames crc log firstFrame total firstSeq seqCount group index offset chunks).Pairwise
      fun a b => a.endSeq ≤ b.header.firstSeq.toNat := by
  induction chunks generalizing index offset with
  | nil => exact .nil
  | cons chunk rest ih =>
    have htotal' : index + 1 + rest.length = total := by
      simp only [length_cons] at htotal
      omega
    rw [placeFrames, pairwise_cons]
    refine ⟨?_, ih htotal'⟩
    intro b hb
    -- a frame behind this one exists, so this one is not the terminal fragment
    have hrest : 0 < rest.length := by
      rw [← @length_placeFrames crc log rest firstSeq seqCount group firstFrame total (index + 1)
        (offset + paddedFrameBytes chunk.length)]
      exact length_pos_of_mem hb
    have hlast : index + 1 ≠ total := by omega
    rw [(mem_placeFrames htotal' hb).1]
    simp [endSeq, frameHeader, hlast]

theorem placeGroup_lies (hne : chunks ≠ []) :
    (placeGroup crc log cursor chunks firstSeq seqCount group).Lies cursor where
  frames_ne := by
    intro h
    apply hne
    apply eq_nil_of_length_eq_zero
    have := congrArg List.length h
    rwa [placeGroup, length_placeFrames] at this
  place := fun i f h => by simpa [placeGroup] using place_placeFrames h
  firstSeq_eq := fun f hf => by
    rw [(mem_placeFrames (by simp) hf).1]
    rfl
  endSeq_le := fun f hf => by
    obtain ⟨hfirst, hcount⟩ := mem_placeFrames (by simp) hf
    rw [endSeq, hfirst, placeGroup]
    rcases hcount with hcount | hcount <;> simp [hcount]
  ordered := ordered_placeFrames (by simp)

end

end ThunderboltDb.WriteConveyor
