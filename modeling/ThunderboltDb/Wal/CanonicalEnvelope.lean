import ThunderboltDb.Wal.CanonicalTerminalCodec

/-!
# Canonical envelopes

A committed transaction is one canonical record: the pre-apply header and the fragments in physical
frames, closed by one terminal-marker frame, all packed into the payload of a WAL record. Every frame
repeats the envelope's coordinates and carries a digest of its own bytes; each fragment frame carries
its leaf digest, every frame the root over the ordered leaves, and the marker frame the final digest.

* `canonicalWalFootprintByIndex` — the size limits;
* `encodeCanonicalEnvelopeWithTerminalMarker`, `decodeCanonicalEnvelopeWithTerminalMarker` — the frames
  of an envelope.

Byte lengths are natural numbers: with at most `2 ^ 32` fragments of at most 16 MiB no checked 64-bit
sum of the source overflows.
-/

namespace ThunderboltDb.Wal.Canonical

open Lib FixedEncoder Cursor

def frameFragment : UInt8 := 1
def frameMarker : UInt8 := 2
def frameFixedBytes : ℕ := 244
def frameDigestBytes : ℕ := 32
def packedRecordPrefixBytes : ℕ := 20
def packedFrameLengthBytes : ℕ := 4
def maxFragmentBytes : ℕ := 16 * 1024 * 1024
def maxEnvelopeBytes : ℕ := 64 * 1024 * 1024

/-- The bytes of an ASCII text. -/
def asciiBytes (text : String) : Bytes := text.toList.map fun c => UInt8.ofNat c.toNat

def preapplyDomain : Bytes := asciiBytes "gpu-db/adr014/preapply/v1"
def fragmentLeafDomain : Bytes := asciiBytes "gpu-db/adr014/fragment-leaf/v1"
def fragmentRootDomain : Bytes := asciiBytes "gpu-db/adr014/fragment-root/v1"
def finalDomain : Bytes := asciiBytes "gpu-db/adr014/final-outcome/v1"
def frameDomain : Bytes := asciiBytes "gpu-db/adr014/physical-frame/v1"
def runtimeTerminalDomain : Bytes := asciiBytes "gpu-db/runtime-generation/terminal-envelope/v1"

/-! ### Fragments and physical ranges -/

inductive CanonicalFragmentKind where
  | rowMutation
  | catalogMutation
  | tableReset
  | tableRewrite
  | sequenceValueTransition
  | privateSequenceChild
  | allocatorLease
  | transactionClaimStatus
  deriving DecidableEq

def CanonicalFragmentKind.code : CanonicalFragmentKind → UInt16
  | .rowMutation => 1
  | .catalogMutation => 2
  | .tableReset => 3
  | .tableRewrite => 4
  | .sequenceValueTransition => 5
  | .privateSequenceChild => 6
  | .allocatorLease => 7
  | .transactionClaimStatus => 8

def CanonicalFragmentKind.decode (value : UInt16) : Except EngineError CanonicalFragmentKind :=
  match value with
  | 1 => .ok .rowMutation
  | 2 => .ok .catalogMutation
  | 3 => .ok .tableReset
  | 4 => .ok .tableRewrite
  | 5 => .ok .sequenceValueTransition
  | 6 => .ok .privateSequenceChild
  | 7 => .ok .allocatorLease
  | 8 => .ok .transactionClaimStatus
  | other => .error (durability s!"unsupported fragment kind {other}")

@[simp] theorem CanonicalFragmentKind.decode_ok {value : UInt16} {kind : CanonicalFragmentKind} :
    CanonicalFragmentKind.decode value = .ok kind ↔ value = kind.code := by
  constructor
  · intro h
    unfold CanonicalFragmentKind.decode at h
    split at h <;> cases h <;> rfl
  · rintro rfl
    cases kind <;> rfl

structure CanonicalFragment where
  kind : CanonicalFragmentKind
  body : Bytes
  deriving DecidableEq

structure CanonicalPhysicalRange where
  logEpoch : UInt64
  laneId : UInt32
  segmentId : UInt64
  firstFrameOrdinal : UInt64
  deriving DecidableEq

def CanonicalPhysicalRange.validate (self : CanonicalPhysicalRange) (frameCount : ℕ) :
    Except EngineError Unit := do
  refuse (self.logEpoch = 0 ∨ self.segmentId = 0) (durability "log epoch and segment id must be non-zero")
  refuse (UInt64.size ≤ self.firstFrameOrdinal.toNat + frameCount)
    (durability "physical frame ordinal overflow")

/-! ### Footprint -/

structure CanonicalWalFootprint where
  fragmentCount : ℕ
  frameCount : ℕ
  fragmentBodyBytes : ℕ
  preapplyBytes : ℕ
  fragmentFrameBytes : ℕ
  markerFrameBytes : ℕ
  fragmentPackedBytes : ℕ
  markerPackedBytes : ℕ
  packedRecordBytes : ℕ
  serializedRecordBytes : ℕ
  deriving DecidableEq

/-- The fragment loop: the sums of the body lengths and of the frame lengths. -/
def footprintLoop : ℕ → ℕ → ℕ → List ℕ → Except EngineError (ℕ × ℕ)
  | _, bodyBytes, frameBytes, [] => .ok (bodyBytes, frameBytes)
  | index, bodyBytes, frameBytes, body :: bodies => do
    refuse (body > maxFragmentBytes) (durability s!"fragment {index} exceeds byte bound")
    let header := if index = 0 then preapplyHeaderBytes else 0
    let frame := frameFixedBytes + header + body + frameDigestBytes
    footprintLoop (index + 1) (bodyBytes + body) (frameBytes + frame) bodies

/-- `canonical_wal_footprint_by_index_with_marker`, with the list of body lengths for the indexed
accessor. -/
def canonicalWalFootprintByIndexWithMarker (bodyLens : List ℕ) (terminalMarkerBytes : ℕ) :
    Except EngineError CanonicalWalFootprint := do
  let fragmentCount ← u32TryFrom bodyLens.length (durability "fragment count exceeds u32 framing")
  refuse (fragmentCount = 0 ∨ fragmentCount.toNat = UInt32.size - 1)
    (durability "fragment count must be in 1..u32::MAX")
  let (fragmentBodyBytes, fragmentFrameBytes) ← footprintLoop 0 0 0 bodyLens
  let preapplyBytes := preapplyHeaderBytes + fragmentBodyBytes
  refuse (preapplyBytes > maxEnvelopeBytes) (durability "envelope exceeds byte bound")
  let markerFrameBytes := frameFixedBytes + terminalMarkerBytes + frameDigestBytes
  refuse (markerFrameBytes > maxEnvelopeBytes) (durability "terminal marker frame exceeds byte bound")
  let fragmentPackedBytes := fragmentFrameBytes + packedFrameLengthBytes * bodyLens.length
  let markerPackedBytes := packedFrameLengthBytes + markerFrameBytes
  let packedRecordBytes := packedRecordPrefixBytes + fragmentPackedBytes + markerPackedBytes
  refuse (packedRecordBytes > maxEnvelopeBytes + 1024 * 1024)
    (durability "canonical record exceeds byte bound")
  return {
    fragmentCount := bodyLens.length
    frameCount := bodyLens.length + 1
    fragmentBodyBytes, preapplyBytes, fragmentFrameBytes, markerFrameBytes
    fragmentPackedBytes, markerPackedBytes, packedRecordBytes
    serializedRecordBytes := packedRecordBytes + 24 }

/-- `canonical_wal_footprint_by_index`: with the plain outcome as marker. -/
def canonicalWalFootprintByIndex (bodyLens : List ℕ) : Except EngineError CanonicalWalFootprint :=
  canonicalWalFootprintByIndexWithMarker bodyLens canonicalOutcomeBytes

/-! ### Frames -/

variable (sha : Sha256)

structure DecodedFrame where
  frameType : UInt8
  identity : CanonicalIdentity
  physical : CanonicalPhysicalRange
  stableTransactionId : UInt64
  commitSeq : UInt64
  frameIndex : UInt32
  fragmentCount : UInt32
  kind : UInt16
  headerDigest : CanonicalDigest
  root : CanonicalDigest
  leafOrFinal : CanonicalDigest
  headerBytes : Bytes
  body : Bytes
  deriving DecidableEq

def canonicalFrameEncodedLen (headerLen bodyLen : ℕ) : ℕ :=
  frameFixedBytes + headerLen + bodyLen + frameDigestBytes

/-- `encode_frame_into`: fill `frame`, which must have exactly the encoded length. -/
def encodeFrameInto (frame : Bytes) (frameType : UInt8) (physical : CanonicalPhysicalRange)
    (header : CanonicalPreApplyHeader) (frameIndex fragmentCount : UInt32) (kind : UInt16)
    (headerBytes body : Bytes) (headerDigest root leafOrFinal : CanonicalDigest) :
    Except EngineError Bytes := do
  let headerLen ← u32TryFrom headerBytes.length (durability "pre-apply header length overflow")
  let bodyLen ← u32TryFrom body.length (durability "frame body overflow")
  let expected := canonicalFrameEncodedLen headerBytes.length body.length
  refuse (frame.length ≠ expected) (durability "exact physical frame buffer length mismatch")
  let withoutDigest := expected - frameDigestBytes
  let fields ← fill (frame.take withoutDigest) do
    bytes frameMagic
    u16 formatVersion
    u16 semanticsVersion
    u8 frameType
    bytes [0, 0, 0]
    bytes header.identity.databaseId.toList
    bytes header.identity.clusterId.toList
    bytes header.identity.timelineId.toList
    u64 header.identity.formatEpoch
    u64 physical.logEpoch
    u32 physical.laneId
    u32 0
    u64 physical.segmentId
    u64 physical.firstFrameOrdinal
    u64 header.stableTransactionId
    u64 header.commitSeq
    u32 frameIndex
    u32 fragmentCount
    u16 kind
    u16 0
    u32 headerLen
    u32 bodyLen
    bytes headerDigest.toList
    bytes root.toList
    bytes leafOrFinal.toList
    bytes headerBytes
    bytes body
  return fields ++ (digestParts sha frameDomain [fields]).toList

/-- `encode_frame`: into a new zeroed buffer. -/
def encodeFrame (frameType : UInt8) (physical : CanonicalPhysicalRange)
    (header : CanonicalPreApplyHeader) (frameIndex fragmentCount : UInt32) (kind : UInt16)
    (headerBytes body : Bytes) (headerDigest root leafOrFinal : CanonicalDigest) :
    Except EngineError Bytes :=
  encodeFrameInto sha
    (List.replicate (canonicalFrameEncodedLen headerBytes.length body.length) 0)
    frameType physical header frameIndex fragmentCount kind headerBytes body headerDigest root leafOrFinal

def frameReader : Reader EngineError DecodedFrame := do
  expect "invalid physical frame magic" frameMagic
  let format ← u16
  let semantics ← u16
  refuse (format ≠ formatVersion ∨ semantics ≠ semanticsVersion)
    (durability s!"unsupported frame versions format={format} semantics={semantics}")
  let frameType ← u8
  refuse (frameType ≠ frameFragment ∧ frameType ≠ frameMarker)
    (durability s!"unsupported physical frame type {frameType}")
  expect "non-zero frame reserved bytes" [0, 0, 0]
  let databaseId ← array 16
  let clusterId ← array 16
  let timelineId ← array 16
  let formatEpoch ← u64
  let identity : CanonicalIdentity := { databaseId, clusterId, timelineId, formatEpoch }
  identity.validate
  let logEpoch ← u64
  let laneId ← u32
  let lanePadding ← u32
  refuse (lanePadding ≠ 0) (durability "non-zero lane padding")
  let segmentId ← u64
  let firstFrameOrdinal ← u64
  let stableTransactionId ← u64
  let commitSeq ← u64
  let frameIndex ← u32
  let fragmentCount ← u32
  let kind ← u16
  let kindPadding ← u16
  refuse (kindPadding ≠ 0) (durability "non-zero frame kind padding")
  let headerLen ← u32
  let bodyLen ← u32
  let headerDigest ← array 32
  let root ← array 32
  let leafOrFinal ← array 32
  let headerBytes ← take headerLen.toNat
  let body ← take bodyLen.toNat
  finish
  return {
    frameType, identity, physical := { logEpoch, laneId, segmentId, firstFrameOrdinal }
    stableTransactionId, commitSeq, frameIndex, fragmentCount, kind, headerDigest, root, leafOrFinal
    headerBytes, body }

def decodeFrame (frame : Bytes) : Except EngineError DecodedFrame := do
  refuse (frame.length < frameFixedBytes + frameDigestBytes) (durability "truncated physical frame")
  let withoutDigest := frame.take (frame.length - frameDigestBytes)
  let digestBytes := frame.drop (frame.length - frameDigestBytes)
  refuse (digestBytes ≠ (digestParts sha frameDomain [withoutDigest]).toList)
    (durability "physical frame digest mismatch")
  frameReader.on withoutDigest

/-! ### Digests of an envelope -/

def headerDigestOf (headerBytes : Bytes) : CanonicalDigest :=
  digestParts sha preapplyDomain [headerBytes]

/-- A fragment as the digests see it: its kind, then its body. -/
def CanonicalFragment.canonical (self : CanonicalFragment) : Bytes :=
  u16ToLe self.kind.code ++ self.body

/-- The leaf digest of fragment number `index`. -/
def leafOf (headerDigest : CanonicalDigest) (index : ℕ) (canonical : Bytes) : CanonicalDigest :=
  digestParts sha fragmentLeafDomain
    [headerDigest.toList, u32ToLe (UInt32.ofNat index), u64ToLe (UInt64.ofNat canonical.length), canonical]

/-- What the root digest says about fragment number `index`. -/
def rootEntry (index : ℕ) (canonical : Bytes) (leaf : CanonicalDigest) : Bytes :=
  u32ToLe (UInt32.ofNat index) ++ u64ToLe (UInt64.ofNat canonical.length) ++ leaf.toList

def canonicalTerminalMarkerDigestFromEncoded (headerBytes : Bytes) (root : CanonicalDigest)
    (marker : CanonicalTerminalMarker) (markerBytes : Bytes) : Except EngineError CanonicalDigest := do
  let measure ← measureCanonicalTerminalMarker marker
  refuse (markerBytes.length ≠ measure.markerBytes)
    (descriptorError "terminal marker bytes do not match measured geometry")
  let domain := match marker with
    | .legacy _ => finalDomain
    | .generationV1 _ _ => runtimeTerminalDomain
  return digestParts sha domain [headerBytes, root.toList, markerBytes]

/-! ### Encoding an envelope -/

structure EncodedCanonicalEnvelope where
  frames : List Bytes
  orderedFragmentRoot : CanonicalDigest
  finalDigest : CanonicalDigest
  header : CanonicalPreApplyHeader
  deriving DecidableEq

/-- The leaf loop of the encoder, with the running envelope length `total`. -/
def encodeLeaves (headerDigest : CanonicalDigest) :
    ℕ → ℕ → List CanonicalFragment → Except EngineError (List (Bytes × CanonicalDigest))
  | _, _, [] => .ok []
  | index, total, frag :: fragments => do
    refuse (frag.body.length > maxFragmentBytes) (durability s!"fragment {index} exceeds byte bound")
    let total := total + frag.body.length
    refuse (total > maxEnvelopeBytes) (durability "envelope exceeds byte bound")
    let canonical := frag.canonical
    let leaf := leafOf sha headerDigest index canonical
    let leaves ← encodeLeaves headerDigest (index + 1) total fragments
    return (canonical, leaf) :: leaves

/-- The root-material loop of the encoder. -/
def rootMaterial : ℕ → List (Bytes × CanonicalDigest) → Bytes
  | _, [] => []
  | index, (canonical, leaf) :: leaves => rootEntry index canonical leaf ++ rootMaterial (index + 1) leaves

def encodeFragmentFrames (physical : CanonicalPhysicalRange) (header : CanonicalPreApplyHeader)
    (fragmentCount : ℕ) (headerBytes : Bytes) (headerDigest root : CanonicalDigest) :
    ℕ → List (CanonicalFragment × CanonicalDigest) → Except EngineError (List Bytes)
  | _, [] => .ok []
  | index, (frag, leaf) :: fragments => do
    let frame ← encodeFrame sha frameFragment physical header (UInt32.ofNat index)
      (UInt32.ofNat fragmentCount) frag.kind.code (if index = 0 then headerBytes else [])
      frag.body headerDigest root leaf
    let frames ← encodeFragmentFrames physical header fragmentCount headerBytes headerDigest root
      (index + 1) fragments
    return frame :: frames

variable (physical : CanonicalPhysicalRange) (header : CanonicalPreApplyHeader)
  (fragments : List CanonicalFragment)

def encodeCanonicalEnvelopeWithTerminalMarker
    (marker : CanonicalTerminalMarker) : Except EngineError EncodedCanonicalEnvelope := do
  refuse (fragments = [] ∨ fragments.length > UInt32.size - 2)
    (durability "fragment count must be in 1..u32::MAX")
  marker.validateForHeader header
  refuse (header.operationCount.toNat ≠ fragments.length)
    (durability (s!"header operation count {header.operationCount} does not match " ++
      s!"{fragments.length} fragments"))
  let markerMeasure ← measureCanonicalTerminalMarker marker
  let _ ← canonicalWalFootprintByIndexWithMarker (fragments.map (·.body.length)) markerMeasure.markerBytes
  physical.validate (fragments.length + 1)
  let headerBytes ← header.encode
  let headerDigest := headerDigestOf sha headerBytes
  let leaves ← encodeLeaves sha headerDigest 0 headerBytes.length fragments
  let root := digestParts sha fragmentRootDomain
    [u32ToLe (UInt32.ofNat fragments.length) ++ rootMaterial 0 leaves]
  let markerBytes ← encodeCanonicalTerminalMarkerInto marker (List.replicate markerMeasure.markerBytes 0)
  let finalDigest ← canonicalTerminalMarkerDigestFromEncoded sha headerBytes root marker markerBytes
  let frames ← encodeFragmentFrames sha physical header fragments.length headerBytes headerDigest root 0
    (fragments.zip (leaves.map Prod.snd))
  let markerFrame ← encodeFrame sha frameMarker physical header (UInt32.ofNat fragments.length)
    (UInt32.ofNat fragments.length) 0 [] markerBytes headerDigest root finalDigest
  return { frames := frames ++ [markerFrame], orderedFragmentRoot := root, finalDigest, header }

/-- `encode_canonical_envelope`: with the plain outcome as marker. -/
def encodeCanonicalEnvelope (outcome : CanonicalOutcome) : Except EngineError EncodedCanonicalEnvelope :=
  encodeCanonicalEnvelopeWithTerminalMarker sha physical header fragments (.legacy outcome)

/-! ### Decoding an envelope -/

structure CanonicalEnvelope where
  physical : CanonicalPhysicalRange
  header : CanonicalPreApplyHeader
  fragments : List CanonicalFragment
  terminalMarker : CanonicalTerminalMarker
  outcome : CanonicalOutcome
  orderedFragmentRoot : CanonicalDigest
  finalDigest : CanonicalDigest
  deriving DecidableEq

def verifyCommonFrame (frame first : DecodedFrame) : Except EngineError Unit :=
  refuse (frame.physical ≠ first.physical ∨ frame.identity ≠ first.identity ∨
      frame.stableTransactionId ≠ first.stableTransactionId ∨ frame.commitSeq ≠ first.commitSeq ∨
      frame.fragmentCount ≠ first.fragmentCount ∨ frame.headerDigest ≠ first.headerDigest ∨
      frame.root ≠ first.root)
    (durability "frame mapping/header metadata mismatch")

/-- The fragment loop of the decoder: the fragments and the root material they make. -/
def verifyFragmentFrames (headerDigest : CanonicalDigest) (first : DecodedFrame) :
    ℕ → List DecodedFrame → Except EngineError (List CanonicalFragment × Bytes)
  | _, [] => .ok ([], [])
  | index, frame :: frames => do
    verifyCommonFrame frame first
    refuse (frame.frameType ≠ frameFragment ∨ frame.frameIndex ≠ UInt32.ofNat index)
      (durability s!"fragment frame {index} is reordered")
    refuse (index ≠ 0 ∧ frame.headerBytes ≠ []) (durability "pre-apply header repeated outside ordinal zero")
    let kind ← CanonicalFragmentKind.decode frame.kind
    let frag : CanonicalFragment := { kind, body := frame.body }
    let expectedLeaf := leafOf sha headerDigest index frag.canonical
    refuse (expectedLeaf ≠ frame.leafOrFinal) (durability s!"fragment {index} leaf digest mismatch")
    let (fragments, material) ← verifyFragmentFrames headerDigest first (index + 1) frames
    return (frag :: fragments, rootEntry index frag.canonical expectedLeaf ++ material)

/-- The checks on the last frame: the marker it carries and the final digest. -/
def verifyMarkerFrame (headerBytes : Bytes)
    (root : CanonicalDigest) (first : DecodedFrame) (fragmentCount : ℕ) (marker : DecodedFrame) :
    Except EngineError (CanonicalTerminalMarker × CanonicalDigest) := do
  verifyCommonFrame marker first
  refuse (marker.frameType ≠ frameMarker ∨ marker.frameIndex ≠ UInt32.ofNat fragmentCount ∨
      marker.kind ≠ 0 ∨ marker.headerBytes ≠ [])
    (durability "terminal marker is absent or malformed")
  let terminalMarker ← decodeCanonicalTerminalMarker marker.body
  terminalMarker.validateForHeader header
  let finalDigest ← canonicalTerminalMarkerDigestFromEncoded sha headerBytes root terminalMarker
    marker.body
  refuse (marker.leafOrFinal ≠ finalDigest) (durability "terminal outcome digest mismatch")
  return (terminalMarker, finalDigest)

/-- The checks on frame zero, `fragmentCount` being the count it states: its header and the header's
encoding. -/
def verifyFirstFrame (first : DecodedFrame) (frameCount fragmentCount : ℕ) :
    Except EngineError (CanonicalPreApplyHeader × Bytes) := do
  refuse (fragmentCount = 0 ∨ frameCount ≠ fragmentCount + 1)
    (durability "physical frame count does not match fragment count")
  refuse (first.frameType ≠ frameFragment ∨ first.frameIndex ≠ 0 ∨ first.headerBytes = [])
    (durability "ordinal-zero mapping/header frame is absent")
  let header ← CanonicalPreApplyHeader.decode first.headerBytes
  first.physical.validate frameCount
  refuse (first.physical.logEpoch ≠ header.leaderEpoch)
    (durability "physical log epoch does not match the pre-apply leader epoch")
  let headerBytes ← header.encode
  refuse (headerDigestOf sha headerBytes ≠ first.headerDigest)
    (durability "pre-apply header digest mismatch")
  return (header, headerBytes)

/-- The envelope of decoded frames. The two list matches stand for indexing: with at least two frames
and one frame more than fragments, both indices are in range. -/
def verifyFrames (decoded : List DecodedFrame) : Except EngineError CanonicalEnvelope :=
  match decoded with
  | [] => .error (durability "envelope requires fragments plus one marker")
  | first :: _ => do
    let fragmentCount := first.fragmentCount.toNat
    let (header, headerBytes) ← verifyFirstFrame sha first decoded.length fragmentCount
    let headerDigest := headerDigestOf sha headerBytes
    let (fragments, material) ←
      verifyFragmentFrames sha headerDigest first 0 (decoded.take fragmentCount)
    let expectedRoot := digestParts sha fragmentRootDomain
      [u32ToLe (UInt32.ofNat fragmentCount) ++ material]
    refuse (expectedRoot ≠ first.root) (durability "ordered fragment root mismatch")
    match decoded.drop fragmentCount with
    | [] => .error (durability "terminal marker is absent or malformed")
    | marker :: _ => do
      let (terminalMarker, finalDigest) ←
        verifyMarkerFrame sha header headerBytes expectedRoot first fragmentCount marker
      return {
        physical := first.physical
        header, fragments, terminalMarker
        outcome := terminalMarker.outcome
        orderedFragmentRoot := expectedRoot
        finalDigest }

def decodeCanonicalEnvelopeWithTerminalMarker (frames : List Bytes) :
    Except EngineError CanonicalEnvelope := do
  refuse (frames.length < 2 ∨ frames.length > UInt32.size - 1)
    (durability "envelope requires fragments plus one marker")
  let decoded ← frames.mapM (decodeFrame sha)
  verifyFrames sha decoded

def decodeCanonicalEnvelope (frames : List Bytes) : Except EngineError CanonicalEnvelope := do
  let envelope ← decodeCanonicalEnvelopeWithTerminalMarker sha frames
  match envelope.terminalMarker with
  | .legacy _ => return envelope
  | .generationV1 _ _ => .error (durability
      "root-format-v1 terminal descriptor requires its authenticated generation decoder")

/-! ### The payload of a WAL record -/

/-- One packed frame: its 32-bit length, then its bytes. -/
def packFrames : List Bytes → Except EngineError Bytes
  | [] => .ok []
  | frame :: frames => do
    let len ← u32TryFrom frame.length (durability "canonical physical frame length overflow")
    let rest ← packFrames frames
    return u32ToLe len ++ frame ++ rest

def packCanonicalRecordPayload (encoded : EncodedCanonicalEnvelope) : Except EngineError Bytes := do
  let frameCount ← u32TryFrom encoded.frames.length (durability "canonical record frame count overflow")
  let total := packedRecordPrefixBytes +
    (encoded.frames.map fun frame => packedFrameLengthBytes + frame.length).sum
  refuse (total > maxEnvelopeBytes + 1024 * 1024) (durability "canonical record exceeds byte bound")
  let frames ← packFrames encoded.frames
  return recordMagic ++ u32ToLe frameCount ++ frames

def packedFrameReader : Reader EngineError Bytes := do
  let len ← u32
  refuse (len.toNat > maxEnvelopeBytes) (durability "canonical record frame exceeds byte bound")
  take len.toNat

def packedFramesReader : Reader EngineError (List Bytes) := do
  let frameCount ← u32
  refuse (frameCount.toNat < 2) (durability "canonical record omits fragment or terminal marker")
  let frames ← Reader.times packedFrameReader frameCount.toNat
  finish
  return frames

/-- `decode_canonical_record_payload`: a payload without the record magic is a legacy payload. -/
def decodeCanonicalRecordPayload (payload : Bytes) : Except EngineError (Option CanonicalEnvelope) :=
  if recordMagic <+: payload then do
    let frames ← packedFramesReader.on (payload.drop recordMagic.length)
    let envelope ← decodeCanonicalEnvelope sha frames
    return some envelope
  else .ok none

end ThunderboltDb.Wal.Canonical
