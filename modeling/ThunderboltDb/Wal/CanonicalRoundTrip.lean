import ThunderboltDb.Wal.CanonicalLayout

/-!
# Canonical records: round trip and canonicality

A packed record is the record magic, a frame count and the frames, each behind its length. The two main
results compare the encoder's and the decoder's rules.

* `canonical_record_round_trip_iff` — an accepted input always packs. The record decoder gives it back
  exactly when the marker is the plain outcome and the physical log epoch is the header's leader epoch;
  for the second condition alone the frame decoder gives it back with either marker.
* `canonical_record_image_iff` — an accepted payload is the encoder's image of what the decoder returns
  exactly when the header states the reader range `1..=1`, frame zero repeats the header's identity,
  transaction id and commit sequence, the header counts the fragment frames, and the sizes are within
  the encoder's limits. The decoder checks none of these.
-/

namespace ThunderboltDb.Wal.Canonical

open Lib List CanonicalPreApplyHeader EnvelopeContent Reader

variable {sha : Sha256}

variable {frames : List Bytes} {bs : Bytes} {env : CanonicalEnvelope} {content : EnvelopeContent}
    {wire : EnvelopeWire}

/-! ### Packed records -/

def packedFrame (frame : Bytes) : Bytes := u32ToLe (UInt32.ofNat frame.length) ++ frame

/-- The payload that holds the frames. -/
def recordImage (frames : List Bytes) : Bytes :=
  recordMagic ++ (u32ToLe (UInt32.ofNat frames.length) ++ frames.flatMap packedFrame)

theorem packFrames_ok : packFrames frames = .ok bs ↔
      (∀ frame ∈ frames, frame.length < UInt32.size) ∧ frames.flatMap packedFrame = bs := by
  induction frames generalizing bs with
  | nil => simp [packFrames]
  | cons frame frames ih =>
    simp only [packFrames, bind_ok, u32TryFrom_ok, ih, pure, Except.pure, Except.ok.injEq,
      forall_mem_cons, flatMap_cons, packedFrame]
    constructor
    · rintro ⟨len, hlen, _, ⟨hrest, rfl⟩, rfl⟩
      rw [hlen, UInt32.ofNat_toNat]
      exact ⟨⟨len.toNat_lt, hrest⟩, rfl⟩
    · rintro ⟨⟨hlen, hrest⟩, rfl⟩
      exact ⟨UInt32.ofNat frame.length, (toNat_ofNat_of_lt hlen).symm, _, ⟨hrest, rfl⟩, rfl⟩

def packedTotal (frames : List Bytes) : ℕ :=
  packedRecordPrefixBytes + (frames.map fun frame => packedFrameLengthBytes + frame.length).sum

theorem length_recordImage : (recordImage frames).length = packedTotal frames := by
  have hframes : (frames.flatMap packedFrame).length =
      (frames.map fun frame => packedFrameLengthBytes + frame.length).sum := by
    rw [length_flatMap]
    simp only [packedFrame, length_append, length_u32ToLe, packedFrameLengthBytes]
  rw [recordImage, length_append, length_append, hframes, length_recordMagic, length_u32ToLe,
    packedTotal, packedRecordPrefixBytes]
  omega

variable {payload : Bytes}

theorem packCanonicalRecordPayload_ok {encoded : EncodedCanonicalEnvelope} :
    packCanonicalRecordPayload encoded = .ok payload ↔
      encoded.frames.length < UInt32.size ∧ packedTotal encoded.frames ≤ maxEnvelopeBytes + 1024 * 1024 ∧
        (∀ frame ∈ encoded.frames, frame.length < UInt32.size) ∧ recordImage encoded.frames = payload := by
  simp only [packCanonicalRecordPayload, bind_ok, u32TryFrom_ok, refuse_eq_ok, not_lt, packFrames_ok,
    pure, Except.pure, Except.ok.injEq, exists_const, existsAndEq, and_assoc, true_and, packedTotal]
  constructor
  · rintro ⟨count, hcount, htotal, hframes, rfl⟩
    refine ⟨hcount ▸ count.toNat_lt, htotal, hframes, ?_⟩
    rw [recordImage, hcount, UInt32.ofNat_toNat, append_assoc]
  · rintro ⟨hcount, htotal, hframes, rfl⟩
    refine ⟨UInt32.ofNat encoded.frames.length, (toNat_ofNat_of_lt hcount).symm, htotal, hframes, ?_⟩
    rw [recordImage, append_assoc]

theorem packedFrameReader_reads {frame rest : Bytes} : packedFrameReader.Reads bs frame rest ↔
      bs = packedFrame frame ++ rest ∧ frame.length ≤ maxEnvelopeBytes := by
  simp only [packedFrameReader, reads_bind, reads_u32, reads_lift, refuse_eq_ok,
    not_lt, reads_take, existsAndEq, and_assoc, exists_const, true_and]
  constructor
  · rintro ⟨len, rfl, hle, hlen⟩
    rw [packedFrame, hlen, UInt32.ofNat_toNat, append_assoc]
    exact ⟨rfl, hle⟩
  · rintro ⟨rfl, hle⟩
    have hlt : frame.length < UInt32.size := lt_of_le_of_lt hle (by decide)
    have hnat := toNat_ofNat_of_lt hlt
    exact ⟨UInt32.ofNat frame.length, by rw [packedFrame, append_assoc], by rw [hnat]; exact hle, hnat.symm⟩

theorem packedFrames_reads {n : ℕ} {rest : Bytes} : (times packedFrameReader n).Reads bs frames rest ↔
      bs = frames.flatMap packedFrame ++ rest ∧ frames.length = n ∧
        ∀ frame ∈ frames, frame.length ≤ maxEnvelopeBytes :=
  reads_times (fun _ _ _ => packedFrameReader_reads) n

theorem packedFramesReader_ok : packedFramesReader.on bs = .ok frames ↔
      bs = u32ToLe (UInt32.ofNat frames.length) ++ frames.flatMap packedFrame ∧ 2 ≤ frames.length ∧
        frames.length < UInt32.size ∧ ∀ frame ∈ frames, frame.length ≤ maxEnvelopeBytes := by
  rw [on_eq_ok]
  simp only [packedFramesReader, reads_bind, reads_u32, reads_lift, refuse_eq_ok,
    not_lt, packedFrames_reads, reads_finish, reads_pure, existsAndEq, and_assoc,
    exists_const, true_and, append_nil, and_true]
  constructor
  · rintro ⟨count, rfl, hmin, hcount, hframes⟩
    rw [hcount, UInt32.ofNat_toNat]
    exact ⟨rfl, hmin, count.toNat_lt, hframes⟩
  · rintro ⟨rfl, hmin, hmax, hframes⟩
    have hnat := toNat_ofNat_of_lt hmax
    exact ⟨UInt32.ofNat frames.length, rfl, by rw [hnat]; exact hmin, hnat.symm, hframes⟩

/-- A record names its frames: the frame reader is a function of the bytes. -/
theorem recordImage_inj {others : List Bytes} (hmin : 2 ≤ frames.length)
    (hmax : frames.length < UInt32.size) (hframes : ∀ frame ∈ frames, frame.length ≤ maxEnvelopeBytes)
    (hmin' : 2 ≤ others.length) (hmax' : others.length < UInt32.size)
    (hothers : ∀ frame ∈ others, frame.length ≤ maxEnvelopeBytes)
    (heq : recordImage frames = recordImage others) : frames = others := by
  have hbytes := append_cancel_left heq
  have hread := packedFramesReader_ok.mpr ⟨rfl, hmin, hmax, hframes⟩
  have hother := packedFramesReader_ok.mpr ⟨rfl, hmin', hmax', hothers⟩
  rw [hbytes, hother] at hread
  exact (Except.ok.inj hread).symm

theorem decodeCanonicalEnvelope_ok : decodeCanonicalEnvelope sha frames = .ok env ↔
      decodeCanonicalEnvelopeWithTerminalMarker sha frames = .ok env ∧
        ∃ outcome, env.terminalMarker = .legacy outcome := by
  rw [decodeCanonicalEnvelope, bind_ok]
  constructor
  · rintro ⟨envelope, hdecode, hmarker⟩
    split at hmarker
    · cases hmarker
      exact ⟨hdecode, _, ‹_›⟩
    · cases hmarker
  · rintro ⟨hdecode, outcome, houtcome⟩
    refine ⟨env, hdecode, ?_⟩
    rw [houtcome]
    rfl

/-- The record decoder accepts exactly the records of frames that make an envelope with a plain outcome. -/
theorem decodeCanonicalRecordPayload_ok : decodeCanonicalRecordPayload sha payload = .ok (some env) ↔
      ∃ frames, payload = recordImage frames ∧ 2 ≤ frames.length ∧ frames.length < UInt32.size ∧
        (∀ frame ∈ frames, frame.length ≤ maxEnvelopeBytes) ∧
        decodeCanonicalEnvelope sha frames = .ok env := by
  rw [decodeCanonicalRecordPayload]
  constructor
  · intro h
    split at h
    case isFalse => cases h
    case isTrue hmagic =>
      simp only [bind_ok, packedFramesReader_ok] at h
      obtain ⟨frames, ⟨hdrop, hmin, hmax, hframes⟩, envelope, hdecode, hself⟩ := h
      cases hself
      refine ⟨frames, ?_, hmin, hmax, hframes, hdecode⟩
      obtain ⟨rest, rfl⟩ := hmagic
      rw [drop_left' rfl] at hdrop
      rw [recordImage, hdrop]
  · rintro ⟨frames, rfl, hmin, hmax, hframes, hdecode⟩
    have hmagic : recordMagic <+: recordImage frames := prefix_append _ _
    rw [if_pos hmagic]
    simp only [bind_ok, packedFramesReader_ok]
    exact ⟨frames, ⟨drop_left' rfl, hmin, hmax, hframes⟩, env, hdecode, rfl⟩

/-! ### Accepted inputs -/

namespace EnvelopeContent

section

variable (h : content.Accepted)
include h

theorem Accepted.count_lt : content.fragments.length + 1 < UInt32.size :=
  lt_of_le_of_lt (Nat.succ_le_succ h.count) (by decide)

theorem Accepted.identity : content.header.identity.validate = .ok () := by
  have hheader := h.header
  rw [validate, except_seq_ok] at hheader
  exact hheader.1

theorem Accepted.markerBytes : content.marker.image.length < UInt32.size := by
  have hframe := h.markerFrame
  exact lt_of_le_of_lt (by omega) (show maxEnvelopeBytes < UInt32.size by decide)

/-- An accepted input decodes from its own frames when the two epochs agree: every other check of the
decoder is implied by the encoder's. -/
theorem Accepted.decodable (hepoch : content.physical.logEpoch = content.header.leaderEpoch) :
    content.Decodable content.header.wire where
  nonempty := h.nonempty
  count := h.count
  headerBytes := decode_written h.header
  identity := h.identity
  physical := h.physical
  epoch := hepoch
  fragments := fun frag hmem => lt_size_of_le (h.fragments frag hmem)
  marker := h.marker
  lengthFits := h.lengthFits
  markerBytes := h.markerBytes

end

theorem sum_fragmentFramesFrom (index : ℕ) (fragments : List CanonicalFragment) :
    (((content.fragmentFramesFrom sha wire index fragments).map (DecodedFrame.image sha)).map
        fun frame => packedFrameLengthBytes + frame.length).sum =
      (fragments.map (·.body.length)).sum +
        (packedFrameLengthBytes + frameFixedBytes + frameDigestBytes) * fragments.length +
        if index = 0 ∧ fragments ≠ [] then wire.headerBytes.length else 0 := by
  induction fragments generalizing index with
  | nil => simp [fragmentFramesFrom]
  | cons frag fragments ih =>
    have hnext : ¬ (index + 1 = 0 ∧ fragments ≠ []) := fun h => Nat.succ_ne_zero index h.1
    rw [fragmentFramesFrom, map_cons, map_cons, sum_cons, ih, if_neg hnext, map_cons,
      sum_cons, length_cons, Nat.mul_succ, DecodedFrame.length_image, canonicalFrameEncodedLen]
    simp only [fragmentFrame, frame, ne_eq, reduceCtorEq, not_false_eq_true, and_true]
    split
    · omega
    · rw [length_nil]
      omega

theorem packedTotal_wireFrames
    (hne : content.fragments ≠ []) (hheader : wire.headerBytes.length = preapplyHeaderBytes) :
    packedTotal ((content.wireFrames sha wire).map (DecodedFrame.image sha)) = content.packedBytes := by
  rw [packedTotal, wireFrames, map_append, map_append, sum_append,
    sum_fragmentFramesFrom, if_pos ⟨rfl, hne⟩, hheader, packedBytes, bodyBytes, Nat.mul_succ]
  simp only [markerFrame, frame, map_cons, map_nil, sum_cons, sum_nil,
    DecodedFrame.length_image, canonicalFrameEncodedLen, length_nil]
  omega

/-- Every frame of an accepted input is within the decoder's frame limit. -/
theorem Accepted.frame_le (h : content.Accepted) (hheader : wire.headerBytes.length = preapplyHeaderBytes) :
    ∀ frame ∈ (content.wireFrames sha wire).map (DecodedFrame.image sha),
      frame.length ≤ maxEnvelopeBytes := by
  have hmarker := h.markerFrame
  rw [preapplyHeaderBytes] at hheader
  intro bytes hbytes
  obtain ⟨frame, hframe, rfl⟩ := mem_map.mp hbytes
  rw [frame.length_image, canonicalFrameEncodedLen]
  rcases mem_append.mp hframe with hfragment | hlast
  · obtain ⟨index, frag, hmem, rfl⟩ := mem_fragmentFramesFrom hfragment
    have hbody : (content.fragmentFrame sha wire index frag).body.length ≤ maxFragmentBytes :=
      h.fragments frag hmem
    have hzero : (content.fragmentFrame sha wire index frag).headerBytes.length ≤
        wire.headerBytes.length := headerBytes_fragmentFrame_le
    rw [maxFragmentBytes] at hbody
    rw [frameFixedBytes, frameDigestBytes, maxEnvelopeBytes]
    omega
  · rw [mem_singleton.mp hlast]
    exact hmarker

/-- The record of an accepted input. -/
def record (sha : Sha256) (self : EnvelopeContent) : Bytes :=
  recordImage (self.encoded sha).frames

theorem length_encoded_frames (content : EnvelopeContent) (sha : Sha256) :
    (content.encoded sha).frames.length = content.fragments.length + 1 := by
  rw [encoded, length_map, length_wireFrames]

section

variable (h : content.Accepted)
include h

theorem Accepted.length_record (sha : Sha256) : (content.record sha).length = content.packedBytes := by
  rw [record, length_recordImage, encoded]
  exact packedTotal_wireFrames h.nonempty (content.header.length_image _ _)

theorem Accepted.encode (sha : Sha256) :
    encodeCanonicalEnvelopeWithTerminalMarker sha content.physical content.header content.fragments
      content.marker = .ok (content.encoded sha) :=
  encode_ok.mpr ⟨h, rfl⟩

theorem Accepted.pack : packCanonicalRecordPayload (content.encoded sha) = .ok (content.record sha) := by
  refine packCanonicalRecordPayload_ok.mpr ⟨content.length_encoded_frames _ ▸ h.count_lt, ?_, ?_, rfl⟩
  · rw [encoded, packedTotal_wireFrames h.nonempty (content.header.length_image _ _)]
    exact h.packed
  · intro frame hmem
    exact lt_of_le_of_lt (h.frame_le (content.header.length_image _ _) frame hmem) (by decide)

/-- The record decoder runs the frame decoder on the frames of an accepted input. -/
theorem Accepted.decode_record : decodeCanonicalRecordPayload sha (content.record sha) = .ok (some env) ↔
      decodeCanonicalEnvelope sha (content.encoded sha).frames = .ok env := by
  have hlen := content.length_encoded_frames sha
  have hpos := length_pos_of_ne_nil h.nonempty
  have hmin : 2 ≤ (content.encoded sha).frames.length := by omega
  have hmax : (content.encoded sha).frames.length < UInt32.size := hlen ▸ h.count_lt
  rw [decodeCanonicalRecordPayload_ok]
  constructor
  · rintro ⟨frames, heq, hmin', hmax', hframes, hdecode⟩
    rw [recordImage_inj hmin hmax (h.frame_le (content.header.length_image _ _)) hmin' hmax' hframes heq]
    exact hdecode
  · intro hdecode
    exact ⟨_, rfl, hmin, hmax, h.frame_le (content.header.length_image _ _), hdecode⟩

theorem Accepted.decode_frames (hepoch : content.physical.logEpoch = content.header.leaderEpoch) :
    decodeCanonicalEnvelopeWithTerminalMarker sha (content.encoded sha).frames =
      .ok (content.envelope sha) :=
  decode_ok.mpr ⟨content, content.header.wire, h.decodable hepoch, rfl, rfl⟩

end

/-- The envelope carries the physical identity, header, fragments, outcome and marker of the input. -/
structure ReturnedIn (content : EnvelopeContent) (env : CanonicalEnvelope) : Prop where
  physical : env.physical = content.physical
  header : env.header = content.header
  fragments : env.fragments = content.fragments
  outcome : env.outcome = content.marker.outcome
  marker : env.terminalMarker = content.marker

/-- What the frame decoder returns has one epoch. -/
theorem epoch_of_decode (h : decodeCanonicalEnvelopeWithTerminalMarker sha frames = .ok env) :
    env.physical.logEpoch = env.header.leaderEpoch := by
  obtain ⟨content, wire, hdecodable, -, rfl⟩ := decode_ok.mp h
  exact hdecodable.epoch

end EnvelopeContent

/-- Every input the encoder accepts packs. Its record decodes to it exactly when its marker is a plain
outcome and its log epoch is its leader epoch; its frames decode to it, with either marker, exactly when
the epochs agree. -/
theorem canonical_record_round_trip_iff (sha : Sha256) (physical : CanonicalPhysicalRange)
    (header : CanonicalPreApplyHeader) (fragments : List CanonicalFragment)
    (marker : CanonicalTerminalMarker) (encoded : EncodedCanonicalEnvelope)
    (hencode : encodeCanonicalEnvelopeWithTerminalMarker sha physical header fragments marker = .ok encoded) :
    ∃ payload, packCanonicalRecordPayload encoded = .ok payload ∧
      ((∃ env, decodeCanonicalRecordPayload sha payload = .ok (some env) ∧
          EnvelopeContent.ReturnedIn ⟨physical, header, fragments, marker⟩ env) ↔
        (∃ outcome, marker = .legacy outcome) ∧ physical.logEpoch = header.leaderEpoch) ∧
      ((∃ env, decodeCanonicalEnvelopeWithTerminalMarker sha encoded.frames = .ok env ∧
          EnvelopeContent.ReturnedIn ⟨physical, header, fragments, marker⟩ env) ↔
        physical.logEpoch = header.leaderEpoch) := by
  obtain ⟨hacc, rfl⟩ :=
    (@encode_ok sha ⟨physical, header, fragments, marker⟩ encoded).mp hencode
  refine ⟨_, hacc.pack, ?_, ?_⟩
  · constructor
    · rintro ⟨env, hdecode, hsame⟩
      obtain ⟨hframes, outcome, houtcome⟩ := decodeCanonicalEnvelope_ok.mp (hacc.decode_record.mp hdecode)
      refine ⟨⟨outcome, hsame.marker.symm.trans houtcome⟩, ?_⟩
      have hepoch := epoch_of_decode hframes
      rwa [hsame.physical, hsame.header] at hepoch
    · rintro ⟨⟨outcome, rfl⟩, hepoch⟩
      refine ⟨_, hacc.decode_record.mpr
        (decodeCanonicalEnvelope_ok.mpr ⟨hacc.decode_frames hepoch, outcome, rfl⟩), ?_⟩
      exact ⟨rfl, rfl, rfl, rfl, rfl⟩
  · constructor
    · rintro ⟨env, hframes, hsame⟩
      have hepoch := epoch_of_decode hframes
      rwa [hsame.physical, hsame.header] at hepoch
    · intro hepoch
      exact ⟨_, hacc.decode_frames hepoch, rfl, rfl, rfl, rfl, rfl⟩

/-- A one-statement commit at sequence 1. -/
def sampleHeader : CanonicalPreApplyHeader where
  identity := {
    databaseId := List.Vector.replicate 16 1
    clusterId := List.Vector.replicate 16 1
    timelineId := List.Vector.replicate 16 1
    formatEpoch := 1 }
  leaderEpoch := 1
  commitSeq := 1
  stableTransactionId := 1
  requestDigest := zeroArray 32
  isolation := .readCommitted
  flags := 0
  catalogBeforeEpoch := 0
  catalogAfterEpoch := 0
  catalogBeforeDigest := List.Vector.replicate 32 1
  catalogAfterDigest := List.Vector.replicate 32 1
  operationCount := 2
  tableBlockCount := 0
  allocatorHighWater := 0

def sampleOutcome : CanonicalOutcome where
  kind := .commitSuccess
  affectedRows := 0
  sqlstate := none
  constraintId := 0
  targetDigest := zeroArray 32
  returningDigest := zeroArray 32

/-- A commit that changes no table. -/
def sampleDescriptor : GenerationTerminalDescriptorV1 where
  publicationForm := .prebuiltResolved
  initialDatabaseRoot := List.Vector.replicate 32 1
  catalogBeforeEpoch := 0
  catalogBeforeDigest := List.Vector.replicate 32 1
  catalogAfterEpoch := 0
  catalogAfterDigest := List.Vector.replicate 32 1
  stableTransactionId := 1
  commitSequence := 1
  runtimeGenerationInputDigest := List.Vector.replicate 32 1
  finalDatabaseRoot := List.Vector.replicate 32 1
  tableTransitions := []

/-- The sample header over two fragments of different lengths. -/
def sampleContent (marker : CanonicalTerminalMarker) : EnvelopeContent where
  physical := { logEpoch := 1, laneId := 0, segmentId := 1, firstFrameOrdinal := 0 }
  header := sampleHeader
  fragments := [⟨.rowMutation, [1, 2, 3]⟩, ⟨.rowMutation, [4, 5]⟩]
  marker := marker

theorem accepted_sampleContent {marker : CanonicalTerminalMarker}
    (hmarker : marker.validateForHeader sampleHeader = .ok ()) (hfits : marker.LengthFits)
    (hlen : marker.measure.markerBytes ≤ 1000) : (sampleContent marker).Accepted where
  nonempty := cons_ne_nil _ _
  count := (by decide : 2 ≤ UInt32.size - 2)
  marker := hmarker
  operations := rfl
  lengthFits := hfits
  fragments := by
    simp [sampleContent]
    decide
  envelope := (by decide : preapplyHeaderBytes + 5 ≤ maxEnvelopeBytes)
  markerFrame := by
    show frameFixedBytes + marker.image.length + frameDigestBytes ≤ maxEnvelopeBytes
    rw [marker.length_image, frameFixedBytes, frameDigestBytes, maxEnvelopeBytes]
    omega
  packed := by
    have hpacked : (sampleContent marker).packedBytes = 1105 + marker.image.length := by
      rw [packedBytes]
      simp only [sampleContent, bodyBytes, map_cons, map_nil, length_cons,
        length_nil, sum_cons, sum_nil, packedRecordPrefixBytes, packedFrameLengthBytes,
        frameFixedBytes, frameDigestBytes, preapplyHeaderBytes]
      omega
    rw [hpacked, marker.length_image, maxEnvelopeBytes]
    omega
  physical := rfl
  header := rfl

/-- A plain outcome with equal epochs goes there and back. -/
theorem canonical_record_round_trip_sample : ∃ encoded payload env,
      encodeCanonicalEnvelopeWithTerminalMarker sampleHash
        (sampleContent (.legacy sampleOutcome)).physical sampleHeader
        (sampleContent (.legacy sampleOutcome)).fragments (.legacy sampleOutcome) = .ok encoded ∧
      packCanonicalRecordPayload encoded = .ok payload ∧
      decodeCanonicalRecordPayload sampleHash payload = .ok (some env) ∧
      (sampleContent (.legacy sampleOutcome)).ReturnedIn env := by
  have hacc : (sampleContent (.legacy sampleOutcome)).Accepted :=
    accepted_sampleContent rfl trivial (by decide)
  have hencode := hacc.encode sampleHash
  obtain ⟨payload, hpack, hrecord, -⟩ := canonical_record_round_trip_iff _ _ _ _ _ _ hencode
  obtain ⟨env, hdecode, hsame⟩ := hrecord.mpr ⟨⟨_, rfl⟩, rfl⟩
  exact ⟨_, payload, env, hencode, hpack, hdecode, hsame⟩

/-- The record of a commit with a generation marker packs and is refused by the record decoder, which admits the
plain outcome only. -/
theorem canonical_record_refuses_generation_marker : ∃ encoded payload,
      encodeCanonicalEnvelopeWithTerminalMarker sampleHash
        (sampleContent (.generationV1 sampleOutcome sampleDescriptor)).physical sampleHeader
        (sampleContent (.generationV1 sampleOutcome sampleDescriptor)).fragments
        (.generationV1 sampleOutcome sampleDescriptor) = .ok encoded ∧
      packCanonicalRecordPayload encoded = .ok payload ∧
      ∀ env, decodeCanonicalRecordPayload sampleHash payload ≠ .ok (some env) := by
  have hacc : (sampleContent (.generationV1 sampleOutcome sampleDescriptor)).Accepted :=
    accepted_sampleContent rfl (by decide) (by decide)
  refine ⟨_, _, hacc.encode sampleHash, hacc.pack, ?_⟩
  intro env hdecode
  obtain ⟨hframes, outcome, houtcome⟩ := decodeCanonicalEnvelope_ok.mp (hacc.decode_record.mp hdecode)
  rw [hacc.decode_frames rfl] at hframes
  cases hframes
  cases houtcome

/-! ### Canonicality -/

/-- The reader range a header states, at its bytes 20 to 24. -/
def readerRange (headerBytes : Bytes) : UInt16 × UInt16 :=
  (u16OfLe ((headerBytes.drop 20).take 2), u16OfLe ((headerBytes.drop 22).take 2))

theorem readerRange_image (header : CanonicalPreApplyHeader) {minReader maxReader : UInt16} :
    readerRange (header.image minReader maxReader) = (minReader, maxReader) := by
  have hrange : ∃ rest, (header.image minReader maxReader).drop 20 =
      u16ToLe minReader ++ (u16ToLe maxReader ++ rest) := by
    rw [CanonicalPreApplyHeader.image, ← append_assoc, ← append_assoc, drop_left' (by simp)]
    exact ⟨_, rfl⟩
  obtain ⟨rest, hmin⟩ := hrange
  have hmax : (header.image minReader maxReader).drop 22 = u16ToLe maxReader ++ rest := by
    rw [show 22 = 20 + 2 from rfl, ← drop_drop, hmin]
    exact drop_left' (length_u16ToLe minReader)
  rw [readerRange, hmin, hmax, take_left' (length_u16ToLe minReader),
    take_left' (length_u16ToLe maxReader), u16OfLe_u16ToLe, u16OfLe_u16ToLe]

/-- Of the header images that decode to a header, the one the encoder writes states the range `1..=1`. -/
theorem eq_written_iff {header : CanonicalPreApplyHeader} (h : decode bs = .ok header) :
    bs = header.written ↔ readerRange bs = (minReaderVersion, maxReaderVersion) := by
  obtain ⟨-, minReader, maxReader, -, -, rfl⟩ := decode_ok.mp h
  rw [readerRange_image]
  constructor
  · intro heq
    rw [← readerRange_image header, heq]
    exact readerRange_image header
  · intro hrange
    cases hrange
    rfl

/-- The frames of a record as the decoder reads them. -/
def recordFrames (sha : Sha256) (payload : Bytes) : Except EngineError (List DecodedFrame) := do
  let frames ← packedFramesReader.on (payload.drop recordMagic.length)
  frames.mapM (decodeFrame sha)

namespace EnvelopeContent

def frameImages (sha : Sha256) (self : EnvelopeContent) (wire : EnvelopeWire) : List Bytes :=
  (self.wireFrames sha wire).map (DecodedFrame.image sha)

theorem length_frameImages (self : EnvelopeContent) :
    (self.frameImages sha wire).length = self.fragments.length + 1 := by
  rw [frameImages, length_map, length_wireFrames]

theorem Decodable.two_le_frames (h : content.Decodable wire) : 2 ≤ (content.frameImages sha wire).length := by
  have hpos := length_pos_of_ne_nil h.nonempty
  rw [length_frameImages]
  omega

theorem Decodable.frames_lt
    (h : content.Decodable wire) : (content.frameImages sha wire).length < UInt32.size := by
  rw [length_frameImages]
  exact lt_of_le_of_lt (Nat.succ_le_succ h.count) (by decide)

theorem Decodable.mapM_frameImages (h : content.Decodable wire) (sha : Sha256) :
    (content.frameImages sha wire).mapM (decodeFrame sha) = .ok (content.wireFrames sha wire) :=
  mapM_decodeFrame_ok.mpr ⟨readable_wireFrames h.framed, rfl⟩

/-- A content and wire part that a record can carry: the marker is plain and no frame is longer than the
record decoder admits. -/
structure Packable (sha : Sha256) (content : EnvelopeContent) (wire : EnvelopeWire) : Prop where
  decodable : content.Decodable wire
  plain : ∃ outcome, content.marker = .legacy outcome
  frames : ∀ frame ∈ content.frameImages sha wire, frame.length ≤ maxEnvelopeBytes

/-- Exactly the records of packable contents are accepted. -/
theorem decode_record_ok : decodeCanonicalRecordPayload sha payload = .ok (some env) ↔
      ∃ content wire, Packable sha content wire ∧
        payload = recordImage (content.frameImages sha wire) ∧ env = content.envelope sha := by
  rw [decodeCanonicalRecordPayload_ok]
  constructor
  · rintro ⟨frames, rfl, -, -, hframes, hdecode⟩
    obtain ⟨hmarked, outcome, houtcome⟩ := decodeCanonicalEnvelope_ok.mp hdecode
    obtain ⟨content, wire, hdecodable, rfl, rfl⟩ := decode_ok.mp hmarked
    exact ⟨content, wire, ⟨hdecodable, ⟨outcome, houtcome⟩, hframes⟩, rfl, rfl⟩
  · rintro ⟨content, wire, h, rfl, rfl⟩
    exact ⟨_, rfl, h.decodable.two_le_frames, h.decodable.frames_lt, h.frames,
      decodeCanonicalEnvelope_ok.mpr ⟨decode_ok.mpr ⟨content, wire, h.decodable, rfl, rfl⟩, h.plain⟩⟩

theorem Packable.recordFrames_eq (h : content.Packable sha wire) :
    recordFrames sha (recordImage (content.frameImages sha wire)) = .ok (content.wireFrames sha wire) := by
  rw [recordFrames, bind_ok]
  refine ⟨content.frameImages sha wire, packedFramesReader_ok.mpr ⟨?_, h.decodable.two_le_frames,
    h.decodable.frames_lt, h.frames⟩, h.decodable.mapM_frameImages sha⟩
  exact drop_left' rfl

theorem wire_of_mem_wireFrames {frame : DecodedFrame} (h : frame ∈ content.wireFrames sha wire) :
    frame.identity = wire.identity ∧ frame.commitSeq = wire.commitSeq ∧
      frame.stableTransactionId = wire.stableTransactionId := by
  rcases mem_append.mp h with hfragment | hmarker
  · obtain ⟨index, frag, -, rfl⟩ := mem_fragmentFramesFrom hfragment
    exact ⟨rfl, rfl, rfl⟩
  · rw [mem_singleton.mp hmarker]
    exact ⟨rfl, rfl, rfl⟩

/-- Frame zero of a content shows the whole wire part. -/
theorem exists_first_frame (hne : content.fragments ≠ []) :
    ∃ frag fragments, ∀ wire, content.wireFrames sha wire = content.fragmentFrame sha wire 0 frag ::
        (content.fragmentFramesFrom sha wire 1 fragments ++ [content.markerFrame sha wire]) := by
  obtain ⟨frag, fragments, hfragments⟩ := exists_cons_of_ne_nil hne
  refine ⟨frag, fragments, fun wire => ?_⟩
  rw [wireFrames, hfragments]
  rfl

theorem wireFrames_inj {other : EnvelopeWire} (hne : content.fragments ≠ [])
    (h : content.wireFrames sha wire = content.wireFrames sha other) : wire = other := by
  obtain ⟨frag, fragments, hfirst⟩ := exists_first_frame hne
  rw [hfirst wire, hfirst other] at h
  have hhead := (List.cons.inj h).1
  have hidentity : wire.identity = other.identity := congrArg DecodedFrame.identity hhead
  have htransaction : wire.stableTransactionId = other.stableTransactionId :=
    congrArg DecodedFrame.stableTransactionId hhead
  have hcommit : wire.commitSeq = other.commitSeq := congrArg DecodedFrame.commitSeq hhead
  have hbytes : wire.headerBytes = other.headerBytes := congrArg DecodedFrame.headerBytes hhead
  cases wire
  cases other
  simp_all

/-- A record is the encoder's exactly when its wire part is the header's own. -/
theorem Packable.image_eq_record_iff (h : content.Packable sha wire) (hacc : content.Accepted) :
    recordImage (content.frameImages sha wire) = content.record sha ↔ wire = content.header.wire := by
  constructor
  · intro heq
    have hdecodable := hacc.decodable h.decodable.epoch
    have himages : content.frameImages sha wire = content.frameImages sha content.header.wire :=
      recordImage_inj h.decodable.two_le_frames h.decodable.frames_lt h.frames
        hdecodable.two_le_frames hdecodable.frames_lt
        (hacc.frame_le (content.header.length_image _ _)) heq
    have hread := h.decodable.mapM_frameImages sha
    rw [himages, hdecodable.mapM_frameImages sha] at hread
    exact (wireFrames_inj hacc.nonempty (Except.ok.inj hread)).symm
  · rintro rfl
    rfl

/-- The wire part is the header's own when the stated range is `1..=1` and the three repeated fields are
the header's. -/
theorem Decodable.wire_eq_iff (h : content.Decodable wire) : wire = content.header.wire ↔
      readerRange wire.headerBytes = (minReaderVersion, maxReaderVersion) ∧
        wire.identity = content.header.identity ∧ wire.commitSeq = content.header.commitSeq ∧
        wire.stableTransactionId = content.header.stableTransactionId := by
  rw [← eq_written_iff h.headerBytes]
  constructor
  · intro heq
    rw [heq]
    exact ⟨rfl, rfl, rfl, rfl⟩
  · rintro ⟨hbytes, hidentity, hcommit, htransaction⟩
    cases wire
    cases hbytes
    cases hidentity
    cases hcommit
    cases htransaction
    rfl

section

variable (h : content.Packable sha wire)
include h

theorem Packable.length_record : (recordImage (content.frameImages sha wire)).length = content.packedBytes := by
  obtain ⟨-, minReader, maxReader, -, -, hbytes⟩ := CanonicalPreApplyHeader.decode_ok.mp h.decodable.headerBytes
  rw [length_recordImage, frameImages]
  refine packedTotal_wireFrames h.decodable.nonempty ?_
  rw [hbytes]
  exact content.header.length_image _ _

/-- What the decoder leaves unchecked of the encoder's rules: the operation count and the sizes. -/
theorem Packable.accepted_iff : content.Accepted ↔ content.header.operationCount.toNat = content.fragments.length ∧
      (∀ frag ∈ content.fragments, frag.body.length ≤ maxFragmentBytes) ∧
      preapplyHeaderBytes + content.bodyBytes ≤ maxEnvelopeBytes ∧
      content.packedBytes ≤ maxEnvelopeBytes + 1024 * 1024 := by
  constructor
  · intro hacc
    exact ⟨hacc.operations, hacc.fragments, hacc.envelope, hacc.packed⟩
  · rintro ⟨hoperations, hfragments, henvelope, hpacked⟩
    obtain ⟨outcome, houtcome⟩ := h.plain
    have hmarker : frameFixedBytes + content.marker.image.length + frameDigestBytes ≤ maxEnvelopeBytes := by
      rw [houtcome, CanonicalTerminalMarker.length_image]
      exact (by decide : frameFixedBytes + canonicalOutcomeBytes + frameDigestBytes ≤ maxEnvelopeBytes)
    exact ⟨h.decodable.nonempty, h.decodable.count, h.decodable.marker, hoperations,
      h.decodable.lengthFits, hfragments, henvelope, hmarker, hpacked, h.decodable.physical,
      (CanonicalPreApplyHeader.decode_ok.mp h.decodable.headerBytes).1⟩

/-- Re-encoding what was decoded gives the record back exactly when the input is accepted and its wire
part is the header's own. -/
theorem Packable.reencode_iff :
    (∃ encoded, encodeCanonicalEnvelopeWithTerminalMarker sha content.physical content.header
        content.fragments content.marker = .ok encoded ∧
      packCanonicalRecordPayload encoded = .ok (recordImage (content.frameImages sha wire))) ↔
      content.Accepted ∧ wire = content.header.wire := by
  constructor
  · rintro ⟨encoded, hencode, hpack⟩
    obtain ⟨hacc, rfl⟩ := encode_ok.mp hencode
    rw [hacc.pack] at hpack
    exact ⟨hacc, (h.image_eq_record_iff hacc).mp (Except.ok.inj hpack).symm⟩
  · rintro ⟨hacc, hwire⟩
    refine ⟨_, hacc.encode sha, ?_⟩
    rw [hacc.pack, (h.image_eq_record_iff hacc).mpr hwire]

end

end EnvelopeContent

/-- An accepted record is the encoder's image of what the decoder returns, with the header's identity,
commit sequence and transaction id in every frame and its operation count equal to the number of
fragments, exactly when the header states the reader range `1..=1`, frame zero repeats the header's three
fields, the header counts the fragment frames and the sizes are within the encoder's limits. -/
theorem canonical_record_image_iff (sha : Sha256) (payload : Bytes) (env : CanonicalEnvelope)
    (hdecode : decodeCanonicalRecordPayload sha payload = .ok (some env)) :
    ∃ first rest, recordFrames sha payload = .ok (first :: rest) ∧
      (((∃ encoded, encodeCanonicalEnvelopeWithTerminalMarker sha env.physical env.header env.fragments
            env.terminalMarker = .ok encoded ∧ packCanonicalRecordPayload encoded = .ok payload) ∧
          (∀ frame ∈ first :: rest, frame.identity = env.header.identity ∧
            frame.commitSeq = env.header.commitSeq ∧
            frame.stableTransactionId = env.header.stableTransactionId) ∧
          env.header.operationCount.toNat = env.fragments.length) ↔
        readerRange first.headerBytes = (minReaderVersion, maxReaderVersion) ∧
          first.identity = env.header.identity ∧ first.commitSeq = env.header.commitSeq ∧
          first.stableTransactionId = env.header.stableTransactionId ∧
          env.header.operationCount.toNat = rest.length ∧
          (∀ frag ∈ env.fragments, frag.body.length ≤ maxFragmentBytes) ∧
          preapplyHeaderBytes + (env.fragments.map (·.body.length)).sum ≤ maxEnvelopeBytes ∧
          payload.length ≤ maxEnvelopeBytes + 1024 * 1024) := by
  obtain ⟨content, wire, h, rfl, rfl⟩ := decode_record_ok.mp hdecode
  obtain ⟨frag, fragments, hfirst⟩ := exists_first_frame h.decodable.nonempty
  have hrest : (content.fragmentFramesFrom sha wire 1 fragments ++
      [content.markerFrame sha wire]).length = content.fragments.length := by
    have hlen := length_wireFrames sha content wire
    rw [hfirst wire, length_cons] at hlen
    omega
  refine ⟨_, _, (hfirst wire) ▸ h.recordFrames_eq, ?_⟩
  rw [hrest, h.length_record]
  constructor
  · rintro ⟨hencode, -, hoperations⟩
    obtain ⟨hacc, hwire⟩ := h.reencode_iff.mp hencode
    obtain ⟨hrange, hidentity, hcommit, htransaction⟩ := h.decodable.wire_eq_iff.mp hwire
    exact ⟨hrange, hidentity, hcommit, htransaction, h.accepted_iff.mp hacc⟩
  · rintro ⟨hrange, hidentity, hcommit, htransaction, hlimits⟩
    have hwire := h.decodable.wire_eq_iff.mpr ⟨hrange, hidentity, hcommit, htransaction⟩
    refine ⟨h.reencode_iff.mpr ⟨h.accepted_iff.mpr hlimits, hwire⟩, ?_, hlimits.1⟩
    intro frame hmem
    rw [← hfirst wire] at hmem
    obtain ⟨hframe, hseq, hid⟩ := wire_of_mem_wireFrames hmem
    exact ⟨hframe.trans hidentity, hseq.trans hcommit, hid.trans htransaction⟩

/-- The sample with a plain outcome, under a header that states the given reader range. -/
theorem packable_sampleContent (minReader maxReader : UInt16) (hmin : minReader ≤ formatVersion)
    (hmax : formatVersion ≤ maxReader) (sha : Sha256) :
    (sampleContent (.legacy sampleOutcome)).Packable sha
      { sampleHeader.wire with headerBytes := sampleHeader.image minReader maxReader } := by
  have hacc : (sampleContent (.legacy sampleOutcome)).Accepted :=
    accepted_sampleContent rfl trivial (by decide)
  have hbytes : decode (sampleHeader.image minReader maxReader) = .ok sampleHeader :=
    decode_ok.mpr ⟨rfl, _, _, hmin, hmax, rfl⟩
  exact {
    decodable := { hacc.decodable rfl with headerBytes := hbytes }
    plain := ⟨_, rfl⟩
    frames := hacc.frame_le (sampleHeader.length_image _ _) }

/-- The record the encoder writes for the sample is its own image. -/
theorem canonical_record_image_sample :
    ∃ payload env, decodeCanonicalRecordPayload sampleHash payload = .ok (some env) ∧
      ∃ encoded, encodeCanonicalEnvelopeWithTerminalMarker sampleHash env.physical env.header
          env.fragments env.terminalMarker = .ok encoded ∧
        packCanonicalRecordPayload encoded = .ok payload := by
  have hpackable := packable_sampleContent minReaderVersion maxReaderVersion (UInt16.le_refl _) (UInt16.le_refl _)
    sampleHash
  have hdecode := decode_record_ok.mpr ⟨_, _, hpackable, rfl, rfl⟩
  obtain ⟨first, rest, hframes, hiff⟩ := canonical_record_image_iff _ _ _ hdecode
  have hlist := Except.ok.inj (hframes.symm.trans hpackable.recordFrames_eq)
  obtain ⟨rfl, rfl⟩ := List.cons.inj hlist
  have hcanonical := hiff.mpr ⟨readerRange_image _, rfl, rfl, rfl, rfl, by decide, by decide, by
    rw [hpackable.length_record]
    decide⟩
  exact ⟨_, _, hdecode, hcanonical.1⟩

/-- A record whose header admits readers 1 and 2 decodes and is not the image of what it decodes to. -/
theorem canonical_record_admits_later_range :
    ∃ payload env, decodeCanonicalRecordPayload sampleHash payload = .ok (some env) ∧
      ¬ ∃ encoded, encodeCanonicalEnvelopeWithTerminalMarker sampleHash env.physical env.header env.fragments
          env.terminalMarker = .ok encoded ∧ packCanonicalRecordPayload encoded = .ok payload := by
  have hpackable := packable_sampleContent 1 2 (by decide) (by decide) sampleHash
  refine ⟨_, _, decode_record_ok.mpr ⟨_, _, hpackable, rfl, rfl⟩, ?_⟩
  intro hencode
  have hrange := (hpackable.decodable.wire_eq_iff.mp (hpackable.reencode_iff.mp hencode).2).1
  rw [readerRange_image] at hrange
  cases hrange

end ThunderboltDb.Wal.Canonical
