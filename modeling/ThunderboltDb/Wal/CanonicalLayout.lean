import ThunderboltDb.Wal.CanonicalEnvelope

/-!
# The frames of a canonical envelope

Encoder and decoder of an envelope meet at a description of its frames. `wireFrames` lists them for a
header, fragments and a marker, given the four things that the frames carry beside the header and that
need not agree with it (`EnvelopeWire`): the identity, the transaction id and the commit sequence that
every frame repeats, and the header bytes of frame zero.

* `EnvelopeContent.encode_ok` — the encoder writes the frames whose wire part is the header's own,
  exactly for the inputs that meet `Accepted`.
-/

namespace ThunderboltDb.Wal.Canonical

open Lib List Reader CanonicalPreApplyHeader

variable {sha : Sha256}

variable {header : CanonicalPreApplyHeader} {headerBytes : Bytes} {index : ℕ}
    {fragments : List CanonicalFragment} {self : EnvelopeContent} {first : DecodedFrame}

/-! ### One frame -/

namespace DecodedFrame

variable (self : DecodedFrame)

/-- The frame's bytes without the digest. -/
def fields : Bytes :=
  frameMagic ++ (u16ToLe formatVersion ++ (u16ToLe semanticsVersion ++ ([self.frameType] ++ ([0, 0, 0] ++
  (self.identity.databaseId.toList ++ (self.identity.clusterId.toList ++
  (self.identity.timelineId.toList ++ (u64ToLe self.identity.formatEpoch ++
  (u64ToLe self.physical.logEpoch ++ (u32ToLe self.physical.laneId ++ (u32ToLe 0 ++
  (u64ToLe self.physical.segmentId ++ (u64ToLe self.physical.firstFrameOrdinal ++
  (u64ToLe self.stableTransactionId ++ (u64ToLe self.commitSeq ++ (u32ToLe self.frameIndex ++
  (u32ToLe self.fragmentCount ++ (u16ToLe self.kind ++ (u16ToLe 0 ++
  (u32ToLe (UInt32.ofNat self.headerBytes.length) ++ (u32ToLe (UInt32.ofNat self.body.length) ++
  (self.headerDigest.toList ++ (self.root.toList ++ (self.leafOrFinal.toList ++ (self.headerBytes ++
  self.body)))))))))))))))))))))))))

/-- The frame's bytes. -/
def image (sha : Sha256) (self : DecodedFrame) : Bytes :=
  self.fields ++ (digestParts sha frameDomain [self.fields]).toList

/-- What a frame must satisfy to be readable. -/
structure Readable (frame : DecodedFrame) : Prop where
  frameType : frame.frameType = frameFragment ∨ frame.frameType = frameMarker
  identity : frame.identity.validate = .ok ()
  headerBytes : frame.headerBytes.length < UInt32.size
  body : frame.body.length < UInt32.size

theorem length_fields :
    self.fields.length = frameFixedBytes + self.headerBytes.length + self.body.length := by
  simp [fields, frameFixedBytes]
  omega

theorem length_image :
    (self.image sha).length = canonicalFrameEncodedLen self.headerBytes.length self.body.length := by
  rw [image, length_append, length_fields, List.Vector.toList_length]
  rfl

end DecodedFrame

/-- The frame that `encode_frame_into` writes for its arguments. -/
def frameOf (frameType : UInt8) (physical : CanonicalPhysicalRange) (header : CanonicalPreApplyHeader)
    (frameIndex fragmentCount : UInt32) (kind : UInt16) (headerBytes body : Bytes)
    (headerDigest root leafOrFinal : CanonicalDigest) : DecodedFrame where
  frameType := frameType
  identity := header.identity
  physical := physical
  stableTransactionId := header.stableTransactionId
  commitSeq := header.commitSeq
  frameIndex := frameIndex
  fragmentCount := fragmentCount
  kind := kind
  headerDigest := headerDigest
  root := root
  leafOrFinal := leafOrFinal
  headerBytes := headerBytes
  body := body

variable {bs : Bytes}

theorem frameReader_reads {rest : Bytes} {frame : DecodedFrame} :
    frameReader.Reads bs frame rest ↔ bs = frame.fields ∧ rest = [] ∧ frame.Readable := by
  constructor
  · intro h
    rw [frameReader] at h
    -- one read at a time: rewriting under all later reads at once is quadratic
    iterate 33
      rw [reads_bind] at h
      obtain ⟨_, _, _, h⟩ := h
    simp only [reads_expect, reads_u16, reads_array, reads_u8, reads_u32,
      reads_u64, reads_lift, refuse_eq_ok, reads_take, reads_finish,
      reads_pure, not_or, not_and, not_not] at *
    casesm* _ ∧ _
    subst_vars
    rename_i htype hidentity hheader hbody
    refine ⟨?_, rfl, Decidable.or_iff_not_imp_left.mpr htype, hidentity, hheader ▸ UInt32.toNat_lt _,
      hbody ▸ UInt32.toNat_lt _⟩
    simp [DecodedFrame.fields, hheader, hbody]
  · rintro ⟨rfl, rfl, htype, hidentity, hheader, hbody⟩
    rw [frameReader, DecodedFrame.fields]
    iterate 30
      rw [reads_bind]
      first
        | refine ⟨(), _, reads_expect.mpr rfl, ?_⟩
        | refine ⟨_, _, reads_u8.mpr rfl, ?_⟩
        | refine ⟨_, _, reads_u16.mpr rfl, ?_⟩
        | refine ⟨_, _, reads_u32.mpr rfl, ?_⟩
        | refine ⟨_, _, reads_u64.mpr rfl, ?_⟩
        | refine ⟨_, _, reads_array.mpr rfl, ?_⟩
        | refine ⟨(), _, reads_lift.mpr ⟨hidentity, rfl⟩, ?_⟩
        | refine ⟨(), _, reads_lift.mpr ⟨refuse_eq_ok.mpr (by grind), rfl⟩, ?_⟩
    simp only [reads_bind, reads_take, reads_finish, reads_pure]
    exact ⟨frame.headerBytes, _, ⟨rfl, (toNat_ofNat_of_lt hheader).symm⟩, frame.body, [],
      ⟨(append_nil _).symm, (toNat_ofNat_of_lt hbody).symm⟩, (), _, ⟨rfl, rfl⟩, rfl, rfl⟩

/-- The frame decoder accepts exactly the images of readable frames. -/
theorem decodeFrame_ok {frame : DecodedFrame} :
    decodeFrame sha bs = .ok frame ↔ frame.Readable ∧ bs = frame.image sha := by
  rw [decodeFrame, except_seq_ok, except_seq_ok, refuse_eq_ok, refuse_eq_ok, on_eq_ok, not_not]
  simp only [frameReader_reads]
  constructor
  · rintro ⟨-, hdigest, _, hfields, -, hreadable⟩
    refine ⟨hreadable, ?_⟩
    rw [DecodedFrame.image, ← hfields, ← hdigest, take_append_drop]
  · rintro ⟨hreadable, rfl⟩
    have hcut : (frame.image sha).length - frameDigestBytes = frame.fields.length := by
      rw [DecodedFrame.image, length_append, List.Vector.toList_length, frameDigestBytes]
      omega
    have htake : (frame.image sha).take frame.fields.length = frame.fields := take_left' rfl
    have hdrop : (frame.image sha).drop frame.fields.length =
        (digestParts sha frameDomain [frame.fields]).toList := drop_left' rfl
    rw [hcut, htake, hdrop]
    refine ⟨?_, rfl, [], rfl, rfl, hreadable⟩
    rw [frame.length_image, canonicalFrameEncodedLen]
    omega

variable {frameType : UInt8} {physical : CanonicalPhysicalRange} {frameIndex fragmentCount : UInt32}
  {kind : UInt16} {body : Bytes} {leafOrFinal : CanonicalDigest}

/-- The frame encoder writes the image of its arguments' frame into a buffer of that length. -/
theorem encodeFrameInto_ok {out : Bytes} {headerDigest root : CanonicalDigest} :
    encodeFrameInto sha out frameType physical header frameIndex fragmentCount kind headerBytes body
        headerDigest root leafOrFinal = .ok bs ↔
      headerBytes.length < UInt32.size ∧ body.length < UInt32.size ∧
      out.length = canonicalFrameEncodedLen headerBytes.length body.length ∧
      bs = (frameOf frameType physical header frameIndex fragmentCount kind headerBytes body headerDigest
        root leafOrFinal).image sha := by
  simp only [encodeFrameInto, bind_ok, u32TryFrom_ok, refuse_eq_ok, not_not, BufferWriter.put_put,
    BufferWriter.fill_put, pure, Except.pure, Except.ok.injEq, exists_const]
  constructor
  · rintro ⟨headerLen, hheader, bodyLen, hbody, hout, fields, ⟨-, rfl⟩, rfl⟩
    refine ⟨hheader ▸ headerLen.toNat_lt, hbody ▸ bodyLen.toNat_lt, hout, ?_⟩
    simp only [DecodedFrame.image, DecodedFrame.fields, frameOf, hheader, hbody, UInt32.ofNat_toNat]
  · rintro ⟨hheader, hbody, hout, rfl⟩
    have hlen := (frameOf frameType physical header frameIndex fragmentCount kind headerBytes body
      headerDigest root leafOrFinal).length_fields
    have hcut : canonicalFrameEncodedLen headerBytes.length body.length - frameDigestBytes =
        frameFixedBytes + headerBytes.length + body.length := by
      rw [canonicalFrameEncodedLen]
      omega
    refine ⟨UInt32.ofNat headerBytes.length, (toNat_ofNat_of_lt hheader).symm,
      UInt32.ofNat body.length, (toNat_ofNat_of_lt hbody).symm, hout, _, ⟨?_, rfl⟩, rfl⟩
    rw [length_take_of_le (hout ▸ Nat.sub_le _ _), hcut]
    exact hlen

theorem encodeFrame_ok {headerDigest root : CanonicalDigest} :
    encodeFrame sha frameType physical header frameIndex fragmentCount kind headerBytes body
        headerDigest root leafOrFinal = .ok bs ↔
      headerBytes.length < UInt32.size ∧ body.length < UInt32.size ∧
      bs = (frameOf frameType physical header frameIndex fragmentCount kind headerBytes body headerDigest
        root leafOrFinal).image sha := by
  rw [encodeFrame, encodeFrameInto_ok, length_replicate]
  simp only [true_and]

/-! ### All frames of an envelope -/

/-- What an envelope says. -/
structure EnvelopeContent where
  physical : CanonicalPhysicalRange
  header : CanonicalPreApplyHeader
  fragments : List CanonicalFragment
  marker : CanonicalTerminalMarker
  deriving DecidableEq

/-- What the frames carry beside the header. -/
structure EnvelopeWire where
  identity : CanonicalIdentity
  stableTransactionId : UInt64
  commitSeq : UInt64
  headerBytes : Bytes
  deriving DecidableEq

/-- The wire part the encoder takes from the header. -/
def CanonicalPreApplyHeader.wire (self : CanonicalPreApplyHeader) : EnvelopeWire where
  identity := self.identity
  stableTransactionId := self.stableTransactionId
  commitSeq := self.commitSeq
  headerBytes := self.written

/-- The canonical bodies of the fragments with their leaf digests. -/
def leavesFrom (sha : Sha256) (headerDigest : CanonicalDigest) :
    ℕ → List CanonicalFragment → List (Bytes × CanonicalDigest)
  | _, [] => []
  | index, frag :: fragments =>
    (frag.canonical, leafOf sha headerDigest index frag.canonical) ::
      leavesFrom sha headerDigest (index + 1) fragments

section

variable (sha : Sha256)

def fragmentRoot (headerDigest : CanonicalDigest) (fragments : List CanonicalFragment) : CanonicalDigest :=
  digestParts sha fragmentRootDomain [u32ToLe (UInt32.ofNat fragments.length) ++
    rootMaterial 0 (leavesFrom sha headerDigest 0 fragments)]

def markerDomain : CanonicalTerminalMarker → Bytes
  | .legacy _ => finalDomain
  | .generationV1 _ _ => runtimeTerminalDomain

namespace EnvelopeContent

variable (self : EnvelopeContent) (wire : EnvelopeWire)

def headerDigest : CanonicalDigest :=
  headerDigestOf sha self.header.written

def root : CanonicalDigest :=
  fragmentRoot sha (self.headerDigest sha) self.fragments

def final : CanonicalDigest :=
  digestParts sha (markerDomain self.marker)
    [self.header.written, (self.root sha).toList, self.marker.image]

/-- A frame of the envelope with the given place, kind and bytes. -/
def frame (frameType : UInt8) (frameIndex : UInt32) (kind : UInt16) (leafOrFinal : CanonicalDigest)
    (headerBytes body : Bytes) : DecodedFrame where
  frameType := frameType
  identity := wire.identity
  physical := self.physical
  stableTransactionId := wire.stableTransactionId
  commitSeq := wire.commitSeq
  frameIndex := frameIndex
  fragmentCount := UInt32.ofNat self.fragments.length
  kind := kind
  headerDigest := self.headerDigest sha
  root := self.root sha
  leafOrFinal := leafOrFinal
  headerBytes := headerBytes
  body := body

/-- The frame of fragment number `index`; frame zero carries the header. -/
def fragmentFrame (index : ℕ) (frag : CanonicalFragment) : DecodedFrame :=
  self.frame sha wire frameFragment (UInt32.ofNat index) frag.kind.code
    (leafOf sha (self.headerDigest sha) index frag.canonical)
    (if index = 0 then wire.headerBytes else []) frag.body

def fragmentFramesFrom (sha : Sha256) (self : EnvelopeContent) (wire : EnvelopeWire) :
    ℕ → List CanonicalFragment → List DecodedFrame
  | _, [] => []
  | index, frag :: fragments =>
    self.fragmentFrame sha wire index frag :: fragmentFramesFrom sha self wire (index + 1) fragments

def markerFrame : DecodedFrame :=
  self.frame sha wire frameMarker (UInt32.ofNat self.fragments.length) 0 (self.final sha) []
    self.marker.image

def wireFrames : List DecodedFrame :=
  self.fragmentFramesFrom sha wire 0 self.fragments ++ [self.markerFrame sha wire]

def bodyBytes : ℕ := (self.fragments.map (·.body.length)).sum

def packedBytes : ℕ :=
  packedRecordPrefixBytes + preapplyHeaderBytes + self.bodyBytes +
    (packedFrameLengthBytes + frameFixedBytes + frameDigestBytes) * (self.fragments.length + 1) +
    self.marker.image.length

/-- The inputs the encoder accepts. -/
structure Accepted (content : EnvelopeContent) : Prop where
  nonempty : content.fragments ≠ []
  count : content.fragments.length ≤ UInt32.size - 2
  marker : content.marker.validateForHeader content.header = .ok ()
  operations : content.header.operationCount.toNat = content.fragments.length
  lengthFits : content.marker.LengthFits
  fragments : ∀ frag ∈ content.fragments, frag.body.length ≤ maxFragmentBytes
  envelope : preapplyHeaderBytes + content.bodyBytes ≤ maxEnvelopeBytes
  markerFrame : frameFixedBytes + content.marker.image.length + frameDigestBytes ≤ maxEnvelopeBytes
  packed : content.packedBytes ≤ maxEnvelopeBytes + 1024 * 1024
  physical : content.physical.validate (content.fragments.length + 1) = .ok ()
  header : content.header.validate = .ok ()

end EnvelopeContent

end

/-! ### The encoder -/

theorem lt_size_of_le {n : ℕ} (h : n ≤ maxFragmentBytes) : n < UInt32.size := lt_of_le_of_lt h (by decide)

variable {lens : List ℕ} {frame : DecodedFrame} {headerDigest : CanonicalDigest} {content : EnvelopeContent}
  {marker : CanonicalTerminalMarker}

theorem footprintLoop_ok {bodyBytes frameBytes : ℕ} {sums : ℕ × ℕ} :
    footprintLoop index bodyBytes frameBytes lens = .ok sums ↔ (∀ len ∈ lens, len ≤ maxFragmentBytes) ∧
      sums = (bodyBytes + lens.sum, frameBytes + lens.sum + (frameFixedBytes + frameDigestBytes) * lens.length +
        if index = 0 ∧ lens ≠ [] then preapplyHeaderBytes else 0) := by
  induction lens generalizing index bodyBytes frameBytes with
  | nil => simp [footprintLoop, eq_comm]
  | cons len lens ih =>
    rw [footprintLoop, except_seq_ok, refuse_eq_ok, ih, forall_mem_cons, not_lt, and_assoc]
    refine and_congr_right fun _ => and_congr_right fun _ => ?_
    have hbody : bodyBytes + len + lens.sum = bodyBytes + (len :: lens).sum := by
      rw [sum_cons]
      omega
    have hframe : frameBytes + (frameFixedBytes + (if index = 0 then preapplyHeaderBytes else 0) + len +
          frameDigestBytes) + lens.sum + (frameFixedBytes + frameDigestBytes) * lens.length +
          (if index + 1 = 0 ∧ lens ≠ [] then preapplyHeaderBytes else 0) =
        frameBytes + (len :: lens).sum + (frameFixedBytes + frameDigestBytes) * (len :: lens).length +
          (if index = 0 ∧ len :: lens ≠ [] then preapplyHeaderBytes else 0) := by
      have hnext : ¬ (index + 1 = 0 ∧ lens ≠ []) := fun h => Nat.succ_ne_zero index h.1
      rw [sum_cons, length_cons, Nat.mul_succ, if_neg hnext]
      by_cases hindex : index = 0
      · rw [if_pos hindex, if_pos ⟨hindex, by simp⟩]
        omega
      · rw [if_neg hindex, if_neg fun h => hindex h.1]
        omega
    rw [hbody, hframe]

/-- The footprint of a nonempty fragment list, when every limit is met. -/
def footprintOf (lens : List ℕ) (markerBytes : ℕ) : CanonicalWalFootprint :=
  let fragmentFrameBytes := lens.sum + (frameFixedBytes + frameDigestBytes) * lens.length +
    preapplyHeaderBytes
  let markerFrameBytes := frameFixedBytes + markerBytes + frameDigestBytes
  let fragmentPackedBytes := fragmentFrameBytes + packedFrameLengthBytes * lens.length
  let markerPackedBytes := packedFrameLengthBytes + markerFrameBytes
  let packedRecordBytes := packedRecordPrefixBytes + fragmentPackedBytes + markerPackedBytes
  { fragmentCount := lens.length
    frameCount := lens.length + 1
    fragmentBodyBytes := lens.sum
    preapplyBytes := preapplyHeaderBytes + lens.sum
    fragmentFrameBytes, markerFrameBytes, fragmentPackedBytes, markerPackedBytes, packedRecordBytes
    serializedRecordBytes := packedRecordBytes + 24 }

theorem footprint_ok {markerBytes : ℕ} {footprint : CanonicalWalFootprint} :
    canonicalWalFootprintByIndexWithMarker lens markerBytes = .ok footprint ↔
      lens ≠ [] ∧ lens.length ≤ UInt32.size - 2 ∧ (∀ len ∈ lens, len ≤ maxFragmentBytes) ∧
      preapplyHeaderBytes + lens.sum ≤ maxEnvelopeBytes ∧
      frameFixedBytes + markerBytes + frameDigestBytes ≤ maxEnvelopeBytes ∧
      (footprintOf lens markerBytes).packedRecordBytes ≤ maxEnvelopeBytes + 1024 * 1024 ∧
      footprintOf lens markerBytes = footprint := by
  simp only [canonicalWalFootprintByIndexWithMarker, bind_ok, u32TryFrom_ok, refuse_eq_ok,
    footprintLoop_ok, not_lt, pure, Except.pure, Except.ok.injEq, exists_const, Prod.exists, Prod.mk.injEq,
    existsAndEq, and_assoc, true_and, Nat.zero_add, not_or]
  constructor
  · rintro ⟨count, hcount, hzero, hmax, hlens, henvelope, hmarker, hpacked, hfootprint⟩
    have hne : lens ≠ [] := by
      rintro rfl
      exact hzero (UInt32.toNat_inj.mp hcount.symm)
    have hlt : lens.length < UInt32.size := hcount ▸ count.toNat_lt
    rw [← hcount] at hmax
    simp only [if_pos hne] at hpacked hfootprint
    exact ⟨hne, by omega, hlens, henvelope, hmarker, hpacked, hfootprint⟩
  · rintro ⟨hne, hcount, hlens, henvelope, hmarker, hpacked, hfootprint⟩
    have hpos : 0 < lens.length := length_pos_iff.mpr hne
    have hlt : lens.length < UInt32.size := by omega
    have hnat := toNat_ofNat_of_lt hlt
    refine ⟨UInt32.ofNat lens.length, hnat.symm, ?_, by omega, hlens, henvelope, hmarker, ?_⟩
    · intro hzero
      rw [hzero] at hnat
      exact absurd hnat.symm (Nat.ne_of_gt hpos)
    · simp only [if_pos hne]
      exact ⟨hpacked, hfootprint⟩

theorem encodeLeaves_eq {total : ℕ} (hfragments : ∀ frag ∈ fragments, frag.body.length ≤ maxFragmentBytes)
    (htotal : total + (fragments.map (·.body.length)).sum ≤ maxEnvelopeBytes) :
    encodeLeaves sha headerDigest index total fragments =
      .ok (leavesFrom sha headerDigest index fragments) := by
  induction fragments generalizing index total with
  | nil => rfl
  | cons frag fragments ih =>
    obtain ⟨hfragment, hrest⟩ := forall_mem_cons.mp hfragments
    rw [map_cons, sum_cons, ← Nat.add_assoc] at htotal
    rw [encodeLeaves, except_seq_ok, except_seq_ok, refuse_eq_ok, refuse_eq_ok, ih hrest htotal]
    exact ⟨hfragment.not_gt, (le_trans (Nat.le_add_right _ _) htotal).not_gt, rfl⟩

/-- The fragment-frame loop writes the fragment frames whose wire part is the header's own. -/
theorem encodeFragmentFrames_eq (hfragments : ∀ frag ∈ fragments, frag.body.length < UInt32.size) :
    encodeFragmentFrames sha content.physical content.header content.fragments.length
        content.header.written (content.headerDigest sha) (content.root sha) index
        (fragments.zip ((leavesFrom sha (content.headerDigest sha) index fragments).map Prod.snd)) =
      .ok ((content.fragmentFramesFrom sha content.header.wire index fragments).map
        (DecodedFrame.image sha)) := by
  induction fragments generalizing index with
  | nil => rfl
  | cons frag fragments ih =>
    obtain ⟨hfragment, hrest⟩ := forall_mem_cons.mp hfragments
    have hheader : (if index = 0 then content.header.written else []).length < UInt32.size := by
      split
      · rw [length_image]
        decide
      · decide
    rw [leavesFrom, map_cons, zip_cons_cons, encodeFragmentFrames, bind_ok]
    refine ⟨_, encodeFrame_ok.mpr ⟨hheader, hfragment, rfl⟩, ?_⟩
    rw [ih hrest]
    rfl

theorem markerDigest_ok {markerBytes : Bytes} {root digest : CanonicalDigest} :
    canonicalTerminalMarkerDigestFromEncoded sha headerBytes root marker markerBytes = .ok digest ↔
      marker.validate = .ok () ∧ marker.LengthFits ∧ markerBytes.length = marker.image.length ∧
        digestParts sha (markerDomain marker) [headerBytes, root.toList, markerBytes] = digest := by
  simp only [canonicalTerminalMarkerDigestFromEncoded, bind_ok, measureCanonicalTerminalMarker_ok,
    refuse_eq_ok, not_not, existsAndEq, and_assoc, true_and, exists_const, ← marker.length_image]
  cases marker <;> simp [markerDomain, pure, Except.pure]

namespace EnvelopeContent

/-- The envelope the encoder makes of an accepted content. -/
def encoded (sha : Sha256) (self : EnvelopeContent) : EncodedCanonicalEnvelope where
  frames := (self.wireFrames sha self.header.wire).map (DecodedFrame.image sha)
  orderedFragmentRoot := self.root sha
  finalDigest := self.final sha
  header := self.header

theorem validate_of_validateForHeader
    (h : marker.validateForHeader header = .ok ()) : marker.validate = .ok () := by
  unfold CanonicalTerminalMarker.validateForHeader at h
  exact (except_seq_ok.mp h).1

theorem packedRecordBytes_footprintOf (self : EnvelopeContent) :
    (footprintOf (self.fragments.map (·.body.length)) self.marker.image.length).packedRecordBytes =
      self.packedBytes := by
  simp only [footprintOf, packedBytes, bodyBytes, length_map]
  ring

theorem encode_ok {encoded : EncodedCanonicalEnvelope} :
    encodeCanonicalEnvelopeWithTerminalMarker sha self.physical self.header self.fragments self.marker =
      .ok encoded ↔ self.Accepted ∧ self.encoded sha = encoded := by
  rw [encodeCanonicalEnvelopeWithTerminalMarker]
  simp only [bind_ok, refuse_eq_ok, measureCanonicalTerminalMarker_ok, existsAndEq, and_assoc,
    exists_const, not_not, footprint_ok, CanonicalPreApplyHeader.encode_ok, ← self.marker.length_image,
    CanonicalPreApplyHeader.length_image, encodeCanonicalTerminalMarkerInto_ok, markerDigest_ok,
    encodeFrame_ok, length_replicate, true_and, not_or, not_lt, packedRecordBytes_footprintOf]
  constructor
  · rintro ⟨hne, hcount, _, hmarker, hoperations, -, hfits, -, -, hlens, henvelope, hframe, hpacked, _,
      hphysical, hheader, leaves, hleaves, -, -, -, -, frames, hframes, -, -, hencoded⟩
    have hfragments : ∀ frag ∈ self.fragments, frag.body.length ≤ maxFragmentBytes :=
      fun frag hmem => hlens _ (mem_map_of_mem hmem)
    obtain rfl := Except.ok.inj ((encodeLeaves_eq hfragments henvelope).symm.trans hleaves)
    obtain rfl := Except.ok.inj
      ((encodeFragmentFrames_eq fun frag hmem => lt_size_of_le (hfragments frag hmem)).symm.trans hframes)
    refine ⟨⟨hne, hcount, hmarker, hoperations, hfits, hfragments, henvelope, hframe, hpacked, hphysical,
      hheader⟩, ?_⟩
    cases hencoded
    simp only [encoded, wireFrames, map_append, map_cons, map_nil]
    rfl
  · rintro ⟨h, rfl⟩
    have hvalid := validate_of_validateForHeader h.marker
    have hmap : self.fragments.map (·.body.length) ≠ [] := by simpa using h.nonempty
    have hbodies : ∀ len ∈ self.fragments.map (·.body.length), len ≤ maxFragmentBytes := by
      simpa using h.fragments
    refine ⟨h.nonempty, h.count, (), h.marker, h.operations, hvalid, h.lengthFits, hmap,
      by simpa using h.count, hbodies, h.envelope, h.markerFrame, h.packed, (), h.physical, h.header, _,
      encodeLeaves_eq h.fragments h.envelope, hvalid, h.lengthFits, hvalid, h.lengthFits, _,
      encodeFragmentFrames_eq fun frag hmem => lt_size_of_le (h.fragments frag hmem),
      by decide, ?_, ?_⟩
    · have := h.markerFrame
      exact lt_of_le_of_lt (by omega) (show maxEnvelopeBytes < UInt32.size by decide)
    · simp only [encoded, wireFrames, map_append, map_cons, map_nil]
      rfl

end EnvelopeContent

/-! ### The decoder -/

variable {frames : List Bytes}

theorem mapM_decodeFrame_ok {decoded : List DecodedFrame} : frames.mapM (decodeFrame sha) = .ok decoded ↔
      (∀ frame ∈ decoded, frame.Readable) ∧ frames = decoded.map (DecodedFrame.image sha) := by
  rw [mapM_ok_iff_forall₂]
  induction frames generalizing decoded with
  | nil => cases decoded <;> simp
  | cons bytes frames ih =>
    cases decoded with
    | nil => simp
    | cons frame decoded =>
      rw [forall₂_cons, decodeFrame_ok, ih, forall_mem_cons, map_cons, List.cons.injEq]
      constructor
      · rintro ⟨⟨hframe, rfl⟩, hrest, rfl⟩
        exact ⟨⟨hframe, hrest⟩, rfl, rfl⟩
      · rintro ⟨⟨hframe, hrest⟩, rfl, rfl⟩
        exact ⟨⟨hframe, rfl⟩, hrest, rfl⟩

/-- A frame with the coordinates of `self`. -/
def DecodedFrame.sibling (self : DecodedFrame) (frameType : UInt8) (frameIndex : UInt32) (kind : UInt16)
    (leafOrFinal : CanonicalDigest) (headerBytes body : Bytes) : DecodedFrame :=
  { self with frameType, frameIndex, kind, leafOrFinal, headerBytes, body }

theorem verifyCommonFrame_ok :
    verifyCommonFrame frame first = .ok () ↔ frame = first.sibling frame.frameType frame.frameIndex
      frame.kind frame.leafOrFinal frame.headerBytes frame.body := by
  rw [verifyCommonFrame, refuse_eq_ok]
  cases frame
  cases first
  simp only [DecodedFrame.sibling, DecodedFrame.mk.injEq, not_or, not_not, true_and, and_true]
  tauto

/-- The fragment frames that have the coordinates of frame zero. -/
def siblingsFrom (sha : Sha256) (headerDigest : CanonicalDigest) (first : DecodedFrame) :
    ℕ → List CanonicalFragment → List DecodedFrame
  | _, [] => []
  | index, frag :: fragments =>
    first.sibling frameFragment (UInt32.ofNat index) frag.kind.code
        (leafOf sha headerDigest index frag.canonical)
        (if index = 0 then first.headerBytes else []) frag.body ::
      siblingsFrom sha headerDigest first (index + 1) fragments

theorem length_siblingsFrom :
    (siblingsFrom sha headerDigest first index fragments).length = fragments.length := by
  induction fragments generalizing index with
  | nil => rfl
  | cons frag fragments ih => rw [siblingsFrom, length_cons, ih, length_cons]

variable {frag : CanonicalFragment} {wire : EnvelopeWire}

/-- Every fragment is the body of its frame. -/
theorem exists_sibling (h : frag ∈ fragments) :
    ∃ frame ∈ siblingsFrom sha headerDigest first index fragments, frame.body = frag.body := by
  induction fragments generalizing index with
  | nil => cases h
  | cons head fragments ih =>
    rw [siblingsFrom]
    rcases mem_cons.mp h with rfl | h
    · exact ⟨_, mem_cons_self, rfl⟩
    · obtain ⟨frame, hframe, hbody⟩ := ih h
      exact ⟨frame, mem_cons_of_mem _ hframe, hbody⟩

/-- The fragment loop accepts exactly the siblings of frame zero. It does not look at the header bytes
of the frame at index zero, which is frame zero itself. -/
theorem verifyFragmentFrames_ok {frames : List DecodedFrame} {material : Bytes}
    (hzero : index = 0 → ∀ frame ∈ frames.head?, frame.headerBytes = first.headerBytes) :
    verifyFragmentFrames sha headerDigest first index frames = .ok (fragments, material) ↔
      frames = siblingsFrom sha headerDigest first index fragments ∧
        material = rootMaterial index (leavesFrom sha headerDigest index fragments) := by
  induction frames generalizing index fragments material with
  | nil =>
    rw [verifyFragmentFrames]
    cases fragments with
    | nil => simp [siblingsFrom, leavesFrom, rootMaterial, eq_comm]
    | cons frag fragments => simp [siblingsFrom]
  | cons frame frames ih =>
    simp only [verifyFragmentFrames, bind_ok, refuse_eq_ok, CanonicalFragmentKind.decode_ok,
      Prod.exists, not_or, not_and, not_not, exists_const, and_assoc]
    constructor
    · rintro ⟨_, hcommon, htype, hindex, hheader, kind, hkind, hleaf, fragments', material', hrest, hself⟩
      cases hself
      obtain ⟨hframes, rfl⟩ := (ih fun h => absurd h (Nat.succ_ne_zero index)).mp hrest
      refine ⟨?_, rfl⟩
      have hbytes : frame.headerBytes = if index = 0 then first.headerBytes else [] := by
        split
        · exact hzero ‹_› frame rfl
        · exact hheader ‹_›
      rw [verifyCommonFrame_ok, htype, hindex, hkind, ← hleaf, hbytes] at hcommon
      rw [siblingsFrom, ← hframes, ← hcommon]
    · rintro ⟨hframes, rfl⟩
      cases fragments with
      | nil => cases hframes
      | cons frag fragments =>
        rw [siblingsFrom, List.cons.injEq] at hframes
        obtain ⟨rfl, rfl⟩ := hframes
        refine ⟨(), verifyCommonFrame_ok.mpr rfl, rfl, rfl, fun h => if_neg h, frag.kind, rfl, rfl,
          fragments, _, (ih fun h => absurd h (Nat.succ_ne_zero index)).mpr ⟨rfl, rfl⟩, rfl⟩

namespace EnvelopeContent

/-- What the decoder returns for a content. -/
def envelope (sha : Sha256) (self : EnvelopeContent) : CanonicalEnvelope where
  physical := self.physical
  header := self.header
  fragments := self.fragments
  terminalMarker := self.marker
  outcome := self.marker.outcome
  orderedFragmentRoot := self.root sha
  finalDigest := self.final sha

/-- The contents and wire parts the decoder accepts. Identity, transaction id and commit sequence of
the wire part are not compared with the header. -/
structure Decodable (content : EnvelopeContent) (wire : EnvelopeWire) : Prop where
  nonempty : content.fragments ≠ []
  count : content.fragments.length ≤ UInt32.size - 2
  headerBytes : decode wire.headerBytes = .ok content.header
  identity : wire.identity.validate = .ok ()
  physical : content.physical.validate (content.fragments.length + 1) = .ok ()
  epoch : content.physical.logEpoch = content.header.leaderEpoch
  fragments : ∀ frag ∈ content.fragments, frag.body.length < UInt32.size
  marker : content.marker.validateForHeader content.header = .ok ()
  lengthFits : content.marker.LengthFits
  markerBytes : content.marker.image.length < UInt32.size

/-- The fragment frames of an envelope are the siblings of any of its frames. -/
theorem fragmentFramesFrom_eq :
    self.fragmentFramesFrom sha wire index fragments = siblingsFrom sha (self.headerDigest sha)
        (self.frame sha wire frameType frameIndex kind leafOrFinal wire.headerBytes body)
        index fragments := by
  induction fragments generalizing index with
  | nil => rfl
  | cons frag fragments ih => rw [fragmentFramesFrom, ih, siblingsFrom]; rfl

theorem length_fragmentFramesFrom :
    (self.fragmentFramesFrom sha wire index fragments).length = fragments.length := by
  induction fragments generalizing index with
  | nil => rfl
  | cons frag fragments ih => rw [fragmentFramesFrom, length_cons, ih, length_cons]

theorem length_wireFrames (sha : Sha256) (self : EnvelopeContent) (wire : EnvelopeWire) :
    (self.wireFrames sha wire).length = self.fragments.length + 1 := by
  rw [wireFrames, length_append, length_fragmentFramesFrom, length_singleton]

/-- The lengths that the frames of a content state fit their 32-bit fields. -/
structure Framed (content : EnvelopeContent) (wire : EnvelopeWire) : Prop where
  identity : wire.identity.validate = .ok ()
  headerBytes : wire.headerBytes.length < UInt32.size
  fragments : ∀ frag ∈ content.fragments, frag.body.length < UInt32.size
  markerBytes : content.marker.image.length < UInt32.size

theorem Decodable.framed (h : content.Decodable wire) : content.Framed wire := by
  refine ⟨h.identity, ?_, h.fragments, h.markerBytes⟩
  obtain ⟨-, minReader, maxReader, -, -, hbytes⟩ := decode_ok.mp h.headerBytes
  rw [hbytes, length_image]
  decide

theorem mem_fragmentFramesFrom (h : frame ∈ self.fragmentFramesFrom sha wire index fragments) :
    ∃ i, ∃ frag ∈ fragments, frame = self.fragmentFrame sha wire i frag := by
  induction fragments generalizing index with
  | nil => cases h
  | cons frag fragments ih =>
    rw [fragmentFramesFrom] at h
    rcases mem_cons.mp h with rfl | h
    · exact ⟨index, frag, mem_cons_self, rfl⟩
    · obtain ⟨i, other, hother, hframe⟩ := ih h
      exact ⟨i, other, mem_cons_of_mem _ hother, hframe⟩

theorem headerBytes_fragmentFrame_le :
    (self.fragmentFrame sha wire index frag).headerBytes.length ≤ wire.headerBytes.length := by
  show (if index = 0 then wire.headerBytes else []).length ≤ _
  split
  · exact le_rfl
  · exact Nat.zero_le _

theorem readable_wireFrames (h : self.Framed wire) : ∀ frame ∈ self.wireFrames sha wire, frame.Readable := by
  intro frame hmem
  rcases mem_append.mp hmem with hfragment | hmarker
  · obtain ⟨index, frag, hin, rfl⟩ := mem_fragmentFramesFrom hfragment
    exact ⟨.inl rfl, h.identity, lt_of_le_of_lt headerBytes_fragmentFrame_le h.headerBytes,
      h.fragments frag hin⟩
  · rw [mem_singleton.mp hmarker]
    exact ⟨.inr rfl, h.identity, (by decide : 0 < UInt32.size), h.markerBytes⟩

end EnvelopeContent

variable {fragmentCount : ℕ} {env : CanonicalEnvelope}

theorem verifyMarkerFrame_ok {root : CanonicalDigest} {marker : DecodedFrame}
    {terminalMarker : CanonicalTerminalMarker} {final : CanonicalDigest} :
    verifyMarkerFrame sha header headerBytes root first fragmentCount marker = .ok (terminalMarker, final) ↔
      marker = first.sibling frameMarker (UInt32.ofNat fragmentCount) 0 final [] terminalMarker.image ∧
        terminalMarker.validateForHeader header = .ok () ∧ terminalMarker.LengthFits ∧
        final = digestParts sha (markerDomain terminalMarker)
          [headerBytes, root.toList, terminalMarker.image] := by
  simp only [verifyMarkerFrame, bind_ok, refuse_eq_ok, decodeCanonicalTerminalMarker_ok,
    markerDigest_ok, not_or, not_not, exists_const, and_assoc, existsAndEq, true_and, pure, Except.pure,
    Except.ok.injEq, Prod.mk.injEq]
  constructor
  · rintro ⟨_, hcommon, htype, hindex, hkind, hheader, _, -, hfits, hbody, hvalid, -, -, -, hleaf, rfl⟩
    rw [verifyCommonFrame_ok, htype, hindex, hkind, hleaf, hheader, hbody] at hcommon
    rw [hbody]
    exact ⟨hcommon, hvalid, hfits, rfl⟩
  · rintro ⟨rfl, hvalid, hfits, rfl⟩
    have hmarker := EnvelopeContent.validate_of_validateForHeader hvalid
    exact ⟨(), verifyCommonFrame_ok.mpr rfl, rfl, rfl, rfl, rfl, (), hmarker, hfits, rfl, hvalid, hmarker,
      hfits, rfl, rfl, rfl⟩

theorem verifyFirstFrame_ok {frameCount : ℕ} :
    verifyFirstFrame sha first frameCount fragmentCount = .ok (header, headerBytes) ↔
      fragmentCount ≠ 0 ∧ frameCount = fragmentCount + 1 ∧ first.frameType = frameFragment ∧
        first.frameIndex = 0 ∧ decode first.headerBytes = .ok header ∧
        first.physical.validate frameCount = .ok () ∧ first.physical.logEpoch = header.leaderEpoch ∧
        header.written = headerBytes ∧ headerDigestOf sha headerBytes = first.headerDigest := by
  simp only [verifyFirstFrame, bind_ok, refuse_eq_ok, encode_ok, not_or,
    not_not, exists_const, and_assoc, existsAndEq, true_and, pure, Except.pure,
    Except.ok.injEq, Prod.mk.injEq]
  constructor
  · rintro ⟨hcount, hframes, htype, hindex, -, _, hdecode, hphysical, hepoch, -, hdigest, rfl⟩
    exact ⟨hcount, hframes, htype, hindex, hdecode, hphysical, hepoch, rfl, hdigest⟩
  · rintro ⟨hcount, hframes, htype, hindex, hdecode, hphysical, hepoch, rfl, hdigest⟩
    obtain ⟨hvalid, minReader, maxReader, -, -, hbytes⟩ := decode_ok.mp hdecode
    have hne : first.headerBytes ≠ [] := by
      rw [hbytes]
      exact ne_nil_of_length_pos (by rw [length_image]; decide)
    exact ⟨hcount, hframes, htype, hindex, hne, (), hdecode, hphysical, hepoch, hvalid, hdigest, rfl⟩

/-- Decoded frames make an envelope exactly when they are frame zero's siblings, in order, closed by a
marker frame. -/
theorem verifyFrames_ok {rest : List DecodedFrame} :
    verifyFrames sha (first :: rest) = .ok env ↔ ∃ fragments terminalMarker final header,
        first.fragmentCount.toNat = fragments.length ∧
        verifyFirstFrame sha first (rest.length + 1) fragments.length = .ok (header, header.written) ∧
        first :: rest = siblingsFrom sha first.headerDigest first 0 fragments ++
          [first.sibling frameMarker (UInt32.ofNat fragments.length) 0 final [] terminalMarker.image] ∧
        first.root = fragmentRoot sha first.headerDigest fragments ∧
        terminalMarker.validateForHeader header = .ok () ∧ terminalMarker.LengthFits ∧
        final = digestParts sha (markerDomain terminalMarker)
          [header.written, first.root.toList, terminalMarker.image] ∧
        env = ⟨first.physical, header, fragments, terminalMarker, terminalMarker.outcome, first.root, final⟩ := by
  have hzero : ∀ n, 0 = 0 → ∀ frame ∈ ((first :: rest).take n).head?,
    frame.headerBytes = first.headerBytes := by
    intro n _ frame hframe
    cases n with
    | zero => cases hframe
    | succ n =>
      cases hframe
      rfl
  simp only [verifyFrames, bind_ok, Prod.exists, verifyFragmentFrames_ok (hzero _), refuse_eq_ok,
    not_not, exists_const, length_cons]
  constructor
  · rintro ⟨header, headerBytes, hfirst, fragments, material, ⟨htake, rfl⟩, hroot, hmarker⟩
    obtain ⟨-, hframes, -, -, -, -, -, rfl, hdigest⟩ := verifyFirstFrame_ok.mp hfirst
    have hn : first.fragmentCount.toNat = fragments.length := by
      have hlen := congrArg List.length htake
      rw [length_siblingsFrom, length_take, length_cons] at hlen
      omega
    rw [hn] at hfirst htake hroot hmarker
    rw [hroot] at hmarker
    rw [hdigest] at htake hroot
    split at hmarker
    case h_1 => cases hmarker
    case h_2 marker tail hdrop =>
      simp only [bind_ok, Prod.exists] at hmarker
      obtain ⟨terminalMarker, final, hverify, henv⟩ := hmarker
      obtain ⟨rfl, hvalid, hfits, hfinal⟩ := verifyMarkerFrame_ok.mp hverify
      obtain rfl : tail = [] := by
        have hlen := congrArg List.length hdrop
        rw [length_drop, length_cons, length_cons] at hlen
        exact length_eq_zero_iff.mp (by omega)
      refine ⟨fragments, terminalMarker, final, header, hn, hfirst, ?_, hroot.symm, hvalid, hfits, hfinal,
        (Except.ok.inj henv).symm⟩
      rw [← htake, ← hdrop, take_append_drop]
  · rintro ⟨fragments, terminalMarker, final, header, hn, hfirst, hlist, hroot, hvalid, hfits, hfinal, rfl⟩
    obtain ⟨-, -, -, -, -, -, -, -, hdigest⟩ := verifyFirstFrame_ok.mp hfirst
    have hlen : (siblingsFrom sha first.headerDigest first 0 fragments).length = fragments.length :=
      length_siblingsFrom
    have hexpected : digestParts sha fragmentRootDomain [u32ToLe (UInt32.ofNat fragments.length) ++
        rootMaterial 0 (leavesFrom sha (headerDigestOf sha header.written) 0 fragments)] =
          first.root := by
      rw [hroot, hdigest]
      rfl
    rw [hn]
    refine ⟨header, header.written, hfirst, fragments, _, ⟨?_, rfl⟩, hexpected, ?_⟩
    · rw [hlist, hdigest]
      exact take_left' hlen
    · have hdrop : (first :: rest).drop fragments.length =
          [first.sibling frameMarker (UInt32.ofNat fragments.length) 0 final [] terminalMarker.image] := by
        rw [hlist]
        exact drop_left' hlen
      rw [hdrop, hexpected]
      simp only [bind_ok, Prod.exists]
      exact ⟨terminalMarker, final, verifyMarkerFrame_ok.mpr ⟨rfl, hvalid, hfits, hfinal⟩, rfl⟩

namespace EnvelopeContent

/-- The frames of a decodable content pass every check. -/
theorem verifyFrames_wireFrames (h : self.Decodable wire) :
    verifyFrames sha (self.wireFrames sha wire) = .ok (self.envelope sha) := by
  obtain ⟨frag, fragments, hfragments⟩ := exists_cons_of_ne_nil h.nonempty
  have hsize : self.fragments.length < UInt32.size := lt_of_le_of_lt h.count (by decide)
  have hcons : self.wireFrames sha wire = self.fragmentFrame sha wire 0 frag ::
      (self.fragmentFramesFrom sha wire 1 fragments ++ [self.markerFrame sha wire]) := by
    rw [wireFrames, hfragments]
    rfl
  have hrest : (self.fragmentFramesFrom sha wire 1 fragments ++ [self.markerFrame sha wire]).length + 1 =
      self.fragments.length + 1 := by
    rw [length_append, length_fragmentFramesFrom, hfragments, length_singleton, length_cons]
  rw [hcons, verifyFrames_ok]
  refine ⟨self.fragments, self.marker, self.final sha, self.header, toNat_ofNat_of_lt hsize, ?_, ?_, rfl,
    h.marker, h.lengthFits, rfl, rfl⟩
  · rw [hrest, verifyFirstFrame_ok]
    exact ⟨by rw [hfragments]; exact Nat.succ_ne_zero _, rfl, rfl, rfl, h.headerBytes, h.physical, h.epoch,
      rfl, rfl⟩
  · rw [← hcons, wireFrames]
    exact congrArg (· ++ [self.markerFrame sha wire]) (fragmentFramesFrom_eq)

/-- Exactly the frames of decodable contents are accepted. -/
theorem decode_ok : decodeCanonicalEnvelopeWithTerminalMarker sha frames = .ok env ↔
      ∃ content wire, Decodable content wire ∧
        frames = (content.wireFrames sha wire).map (DecodedFrame.image sha) ∧
        env = content.envelope sha := by
  rw [decodeCanonicalEnvelopeWithTerminalMarker, except_seq_ok, refuse_eq_ok, bind_ok, not_or]
  constructor
  · rintro ⟨⟨-, hmax⟩, decoded, hdecoded, hverify⟩
    obtain ⟨hreadable, rfl⟩ := mapM_decodeFrame_ok.mp hdecoded
    rw [length_map] at hmax
    cases decoded with
    | nil => cases hverify
    | cons first rest =>
      obtain ⟨fragments, marker, final, header, hn, hfirst, hlist, hroot, hvalid, hfits, hfinal, rfl⟩ :=
        verifyFrames_ok.mp hverify
      obtain ⟨hne, hlen, -, -, hheader, hphysical, hepoch, -, hdigest⟩ := verifyFirstFrame_ok.mp hfirst
      have hmember : ∀ frame ∈ siblingsFrom sha first.headerDigest first 0 fragments ++
          [first.sibling frameMarker (UInt32.ofNat fragments.length) 0 final [] marker.image],
          frame.Readable := hlist ▸ hreadable
      let content : EnvelopeContent := ⟨first.physical, header, fragments, marker⟩
      let wire : EnvelopeWire := ⟨first.identity, first.stableTransactionId, first.commitSeq, first.headerBytes⟩
      have hcontentDigest : content.headerDigest sha = first.headerDigest := hdigest
      have hcontentRoot : content.root sha = first.root := by
        rw [root, hcontentDigest, hroot]
      have hcontentFinal : content.final sha = final := by
        rw [EnvelopeContent.final, hcontentRoot, hfinal]
      have hcount : UInt32.ofNat content.fragments.length = first.fragmentCount := by
        rw [← hn, UInt32.ofNat_toNat]
      have hfirstFrame : content.frame sha wire first.frameType first.frameIndex first.kind
          first.leafOrFinal wire.headerBytes first.body = first := by
        rw [frame, hcontentDigest, hcontentRoot, hcount]
      have hmarkerFrame : content.markerFrame sha wire =
          first.sibling frameMarker (UInt32.ofNat fragments.length) 0 final [] marker.image := by
        rw [markerFrame, frame, hcontentDigest, hcontentRoot, hcontentFinal, hcount]
        rfl
      have hframes : content.wireFrames sha wire = first :: rest := by
        rw [wireFrames, fragmentFramesFrom_eq, hfirstFrame, hcontentDigest, hmarkerFrame, hlist]
      refine ⟨content, wire, ?_, by rw [hframes], ?_⟩
      · refine ⟨fun h => hne (length_eq_zero_iff.mpr h), ?_, hheader,
          (hreadable first mem_cons_self).identity, hlen ▸ hphysical, hepoch, ?_, hvalid, hfits, ?_⟩
        · rw [length_cons] at hmax
          show fragments.length ≤ UInt32.size - 2
          omega
        · intro frag hfragment
          obtain ⟨frame, hframe, hbody⟩ := exists_sibling hfragment
          exact hbody ▸ (hmember frame (mem_append_left _ hframe)).body
        · exact (hmember _ (mem_append_right _ (mem_singleton_self _))).body
      · rw [envelope, hcontentRoot, hcontentFinal]
  · rintro ⟨content, wire, h, rfl, rfl⟩
    have hlen := content.length_wireFrames sha wire
    have hpos := length_pos_iff.mpr h.nonempty
    have hcount := h.count
    refine ⟨?_, content.wireFrames sha wire, mapM_decodeFrame_ok.mpr ⟨readable_wireFrames h.framed, rfl⟩,
      verifyFrames_wireFrames h⟩
    rw [length_map, hlen]
    omega

end EnvelopeContent

end ThunderboltDb.Wal.Canonical
