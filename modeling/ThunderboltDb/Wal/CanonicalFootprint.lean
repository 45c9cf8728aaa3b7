import ThunderboltDb.Wal.CanonicalRoundTrip
import ThunderboltDb.Wal.Record

/-!
# The canonical footprint is exact

The footprint adds up what the encoder will write, before it writes anything. `checkedFootprint` has the
overflow checks of the source, none of which can fail; the sums are the lengths of the frames, of the packed
payload and of the serialized record; and a footprint exists exactly when neither the encoder nor the frame
reader objects to a size.
-/

namespace ThunderboltDb.Wal.Canonical

open Lib List EnvelopeContent

variable {lens : List ℕ} {markerBytes : ℕ}

/-! ### Overflow -/

/-- `u64::checked_add` -/
def checkedAdd (a b : ℕ) (message : String) : Except EngineError ℕ := do
  refuse (2 ^ 64 ≤ a + b) (durability message)
  return a + b

/-- The fragment loop with its overflow checks. -/
def checkedFootprintLoop : ℕ → ℕ → ℕ → List ℕ → Except EngineError (ℕ × ℕ)
  | _, bodyBytes, frameBytes, [] => .ok (bodyBytes, frameBytes)
  | index, bodyBytes, frameBytes, body :: bodies => do
    refuse (body > maxFragmentBytes) (durability s!"fragment {index} exceeds byte bound")
    let bodyBytes ← checkedAdd bodyBytes body "fragment body byte sum overflows"
    let header := if index = 0 then preapplyHeaderBytes else 0
    let frame ← checkedAdd frameFixedBytes header "fragment frame byte length overflows"
    let frame ← checkedAdd frame body "fragment frame byte length overflows"
    let frame ← checkedAdd frame frameDigestBytes "fragment frame byte length overflows"
    let frameBytes ← checkedAdd frameBytes frame "fragment frame byte sum overflows"
    checkedFootprintLoop (index + 1) bodyBytes frameBytes bodies

/-- `canonical_wal_footprint_by_index_with_marker` with its overflow checks. -/
def checkedFootprint (bodyLens : List ℕ) (terminalMarkerBytes : ℕ) :
    Except EngineError CanonicalWalFootprint := do
  let fragmentCount ← u32TryFrom bodyLens.length (durability "fragment count exceeds u32 framing")
  refuse (fragmentCount = 0 ∨ fragmentCount.toNat = UInt32.size - 1)
    (durability "fragment count must be in 1..u32::MAX")
  let (fragmentBodyBytes, fragmentFrameBytes) ← checkedFootprintLoop 0 0 0 bodyLens
  let preapplyBytes ← checkedAdd preapplyHeaderBytes fragmentBodyBytes
    "pre-apply envelope byte length overflows"
  refuse (preapplyBytes > maxEnvelopeBytes) (durability "envelope exceeds byte bound")
  let markerFrameBytes ← checkedAdd frameFixedBytes terminalMarkerBytes "marker frame byte length overflows"
  let markerFrameBytes ← checkedAdd markerFrameBytes frameDigestBytes "marker frame byte length overflows"
  refuse (markerFrameBytes > maxEnvelopeBytes) (durability "terminal marker frame exceeds byte bound")
  refuse (2 ^ 64 ≤ packedFrameLengthBytes * bodyLens.length)
    (durability "fragment packed length count overflows")
  let fragmentPackedBytes ← checkedAdd fragmentFrameBytes (packedFrameLengthBytes * bodyLens.length)
    "fragment packed byte sum overflows"
  let markerPackedBytes ← checkedAdd packedFrameLengthBytes markerFrameBytes
    "marker packed byte length overflows"
  let packedRecordBytes ← checkedAdd packedRecordPrefixBytes fragmentPackedBytes
    "canonical record byte length overflow"
  let packedRecordBytes ← checkedAdd packedRecordBytes markerPackedBytes
    "canonical record byte length overflow"
  refuse (packedRecordBytes > maxEnvelopeBytes + 1024 * 1024)
    (durability "canonical record exceeds byte bound")
  let serializedRecordBytes ← checkedAdd packedRecordBytes 24 "serialized record byte length overflow"
  return {
    fragmentCount := bodyLens.length
    frameCount := bodyLens.length + 1
    fragmentBodyBytes, preapplyBytes, fragmentFrameBytes, markerFrameBytes
    fragmentPackedBytes, markerPackedBytes, packedRecordBytes, serializedRecordBytes }

theorem checkedAdd_eq {a b : ℕ} (h : a + b < 2 ^ 64) (message : String) : checkedAdd a b message = .ok (a + b) := by
  rw [checkedAdd, except_seq_ok, refuse_eq_ok]
  exact ⟨h.not_ge, rfl⟩

theorem bind_congr_of_ok {ε α β : Type} {x : Except ε α} {f g : α → Except ε β}
    (h : ∀ a, x = .ok a → f a = g a) : (x >>= f) = x >>= g := by
  cases x with
  | error e => rfl
  | ok a => exact h a rfl

/-- A fragment and its frame are below 32 MiB, so the sums of 2³² of them are far from 2⁶⁴. -/
theorem checkedFootprintLoop_eq {index bodyBytes frameBytes : ℕ}
    (hbody : bodyBytes + lens.length * 2 ^ 25 < 2 ^ 63) (hframe : frameBytes + lens.length * 2 ^ 25 < 2 ^ 63) :
    checkedFootprintLoop index bodyBytes frameBytes lens = footprintLoop index bodyBytes frameBytes lens := by
  induction lens generalizing index bodyBytes frameBytes with
  | nil => rfl
  | cons body lens ih =>
    rw [length_cons] at hbody hframe
    rw [checkedFootprintLoop, footprintLoop]
    refine bind_congr_of_ok fun _ hle => ?_
    rw [refuse_eq_ok, maxFragmentBytes, not_lt] at hle
    have hheader : (if index = 0 then preapplyHeaderBytes else 0) ≤ 240 := by split <;> decide
    dsimp only
    generalize (if index = 0 then preapplyHeaderBytes else 0) = header at hheader ⊢
    have hfixed : frameFixedBytes + frameDigestBytes = 276 := rfl
    rw [checkedAdd_eq (by omega), except_ok_bind, checkedAdd_eq (by omega), except_ok_bind,
      checkedAdd_eq (by omega), except_ok_bind, checkedAdd_eq (by omega), except_ok_bind,
      checkedAdd_eq (by omega), except_ok_bind]
    exact ih (by omega) (by omega)

theorem checkedFootprint_eq (h : markerBytes < 2 ^ 62) :
    checkedFootprint lens markerBytes = canonicalWalFootprintByIndexWithMarker lens markerBytes := by
  rw [checkedFootprint, canonicalWalFootprintByIndexWithMarker]
  refine bind_congr_of_ok fun count hcount => bind_congr_of_ok fun _ _ => ?_
  have hlen : lens.length < 2 ^ 32 := u32TryFrom_ok.mp hcount ▸ count.toNat_lt
  rw [checkedFootprintLoop_eq (by omega) (by omega)]
  refine bind_congr_of_ok fun sums hsums => ?_
  obtain ⟨hlens, rfl⟩ := footprintLoop_ok.mp hsums
  have hsum : lens.sum ≤ lens.length * 2 ^ 24 := sum_le_card_nsmul lens _ hlens
  have hheader : (if 0 = 0 ∧ lens ≠ [] then preapplyHeaderBytes else 0) ≤ 240 := by split <;> decide
  have hfixed : frameFixedBytes + frameDigestBytes = 276 := rfl
  have hlength : packedFrameLengthBytes = 4 := rfl
  have hprefix : packedRecordPrefixBytes = 20 := rfl
  have hpreapply : preapplyHeaderBytes = 240 := rfl
  dsimp only
  rw [hfixed, hlength]
  generalize (if 0 = 0 ∧ lens ≠ [] then preapplyHeaderBytes else 0) = header at hheader ⊢
  rw [checkedAdd_eq (by omega), except_ok_bind]
  refine bind_congr_of_ok fun _ _ => ?_
  rw [checkedAdd_eq (by omega), except_ok_bind, checkedAdd_eq (by omega), except_ok_bind]
  refine bind_congr_of_ok fun _ _ => ?_
  rw [show refuse (2 ^ 64 ≤ 4 * lens.length) _ = .ok () from refuse_eq_ok.mpr (by omega), except_ok_bind,
    checkedAdd_eq (by omega), except_ok_bind,
    checkedAdd_eq (by omega), except_ok_bind, checkedAdd_eq (by omega), except_ok_bind,
    checkedAdd_eq (by omega), except_ok_bind]
  refine bind_congr_of_ok fun _ _ => ?_
  rw [checkedAdd_eq (by omega), except_ok_bind]

/-! ### Sizes -/

/-- What the encoder checks beside the sizes. -/
structure EnvelopeContent.Valid (content : EnvelopeContent) : Prop where
  marker : content.marker.validateForHeader content.header = .ok ()
  operations : content.header.operationCount.toNat = content.fragments.length
  physical : content.physical.validate (content.fragments.length + 1) = .ok ()
  header : content.header.validate = .ok ()

variable {marker : CanonicalTerminalMarker}

theorem lengthFits_of_measure (h : marker.measure.markerBytes < UInt32.size) : marker.LengthFits := by
  cases marker with
  | legacy outcome => trivial
  | generationV1 outcome descriptor => exact lt_of_le_of_lt (Nat.le_add_left _ _) h

theorem measure_lt (h : marker.LengthFits) : marker.measure.markerBytes < 2 ^ 62 := by
  cases marker with
  | legacy outcome => exact (by decide : canonicalOutcomeBytes < 2 ^ 62)
  | generationV1 outcome descriptor =>
    have hlt : descriptor.size < 2 ^ 32 := h
    show 92 + 24 + descriptor.size < 2 ^ 62
    omega

/-- The encoder and the footprint agree on the sizes. -/
theorem accepted_iff_footprint {self : EnvelopeContent} (h : self.Valid) :
    self.Accepted ↔ ∃ sizes, canonicalWalFootprintByIndexWithMarker (self.fragments.map (·.body.length))
      self.marker.measure.markerBytes = .ok sizes := by
  simp only [footprint_ok, exists_and_left, exists_eq', and_true, ← self.marker.length_image,
    self.packedRecordBytes_footprintOf, length_map, forall_mem_map, ne_eq, map_eq_nil_iff]
  constructor
  · intro hacc
    exact ⟨hacc.nonempty, hacc.count, hacc.fragments, hacc.envelope,
      hacc.markerFrame, hacc.packed⟩
  · rintro ⟨hne, hcount, hfragments, henvelope, hframe, hpacked⟩
    refine ⟨hne, hcount, h.marker, h.operations, lengthFits_of_measure ?_, hfragments, henvelope, hframe,
      hpacked, h.physical, h.header⟩
    rw [← self.marker.length_image]
    exact lt_of_le_of_lt (by omega) (show maxEnvelopeBytes < UInt32.size by decide)

/-- The footprint of a content is made of the lengths of its frames and its record, in `u64` sums that do not
overflow; and it exists exactly when the encoder, the packer and the frame reader accept the sizes. -/
theorem canonical_footprint_exact (sha : Sha256) (self : EnvelopeContent) (txnId : TxnId) :
    let footprint := canonicalWalFootprintByIndexWithMarker (self.fragments.map (·.body.length))
      self.marker.measure.markerBytes
    let encode := encodeCanonicalEnvelopeWithTerminalMarker sha self.physical self.header self.fragments
      self.marker
    (∀ sizes encoded, footprint = .ok sizes → encode = .ok encoded →
      sizes.preapplyBytes = self.header.written.length + self.bodyBytes ∧
      sizes.fragmentFrameBytes + sizes.markerFrameBytes = (encoded.frames.map length).sum ∧
      ∃ record : WalRecord, record.txnId = txnId ∧ packCanonicalRecordPayload encoded = .ok record.payload ∧
        sizes.packedRecordBytes = record.payload.length ∧
        sizes.serializedRecordBytes = (encodedRecord record).length) ∧
    (self.Valid → ((∃ sizes, footprint = .ok sizes) ↔ ∃ encoded payload, encode = .ok encoded ∧
      packCanonicalRecordPayload encoded = .ok payload ∧
      packedFramesReader.on (payload.drop recordMagic.length) = .ok encoded.frames)) ∧
    (self.marker.LengthFits → checkedFootprint (self.fragments.map (·.body.length))
      self.marker.measure.markerBytes = footprint) := by
  refine ⟨fun sizes encoded hsizes hencode => ?_, fun hvalid => ?_,
    fun hfits => checkedFootprint_eq (measure_lt hfits)⟩
  · obtain ⟨h, rfl⟩ := encode_ok.mp hencode
    obtain ⟨-, -, -, -, -, -, rfl⟩ := footprint_ok.mp hsizes
    have hlen := h.length_record sha
    have hpacked := h.packed
    have htotal : packedTotal (self.encoded sha).frames = self.packedBytes :=
      packedTotal_wireFrames h.nonempty (self.header.length_image _ _)
    rw [packedTotal, sum_map_add, map_const', sum_replicate, self.length_encoded_frames, packedBytes,
      bodyBytes] at htotal
    have hsize : (footprintOf (self.fragments.map (·.body.length))
        self.marker.measure.markerBytes).packedRecordBytes = (self.record sha).length := by
      rw [hlen, ← self.marker.length_image, self.packedRecordBytes_footprintOf]
    refine ⟨congrArg (· + _) (self.header.length_image _ _).symm, ?_, ⟨txnId, self.record sha, ?_⟩, rfl,
      h.pack, hsize, ?_⟩
    · simp only [footprintOf, length_map, ← self.marker.length_image]
      simp only [smul_eq_mul, packedFrameLengthBytes, packedRecordPrefixBytes, preapplyHeaderBytes,
        frameFixedBytes, frameDigestBytes] at htotal ⊢
      omega
    · rw [hlen]
      exact lt_of_le_of_lt hpacked (by decide)
    · rw [length_encodedRecord]
      exact (congrArg (· + 24) hsize).trans (Nat.add_comm _ _)
  · rw [← accepted_iff_footprint hvalid]
    constructor
    · intro h
      have hcount := self.length_encoded_frames sha
      have hpos := length_pos_of_ne_nil h.nonempty
      exact ⟨_, _, h.encode sha, h.pack, packedFramesReader_ok.mpr ⟨drop_left' rfl, by omega,
        hcount ▸ h.count_lt, h.frame_le (self.header.length_image _ _)⟩⟩
    · rintro ⟨encoded, -, hencode, -⟩
      exact (encode_ok.mp hencode).1

end ThunderboltDb.Wal.Canonical
