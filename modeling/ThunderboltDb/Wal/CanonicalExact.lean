import ThunderboltDb.Wal.CanonicalRoundTrip
import ThunderboltDb.Wal.Record

/-!
# The exact-buffer encoder

`encode_canonical_record_exact_from_source` writes a packed record and the log record around it into two
buffers of the caller. It measures first, hashes fragments as a stream, keeps up to five leaf digests and
recomputes the leaves of longer lists. After the measurement it has no failure path: the source's
`expect`s and slice bounds are modelled as panics, and none of them is reached.

* `exact_encoder_eq_allocating_encoder` — it accepts what the allocating encoder and packer accept, with
  the same payload, root and final digest, and its second buffer is the log record of that payload.
-/

namespace ThunderboltDb.Wal.Canonical

open Lib BufferWriter EnvelopeContent
open List hiding getElem?_eq_some_iff

variable {headerDigest : CanonicalDigest} {cachedLeaves : Option (List CanonicalDigest)}
    {serializedRecord : Bytes}

/-! ### Model -/

def inlineFragmentLeaves : ℕ := 5

/-- `CanonicalFragmentSource`: what the encoder needs of a fragment. -/
class CanonicalFragmentSource (F : Type) where
  kind : F → CanonicalFragmentKind
  body : F → Bytes

export CanonicalFragmentSource (kind body)

instance : CanonicalFragmentSource CanonicalFragment where
  kind frag := frag.kind
  body frag := frag.body

/-- The owned fragment with the kind and body of a source. -/
def ownedFragment {F : Type} [CanonicalFragmentSource F] (frag : F) : CanonicalFragment where
  kind := kind frag
  body := body frag

/-- How the exact encoder can fail: by an error before any output, or by a panic. -/
inductive ExactFailure where
  | refused (error : EngineError)
  | panicked (message : String)
  deriving DecidableEq

/-- `result.expect(message)`. -/
def expect {α : Type} (result : Except EngineError α) (message : String) : Except ExactFailure α :=
  match result with
  | .ok a => .ok a
  | .error _ => .error (.panicked message)

/-- `result?`. -/
def orRefuse {α : Type} (result : Except EngineError α) : Except ExactFailure α :=
  match result with
  | .ok a => .ok a
  | .error e => .error (.refused e)

/-- `u32::try_from(n).expect(…)`. -/
def expectU32 (n : ℕ) (message : String) : Except ExactFailure UInt32 :=
  if n < UInt32.size then .ok (UInt32.ofNat n) else .error (.panicked message)

structure ExactCanonicalRecordEncoding where
  footprint : CanonicalWalFootprint
  orderedFragmentRoot : CanonicalDigest
  finalDigest : CanonicalDigest
  deriving DecidableEq

def measureExactWithLengths (physical : CanonicalPhysicalRange) (header : CanonicalPreApplyHeader)
    (bodyLens : List ℕ) (outcome : CanonicalOutcome) : Except EngineError CanonicalWalFootprint := do
  refuse (header.operationCount.toNat ≠ bodyLens.length)
    (durability (s!"header operation count {header.operationCount} does not match " ++
      s!"{bodyLens.length} fragments"))
  let footprint ← canonicalWalFootprintByIndex bodyLens
  physical.validate footprint.frameCount
  header.validate
  outcome.validate
  return footprint

def requireExactBuffer (actual expected : ℕ) (label : String) : Except EngineError Unit :=
  refuse (actual ≠ expected)
    (durability (label ++ s!" buffer must be exactly {expected} bytes, got {actual}"))

/-- `begin_digest`: a hash that has read the domain and, when it is not zero, the length of the first
part. A running hash is the bytes it has read. -/
def beginDigest (domain : Bytes) (firstPartLen : ℕ) : Bytes :=
  u64ToLe (UInt64.ofNat domain.length) ++ domain ++
    if firstPartLen ≠ 0 then u64ToLe (UInt64.ofNat firstPartLen) else []

def appendPart (hash part : Bytes) : Bytes :=
  hash ++ u64ToLe (UInt64.ofNat part.length) ++ part

section Encoder

variable (sha : Sha256) {F : Type} [CanonicalFragmentSource F] (headerDigest : CanonicalDigest)

def fragmentLeaf (index : ℕ) (frag : F) :
    Except ExactFailure CanonicalDigest := do
  let canonicalLen := (body frag).length + 2
  let hash := beginDigest fragmentLeafDomain 0
  let hash := appendPart hash headerDigest.toList
  let position ← expectU32 index "validated canonical frame count fits u32"
  let hash := appendPart hash (u32ToLe position)
  let hash := appendPart hash (u64ToLe (UInt64.ofNat canonicalLen))
  let hash := hash ++ u64ToLe (UInt64.ofNat canonicalLen)
  let hash := hash ++ u16ToLe (kind frag).code
  return sha (hash ++ body frag)

/-- What one fragment adds to the root hash. -/
def appendRootEntry (hash : Bytes) (index : ℕ) (frag : F) (leaf : CanonicalDigest) :
    Except ExactFailure Bytes := do
  let canonicalLen := (body frag).length + 2
  let position ← expectU32 index "validated canonical frame count fits u32"
  return hash ++ u32ToLe position ++ u64ToLe (UInt64.ofNat canonicalLen) ++ leaf.toList

/-- The loop of `ordered_fragment_root`, which computes each leaf again. -/
def rootLoop (headerDigest : CanonicalDigest) : Bytes → ℕ → List F → Except ExactFailure Bytes
  | hash, _, [] => .ok hash
  | hash, index, frag :: fragments => do
    let leaf ← fragmentLeaf sha headerDigest index frag
    let hash ← appendRootEntry hash index frag leaf
    rootLoop headerDigest hash (index + 1) fragments

variable (fragments : List F)

def orderedFragmentRoot : Except ExactFailure CanonicalDigest := do
  let rootMaterialLen := fragments.length * 44 + 4
  let hash := beginDigest fragmentRootDomain rootMaterialLen
  let count ← expectU32 fragments.length "validated canonical frame count fits u32"
  let hash ← rootLoop sha headerDigest (hash ++ u32ToLe count) 0 fragments
  return sha hash

/-- The loop of `ordered_fragment_root_from_leaves` over the fragments with their kept leaves. -/
def rootLoopFromLeaves : Bytes → ℕ → List (F × CanonicalDigest) → Except ExactFailure Bytes
  | hash, _, [] => .ok hash
  | hash, index, (frag, leaf) :: fragments => do
    let hash ← appendRootEntry hash index frag leaf
    rootLoopFromLeaves hash (index + 1) fragments

def orderedFragmentRootFromLeaves (leaves : List CanonicalDigest) : Except ExactFailure CanonicalDigest := do
  let rootMaterialLen := leaves.length * 44 + 4
  let hash := beginDigest fragmentRootDomain rootMaterialLen
  let count ← expectU32 leaves.length "validated canonical frame count fits u32"
  let hash ← rootLoopFromLeaves (hash ++ u32ToLe count) 0 (fragments.zip leaves)
  return sha hash

/-- The loop that fills the kept leaves. -/
def inlineLeaves (headerDigest : CanonicalDigest) : ℕ → List F → Except ExactFailure (List CanonicalDigest)
  | _, [] => .ok []
  | index, frag :: fragments => do
    let leaf ← fragmentLeaf sha headerDigest index frag
    let leaves ← inlineLeaves headerDigest (index + 1) fragments
    return leaf :: leaves

/-- The kept leaves, for lists that are short enough. -/
def cachedLeavesOf : Except ExactFailure (Option (List CanonicalDigest)) := do
  if fragments.length ≤ inlineFragmentLeaves then
    let leaves ← inlineLeaves sha headerDigest 0 fragments
    return some leaves
  else return none

section

variable (cachedLeaves : Option (List CanonicalDigest))

def rootOf : Except ExactFailure CanonicalDigest :=
  match cachedLeaves with
  | some leaves => orderedFragmentRootFromLeaves sha fragments leaves
  | none => orderedFragmentRoot sha headerDigest fragments

/-- A write of the packed payload at its running offset; a slice past the end panics. -/
def putPacked (value : Bytes) : BufferWriter ExactFailure Unit :=
  put (.panicked "range end index out of range for slice") value

/-- `put_u32_slice` of a frame length, then `encode_frame_into` on the slice behind it. -/
def writePackedFrame (frameType : UInt8) (physical : CanonicalPhysicalRange)
    (header : CanonicalPreApplyHeader) (frameIndex fragmentCount : UInt32) (kind : UInt16)
    (headerBytes body : Bytes) (headerDigest root leafOrFinal : CanonicalDigest)
    (lengthMessage encodeMessage : String) : BufferWriter ExactFailure Unit := do
  let frameLen := canonicalFrameEncodedLen headerBytes.length body.length
  let packedLen ← expectU32 frameLen lengthMessage
  putPacked (u32ToLe packedLen)
  window (.panicked "range end index out of range for slice") frameLen fun frame =>
    expect (encodeFrameInto sha frame frameType physical header frameIndex fragmentCount kind headerBytes
      body headerDigest root leafOrFinal) encodeMessage

/-- The leaf of a fragment frame: the kept one, or the leaf computed again. -/
def leafFor (index : ℕ) (frag : F) : Except ExactFailure CanonicalDigest :=
  match cachedLeaves with
  | none => fragmentLeaf sha headerDigest index frag
  | some leaves =>
    match leaves[index]? with
    | some leaf => .ok leaf
    | none => .error (.panicked "index out of bounds")

end

/-- The fragment loop of `write_packed_payload`. -/
def writeFragmentFrames (physical : CanonicalPhysicalRange) (header : CanonicalPreApplyHeader)
    (fragmentCount : ℕ) (headerBytes : Bytes) (headerDigest root : CanonicalDigest)
    (cachedLeaves : Option (List CanonicalDigest)) : ℕ → List F → BufferWriter ExactFailure Unit
  | _, [] => pure ()
  | index, frag :: fragments => do
    let frameIndex ← expectU32 index "validated canonical frame count fits u32"
    let count ← expectU32 fragmentCount "validated canonical frame count fits u32"
    let leaf ← leafFor sha headerDigest cachedLeaves index frag
    writePackedFrame sha frameFragment physical header frameIndex count (kind frag).code
      (if index = 0 then headerBytes else []) (body frag) headerDigest root leaf
      "validated exact frame length fits u32" "validated exact fragment frame encodes"
    writeFragmentFrames physical header fragmentCount headerBytes headerDigest root cachedLeaves (index + 1)
      fragments

def writePackedPayload (packedPayload : Bytes) (physical : CanonicalPhysicalRange)
    (header : CanonicalPreApplyHeader) (fragments : List F) (headerBytes outcomeBytes : Bytes)
    (headerDigest root finalDigest : CanonicalDigest) (cachedLeaves : Option (List CanonicalDigest)) :
    Except ExactFailure Bytes :=
  fill
    (.panicked "measured packed geometry must consume its exact caller buffer") packedPayload do
    putPacked recordMagic
    let frameCount ← expectU32 (fragments.length + 1) "validated canonical frame count fits u32"
    putPacked (u32ToLe frameCount)
    writeFragmentFrames sha physical header fragments.length headerBytes headerDigest root cachedLeaves 0
      fragments
    let count ← expectU32 fragments.length "validated canonical frame count fits u32"
    writePackedFrame sha frameMarker physical header count count 0 [] outcomeBytes headerDigest root
      finalDigest "validated terminal frame length fits u32" "validated exact terminal frame encodes"

/-- `write_serialized_record`: each field is copied into its own slice, the payload into what is left,
which must have the payload's length. -/
def writeSerializedRecord (serializedRecord : Bytes) (txnId : TxnId) (packedPayload : Bytes) :
    Except ExactFailure Bytes :=
  let payloadLen := UInt64.ofNat packedPayload.length
  let checksum := walRecordChecksum txnId payloadLen packedPayload
  fill (.panicked "source slice length does not match destination slice length")
    serializedRecord do
    putPacked (u64ToLe txnId)
    putPacked (u64ToLe payloadLen)
    putPacked (u64ToLe checksum)
    putPacked packedPayload

variable (txnId : TxnId) (physical : CanonicalPhysicalRange) (header : CanonicalPreApplyHeader)

/-- `encode_canonical_record_exact_from_source`: the evidence with the two filled buffers. -/
def encodeCanonicalRecordExactFromSource (fragments : List F) (outcome : CanonicalOutcome)
    (packedPayload serializedRecord : Bytes) :
    Except ExactFailure (ExactCanonicalRecordEncoding × Bytes × Bytes) := do
  let footprint ← orRefuse (measureExactWithLengths physical header
    (fragments.map fun frag => (body frag).length) outcome)
  orRefuse (requireExactBuffer packedPayload.length footprint.packedRecordBytes "packed canonical record")
  orRefuse (requireExactBuffer serializedRecord.length footprint.serializedRecordBytes
    "serialized canonical record")
  let headerBytes ← expect (header.encodeInto (List.replicate preapplyHeaderBytes 0))
    "validated exact header encodes into its fixed v1 layout"
  let headerDigest := digestParts sha preapplyDomain [headerBytes]
  let cachedLeaves ← cachedLeavesOf sha headerDigest fragments
  let root ← rootOf sha headerDigest fragments cachedLeaves
  let outcomeBytes ← expect (encodeCanonicalOutcomeIntoExact outcome (List.replicate canonicalOutcomeBytes 0))
    "validated exact outcome encodes into its fixed v1 layout"
  let finalDigest := digestParts sha finalDomain [headerBytes, root.toList, outcomeBytes]
  let packed ← writePackedPayload sha packedPayload physical header fragments headerBytes outcomeBytes
    headerDigest root finalDigest cachedLeaves
  let serialized ← writeSerializedRecord serializedRecord txnId packed
  return ({ footprint, orderedFragmentRoot := root, finalDigest }, packed, serialized)

/-- `encode_canonical_record_exact_into`: from owned fragments. -/
def encodeCanonicalRecordExactInto (fragments : List CanonicalFragment) (outcome : CanonicalOutcome)
    (packedPayload serializedRecord : Bytes) :
    Except ExactFailure (ExactCanonicalRecordEncoding × Bytes × Bytes) :=
  encodeCanonicalRecordExactFromSource sha txnId physical header fragments outcome packedPayload
    serializedRecord

end Encoder

/-! ### Digests -/

variable {sha : Sha256} {F : Type} [CanonicalFragmentSource F]

theorem expectU32_of_lt {n : ℕ} (h : n < UInt32.size) (message : String) :
    expectU32 n message = .ok (UInt32.ofNat n) := if_pos h

theorem length_canonical (frag : CanonicalFragment) : frag.canonical.length = frag.body.length + 2 := by
  rw [CanonicalFragment.canonical, length_append, length_u16ToLe, Nat.add_comm]

variable {frag : F}

/-- The streamed leaf is the digest of the parts. -/
theorem fragmentLeaf_eq {index : ℕ} (h : index < UInt32.size) : fragmentLeaf sha headerDigest index frag =
      .ok (leafOf sha headerDigest index (ownedFragment frag).canonical) := by
  have hlen := length_canonical (ownedFragment frag)
  rw [fragmentLeaf, expectU32_of_lt h, leafOf, hlen, digestParts]
  simp only [flatMap_cons, flatMap_nil, append_nil, hlen]
  simp only [beginDigest, appendPart, CanonicalFragment.canonical, ownedFragment, append_assoc, ne_eq,
    not_true_eq_false, if_false, nil_append]
  rfl

theorem appendRootEntry_eq {hash : Bytes} {index : ℕ} {leaf : CanonicalDigest} (h : index < UInt32.size) :
    appendRootEntry hash index frag leaf =
      .ok (hash ++ rootEntry index (ownedFragment frag).canonical leaf) := by
  rw [appendRootEntry, expectU32_of_lt h, rootEntry, length_canonical]
  simp only [append_assoc]
  rfl

theorem length_rootMaterial (index : ℕ) (leaves : List (Bytes × CanonicalDigest)) :
    (rootMaterial index leaves).length = leaves.length * 44 := by
  induction leaves generalizing index with
  | nil => rfl
  | cons entry leaves ih =>
    rw [rootMaterial, length_append, ih, length_cons, rootEntry]
    simp only [length_append, length_u32ToLe, length_u64ToLe, List.Vector.toList_length]
    omega

theorem length_leavesFrom (headerDigest : CanonicalDigest) (index : ℕ) (fragments : List CanonicalFragment) :
    (leavesFrom sha headerDigest index fragments).length = fragments.length := by
  induction fragments generalizing index with
  | nil => rfl
  | cons frag fragments ih => rw [leavesFrom, length_cons, length_cons, ih]

def sourceLeaves (sha : Sha256) (headerDigest : CanonicalDigest) (index : ℕ) (fragments : List F) :
    List (Bytes × CanonicalDigest) :=
  leavesFrom sha headerDigest index (fragments.map ownedFragment)

section

variable {fragments : List F} (hash : Bytes) (index : ℕ)
  (h : index + fragments.length ≤ UInt32.size)
include hash index h

theorem rootLoop_eq : rootLoop sha headerDigest hash index fragments =
      .ok (hash ++ rootMaterial index (sourceLeaves sha headerDigest index fragments)) := by
  induction fragments generalizing index hash with
  | nil => exact congrArg Except.ok (append_nil hash).symm
  | cons frag fragments ih =>
    rw [length_cons] at h
    have hindex : index < UInt32.size := by omega
    rw [rootLoop, fragmentLeaf_eq hindex]
    show (appendRootEntry hash index frag _ >>= fun hash => _) = _
    rw [appendRootEntry_eq hindex]
    exact (ih _ _ (by omega)).trans (congrArg Except.ok (append_assoc _ _ _))

theorem rootLoopFromLeaves_eq : rootLoopFromLeaves hash index
        (fragments.zip ((sourceLeaves sha headerDigest index fragments).map Prod.snd)) =
      .ok (hash ++ rootMaterial index (sourceLeaves sha headerDigest index fragments)) := by
  induction fragments generalizing index hash with
  | nil => exact congrArg Except.ok (append_nil hash).symm
  | cons frag fragments ih =>
    rw [length_cons] at h
    have hindex : index < UInt32.size := by omega
    show (appendRootEntry hash index frag _ >>= fun hash => _) = _
    rw [appendRootEntry_eq hindex]
    exact (ih _ _ (by omega)).trans (congrArg Except.ok (append_assoc _ _ _))

end

variable {fragments : List F} {α : Type} {a : α} {result : Except EngineError α}

theorem inlineLeaves_eq {index : ℕ} (h : index + fragments.length ≤ UInt32.size) :
    inlineLeaves sha headerDigest index fragments =
      .ok ((sourceLeaves sha headerDigest index fragments).map Prod.snd) := by
  induction fragments generalizing index with
  | nil => rfl
  | cons frag fragments ih =>
    rw [length_cons] at h
    rw [inlineLeaves, fragmentLeaf_eq (by omega), ih (by omega)]
    rfl

/-- What both root functions hash. -/
theorem rootHash_eq : sha (beginDigest fragmentRootDomain (fragments.length * 44 + 4) ++
        u32ToLe (UInt32.ofNat fragments.length) ++
        rootMaterial 0 (sourceLeaves sha headerDigest 0 fragments)) =
      fragmentRoot sha headerDigest (fragments.map ownedFragment) := by
  have hlen : (u32ToLe (UInt32.ofNat fragments.length) ++
      rootMaterial 0 (sourceLeaves sha headerDigest 0 fragments)).length = fragments.length * 44 + 4 := by
    rw [length_append, length_u32ToLe, length_rootMaterial, sourceLeaves, length_leavesFrom,
      length_map, Nat.add_comm]
  rw [fragmentRoot, length_map, ← sourceLeaves, digestParts]
  simp only [flatMap_cons, flatMap_nil, append_nil, hlen]
  simp only [beginDigest, ne_eq, Nat.add_eq_zero_iff, OfNat.ofNat_ne_zero, and_false, not_false_eq_true,
    if_true, append_assoc]

theorem orderedFragmentRoot_eq (h : fragments.length < UInt32.size) :
    orderedFragmentRoot sha headerDigest fragments =
      .ok (fragmentRoot sha headerDigest (fragments.map ownedFragment)) := by
  rw [orderedFragmentRoot, expectU32_of_lt h, ← rootHash_eq]
  show (rootLoop sha headerDigest _ 0 fragments >>= fun hash => _) = _
  rw [rootLoop_eq _ 0 (by omega)]
  rfl

theorem orderedFragmentRootFromLeaves_eq (h : fragments.length < UInt32.size) :
    orderedFragmentRootFromLeaves sha fragments ((sourceLeaves sha headerDigest 0 fragments).map Prod.snd) =
      .ok (fragmentRoot sha headerDigest (fragments.map ownedFragment)) := by
  have hlen : ((sourceLeaves sha headerDigest 0 fragments).map Prod.snd).length = fragments.length := by
    rw [length_map, sourceLeaves, length_leavesFrom, length_map]
  rw [orderedFragmentRootFromLeaves, hlen, expectU32_of_lt h, ← rootHash_eq]
  show (rootLoopFromLeaves _ 0 (fragments.zip _) >>= fun hash => _) = _
  rw [rootLoopFromLeaves_eq _ 0 (by omega)]
  rfl

/-- Whichever path is taken, the root is the same and kept leaves are the fragments' own. -/
theorem cachedLeavesOf_eq (headerDigest : CanonicalDigest) (h : fragments.length < UInt32.size) :
    ∃ cachedLeaves, cachedLeavesOf sha headerDigest fragments = .ok cachedLeaves ∧
      (∀ leaves, cachedLeaves = some leaves →
        leaves = (sourceLeaves sha headerDigest 0 fragments).map Prod.snd) ∧
      rootOf sha headerDigest fragments cachedLeaves =
        .ok (fragmentRoot sha headerDigest (fragments.map ownedFragment)) := by
  rw [cachedLeavesOf]
  split
  · rw [inlineLeaves_eq (by omega)]
    refine ⟨_, rfl, ?_, orderedFragmentRootFromLeaves_eq h⟩
    intro leaves hleaves
    exact (Option.some.inj hleaves).symm
  · refine ⟨none, rfl, ?_, orderedFragmentRoot_eq h⟩
    intro leaves hleaves
    cases hleaves

/-! ### Writing the two buffers -/

theorem expect_ok (h : result = .ok a) (message : String) : expect result message = .ok a := by
  rw [h]
  rfl

theorem orRefuse_ok : orRefuse result = .ok a ↔ result = .ok a := by
  cases result with
  | ok b => rw [orRefuse, Except.ok.injEq, Except.ok.injEq]
  | error e =>
    constructor
    · intro h
      cases h
    · intro h
      cases h

theorem requireExactBuffer_ok {actual expected : ℕ} {label : String} :
    orRefuse (requireExactBuffer actual expected label) = .ok () ↔ actual = expected := by
  rw [orRefuse_ok, requireExactBuffer, refuse_eq_ok, not_not]

theorem orRefuse_ne_panicked {message : String} : orRefuse result ≠ .error (.panicked message) := by
  intro h
  cases result with
  | ok a | error e => cases h

theorem writePackedFrame_eq {frameType : UInt8} {physical : CanonicalPhysicalRange}
    {header : CanonicalPreApplyHeader} {frameIndex fragmentCount : UInt32} {kind : UInt16}
    {headerBytes body : Bytes} {root leafOrFinal : CanonicalDigest}
    {lengthMessage encodeMessage : String}
    (h : canonicalFrameEncodedLen headerBytes.length body.length < UInt32.size) :
    writePackedFrame sha frameType physical header frameIndex fragmentCount kind headerBytes body
        headerDigest root leafOrFinal lengthMessage encodeMessage =
      putPacked (packedFrame ((frameOf frameType physical header frameIndex fragmentCount kind headerBytes
        body headerDigest root leafOrFinal).image sha)) := by
  have hlen : ((frameOf frameType physical header frameIndex fragmentCount kind headerBytes body
      headerDigest root leafOrFinal).image sha).length =
      canonicalFrameEncodedLen headerBytes.length body.length := DecodedFrame.length_image _
  have hheader : headerBytes.length < UInt32.size := by
    rw [canonicalFrameEncodedLen] at h
    omega
  have hbody : body.length < UInt32.size := by
    rw [canonicalFrameEncodedLen] at h
    omega
  rw [writePackedFrame, expectU32_of_lt h, lift_ok_bind,
    window_eq_put hlen fun out hout =>
      expect_ok (encodeFrameInto_ok.mpr ⟨hheader, hbody, hout, rfl⟩) _, packedFrame, hlen]
  exact put_put _ _

theorem getElem?_leavesFrom (start i : ℕ) (fragments : List CanonicalFragment) :
    (leavesFrom sha headerDigest start fragments)[i]? = fragments[i]?.map fun frag =>
      (frag.canonical, leafOf sha headerDigest (start + i) frag.canonical) := by
  induction fragments generalizing start i with
  | nil => rfl
  | cons frag fragments ih =>
    cases i with
    | zero => rfl
    | succ i =>
      rw [leavesFrom, getElem?_cons_succ, ih, getElem?_cons_succ, Nat.succ_add_eq_add_succ]

/-- Kept leaves and recomputed leaves are the same digests. -/
theorem leafFor_eq {index : ℕ} (hindex : index < UInt32.size) (hget : fragments[index]? = some frag)
    (hcached : ∀ leaves, cachedLeaves = some leaves →
      leaves = (sourceLeaves sha headerDigest 0 fragments).map Prod.snd) :
    leafFor sha headerDigest cachedLeaves index frag =
      .ok (leafOf sha headerDigest index (ownedFragment frag).canonical) := by
  cases cachedLeaves with
  | none => exact fragmentLeaf_eq hindex
  | some leaves =>
    rw [hcached leaves rfl]
    simp only [leafFor, sourceLeaves, getElem?_map, getElem?_leavesFrom, hget, Option.map_some, Nat.zero_add]

theorem writeFragmentFrames_eq {content : EnvelopeContent}
    {all : List F} (hall : content.fragments = all.map ownedFragment) (hcount : all.length < UInt32.size)
    (hbodies : ∀ frag ∈ content.fragments, frag.body.length ≤ maxFragmentBytes)
    (hcached : ∀ leaves, cachedLeaves = some leaves →
      leaves = (sourceLeaves sha (content.headerDigest sha) 0 all).map Prod.snd)
    (index : ℕ) (fragments : List F) (hdrop : all.drop index = fragments) :
    writeFragmentFrames sha content.physical content.header all.length content.header.written
        (content.headerDigest sha) (content.root sha) cachedLeaves index fragments =
      putPacked (((content.fragmentFramesFrom sha content.header.wire index
        (fragments.map ownedFragment)).map (DecodedFrame.image sha)).flatMap packedFrame) := by
  induction fragments generalizing index with
  | nil => exact put_nil.symm
  | cons frag fragments ih =>
    have hget : all[index]? = some frag := by
      have hhead : (all.drop index)[0]? = some frag := by rw [hdrop, getElem?_cons_zero]
      rwa [getElem?_drop] at hhead
    have hnext : all.drop (index + 1) = fragments := by
      rw [← drop_drop, hdrop]
      rfl
    have hindex : index < UInt32.size := lt_trans (getElem?_eq_some_iff.mp hget).1 hcount
    have hbody : (body frag).length ≤ maxFragmentBytes := by
      refine hbodies (ownedFragment frag) ?_
      rw [hall]
      exact mem_map_of_mem (mem_of_getElem? hget)
    have hframe : canonicalFrameEncodedLen (if index = 0 then content.header.written else []).length
        (body frag).length < UInt32.size := by
      have hheader : (if index = 0 then content.header.written else []).length ≤ 240 := by
        split
        · exact Nat.le_of_eq (content.header.length_image _ _)
        · exact Nat.zero_le _
      rw [maxFragmentBytes] at hbody
      rw [canonicalFrameEncodedLen, frameFixedBytes, frameDigestBytes, UInt32.size]
      omega
    rw [writeFragmentFrames, expectU32_of_lt hindex, expectU32_of_lt hcount, leafFor_eq hindex hget hcached,
      lift_ok_bind, lift_ok_bind, lift_ok_bind,
      writePackedFrame_eq hframe, ih (index + 1) hnext, map_cons, fragmentFramesFrom,
      map_cons, flatMap_cons]
    have hlen : all.length = content.fragments.length := by rw [hall, length_map]
    rw [hlen]
    exact put_put _ _

/-- The content whose record the exact encoder writes. -/
def exactContent (physical : CanonicalPhysicalRange) (header : CanonicalPreApplyHeader) (fragments : List F)
    (outcome : CanonicalOutcome) : EnvelopeContent where
  physical := physical
  header := header
  fragments := fragments.map ownedFragment
  marker := .legacy outcome

section Accepted

variable {physical : CanonicalPhysicalRange} {header : CanonicalPreApplyHeader} {fragments : List F}
  {outcome : CanonicalOutcome} {packedPayload : Bytes}

theorem count_lt_of_accepted (h : (exactContent physical header fragments outcome).Accepted) :
    fragments.length + 1 < UInt32.size := by
  have hcount := h.count_lt
  rwa [exactContent, length_map] at hcount

theorem writePackedPayload_eq (h : (exactContent physical header fragments outcome).Accepted)
    (hcached : ∀ leaves, cachedLeaves = some leaves →
      leaves = (sourceLeaves sha (headerDigestOf sha header.written) 0 fragments).map Prod.snd)
    (hlen : packedPayload.length = (exactContent physical header fragments outcome).packedBytes) :
    writePackedPayload sha packedPayload physical header fragments header.written outcome.image
        (headerDigestOf sha header.written) ((exactContent physical header fragments outcome).root sha)
        ((exactContent physical header fragments outcome).final sha) cachedLeaves =
      .ok ((exactContent physical header fragments outcome).record sha) := by
  have hcount := count_lt_of_accepted h
  have hmarker : canonicalFrameEncodedLen ([] : Bytes).length outcome.image.length < UInt32.size := by
    rw [outcome.length_image]
    decide
  have hframes : writeFragmentFrames sha physical header fragments.length header.written
      (headerDigestOf sha header.written) ((exactContent physical header fragments outcome).root sha)
      cachedLeaves 0 fragments =
      putPacked ((((exactContent physical header fragments outcome).fragmentFramesFrom sha header.wire 0
        (fragments.map ownedFragment)).map (DecodedFrame.image sha)).flatMap packedFrame) :=
    @writeFragmentFrames_eq cachedLeaves sha F _ (exactContent physical header fragments outcome)
      fragments rfl (Nat.lt_of_succ_lt hcount) h.fragments hcached 0 fragments rfl
  have hrecord : recordMagic ++ (u32ToLe (UInt32.ofNat (fragments.length + 1)) ++
      ((((exactContent physical header fragments outcome).fragmentFramesFrom sha header.wire 0
        (fragments.map ownedFragment)).map (DecodedFrame.image sha)).flatMap packedFrame ++
        packedFrame ((frameOf frameMarker physical header (UInt32.ofNat fragments.length)
          (UInt32.ofNat fragments.length) 0 [] outcome.image (headerDigestOf sha header.written)
          ((exactContent physical header fragments outcome).root sha)
          ((exactContent physical header fragments outcome).final sha)).image sha))) =
      (exactContent physical header fragments outcome).record sha := by
    have hcontent : (exactContent physical header fragments outcome).fragments.length = fragments.length :=
      length_map _
    rw [record, recordImage, encoded, length_map,
      length_wireFrames, hcontent, wireFrames, map_append,
      flatMap_append, markerFrame, frame, hcontent,
      map_singleton, flatMap_singleton]
    rfl
  rw [writePackedPayload, expectU32_of_lt hcount, expectU32_of_lt (Nat.lt_of_succ_lt hcount),
    lift_ok_bind, lift_ok_bind, writePackedFrame_eq hmarker, hframes]
  simp only [putPacked, put_put]
  rw [fill_put, hrecord, h.length_record sha]
  exact ⟨hlen.symm, rfl⟩

/-- The second buffer gets the log record of the payload. -/
theorem writeSerializedRecord_eq (record : WalRecord) (hlen : serializedRecord.length = encodedRecordLen record) :
    writeSerializedRecord serializedRecord record.txnId record.payload = .ok (encodedRecord record) := by
  rw [writeSerializedRecord]
  simp only [putPacked, put_put]
  rw [fill_put, hlen, ← length_encodedRecord, encodedRecord_eq, encodeRecordHeader]
  simp only [append_assoc]
  exact ⟨rfl, rfl⟩

theorem map_body_exactContent (physical : CanonicalPhysicalRange) (header : CanonicalPreApplyHeader)
    (fragments : List F) (outcome : CanonicalOutcome) :
    (exactContent physical header fragments outcome).fragments.map (·.body.length) =
      fragments.map fun frag => (body frag).length := by
  rw [exactContent, map_map]
  rfl

theorem packedRecordBytes_exactContent (physical : CanonicalPhysicalRange)
    (header : CanonicalPreApplyHeader) (fragments : List F) (outcome : CanonicalOutcome) :
    (footprintOf (fragments.map fun frag => (body frag).length) canonicalOutcomeBytes).packedRecordBytes =
      (exactContent physical header fragments outcome).packedBytes := by
  rw [← packedRecordBytes_footprintOf, map_body_exactContent]
  exact congrArg (fun n => (footprintOf _ n).packedRecordBytes) outcome.length_image.symm

/-- The measurement accepts what the allocating encoder accepts with a plain outcome. -/
theorem measureExactWithLengths_ok {footprint : CanonicalWalFootprint} :
    measureExactWithLengths physical header (fragments.map fun frag => (body frag).length) outcome =
        .ok footprint ↔
      (exactContent physical header fragments outcome).Accepted ∧
        footprintOf (fragments.map fun frag => (body frag).length) canonicalOutcomeBytes =
          footprint := by
  have hlens := map_body_exactContent physical header fragments outcome
  have hpacked := packedRecordBytes_exactContent physical header fragments outcome
  simp only [measureExactWithLengths, canonicalWalFootprintByIndex, bind_ok, refuse_eq_ok, not_not,
    footprint_ok, existsAndEq, and_assoc, true_and, exists_const, pure, Except.pure, Except.ok.injEq,
    length_map, hpacked]
  have hlength : (exactContent physical header fragments outcome).fragments.length = fragments.length :=
    length_map _
  have hsum : (exactContent physical header fragments outcome).bodyBytes =
      (fragments.map fun frag => (body frag).length).sum := congrArg List.sum hlens
  have hmarker : (exactContent physical header fragments outcome).marker.image.length =
      canonicalOutcomeBytes := outcome.length_image
  have hframes : (footprintOf (fragments.map fun frag => (body frag).length)
      canonicalOutcomeBytes).frameCount = fragments.length + 1 := congrArg (· + 1) (length_map _)
  rw [hframes]
  constructor
  · rintro ⟨hoperations, hne, hcount, hbodies, henvelope, hframe, htotal, _, hphysical, _, hheader, _,
      houtcome, hfootprint⟩
    refine ⟨?_, hfootprint⟩
    exact {
      nonempty := by
        intro hnil
        rw [← hlens, hnil] at hne
        exact hne rfl
      count := hlength ▸ hcount
      marker := except_seq_ok.mpr ⟨houtcome, rfl⟩
      operations := hlength ▸ hoperations
      lengthFits := trivial
      fragments := fun frag hmem => hbodies _ (hlens ▸ mem_map_of_mem hmem)
      envelope := hsum ▸ henvelope
      markerFrame := hmarker ▸ hframe
      packed := htotal
      physical := hlength.symm ▸ hphysical
      header := hheader }
  · rintro ⟨h, hfootprint⟩
    have hne : (fragments.map fun frag => (body frag).length) ≠ [] := by
      intro hnil
      rw [← hlens, map_eq_nil_iff] at hnil
      exact h.nonempty hnil
    have hbodies : ∀ len ∈ fragments.map fun frag => (body frag).length, len ≤ maxFragmentBytes := by
      rw [← hlens]
      exact forall_mem_map.mpr h.fragments
    have hphysical := h.physical
    rw [hlength] at hphysical
    exact ⟨hlength ▸ h.operations, hne, hlength ▸ h.count, hbodies, hsum ▸ h.envelope,
      hmarker ▸ h.markerFrame, h.packed, (), hphysical, (), h.header, (), (except_seq_ok.mp h.marker).1,
      hfootprint⟩

/-- The evidence for an accepted input. -/
def exactEncoding (sha : Sha256) (physical : CanonicalPhysicalRange) (header : CanonicalPreApplyHeader)
    (fragments : List F) (outcome : CanonicalOutcome) : ExactCanonicalRecordEncoding where
  footprint := footprintOf (fragments.map fun frag => (body frag).length) canonicalOutcomeBytes
  orderedFragmentRoot := (exactContent physical header fragments outcome).root sha
  finalDigest := (exactContent physical header fragments outcome).final sha

/-- The log record of an accepted input. -/
def exactRecord (sha : Sha256) (txnId : TxnId) {content : EnvelopeContent} (h : content.Accepted) :
    WalRecord where
  txnId := txnId
  payload := content.record sha
  payload_length_lt := by
    rw [h.length_record sha]
    exact lt_of_le_of_lt h.packed (by decide)

variable {txnId : TxnId}

/-- After the measurement the two buffers are filled; neither the kept leaves nor the recomputed ones can
make a difference. -/
theorem encodeCanonicalRecordExactFromSource_eq (h : (exactContent physical header fragments outcome).Accepted)
    (hpacked : packedPayload.length = (exactContent physical header fragments outcome).packedBytes)
    (hserialized : serializedRecord.length = (exactContent physical header fragments outcome).packedBytes + 24) :
    encodeCanonicalRecordExactFromSource sha txnId physical header fragments outcome packedPayload
        serializedRecord =
      .ok (exactEncoding sha physical header fragments outcome,
        (exactContent physical header fragments outcome).record sha,
        encodedRecord (exactRecord sha txnId h)) := by
  have hcount := count_lt_of_accepted h
  have hmeasure := orRefuse_ok.mpr (measureExactWithLengths_ok.mpr ⟨h, rfl⟩)
  have hbytes := packedRecordBytes_exactContent physical header fragments outcome
  have hheader : header.encodeInto (List.replicate preapplyHeaderBytes 0) = .ok header.written :=
    CanonicalPreApplyHeader.encodeInto_ok.mpr ⟨h.header, length_replicate.symm, rfl⟩
  have houtcome : encodeCanonicalOutcomeIntoExact outcome (List.replicate canonicalOutcomeBytes 0) =
      .ok outcome.image :=
    CanonicalOutcome.encodeInto_ok.mpr ⟨(except_seq_ok.mp h.marker).1, length_replicate.symm, rfl⟩
  obtain ⟨cachedLeaves, hcached, hleaves, hroot⟩ :=
    cachedLeavesOf_eq (headerDigestOf sha header.written) (Nat.lt_of_succ_lt hcount)
  rw [encodeCanonicalRecordExactFromSource]
  refine bind_ok.mpr ⟨_, hmeasure, ?_⟩
  refine bind_ok.mpr ⟨(), requireExactBuffer_ok.mpr (hpacked.trans hbytes.symm), ?_⟩
  refine bind_ok.mpr ⟨(), requireExactBuffer_ok.mpr ?_, ?_⟩
  · rw [hserialized, ← hbytes]
    rfl
  refine bind_ok.mpr ⟨_, expect_ok hheader _, ?_⟩
  refine bind_ok.mpr ⟨_, hcached, ?_⟩
  refine bind_ok.mpr ⟨_, hroot, ?_⟩
  refine bind_ok.mpr ⟨_, expect_ok houtcome _, ?_⟩
  refine bind_ok.mpr ⟨_, writePackedPayload_eq h hleaves hpacked, ?_⟩
  refine bind_ok.mpr ⟨_, writeSerializedRecord_eq (exactRecord sha txnId h) ?_, rfl⟩
  rw [hserialized, encodedRecordLen, exactRecord, h.length_record sha, walRecordHeaderLen, Nat.add_comm]

/-- What the encoder has checked when it succeeds. -/
theorem checked_of_exact_ok {result : ExactCanonicalRecordEncoding × Bytes × Bytes}
    (h : encodeCanonicalRecordExactFromSource sha txnId physical header fragments outcome packedPayload
      serializedRecord = .ok result) :
    (exactContent physical header fragments outcome).Accepted ∧
      packedPayload.length = (exactContent physical header fragments outcome).packedBytes ∧
      serializedRecord.length = (exactContent physical header fragments outcome).packedBytes + 24 := by
  rw [encodeCanonicalRecordExactFromSource] at h
  obtain ⟨footprint, hmeasure, h⟩ := bind_ok.mp h
  obtain ⟨_, hpacked, h⟩ := bind_ok.mp h
  obtain ⟨_, hserialized, -⟩ := bind_ok.mp h
  obtain ⟨hacc, rfl⟩ := measureExactWithLengths_ok.mp (orRefuse_ok.mp hmeasure)
  rw [← packedRecordBytes_exactContent]
  exact ⟨hacc, requireExactBuffer_ok.mp hpacked, requireExactBuffer_ok.mp hserialized⟩

/-- The exact encoder refuses or succeeds: no `expect`, slice bound or final assertion fails. -/
theorem exact_encoder_never_panics (message : String) :
    encodeCanonicalRecordExactFromSource sha txnId physical header fragments outcome packedPayload
      serializedRecord ≠ .error (.panicked message) := by
  intro hpanic
  have hrun := hpanic
  -- the three checks refuse; behind them the run is the one of `encodeCanonicalRecordExactFromSource_eq`
  rw [encodeCanonicalRecordExactFromSource] at hrun
  obtain hmeasure | ⟨footprint, hmeasure, hrun⟩ := bind_error.mp hrun
  · exact orRefuse_ne_panicked hmeasure
  obtain hpacked | ⟨_, hpacked, hrun⟩ := bind_error.mp hrun
  · exact orRefuse_ne_panicked hpacked
  obtain hserialized | ⟨_, hserialized, -⟩ := bind_error.mp hrun
  · exact orRefuse_ne_panicked hserialized
  obtain ⟨hacc, rfl⟩ := measureExactWithLengths_ok.mp (orRefuse_ok.mp hmeasure)
  have hbytes := packedRecordBytes_exactContent physical header fragments outcome
  rw [encodeCanonicalRecordExactFromSource_eq hacc ((requireExactBuffer_ok.mp hpacked).trans hbytes)
    ((requireExactBuffer_ok.mp hserialized).trans (congrArg (· + 24) hbytes))] at hpanic
  cases hpanic

/-- Every input is accepted, for some pair of buffers, exactly when the allocating encoder accepts it. A
run succeeds exactly when its buffers have the lengths of the packed payload and of the log record with
that payload; it returns the measured footprint, the allocating encoder's root and final digest and its
payload, and leaves that log record in the second buffer. -/
theorem exact_encoder_eq_allocating_encoder (sha : Sha256) (txnId : TxnId)
    (physical : CanonicalPhysicalRange) (header : CanonicalPreApplyHeader) (fragments : List F)
    (outcome : CanonicalOutcome) :
    ((∃ packedPayload serializedRecord result, encodeCanonicalRecordExactFromSource sha txnId physical
        header fragments outcome packedPayload serializedRecord = .ok result) ↔
      ∃ encoded, encodeCanonicalEnvelope sha physical header (fragments.map ownedFragment) outcome =
        .ok encoded) ∧
    ∀ packedPayload serializedRecord encoding packed serialized,
      encodeCanonicalRecordExactFromSource sha txnId physical header fragments outcome packedPayload
          serializedRecord = .ok (encoding, packed, serialized) ↔
        ∃ encoded, ∃ record : WalRecord,
          encodeCanonicalEnvelope sha physical header (fragments.map ownedFragment) outcome = .ok encoded ∧
          packCanonicalRecordPayload encoded = .ok record.payload ∧ record.txnId = txnId ∧
          packedPayload.length = record.payload.length ∧
          serializedRecord.length = encodedRecordLen record ∧
          measureExactWithLengths physical header (fragments.map fun frag => (body frag).length)
            outcome = .ok encoding.footprint ∧
          encoding.orderedFragmentRoot = encoded.orderedFragmentRoot ∧
          encoding.finalDigest = encoded.finalDigest ∧ packed = record.payload ∧
          ∀ buf, encodeRecordInto buf record = buf ++ serialized := by
  constructor
  · constructor
    · rintro ⟨packedPayload, serializedRecord, result, h⟩
      exact ⟨_, (checked_of_exact_ok h).1.encode sha⟩
    · rintro ⟨encoded, hencode⟩
      obtain ⟨hacc, -⟩ :=
        (@encode_ok sha (exactContent physical header fragments outcome) encoded).mp hencode
      exact ⟨_, _, _, encodeCanonicalRecordExactFromSource_eq hacc
        (@length_replicate UInt8 _ 0) (@length_replicate UInt8 _ 0)⟩
  · intro packedPayload serializedRecord encoding packed serialized
    constructor
    · intro h
      obtain ⟨hacc, hpacked, hserialized⟩ := checked_of_exact_ok h
      have hlen := hacc.length_record sha
      rw [encodeCanonicalRecordExactFromSource_eq hacc hpacked hserialized] at h
      cases h
      refine ⟨_, exactRecord sha txnId hacc, hacc.encode sha, hacc.pack, rfl,
        hpacked.trans hlen.symm, ?_, measureExactWithLengths_ok.mpr ⟨hacc, rfl⟩, rfl, rfl, rfl,
        fun buf => encodeRecordInto_eq buf _⟩
      rw [hserialized, encodedRecordLen, exactRecord, hlen, walRecordHeaderLen, Nat.add_comm]
    · rintro ⟨encoded, record, hencode, hpack, rfl, hpacked, hserialized, hmeasure, hroot, hfinal, rfl, hbuf⟩
      obtain ⟨hacc, rfl⟩ :=
        (@encode_ok sha (exactContent physical header fragments outcome) encoded).mp hencode
      have hlen := hacc.length_record sha
      rw [hacc.pack] at hpack
      have hpayload := Except.ok.inj hpack
      have hrecord : exactRecord sha record.txnId hacc = record := WalRecord.ext_fields rfl hpayload
      obtain ⟨-, hfootprint⟩ := measureExactWithLengths_ok.mp hmeasure
      have hserial : encodedRecord record = serialized := hbuf []
      have hencoding : exactEncoding sha physical header fragments outcome = encoding := by
        cases encoding
        cases hfootprint
        cases hroot
        cases hfinal
        rfl
      rw [encodedRecordLen, ← hpayload, hlen, walRecordHeaderLen, Nat.add_comm] at hserialized
      rw [← hpayload, hlen] at hpacked
      rw [encodeCanonicalRecordExactFromSource_eq hacc hpacked hserialized, hrecord, hserial, hencoding,
        hpayload]

end Accepted

end ThunderboltDb.Wal.Canonical
