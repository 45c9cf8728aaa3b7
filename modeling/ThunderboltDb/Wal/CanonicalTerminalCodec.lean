import ThunderboltDb.Wal.CanonicalTerminal

/-!
# What the terminal-marker codec reads and writes

Every part of a terminal marker has one image. For each part there are two statements: the writer puts
the image, and the reader accepts exactly the image of a valid part, whatever follows it. They are
assembled from index manifests up to the whole marker.

Counts are 32-bit fields, so a part is readable only when its counts fit (`CountsFit`); a descriptor
whose total length fits 32 bits has that property.
-/

namespace ThunderboltDb.Wal.Canonical

open Lib List Reader BufferWriter GenerationTableTransitionV1

variable {bs rest : Bytes} {side : Option GenerationTableSideV1}
    {self desc : GenerationTerminalDescriptorV1} {transitions : List GenerationTableTransitionV1}
  {value : UInt8} {n : ℕ} {e : EngineError} (indexes : List GenerationIndexManifestV1)

@[simp] theorem GenerationPublicationFormV1.decode_ok {form : GenerationPublicationFormV1} :
    GenerationPublicationFormV1.decode value = .ok form ↔ value = form.code := by
  constructor
  · intro h
    unfold GenerationPublicationFormV1.decode at h
    split at h <;> cases h <;> rfl
  · rintro rfl
    cases form <;> rfl

@[simp] theorem GenerationTableDeltaKindV1.decode_ok {kind : GenerationTableDeltaKindV1} :
    GenerationTableDeltaKindV1.decode value = .ok kind ↔ value = kind.code := by
  constructor
  · intro h
    unfold GenerationTableDeltaKindV1.decode at h
    split at h <;> cases h <;> rfl
  · rintro rfl
    cases kind <;> rfl

theorem u32TryFrom_ok {x : UInt32} : u32TryFrom n e = .ok x ↔ n = x.toNat := by
  rw [u32TryFrom]
  constructor
  · intro h
    split at h
    · rename_i hlt
      cases h
      rw [UInt32.toNat_ofNat', Nat.mod_eq_of_lt hlt]
    · cases h
  · rintro rfl
    rw [if_pos x.toNat_lt, UInt32.ofNat_toNat]

theorem u32TryFrom_of_lt (h : n < UInt32.size) : u32TryFrom n e = .ok (UInt32.ofNat n) := if_pos h

theorem toNat_ofNat_of_lt (h : n < UInt32.size) : (UInt32.ofNat n).toNat = n := by
  rw [UInt32.toNat_ofNat', Nat.mod_eq_of_lt h]

/-! ### Index manifests -/

def GenerationIndexManifestV1.image (self : GenerationIndexManifestV1) : Bytes :=
  u64ToLe self.stableIndexId ++ (self.indexShapeRoot.toList ++ (u64ToLe self.indexGeneration ++
    self.indexRoot.toList))

theorem GenerationIndexManifestV1.length_image (self : GenerationIndexManifestV1) :
    self.image.length = generationIndexManifestBytes := by
  simp [GenerationIndexManifestV1.image, generationIndexManifestBytes]

theorem writeIndex_eq (index : GenerationIndexManifestV1) :
    writeIndex index = DescriptorWriter.bytes index.image := by
  simp only [writeIndex, put_put, GenerationIndexManifestV1.image]

theorem readIndex_reads {index : GenerationIndexManifestV1} :
    readIndex.Reads bs index rest ↔ bs = index.image ++ rest ∧ True := by
  simp only [readIndex, reads_bind, reads_u64, reads_array, reads_pure,
    existsAndEq, true_and, and_true]
  constructor
  · rintro ⟨_, _, _, _, rfl, rfl⟩
    simp [GenerationIndexManifestV1.image]
  · rintro rfl
    exact ⟨index.stableIndexId, index.indexShapeRoot, index.indexGeneration, index.indexRoot,
      by simp [GenerationIndexManifestV1.image], rfl⟩

/-- A count and that many manifests. -/
def indexesImage : Bytes :=
  u32ToLe (UInt32.ofNat indexes.length) ++ indexes.flatMap GenerationIndexManifestV1.image

theorem length_flatMap_const {α : Type} {f : α → Bytes} (h : ∀ a, (f a).length = n)
    (as : List α) : (as.flatMap f).length = as.length * n := by
  induction as with
  | nil => simp
  | cons a as ih => rw [flatMap_cons, length_append, h, ih, length_cons]; ring

theorem length_indexesImage :
    (indexesImage indexes).length = 4 + indexes.length * generationIndexManifestBytes := by
  rw [indexesImage, length_append, length_u32ToLe, length_flatMap_const GenerationIndexManifestV1.length_image]

/-! ### Table sides -/

/-- The scalar fields of a side, zero when it is absent. -/
def sideScalarsImage : Option GenerationTableSideV1 → Bytes
  | some side => u64ToLe side.dataGeneration ++ (side.tableRoot.toList ++ u64ToLe side.logicalRowCount)
  | none => u64ToLe 0 ++ ((zeroArray 32).toList ++ u64ToLe 0)

section

variable (side : Option GenerationTableSideV1)

theorem length_sideScalarsImage : (sideScalarsImage side).length = 48 := by
  cases side <;> simp [sideScalarsImage]

/-- A side before its indexes are read. -/
def clearIndexes : Option GenerationTableSideV1 :=
  side.map fun s => { s with indexes := [] }

theorem sideScalarsImage_clearIndexes : sideScalarsImage (clearIndexes side) = sideScalarsImage side := by
  cases side <;> rfl

theorem clearIndexes_clearIndexes : clearIndexes (clearIndexes side) = clearIndexes side := by
  cases side <;> rfl

theorem isSome_clearIndexes : (clearIndexes side).isSome = side.isSome := by
  cases side <;> rfl

end

theorem writeTableSideScalars_eq (hvalid : validateSide side = .ok ()) :
    writeTableSideScalars side = DescriptorWriter.bytes (sideScalarsImage side) := by
  cases side with
  | none => simp only [writeTableSideScalars, put_put, sideScalarsImage]
  | some side =>
    rw [validateSide] at hvalid
    simp only [writeTableSideScalars, hvalid, lift_ok_bind, put_put, sideScalarsImage]

theorem writeTableIndexes_eq (hfit : (sideIndexes side).length < UInt32.size) :
    writeTableIndexes side = DescriptorWriter.bytes (indexesImage (sideIndexes side)) := by
  simp only [writeTableIndexes, u32TryFrom_of_lt hfit, lift_ok_bind]
  rw [forM_put fun index _ => writeIndex_eq index, put_put, indexesImage]

theorem readTableSideScalars_reads {present : Bool} : (readTableSideScalars present).Reads bs side rest ↔
      bs = sideScalarsImage side ++ rest ∧ side.isSome = present ∧ clearIndexes side = side := by
  simp only [readTableSideScalars, reads_bind, reads_u64, reads_array,
    reads_lift, refuse_eq_ok, reads_pure, existsAndEq, and_assoc, exists_const, true_and,
    and_true]
  constructor
  · rintro ⟨generation, root, rows, rfl, habsent, rfl⟩
    cases present with
    | true => exact ⟨by simp [sideScalarsImage], rfl, rfl⟩
    | false =>
      simp only [true_and, not_or, not_not] at habsent
      obtain ⟨rfl, rfl, rfl⟩ := habsent
      exact ⟨by simp [sideScalarsImage], rfl, rfl⟩
  · rintro ⟨rfl, rfl, hclear⟩
    cases side with
    | none => exact ⟨0, zeroArray 32, 0, by simp [sideScalarsImage], by simp, rfl⟩
    | some side =>
      refine ⟨side.dataGeneration, side.tableRoot, side.logicalRowCount, by simp [sideScalarsImage], by simp, ?_⟩
      rw [← hclear]
      rfl

theorem readIndexes_reads {indexes : List GenerationIndexManifestV1} :
    (times readIndex n).Reads bs indexes rest ↔
      bs = indexes.flatMap GenerationIndexManifestV1.image ++ rest ∧ indexes.length = n := by
  rw [reads_times fun _ _ _ => readIndex_reads]
  simp only [implies_true, and_true]

theorem readTableIndexes_reads {result : Option GenerationTableSideV1} :
    (readTableIndexes side).Reads bs result rest ↔
      bs = indexesImage (sideIndexes result) ++ rest ∧ (sideIndexes result).length < UInt32.size ∧
        clearIndexes result = clearIndexes side ∧ validateSide result = .ok () := by
  cases side with
  | none =>
    simp only [readTableIndexes, reads_bind, reads_u32, reads_lift, refuse_eq_ok,
      reads_pure, existsAndEq, and_assoc, exists_const, true_and, and_true, not_not]
    constructor
    · rintro ⟨rfl, rfl⟩
      exact ⟨rfl, by decide, rfl, rfl⟩
    · rintro ⟨rfl, -, hclear, -⟩
      obtain rfl := Option.map_eq_none_iff.mp hclear
      exact ⟨rfl, rfl⟩
  | some side =>
    simp only [readTableIndexes, reads_bind, reads_u32, reads_remaining,
      reads_lift, refuse_eq_ok, reads_pure, readIndexes_reads, existsAndEq, and_assoc,
      exists_const, true_and, and_true, not_lt]
    constructor
    · rintro ⟨count, indexes, _, rfl, -, hcount, hvalid, rfl⟩
      have hlen : indexes.length < UInt32.size := hcount ▸ count.toNat_lt
      refine ⟨?_, hlen, rfl, hvalid⟩
      simp [sideIndexes, indexesImage, hcount]
    · rintro ⟨rfl, hlen, hclear, hvalid⟩
      obtain ⟨full, rfl, hside⟩ := Option.map_eq_some_iff.mp hclear
      have hcount : (UInt32.ofNat full.indexes.length).toNat = full.indexes.length := toNat_ofNat_of_lt hlen
      have hfull : { side with indexes := full.indexes } = full := by
        cases full
        cases side
        simp_all
      refine ⟨UInt32.ofNat full.indexes.length, full.indexes, (), ?_, ?_, hcount.symm, ?_, ?_⟩
      · rw [indexesImage, append_assoc]
        rfl
      · rw [hcount, length_append, length_flatMap_const GenerationIndexManifestV1.length_image,
          generationIndexManifestBytes]
        omega
      · rw [hfull]
        exact hvalid
      · rw [hfull]

/-! ### Table transitions -/

namespace GenerationTableTransitionV1

section

variable (self : GenerationTableTransitionV1)

def image : Bytes :=
  [self.kind.code] ++ (u64ToLe self.stableTableId ++ ([CanonicalOutcome.flagByte self.before.isSome] ++
  ([CanonicalOutcome.flagByte self.after.isSome] ++ ([0, 0, 0, 0, 0] ++ (sideScalarsImage self.before ++
  (sideScalarsImage self.after ++ (indexesImage (sideIndexes self.before) ++
  indexesImage (sideIndexes self.after))))))))

/-- The bytes of one transition. -/
def size : ℕ :=
  generationTableTransitionFixedBytes +
    (sideIndexes self.before).length * generationIndexManifestBytes +
    (sideIndexes self.after).length * generationIndexManifestBytes

theorem length_image : self.image.length = self.size := by
  simp only [image, length_append, length_singleton, length_u64ToLe, length_sideScalarsImage,
    length_indexesImage, size, generationTableTransitionFixedBytes]
  simp only [length_cons, length_nil]
  omega

/-- Both index counts fit their 32-bit fields. -/
def CountsFit : Prop :=
  (sideIndexes self.before).length < UInt32.size ∧ (sideIndexes self.after).length < UInt32.size

end

variable {self : GenerationTableTransitionV1}

theorem countsFit_of_size (h : self.size < UInt32.size) : self.CountsFit := by
  rw [size, generationIndexManifestBytes] at h
  constructor
  · omega
  · omega

theorem validateBasic_ok :
    self.validateBasic = .ok () ↔ nonzeroId self.stableTableId "stable table id" = .ok () ∧
      validateSide self.before = .ok () ∧ validateSide self.after = .ok () := by
  rw [validateBasic, except_seq_ok, except_seq_ok]

theorem encodeInto_eq (hvalid : self.validateBasic = .ok ())
    (hfit : self.CountsFit) : self.encodeInto = DescriptorWriter.bytes self.image := by
  obtain ⟨-, hbefore, hafter⟩ := validateBasic_ok.mp hvalid
  simp only [encodeInto, hvalid, lift_ok_bind, writeTableSideScalars_eq hbefore,
    writeTableSideScalars_eq hafter, writeTableIndexes_eq hfit.1, writeTableIndexes_eq hfit.2,
    put_put, image]

theorem decode_reads : decode.Reads bs self rest ↔
      bs = self.image ++ rest ∧ self.validateBasic = .ok () ∧ self.CountsFit := by
  simp only [decode, DescriptorReader.flag, reads_bind, reads_u8, reads_u64,
    reads_expect, reads_lift, reads_pure, GenerationTableDeltaKindV1.decode_ok,
    DescriptorReader.flagOf_ok, readTableSideScalars_reads, readTableIndexes_reads, existsAndEq,
    and_assoc, exists_const, true_and, and_true]
  constructor
  · rintro ⟨kind, id, before₀, after₀, before, after, _, rfl, hbefore₀, hafter₀, hbeforeFit, hbefore, -,
      hafterFit, hafter, -, hvalid, rfl⟩
    rw [hbefore₀] at hbefore
    rw [hafter₀] at hafter
    obtain rfl := hbefore
    obtain rfl := hafter
    refine ⟨?_, hvalid, hbeforeFit, hafterFit⟩
    simp [image, sideScalarsImage_clearIndexes, isSome_clearIndexes]
  · rintro ⟨rfl, hvalid, hfit⟩
    obtain ⟨-, hbefore, hafter⟩ := validateBasic_ok.mp hvalid
    refine ⟨self.kind, self.stableTableId, clearIndexes self.before, clearIndexes self.after,
      self.before, self.after, (), ?_, clearIndexes_clearIndexes _, clearIndexes_clearIndexes _, hfit.1,
      (clearIndexes_clearIndexes _).symm, hbefore, hfit.2, (clearIndexes_clearIndexes _).symm, hafter,
      hvalid, rfl⟩
    simp [image, sideScalarsImage_clearIndexes, isSome_clearIndexes]

end GenerationTableTransitionV1

/-! ### Descriptors -/

section

variable (transitions : List GenerationTableTransitionV1)

def transitionsSize : ℕ :=
  (transitions.map size).sum

theorem length_flatMap_image :
    (transitions.flatMap GenerationTableTransitionV1.image).length = transitionsSize transitions := by
  rw [length_flatMap, transitionsSize]
  simp only [length_image]

end

theorem size_le_transitionsSize {transition : GenerationTableTransitionV1} (h : transition ∈ transitions) :
    transition.size ≤ transitionsSize transitions :=
  single_le_sum (fun _ _ => Nat.zero_le _) _ (mem_map_of_mem h)

/-- Every transition takes at least its fixed part. -/
theorem length_mul_le_transitionsSize (transitions : List GenerationTableTransitionV1) :
    transitions.length * generationTableTransitionFixedBytes ≤ transitionsSize transitions := by
  induction transitions with
  | nil => simp
  | cons transition transitions ih =>
    have hsize : generationTableTransitionFixedBytes ≤ transition.size := by
      rw [size]
      omega
    rw [transitionsSize] at ih ⊢
    rw [length_cons, map_cons, sum_cons, Nat.succ_mul]
    omega

/-- Validating the transitions of a descriptor validates each of them on its own. -/
theorem validateBasic_of_validateTransitions {commitSequence : UInt64} {previous : Option UInt64}
    (h : validateTransitions commitSequence previous transitions = .ok ()) :
    ∀ transition ∈ transitions, transition.validateBasic = .ok () := by
  induction transitions generalizing previous with
  | nil => simp
  | cons transition transitions ih =>
    rw [validateTransitions, except_seq_ok, except_seq_ok, validate, except_seq_ok] at h
    obtain ⟨⟨hbasic, -⟩, -, hrest⟩ := h
    exact forall_mem_cons.mpr ⟨hbasic, ih hrest⟩

theorem addEncodedLens_eq (total : ℕ) (h : ∀ transition ∈ transitions, transition.validateBasic = .ok ()) :
    addEncodedLens total transitions = .ok (total + transitionsSize transitions) := by
  induction transitions generalizing total with
  | nil => rfl
  | cons transition transitions ih =>
    obtain ⟨hbasic, hrest⟩ := forall_mem_cons.mp h
    have hlen : transition.encodedLen = .ok transition.size := by
      rw [encodedLen, hbasic]
      rfl
    rw [addEncodedLens, hlen]
    show addEncodedLens (total + transition.size) transitions = _
    rw [ih _ hrest, transitionsSize, transitionsSize, map_cons, sum_cons, Nat.add_assoc]

variable {out : Bytes}

namespace GenerationTerminalDescriptorV1

def image (self : GenerationTerminalDescriptorV1) : Bytes :=
  u16ToLe generationTerminalExtensionVersion ++ ([self.publicationForm.code] ++ ([0, 0, 0, 0, 0] ++
  (self.initialDatabaseRoot.toList ++ (u64ToLe self.catalogBeforeEpoch ++
  (self.catalogBeforeDigest.toList ++ (u64ToLe self.catalogAfterEpoch ++
  (self.catalogAfterDigest.toList ++ (u64ToLe self.stableTransactionId ++ (u64ToLe self.commitSequence ++
  (self.runtimeGenerationInputDigest.toList ++ (self.finalDatabaseRoot.toList ++
  (u32ToLe (UInt32.ofNat self.tableTransitions.length) ++
  self.tableTransitions.flatMap GenerationTableTransitionV1.image))))))))))))

/-- The bytes of a descriptor. -/
def size (self : GenerationTerminalDescriptorV1) : ℕ :=
  generationTerminalDescriptorFixedBytes + transitionsSize self.tableTransitions

theorem length_image (self : GenerationTerminalDescriptorV1) : self.image.length = self.size := by
  simp only [image, length_append, length_singleton, length_u16ToLe, length_u32ToLe,
    length_u64ToLe, List.Vector.toList_length, length_flatMap_image, size,
    generationTerminalDescriptorFixedBytes]
  simp only [length_cons, length_nil]
  omega

theorem validateBasic_of_validate (h : self.validate = .ok ()) :
    ∀ transition ∈ self.tableTransitions, transition.validateBasic = .ok () := by
  simp only [validate, except_seq_ok] at h
  exact validateBasic_of_validateTransitions h.2.2.2.2.2.2.2.2.1

theorem countsFit_of_size (h : self.size < UInt32.size) : self.tableTransitions.length < UInt32.size ∧
      ∀ transition ∈ self.tableTransitions, transition.CountsFit := by
  have hcount := length_mul_le_transitionsSize self.tableTransitions
  rw [size, generationTerminalDescriptorFixedBytes] at h
  rw [generationTableTransitionFixedBytes] at hcount
  refine ⟨by omega, fun transition hmem => ?_⟩
  have hsize := size_le_transitionsSize hmem
  exact GenerationTableTransitionV1.countsFit_of_size (by omega)

theorem encodedLen_ok {n : UInt32} : self.encodedLen = .ok n ↔ self.validate = .ok () ∧ self.size = n.toNat := by
  rw [encodedLen, except_seq_ok]
  refine and_congr_right fun hvalid => ?_
  rw [addEncodedLens_eq _ (validateBasic_of_validate hvalid)]
  exact u32TryFrom_ok

theorem fields_eq (hvalid : self.validate = .ok ())
    (hlt : self.size < UInt32.size) : self.fields = DescriptorWriter.bytes self.image := by
  obtain ⟨hcount, hfit⟩ := countsFit_of_size hlt
  have hbasic := validateBasic_of_validate hvalid
  simp only [fields, u32TryFrom_of_lt hcount, lift_ok_bind]
  rw [forM_put fun transition hmem =>
    encodeInto_eq (hbasic transition hmem) (hfit transition hmem)]
  simp only [put_put, image]

theorem encodeInto_ok : self.encodeInto out = .ok bs ↔
      self.validate = .ok () ∧ self.size < UInt32.size ∧ self.size = out.length ∧ self.image = bs := by
  rw [encodeInto, except_seq_ok]
  refine and_congr_right fun hvalid => ?_
  simp only [bind_ok, encodedLen_ok, refuse_eq_ok, not_not]
  constructor
  · rintro ⟨n, ⟨-, hsize⟩, _, hout, hfill⟩
    have hlt : self.size < UInt32.size := hsize ▸ n.toNat_lt
    rw [fields_eq hvalid hlt, fill_put] at hfill
    exact ⟨hlt, hsize.trans hout.symm, hfill.2⟩
  · rintro ⟨hlt, hout, rfl⟩
    refine ⟨UInt32.ofNat self.size, ⟨hvalid, (toNat_ofNat_of_lt hlt).symm⟩, (), ?_, ?_⟩
    · rw [toNat_ofNat_of_lt hlt, hout]
    · rw [fields_eq hvalid hlt, fill_put]
      exact ⟨self.length_image.trans hout, rfl⟩

/-- The transitions of a descriptor, read one after another. -/
theorem transitions_reads : (times GenerationTableTransitionV1.decode n).Reads bs transitions rest ↔
      bs = transitions.flatMap GenerationTableTransitionV1.image ++ rest ∧ transitions.length = n ∧
        ∀ transition ∈ transitions, transition.validateBasic = .ok () ∧ transition.CountsFit :=
  reads_times (fun _ _ _ => GenerationTableTransitionV1.decode_reads) n

theorem reader_reads :
    reader.Reads bs self rest ↔ bs = self.image ∧ rest = [] ∧ self.tableTransitions.length < UInt32.size ∧
      ∀ transition ∈ self.tableTransitions, transition.validateBasic = .ok () ∧ transition.CountsFit := by
  simp only [reader, reads_bind, reads_u16, reads_u8, reads_expect,
    reads_array, reads_u64, reads_u32, reads_remaining, reads_lift,
    refuse_eq_ok, GenerationPublicationFormV1.decode_ok, transitions_reads, reads_finish,
    reads_pure, existsAndEq, and_assoc, exists_const, true_and, not_not, not_lt,
    append_nil]
  constructor
  · rintro ⟨_, _, _, _, _, _, _, _, _, _, count, transitions, rfl, -, hcount, hgood, rfl, rfl⟩
    refine ⟨?_, rfl, hcount ▸ count.toNat_lt, hgood⟩
    simp [image, hcount]
  · rintro ⟨rfl, rfl, hlt, hgood⟩
    refine ⟨self.publicationForm, self.initialDatabaseRoot, self.catalogBeforeEpoch,
      self.catalogBeforeDigest, self.catalogAfterEpoch, self.catalogAfterDigest,
      self.stableTransactionId, self.commitSequence, self.runtimeGenerationInputDigest,
      self.finalDatabaseRoot, UInt32.ofNat self.tableTransitions.length, self.tableTransitions, rfl, ?_,
      (toNat_ofNat_of_lt hlt).symm, hgood, rfl, rfl⟩
    -- the geometry check never refuses an image: each transition takes at least its fixed part
    rw [toNat_ofNat_of_lt hlt, length_flatMap_image, Nat.le_div_iff_mul_le (by decide)]
    exact length_mul_le_transitionsSize _

/-- Every image of a valid descriptor of 32-bit length is accepted, and nothing else of that length. -/
theorem decode_ok (hlt : bs.length < UInt32.size) :
    decode bs = .ok self ↔ self.validate = .ok () ∧ bs = self.image := by
  rw [decode, on_check_ok]
  simp only [reader_reads]
  constructor
  · rintro ⟨⟨_, hbs, -⟩, hvalid⟩
    exact ⟨hvalid, hbs⟩
  · rintro ⟨hvalid, rfl⟩
    rw [self.length_image] at hlt
    obtain ⟨hcount, hfit⟩ := countsFit_of_size hlt
    have hbasic := validateBasic_of_validate hvalid
    exact ⟨⟨[], rfl, rfl, hcount, fun t ht => ⟨hbasic t ht, hfit t ht⟩⟩, hvalid⟩

end GenerationTerminalDescriptorV1

/-! ### Markers -/

def extensionImage (desc : GenerationTerminalDescriptorV1) : Bytes :=
  generationTerminalExtensionMagic ++ (u16ToLe generationTerminalExtensionVersion ++ ([0, 0] ++
    (u32ToLe (UInt32.ofNat desc.size) ++ desc.image)))

theorem length_extensionImage :
    (extensionImage desc).length = generationTerminalExtensionPrefixBytes + desc.size := by
  simp [extensionImage, generationTerminalExtensionPrefixBytes, desc.length_image]
  omega

theorem readTerminalExtension_reads : readTerminalExtension.Reads bs desc rest ↔
      bs = extensionImage desc ∧ rest = [] ∧ desc.size < UInt32.size ∧
        desc.validate = .ok () := by
  simp only [readTerminalExtension, reads_bind, reads_u16, reads_expect,
    reads_u32, reads_remaining, reads_lift, refuse_eq_ok, reads_take,
    reads_finish, reads_pure, existsAndEq, and_assoc, exists_const, true_and, not_not,
    append_nil]
  constructor
  · rintro ⟨count, body, rfl, hcount, -, hbody, rfl⟩
    obtain ⟨hvalid, rfl⟩ := (GenerationTerminalDescriptorV1.decode_ok (hcount ▸ count.toNat_lt)).mp hbody
    rw [desc.length_image] at hcount
    refine ⟨?_, rfl, hcount ▸ count.toNat_lt, hvalid⟩
    rw [extensionImage, hcount, UInt32.ofNat_toNat]
  · rintro ⟨rfl, rfl, hlt, hvalid⟩
    have hlen : desc.image.length = (UInt32.ofNat desc.size).toNat :=
      desc.length_image.trans (toNat_ofNat_of_lt hlt).symm
    refine ⟨UInt32.ofNat desc.size, desc.image, rfl, hlen, hlen, ?_, rfl⟩
    exact (GenerationTerminalDescriptorV1.decode_ok (hlen ▸ UInt32.toNat_lt _)).mpr ⟨hvalid, rfl⟩

namespace CanonicalTerminalMarker

def image : CanonicalTerminalMarker → Bytes
  | .legacy outcome => outcome.image
  | .generationV1 outcome desc => outcome.image ++ extensionImage desc

/-- The length of a descriptor fits its 32-bit field. -/
def LengthFits : CanonicalTerminalMarker → Prop
  | .legacy _ => True
  | .generationV1 _ desc => desc.size < UInt32.size

instance (self : CanonicalTerminalMarker) : Decidable self.LengthFits :=
  match self with
  | .legacy _ => .isTrue trivial
  | .generationV1 _ _ => inferInstanceAs (Decidable (_ < _))

def measure : CanonicalTerminalMarker → CanonicalTerminalMarkerMeasure
  | .legacy _ => { markerBytes := canonicalOutcomeBytes, descriptorBytes := none }
  | .generationV1 _ desc => {
      markerBytes := canonicalOutcomeBytes + generationTerminalExtensionPrefixBytes + desc.size
      descriptorBytes := some (UInt32.ofNat desc.size) }

theorem length_image (self : CanonicalTerminalMarker) : self.image.length = self.measure.markerBytes := by
  cases self with
  | legacy outcome => exact outcome.length_image
  | generationV1 outcome desc =>
    rw [image, length_append, outcome.length_image, length_extensionImage, measure, Nat.add_assoc]

theorem validate_outcome {self : CanonicalTerminalMarker} (h : self.validate = .ok ()) :
    self.outcome.validate = .ok () := by
  cases self with
  | legacy outcome => exact h
  | generationV1 outcome desc =>
    rw [validate, except_seq_ok] at h
    exact h.1

theorem validate_descriptor {outcome : CanonicalOutcome}
    (h : (generationV1 outcome desc).validate = .ok ()) : desc.validate = .ok () := by
  rw [validate, except_seq_ok, except_seq_ok, GenerationTerminalDescriptorV1.validateForOutcome, except_seq_ok] at h
  exact h.2.2.1

end CanonicalTerminalMarker

variable {marker : CanonicalTerminalMarker}

theorem measureCanonicalTerminalMarker_ok {measure : CanonicalTerminalMarkerMeasure} :
    measureCanonicalTerminalMarker marker = .ok measure ↔
      marker.validate = .ok () ∧ marker.LengthFits ∧ marker.measure = measure := by
  unfold measureCanonicalTerminalMarker
  rw [except_seq_ok]
  refine and_congr_right fun hvalid => ?_
  cases marker with
  | legacy outcome =>
    simp [CanonicalTerminalMarker.LengthFits, CanonicalTerminalMarker.measure, pure, Except.pure]
  | generationV1 outcome desc =>
    have hdescriptor := CanonicalTerminalMarker.validate_descriptor hvalid
    simp only [bind_ok, GenerationTerminalDescriptorV1.encodedLen_ok, pure, Except.pure,
      Except.ok.injEq, CanonicalTerminalMarker.LengthFits, CanonicalTerminalMarker.measure]
    constructor
    · rintro ⟨n, ⟨-, hsize⟩, rfl⟩
      rw [hsize, UInt32.ofNat_toNat]
      exact ⟨n.toNat_lt, rfl⟩
    · rintro ⟨hlt, rfl⟩
      have hsize := (toNat_ofNat_of_lt hlt).symm
      exact ⟨UInt32.ofNat desc.size, ⟨hdescriptor, hsize⟩, by rw [← hsize]⟩

/-- The extension is written right behind the outcome. -/
theorem writeTerminalExtension_eq (hvalid : desc.validate = .ok ()) (hlt : desc.size < UInt32.size)
    (hout : out.length = canonicalOutcomeBytes + generationTerminalExtensionPrefixBytes + desc.size) :
    writeTerminalExtension desc (UInt32.ofNat desc.size) out =
      .ok (overwrite out canonicalOutcomeBytes (extensionImage desc)) := by
  rw [generationTerminalExtensionPrefixBytes] at hout
  have hlen := desc.length_image
  simp only [writeTerminalExtension]
  -- from the innermost write outwards, each one starts where the one before it ended
  rw [@overwrite_overwrite out _ _ _ _ (by simp) (by simp; omega),
    @overwrite_overwrite out _ _ _ _ (by simp) (by simp; omega),
    @overwrite_overwrite out _ _ _ _ (by simp) (by simp; omega),
    drop_overwrite (by simp; omega) (by simp), bind_ok]
  refine ⟨desc.image, GenerationTerminalDescriptorV1.encodeInto_ok.mpr
    ⟨hvalid, hlt, by rw [length_drop]; omega, rfl⟩, ?_⟩
  rw [overwrite_overwrite (by simp) (by omega), extensionImage]
  simp only [append_assoc]
  rfl

/-- The marker encoder fills a buffer of the measured length with the marker's image. -/
theorem encodeCanonicalTerminalMarkerInto_ok : encodeCanonicalTerminalMarkerInto marker out = .ok bs ↔
      marker.validate = .ok () ∧ marker.LengthFits ∧ marker.image.length = out.length ∧ marker.image = bs := by
  have hreplicate : canonicalOutcomeBytes = (List.replicate canonicalOutcomeBytes (0 : UInt8)).length :=
    length_replicate.symm
  simp only [encodeCanonicalTerminalMarkerInto, bind_ok, measureCanonicalTerminalMarker_ok,
    refuse_eq_ok, not_not, encodeCanonicalOutcomeIntoExact, CanonicalOutcome.encodeInto_ok, existsAndEq,
    and_assoc, true_and, exists_const, ← marker.length_image, ← hreplicate]
  refine and_congr_right fun hvalid => and_congr_right fun hfits => ?_
  rw [eq_comm]
  refine and_congr_right fun hlen => ?_
  have houtcome := CanonicalTerminalMarker.validate_outcome hvalid
  simp only [houtcome, true_and]
  cases marker with
  | legacy outcome =>
    have hall : overwrite out 0 outcome.image = outcome.image := overwrite_all hlen
    show Except.ok (overwrite out 0 outcome.image) = Except.ok bs ↔ outcome.image = bs
    rw [hall, Except.ok.injEq]
  | generationV1 outcome desc =>
    have hdescriptor := CanonicalTerminalMarker.validate_descriptor hvalid
    have hsize : out.length = canonicalOutcomeBytes + generationTerminalExtensionPrefixBytes + desc.size :=
      hlen.symm.trans (CanonicalTerminalMarker.length_image (.generationV1 outcome desc))
    have hroom : 0 + outcome.image.length ≤ out.length := by
      rw [outcome.length_image, hsize]
      omega
    show writeTerminalExtension desc (UInt32.ofNat desc.size) (overwrite out 0 outcome.image) =
      .ok bs ↔ _
    rw [writeTerminalExtension_eq hdescriptor hfits (by rw [length_overwrite hroom, hsize]),
      overwrite_overwrite (by rw [outcome.length_image, Nat.zero_add])
        (by rw [length_extensionImage, hsize, Nat.add_assoc]), Except.ok.injEq]
    exact overwrite_all hlen ▸ Iff.rfl

/-- The marker decoder accepts exactly the images of valid markers. -/
theorem decodeCanonicalTerminalMarker_ok : decodeCanonicalTerminalMarker bs = .ok marker ↔
      marker.validate = .ok () ∧ marker.LengthFits ∧ bs = marker.image := by
  rw [decodeCanonicalTerminalMarker, except_seq_ok, refuse_eq_ok, bind_ok]
  constructor
  · rintro ⟨-, outcome, houtcome, hrest⟩
    obtain ⟨hvalid, htake⟩ := decodeCanonicalOutcomeExact_ok.mp houtcome
    split at hrest
    · rename_i hlen
      cases hrest
      rw [← hlen, take_length] at htake
      exact ⟨hvalid, trivial, htake⟩
    · simp only [bind_ok, on_eq_ok, readTerminalExtension_reads] at hrest
      obtain ⟨_, -, desc, ⟨_, hdrop, -, hlt, -⟩, _, hmarker, hself⟩ := hrest
      cases hself
      refine ⟨hmarker, hlt, ?_⟩
      rw [CanonicalTerminalMarker.image, ← htake, ← hdrop, take_append_drop]
  · rintro ⟨hvalid, hfits, rfl⟩
    have houtcome := CanonicalTerminalMarker.validate_outcome hvalid
    cases marker with
    | legacy outcome =>
      have hlen : outcome.image.length = canonicalOutcomeBytes := outcome.length_image
      refine ⟨hlen.symm.not_gt, outcome, decodeCanonicalOutcomeExact_ok.mpr ⟨houtcome, ?_⟩, if_pos hlen⟩
      exact take_of_length_le hlen.le
    | generationV1 outcome desc =>
      have hdescriptor := CanonicalTerminalMarker.validate_descriptor hvalid
      have hlen : (outcome.image ++ extensionImage desc).length = canonicalOutcomeBytes +
          (generationTerminalExtensionPrefixBytes + desc.size) := by
        rw [length_append, outcome.length_image, length_extensionImage]
      have htake : (outcome.image ++ extensionImage desc).take canonicalOutcomeBytes =
          outcome.image := take_left' outcome.length_image
      have hdrop : (outcome.image ++ extensionImage desc).drop canonicalOutcomeBytes =
          extensionImage desc := drop_left' outcome.length_image
      refine ⟨?_, outcome, decodeCanonicalOutcomeExact_ok.mpr ⟨houtcome, htake⟩, ?_⟩
      · rw [CanonicalTerminalMarker.image, hlen]
        omega
      · rw [CanonicalTerminalMarker.image, if_neg (by rw [hlen, generationTerminalExtensionPrefixBytes]; omega),
          hdrop]
        simp only [bind_ok, on_eq_ok, readTerminalExtension_reads, refuse_eq_ok,
          length_extensionImage]
        exact ⟨(), by omega, desc, ⟨[], rfl, rfl, hfits, hdescriptor⟩, (), hvalid, rfl⟩

end ThunderboltDb.Wal.Canonical
