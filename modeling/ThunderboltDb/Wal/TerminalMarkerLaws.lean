import ThunderboltDb.Wal.CanonicalRoundTrip

/-!
# What terminal markers promise

* `canonicalTerminalMarker_codec_bijective` — encoding and decoding are inverse on the markers that
  `measure` accepts; `valid_marker_without_encoding` is a valid marker that is too long for its length
  field;
* `validateGenerationEvolution_iff_law` — the merge walk over the indexes of a table is the law of each
  object on its own.
-/

namespace ThunderboltDb.Wal.Canonical

open Lib List GenerationTableTransitionV1

/-! ### The codec -/

/-- What `measure` accepts is exactly the valid markers whose descriptor fits its length field; each is
encoded at the measured length and decoded back, and every byte string that the decoder accepts is the
encoding of its result. -/
theorem canonicalTerminalMarker_codec_bijective (marker : CanonicalTerminalMarker) :
    ((∃ measure, measureCanonicalTerminalMarker marker = .ok measure) ↔
      marker.validate = .ok () ∧ marker.LengthFits) ∧
    (∀ measure, measureCanonicalTerminalMarker marker = .ok measure →
      ∀ out : Bytes, out.length = measure.markerBytes →
        ∃ bs, encodeCanonicalTerminalMarkerInto marker out = .ok bs ∧ bs.length = measure.markerBytes ∧
          decodeCanonicalTerminalMarker bs = .ok marker) ∧
    (∀ bs, decodeCanonicalTerminalMarker bs = .ok marker →
      ∀ out : Bytes, out.length = bs.length → encodeCanonicalTerminalMarkerInto marker out = .ok bs) ∧
    ∀ bs bs', decodeCanonicalTerminalMarker bs = .ok marker →
      decodeCanonicalTerminalMarker bs' = .ok marker → bs = bs' := by
  refine ⟨?_, ?_, ?_, ?_⟩
  · simp only [measureCanonicalTerminalMarker_ok, exists_and_left, exists_eq', and_true]
  · intro measure hmeasure out hout
    obtain ⟨hvalid, hfits, rfl⟩ := measureCanonicalTerminalMarker_ok.mp hmeasure
    have hlen := marker.length_image
    exact ⟨marker.image, encodeCanonicalTerminalMarkerInto_ok.mpr ⟨hvalid, hfits, hlen.trans hout.symm, rfl⟩,
      hlen,
      decodeCanonicalTerminalMarker_ok.mpr ⟨hvalid, hfits, rfl⟩⟩
  · intro bs hbs out hout
    obtain ⟨hvalid, hfits, rfl⟩ := decodeCanonicalTerminalMarker_ok.mp hbs
    exact encodeCanonicalTerminalMarkerInto_ok.mpr ⟨hvalid, hfits, hout.symm, rfl⟩
  · intro bs bs' hbs hbs'
    have himage := (decodeCanonicalTerminalMarker_ok.mp hbs).2.2
    exact himage.trans (decodeCanonicalTerminalMarker_ok.mp hbs').2.2.symm

/-! ### The evolution of generations -/

/-- The generation `generation` of an object obeys the law against the objects `before`: one that is
unchanged keeps its generation, one that is new or changed carries the commit sequence. -/
def GenerationLaw {α : Type} (commitSequence : UInt64) (before : List α) (unchanged : α → Prop)
    (generationOf : α → UInt64) (generation : UInt64) : Prop :=
  (∀ b ∈ before, unchanged b → generation = generationOf b) ∧
    ((∀ b ∈ before, ¬ unchanged b) → generation = commitSequence)

/-- The same index with the same content. -/
def GenerationIndexManifestV1.SameFacts (before after : GenerationIndexManifestV1) : Prop :=
  before.stableIndexId = after.stableIndexId ∧ before.indexRoot = after.indexRoot ∧
    before.indexShapeRoot = after.indexShapeRoot

/-- The same content of a table, indexes and their generations included. -/
def GenerationTableSideV1.SameFacts (before after : GenerationTableSideV1) : Prop :=
  before.tableRoot = after.tableRoot ∧ before.logicalRowCount = after.logicalRowCount ∧
    before.indexes = after.indexes

def AscendingIds (indexes : List GenerationIndexManifestV1) : Prop :=
  indexes.Pairwise fun a b => a.stableIndexId < b.stableIndexId

def IndexLaw (commitSequence : UInt64) (before : List GenerationIndexManifestV1)
    (index : GenerationIndexManifestV1) : Prop :=
  GenerationLaw commitSequence before (·.SameFacts index) (·.indexGeneration) index.indexGeneration

variable {commitSequence : UInt64} {α : Type} {indexes : List GenerationIndexManifestV1}

/-- Objects that are no predecessor of the object do not matter to the law. -/
theorem GenerationLaw.append_left {skipped before : List α} {unchanged : α → Prop}
    {generationOf : α → UInt64} {generation : UInt64} (h : ∀ b ∈ skipped, ¬ unchanged b) :
    GenerationLaw commitSequence (skipped ++ before) unchanged generationOf generation ↔
      GenerationLaw commitSequence before unchanged generationOf generation := by
  simp only [GenerationLaw, mem_append, or_imp, forall_and]
  constructor
  · rintro ⟨⟨-, hkeep⟩, hnew⟩
    exact ⟨hkeep, fun hb => hnew ⟨h, hb⟩⟩
  · rintro ⟨hkeep, hnew⟩
    exact ⟨⟨fun b hb hu => absurd hu (h b hb), hkeep⟩, fun hb => hnew hb.2⟩

/-- An object without an unchanged predecessor carries the commit sequence. -/
theorem GenerationLaw.of_none {before : List α} {unchanged : α → Prop}
    {generationOf : α → UInt64} {generation : UInt64} (h : ∀ b ∈ before, ¬ unchanged b) :
    GenerationLaw commitSequence before unchanged generationOf generation ↔ generation = commitSequence :=
  ⟨fun hlaw => hlaw.2 h, fun heq => ⟨fun b hb hu => absurd hu (h b hb), fun _ => heq⟩⟩

/-- The merge walk checks the law of every index of the new side. -/
theorem validateIndexEvolution_ok {before after : List GenerationIndexManifestV1}
    (hbefore : AscendingIds before) (hafter : AscendingIds after) :
    validateIndexEvolution commitSequence before after = .ok () ↔
      ∀ index ∈ after, IndexLaw commitSequence before index := by
  induction after generalizing before with
  | nil => simp [validateIndexEvolution]
  | cons index after ih =>
    obtain ⟨hfirst, hafter⟩ := pairwise_cons.mp hafter
    -- the skipped ids are smaller than every id that is still to come
    have hskip : ∀ i ∈ index :: after, IndexLaw commitSequence before i ↔ IndexLaw commitSequence
          (before.dropWhile fun b => b.stableIndexId < index.stableIndexId) i := by
      intro i hi
      conv_lhs => rw [← @takeWhile_append_dropWhile _ (fun b => b.stableIndexId < index.stableIndexId) before]
      refine GenerationLaw.append_left fun b hb hsame => ?_
      have hlt : b.stableIndexId < index.stableIndexId := by
        simpa using mem_takeWhile_imp hb
      rcases mem_cons.mp hi with rfl | hi
      · exact UInt64.ne_of_lt hlt hsame.1
      · exact UInt64.ne_of_lt (UInt64.lt_trans hlt (hfirst i hi)) hsame.1
    have hrest := hbefore.sublist (dropWhile_sublist fun b => b.stableIndexId < index.stableIndexId)
    have hhead := head?_dropWhile_not
      (fun b : GenerationIndexManifestV1 => decide (b.stableIndexId < index.stableIndexId)) before
    rw [forall₂_congr hskip, forall_mem_cons, validateIndexEvolution]
    generalize before.dropWhile (fun b => b.stableIndexId < index.stableIndexId) = remaining at hrest hhead
    have hnew : (∀ b ∈ remaining, ¬ b.SameFacts index) →
        (IndexLaw commitSequence remaining index ↔ index.indexGeneration = commitSequence) :=
      GenerationLaw.of_none
    cases remaining with
    | nil =>
      simp only [except_seq_ok, generationMatchesCommit, refuse_eq_ok, not_not, ih hrest hafter,
        hnew (forall_mem_nil _)]
    | cons b rest =>
      have hge : ¬ b.stableIndexId < index.stableIndexId := by simpa using hhead
      obtain ⟨hb, hrest'⟩ := pairwise_cons.mp hrest
      by_cases hid : b.stableIndexId = index.stableIndexId
      · -- the old version of the index is consumed; it is no predecessor of any later one
        have hlater : ∀ i ∈ rest, ¬ i.SameFacts index := fun i hi hsame =>
          UInt64.ne_of_lt (hb i hi) (hid.trans hsame.1.symm)
        have hafterwards : (∀ i ∈ after, IndexLaw commitSequence (b :: rest) i) ↔
            validateIndexEvolution commitSequence rest after = .ok () := by
          rw [ih hrest' hafter]
          refine forall₂_congr fun i hi => @GenerationLaw.append_left commitSequence _ [b] rest _ _ _
            fun b' hb' hsame => ?_
          rw [mem_singleton.mp hb'] at hsame
          exact UInt64.ne_of_lt (hfirst i hi) (hid.symm.trans hsame.1)
        rw [hafterwards]
        by_cases hfacts : b.indexRoot = index.indexRoot ∧ b.indexShapeRoot = index.indexShapeRoot
        · have hlaw : IndexLaw commitSequence (b :: rest) index ↔ index.indexGeneration = b.indexGeneration := by
            constructor
            · exact fun h => h.1 b mem_cons_self ⟨hid, hfacts⟩
            · refine fun h => ⟨fun i hi hsame => ?_, fun h => absurd ⟨hid, hfacts⟩ (h b mem_cons_self)⟩
              rcases mem_cons.mp hi with rfl | hi
              · exact h
              · exact absurd hsame (hlater i hi)
          simp [hid, hfacts, hlaw, except_seq_ok]
        · have hnone : ∀ i ∈ b :: rest, ¬ i.SameFacts index :=
            forall_mem_cons.mpr ⟨fun hsame => hfacts hsame.2, hlater⟩
          simp [hid, hfacts, hnew hnone, except_seq_ok, generationMatchesCommit]
      · -- the ids that remain are all greater: the index is new
        have hlt : index.stableIndexId < b.stableIndexId :=
          UInt64.lt_of_le_of_ne (UInt64.not_lt.mp hge) (Ne.symm hid)
        have hnone : ∀ i ∈ b :: rest, ¬ i.SameFacts index := by
          refine forall_mem_cons.mpr ⟨fun hsame => hid hsame.1, fun i hi hsame => ?_⟩
          exact UInt64.ne_of_lt (UInt64.lt_trans hlt (hb i hi)) hsame.1.symm
        simp [hid, hnew hnone, ih hrest hafter, except_seq_ok, generationMatchesCommit]

theorem tableManifestFactsUnchanged_iff {before after : GenerationTableSideV1} :
    tableManifestFactsUnchanged before after = true ↔ before.SameFacts after := by
  have hindexes : before.indexes = after.indexes ↔ before.indexes.length = after.indexes.length ∧
      ∀ p ∈ before.indexes.zip after.indexes, p.1 = p.2 := by
    rw [← forall₂_eq_eq_eq, forall₂_iff_zip, Prod.forall]
  have hmanifest : ∀ a b : GenerationIndexManifestV1, a = b ↔ a.stableIndexId = b.stableIndexId ∧
      a.indexShapeRoot = b.indexShapeRoot ∧ a.indexGeneration = b.indexGeneration ∧
        a.indexRoot = b.indexRoot := fun ⟨_, _, _, _⟩ ⟨_, _, _, _⟩ => by
    rw [GenerationIndexManifestV1.mk.injEq]
  rw [GenerationTableSideV1.SameFacts, hindexes]
  simp only [tableManifestFactsUnchanged, Bool.and_eq_true, beq_iff_eq, all_eq_true, hmanifest, and_assoc]

theorem except_forM_ok {ε : Type} {as : List α} {f : α → Except ε Unit} :
    forM as f = .ok () ↔ ∀ a ∈ as, f a = .ok () := by
  induction as with
  | nil => simp [pure, Except.pure]
  | cons a as ih => rw [forM_cons, except_seq_ok, ih, forall_mem_cons]

theorem validatePriorGenerations_ok {transition : GenerationTableTransitionV1} :
    transition.validatePriorGenerations commitSequence = .ok () ↔ ∀ before ∈ transition.before,
      before.dataGeneration < commitSequence ∧
        ∀ index ∈ before.indexes, index.indexGeneration < commitSequence := by
  obtain ⟨kind, id, before, after⟩ := transition
  cases before with
  | none => simp [validatePriorGenerations]
  | some before =>
    simp [validatePriorGenerations, except_seq_ok, except_forM_ok,
      generationPrecedesCommit]

/-- **The evolution check is the per-object law.**  Only which objects there are matters, not where they
stand. -/
theorem validateGenerationEvolution_iff_law (transition : GenerationTableTransitionV1)
    (commitSequence : UInt64) (hbefore : ∀ side ∈ transition.before, AscendingIds side.indexes)
    (hafter : ∀ side ∈ transition.after, AscendingIds side.indexes) :
    transition.validateGenerationEvolution commitSequence = .ok () ↔
      (∀ before ∈ transition.before, before.dataGeneration < commitSequence ∧
        ∀ index ∈ before.indexes, index.indexGeneration < commitSequence) ∧
      ∀ after ∈ transition.after,
        GenerationLaw commitSequence transition.before.toList (·.SameFacts after) (·.dataGeneration)
          after.dataGeneration ∧
        ∀ index ∈ after.indexes, IndexLaw commitSequence (transition.before.elim [] (·.indexes)) index := by
  obtain ⟨kind, id, before, after⟩ := transition
  rw [validateGenerationEvolution, except_seq_ok, validatePriorGenerations_ok]
  refine and_congr_right fun _ => ?_
  cases after with
  | none => simp
  | some after =>
    replace hafter := hafter after rfl
    simp only [Option.mem_some_iff, forall_eq']
    cases before with
    | none =>
      simp only [except_seq_ok, Option.map_none, Option.getD_none,
        validateIndexEvolution_ok List.Pairwise.nil hafter]
      simp [GenerationLaw, generationMatchesCommit]
    | some before =>
      have hwalk := @validateIndexEvolution_ok commitSequence _ _ (hbefore before rfl) hafter
      simp only [Option.map_some, Option.getD_some, Option.elim_some, Option.toList_some, ← hwalk]
      by_cases hsame : before.SameFacts after
      · rw [if_pos (tableManifestFactsUnchanged_iff.mpr hsame)]
        simp [except_seq_ok, GenerationLaw, hsame]
      · rw [if_neg (mt tableManifestFactsUnchanged_iff.mp hsame)]
        simp [except_seq_ok, GenerationLaw, hsame, generationMatchesCommit]

/-! ### A valid marker that has no encoding -/

/-- Manifest of the index `id`, new in commit 1. -/
def plainIndex (id : ℕ) : GenerationIndexManifestV1 where
  stableIndexId := UInt64.ofNat id
  indexShapeRoot := List.Vector.replicate 32 1
  indexGeneration := 1
  indexRoot := List.Vector.replicate 32 1

/-- Ascending ids are accepted behind any smaller one. -/
theorem validateIndexes_plainIndex {previous : Option UInt64} {k : ℕ} (n : ℕ) (hk : 0 < k)
    (hn : k + n ≤ UInt64.size) (hprevious : ∀ p ∈ previous, p.toNat < k) :
    validateIndexes previous ((range' k n).map plainIndex) = .ok () := by
  induction n generalizing previous k with
  | zero => rfl
  | succ n ih =>
    have hid : (UInt64.ofNat k).toNat = k := UInt64.toNat_ofNat_of_lt' (by omega)
    have hne : UInt64.ofNat k ≠ 0 := fun h => by
      rw [h] at hid
      exact hk.ne hid
    have hvalid : (plainIndex k).validate = .ok () := by
      rw [GenerationIndexManifestV1.validate, except_seq_ok]
      exact ⟨refuse_eq_ok.mpr hne, rfl⟩
    rw [range'_succ, map_cons, validateIndexes, hvalid, except_ok_bind, except_seq_ok, refuse_eq_ok]
    refine ⟨?_, ih (by omega) (by omega) fun p hp => ?_⟩
    · cases previous with
      | none => exact Bool.false_ne_true
      | some p =>
        have hlt := hprevious p rfl
        simp only [notBelow, decide_eq_true_eq, UInt64.le_iff_toNat_le, plainIndex, hid]
        omega
    · cases hp
      exact hid.trans_lt (Nat.lt_succ_self k)

theorem validateIndexEvolution_new {commitSequence : UInt64}
    (h : ∀ index ∈ indexes, index.indexGeneration = commitSequence) :
    validateIndexEvolution commitSequence [] indexes = .ok () := by
  induction indexes with
  | nil => rfl
  | cons index indexes ih =>
    obtain ⟨hindex, hindexes⟩ := forall_mem_cons.mp h
    simp [validateIndexEvolution, generationMatchesCommit, except_seq_ok, hindex, ih hindexes]

def createsTable (indexes : List GenerationIndexManifestV1) : GenerationTableTransitionV1 where
  kind := .createEmpty
  stableTableId := 1
  before := none
  after := some
    { dataGeneration := 1, tableRoot := List.Vector.replicate 32 1, logicalRowCount := 0, indexes }

/-- Commit 2 keeps index 1, changes the root of index 2, drops index 3 and creates index 4. -/
def evolvesTable : GenerationTableTransitionV1 where
  kind := .rebuild
  stableTableId := 1
  before := some
    { dataGeneration := 1, tableRoot := List.Vector.replicate 32 1, logicalRowCount := 0
      indexes := [plainIndex 1, plainIndex 2, plainIndex 3] }
  after := some
    { dataGeneration := 2, tableRoot := List.Vector.replicate 32 2, logicalRowCount := 0
      indexes := [plainIndex 1,
        { plainIndex 2 with indexRoot := List.Vector.replicate 32 2, indexGeneration := 2 },
        { plainIndex 4 with indexGeneration := 2 }] }

theorem evolvesTable_follows_law : evolvesTable.validateGenerationEvolution 2 = .ok () ∧
    ∀ side ∈ evolvesTable.after, side.indexes.length = 3 ∧
      ∀ index ∈ side.indexes, IndexLaw 2 [plainIndex 1, plainIndex 2, plainIndex 3] index := by
  have hlaw := validateGenerationEvolution_iff_law evolvesTable 2 (by simp [evolvesTable, AscendingIds, plainIndex])
    (by simp [evolvesTable, AscendingIds, plainIndex])
  have hok : evolvesTable.validateGenerationEvolution 2 = .ok () := by decide
  refine ⟨hok, fun side hside => ⟨?_, ((hlaw.mp hok).2 side hside).2⟩⟩
  cases hside
  rfl

theorem validate_createsTable (hindexes : validateIndexes none indexes = .ok ())
    (hnew : validateIndexEvolution 1 [] indexes = .ok ()) :
    (CanonicalTerminalMarker.generationV1 sampleOutcome
      { sampleDescriptor with tableTransitions := [createsTable indexes] }).validate = .ok () := by
  have htransition : (createsTable indexes).validate 1 = .ok () := except_seq_ok.mpr ⟨hindexes, hnew⟩
  have htransitions : validateTransitions 1 none [createsTable indexes] = .ok () :=
    except_seq_ok.mpr ⟨htransition, rfl⟩
  have hdescriptor : (validateTransitions 1 none [createsTable indexes] >>= fun _ => .ok ()) =
      (.ok () : Except EngineError Unit) := except_seq_ok.mpr ⟨htransitions, rfl⟩
  exact except_seq_ok.mpr ⟨rfl, except_seq_ok.mpr ⟨rfl, except_seq_ok.mpr ⟨hdescriptor, rfl⟩⟩⟩

/-- The descriptor length is a 32-bit field, and `validate` does not bound the indexes. -/
theorem valid_marker_without_encoding : ∃ marker : CanonicalTerminalMarker,
    marker.validate = .ok () ∧ ∀ out bs, encodeCanonicalTerminalMarkerInto marker out ≠ .ok bs := by
  obtain ⟨n, hn, hlarge⟩ : ∃ n, 1 + n ≤ UInt64.size ∧ UInt32.size ≤ 80 * n :=
    ⟨2 ^ 26, by norm_num [UInt64.size], by norm_num [UInt32.size]⟩
  refine ⟨.generationV1 sampleOutcome { sampleDescriptor with
    tableTransitions := [createsTable ((range' 1 n).map plainIndex)] }, ?_, ?_⟩
  · have hindexes := @validateIndexes_plainIndex none 1 n Nat.one_pos hn nofun
    refine validate_createsTable hindexes (validateIndexEvolution_new fun index hmem => ?_)
    obtain ⟨id, -, rfl⟩ := mem_map.mp hmem
    rfl
  · intro out bs h
    have hfits := (encodeCanonicalTerminalMarkerInto_ok.mp h).2.1
    simp only [CanonicalTerminalMarker.LengthFits, createsTable, GenerationTerminalDescriptorV1.size,
      transitionsSize, size, sideIndexes, generationIndexManifestBytes,
      map_cons, sum_cons, Option.map_some, Option.getD_some, length_map,
      length_range'] at hfits
    omega

end ThunderboltDb.Wal.Canonical
