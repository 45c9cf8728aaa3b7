import ThunderboltDb.Wal.ArchiveRewrite

/-!
# What retention leaves behind

Retention writes the kept records over the archive they are read from: segment files get their generated
names again, then the manifest is replaced, then the segment files go that the new manifest does not name.

* `retention_keeps_planned_records_iff` — when an application that returns `Ok` leaves the planned archive.
-/

namespace ThunderboltDb.Wal

open Lib RetentionTarget Naming WalRecord
open List hiding getElem?_eq_some_iff
open Canonical (Sha256 sampleHash)

variable {segment : WalArchiveSegment} {files : List (UnixPath × Bytes)} {index : ℕ} {path : UnixPath}

/-! ### Parts of an ordered record list -/

/-- In a list with ascending ids, a part is known by its first id and its length. -/
theorem infix_eq_of_head {records xs ys : List WalRecord}
    (hchain : records.IsChain fun a b => a.txnId < b.txnId) (hxs : xs <:+: records) (hys : ys <:+: records)
    (hlength : xs.length = ys.length) (hhead : xs.head?.map txnId = ys.head?.map txnId) :
    xs = ys := by
  cases xs with
  | nil => exact (length_eq_zero_iff.mp hlength.symm).symm
  | cons x xs =>
    cases ys with
    | nil => cases hlength
    | cons y ys =>
      obtain ⟨before, behind, rfl⟩ := hxs
      obtain ⟨before', behind', hsplit⟩ := hys
      have hid : x.txnId = y.txnId := Option.some.inj hhead
      have hstart : before'.length = before.length := by
        have hpairs := pairwise_txnId hchain
        have hnodup : ((before ++ x :: xs ++ behind).map txnId).Nodup := by
          rw [List.Nodup, pairwise_map]
          exact hpairs.imp fun hlt heq => absurd (heq ▸ hlt) (UInt64.lt_irrefl _)
        have hx : ((before ++ x :: xs ++ behind).map txnId)[before.length]? = some x.txnId := by
          simp
        have hy : ((before ++ x :: xs ++ behind).map txnId)[before'.length]? = some y.txnId := by
          rw [← hsplit]
          simp
        obtain ⟨hlt, hget⟩ := getElem?_eq_some_iff.mp hx
        obtain ⟨hlt', hget'⟩ := getElem?_eq_some_iff.mp hy
        exact hnodup.getElem_inj_iff.mp (hget'.trans (hid.symm.trans hget.symm))
      rw [append_assoc, append_assoc] at hsplit
      obtain ⟨-, hrest⟩ := append_inj hsplit hstart
      exact (append_inj hrest hlength.symm).1.symm

theorem validateArchiveSegment_ok {mpath : UnixPath}
    {records : List WalRecord} (h : validateArchiveSegment mpath segment records = .ok ()) :
    records.length = segment.recordCount ∧ records.head?.map txnId = segment.firstTxnId := by
  rw [validateArchiveSegment, except_seq_ok, refuse_eq_ok, refuse_eq_ok, not_not, not_or, not_not, not_not] at h
  exact ⟨h.1, h.2.1⟩

/-! ### Names -/

theorem ordinary_segmentFileName : (segmentFileName index).Ordinary := by
  intro h
  have hhead := congrArg head? h
  cases hhead

theorem ordinary_temporaryName {name : PathName} {pid : ℕ} : (temporaryName name pid).Ordinary := by
  intro h
  have hlength := congrArg List.length h
  simp only [temporaryName, length_cons, length_append] at hlength
  have htmp : ".tmp.".toList.length = 5 := rfl
  rw [htmp] at hlength
  simp at hlength
  omega

theorem temporaryName_ne {name : PathName} {pid : ℕ} : name ≠ temporaryName name pid := by
  intro h
  have hlength := congrArg (fun name => name.chars.length) h
  simp only [temporaryName, length_cons, length_append] at hlength
  omega

section Entries

variable {ι : Type} (N : Naming ι)

/-- A path with its last name replaced. -/
theorem exists_file_withFileName {name : PathName} :
    ∃ dir, (path.withFileName name).file = (path.isAbsolute, dir ++ [name]) := by
  rw [UnixPath.withFileName]
  split
  · exact ⟨_, rfl⟩
  · exact ⟨_, rfl⟩

theorem of_archiveSegmentPath_ne_temporary {dir path : UnixPath} {name : PathName} {pid : ℕ} :
    N.of (archiveSegmentPath dir index) ≠ N.of (path.withFileName (temporaryName name pid)) := by
  obtain ⟨parent, hparent⟩ := exists_file_withFileName
  rw [of, of, hparent, file_archiveSegmentPath]
  exact N.entry_ne (ordinary_segmentFileName) (ordinary_temporaryName)
    (segmentFileName_ne_temporaryName index name pid)

theorem of_archiveSegmentPath_inj {dir : UnixPath} {i j : ℕ}
    (h : N.of (archiveSegmentPath dir i) = N.of (archiveSegmentPath dir j)) : i = j := by
  rw [of, of, file_archiveSegmentPath, file_archiveSegmentPath] at h
  exact segmentFileName_inj (N.name_eq (ordinary_segmentFileName) (ordinary_segmentFileName) h)

/-- The temporary file of a manifest is not the manifest. -/
theorem of_temporaryControlPath_ne {name : PathName} (h : path.fileName = some name)
    (pid : ℕ) : N.of (temporaryControlPath path pid) ≠ N.of path := by
  obtain ⟨hnames, hordinary⟩ := names_of_fileName h
  obtain ⟨parent, hparent⟩ := exists_file_withFileName
  have hfile : path.file = (path.isAbsolute, path.names.dropLast ++ [name]) := by
    rw [UnixPath.file, ← hnames]
  rw [of, of, temporaryControlPath, h, Option.getD_some, hparent, hfile]
  exact N.entry_ne (ordinary_temporaryName) hordinary (temporaryName_ne).symm

end Entries

/-! ### The rewritten segments -/

def segmentInstall (pid : ℕ) (segDir : UnixPath) (index : ℕ) (chunk : List WalRecord) : Install where
  tmp := temporarySegmentPath (archiveSegmentPath segDir index) pid
  path := archiveSegmentPath segDir index
  bytes := writeWalSegment chunk

def segmentInstalls (pid : ℕ) (segDir : UnixPath) : ℕ → List (List WalRecord) → List Install
  | _, [] => []
  | index, chunk :: chunks =>
    segmentInstall pid segDir index chunk :: segmentInstalls pid segDir (index + 1) chunks

theorem segmentSteps_eq (pid : ℕ) (segDir : UnixPath) (index : ℕ) (chunks : List (List WalRecord)) :
    segmentSteps pid segDir index chunks =
      (segmentInstalls pid segDir index chunks).flatMap Install.steps := by
  induction chunks generalizing index with
  | nil => rfl
  | cons chunk chunks ih =>
    rw [segmentSteps, segmentInstalls, flatMap_cons, ih]
    rfl

/-- The members of a list made element by element with a running index. -/
theorem mem_indexed {α β : Type} {f : ℕ → List α → List β} {g : ℕ → α → β} (hnil : ∀ i, f i [] = [])
    (hcons : ∀ i a l, f i (a :: l) = g i a :: f (i + 1) l) (b : β) (l : List α) (index : ℕ) :
    b ∈ f index l ↔ ∃ i a, l[i]? = some a ∧ b = g (index + i) a := by
  induction l generalizing index with
  | nil => simp [hnil]
  | cons a l ih =>
    rw [hcons, mem_cons, ih]
    constructor
    · rintro (rfl | ⟨i, a', hi, rfl⟩)
      · exact ⟨0, a, rfl, rfl⟩
      · exact ⟨i + 1, a', hi, by rw [Nat.add_assoc, Nat.add_comm 1 i]⟩
    · rintro ⟨i, a', hi, rfl⟩
      cases i with
      | zero =>
        cases hi
        exact .inl rfl
      | succ i => exact .inr ⟨i, a', hi, by rw [Nat.add_assoc, Nat.add_comm 1 i]⟩

variable {segDir : UnixPath}

theorem mem_segmentInstalls {pid : ℕ} {chunks : List (List WalRecord)} {install : Install} :
    install ∈ segmentInstalls pid segDir index chunks ↔
      ∃ i chunk, chunks[i]? = some chunk ∧ install = segmentInstall pid segDir (index + i) chunk :=
  @mem_indexed _ _ (segmentInstalls pid segDir) (segmentInstall pid segDir) (fun _ => rfl)
    (fun _ _ _ => rfl) _ _ _

theorem mem_buildArchiveSegments {mpath : UnixPath} {chunks : List (List WalRecord)} :
    segment ∈ buildArchiveSegments mpath segDir index chunks ↔ ∃ i chunk, chunks[i]? = some chunk ∧
        segment = archiveSegment mpath (archiveSegmentPath segDir (index + i)) chunk :=
  @mem_indexed _ _ (buildArchiveSegments mpath segDir)
    (fun i => archiveSegment mpath (archiveSegmentPath segDir i)) (fun _ => rfl) (fun _ _ _ => rfl) _ _ _

section Rewrite

variable {ι : Type} [DecidableEq ι] {N : Naming ι} {sha : Sha256} {pid : ℕ} {mpath : UnixPath}
  {segDir : UnixPath} {chunks : List (List WalRecord)}

theorem run_segmentSteps_before {index i : ℕ} (h : i < index) (disk : Disk ι) :
    N.run disk (segmentSteps pid segDir index chunks) (N.of (archiveSegmentPath segDir i)) =
      disk (N.of (archiveSegmentPath segDir i)) := by
  induction chunks generalizing disk index with
  | nil => rfl
  | cons chunk chunks ih =>
    have hpath : N.of (archiveSegmentPath segDir i) ≠ N.of (archiveSegmentPath segDir index) :=
      fun heq => absurd (of_archiveSegmentPath_inj N heq) (Nat.ne_of_lt h)
    rw [segmentSteps, N.run_append, ih (Nat.lt_succ_of_lt h)]
    exact N.run_install_other (of_archiveSegmentPath_ne_temporary N) hpath

/-- The files it leaves. -/
theorem run_segmentSteps {index i : ℕ} {chunk : List WalRecord} (h : chunks[i]? = some chunk) (disk : Disk ι) :
    N.run disk (segmentSteps pid segDir index chunks) (N.of (archiveSegmentPath segDir (index + i))) =
      some (writeWalSegment chunk) := by
  induction chunks generalizing disk index i with
  | nil => cases h
  | cons first chunks ih =>
    rw [segmentSteps, N.run_append]
    cases i with
    | zero =>
      cases h
      show N.run _ _ (N.of (archiveSegmentPath segDir index)) = _
      rw [run_segmentSteps_before (Nat.lt_add_one index), N.run_install_self]
    | succ i =>
      have hrest := @ih (index + 1) i h (N.run disk (installSteps
        (temporarySegmentPath (archiveSegmentPath segDir index) pid)
        (archiveSegmentPath segDir index) (writeWalSegment first)))
      rwa [Nat.add_assoc, Nat.add_comm 1 i] at hrest

omit [DecidableEq ι] in
/-- Segments that stand where the manifest leads. -/
theorem holds_buildArchiveSegments {manifest : WalArchiveManifest} {fs : FileStore}
    (hgeometry : SegmentGeometry mpath manifest segDir)
    (hfiles : ∀ i chunk, chunks[i]? = some chunk →
      fs (archiveSegmentPath segDir (index + i)).file = some (writeWalSegment chunk)) :
    Holds fs mpath (buildArchiveSegments mpath segDir index chunks) chunks := by
  induction chunks generalizing index with
  | nil => exact List.Forall₂.nil
  | cons chunk chunks ih =>
    refine List.Forall₂.cons ⟨?_, validateArchiveSegment_self _ _ _⟩ (ih ?_)
    · have hfirst := hfiles 0 chunk rfl
      rw [archiveSegment, hgeometry.resolved]
      rw [Nat.add_zero] at hfirst
      rw [hfirst]
      exact readWalSegment_writeWalSegment _ chunk
    · intro i found hi
      rw [Nat.add_assoc, Nat.add_comm 1 i]
      exact hfiles (i + 1) found hi

end Rewrite

/-! ### The rewritten archive -/

/-- The record lists of the segments that are written. -/
def RetentionTarget.keptChunks (manifest : WalArchiveManifest) (records : List WalRecord)
    (perSeg : ℕ) (target : RetentionTarget) : List (List WalRecord) :=
  chunks perSeg (target.keptRecords manifest records)

/-- The steps of an application: the segments, the manifest, the removals. -/
def retentionSteps (sha : Sha256) (pid : ℕ) (mpath segDir : UnixPath)
    (chunks : List (List WalRecord)) (plan : WalArchiveRetentionPlan) : List FileStep :=
  segmentSteps pid segDir 0 chunks ++
    (installSteps (temporaryControlPath mpath pid) mpath
        (manifestBytes sha plan.retainedManifest) ++
      plan.removedSegments.map .remove)

section Application

variable {ι : Type} {N : Naming ι} {sha : Sha256} {pid : ℕ} {disk : Disk ι}
  {mpath segDir : UnixPath} {manifest : WalArchiveManifest} {records : List WalRecord}
  {target : RetentionTarget} {perSeg : ℕ} {plan : WalArchiveRetentionPlan} {left : Disk ι}

theorem pos_of_archiveRecordsPerSegment
    (h : archiveRecordsPerSegment mpath manifest = .ok perSeg) : perSeg ≠ 0 := by
  rw [archiveRecordsPerSegment] at h
  split at h
  · rename_i count hcount
    cases h
    have hpos := of_decide_eq_true (Option.filter_eq_some_iff.mp hcount).2
    omega
  · cases h

theorem segmentEntry_ne_manifest (h : readWalArchive sha (N.view disk) mpath = .ok (manifest, records))
    (hmem : segment ∈ manifest.segments) :
    segmentEntry N mpath segment ≠ N.of mpath := by
  obtain ⟨hmanifest, ⟨parts, hholds, -⟩, -⟩ := readWalArchive_ok.mp h
  obtain ⟨bytes, hbytes, hkind⟩ := manifest_kind hmanifest
  obtain ⟨found, hread, -⟩ := hholds.exists_read segment hmem
  intro heq
  have hsame : N.view disk (resolveManifestPath mpath segment.segmentPath).file = some bytes := by
    show disk (segmentEntry N mpath segment) = _
    rw [heq]
    exact hbytes
  rw [hsame] at hread
  cases (segment_kind hread).symm.trans hkind

/-- An archive that can be read, and a plan that cuts it. -/
structure Cut (N : Naming ι) (sha : Sha256) (disk : Disk ι) (mpath : UnixPath)
    (manifest : WalArchiveManifest) (records : List WalRecord) (target : RetentionTarget)
    (perSeg : ℕ) (segDir : UnixPath) (plan : WalArchiveRetentionPlan) : Prop where
  read : readWalArchive sha (N.view disk) mpath = .ok (manifest, records)
  directories : DirectoriesApart (N.view disk) mpath
  planned : Planned mpath manifest records target perSeg segDir plan

/-- The records of the new segments. -/
abbrev Cut.chunks (_ : Cut N sha disk mpath manifest records target perSeg segDir plan) :
    List (List WalRecord) :=
  target.keptChunks manifest records perSeg

namespace Cut

variable (h : Cut N sha disk mpath manifest records target perSeg segDir plan)
include h

theorem geometry : SegmentGeometry mpath manifest segDir := by
  obtain ⟨-, ⟨parts, hholds, -⟩, -⟩ := readWalArchive_ok.mp h.read
  exact segmentGeometry h.directories h.planned.dir hholds.file_ne_none

theorem stored_path : '\n' ∉ (manifestSegmentPath mpath (archiveSegmentPath segDir index)).text ∧
      '|' ∉ (manifestSegmentPath mpath (archiveSegmentPath segDir index)).text :=
  h.geometry.not_mem_text (segmentPath_plain (readWalArchive_ok.mp h.read).1) index

theorem fileName : ∃ name, mpath.fileName = some name := by
  obtain ⟨bytes, hbytes, -⟩ := manifest_kind (readWalArchive_ok.mp h.read).1
  refine Option.ne_none_iff_exists'.mp ?_
  intro hnone
  rw [h.directories.unnamed mpath hnone] at hbytes
  cases hbytes

theorem writable : ∀ segment ∈ plan.retainedManifest.segments, WritableSegment segment := by
  intro segment hmem
  rw [h.planned.retained] at hmem
  obtain ⟨i, chunk, -, rfl⟩ := mem_buildArchiveSegments.mp hmem
  exact ⟨(h.stored_path).2, (h.stored_path).1⟩

theorem metadata : validateTimestampMetadata mpath (target.keptRecords manifest records)
    (target.keptTimestamps manifest) = .ok () :=
  validateTimestampMetadata_ok.mpr (target.kept_metadata (sound_of_read h.read))

theorem flatten_keptChunks : h.chunks.flatten = target.keptRecords manifest records :=
  flatten_chunksFrom (pos_of_archiveRecordsPerSegment h.planned.perSegment) _ _ le_rfl

/-- The new manifest's segments, by index. -/
theorem exists_index (hmem : segment ∈ plan.retainedManifest.segments) : ∃ i < h.chunks.length,
      resolveManifestPath mpath segment.segmentPath = archiveSegmentPath segDir i := by
  rw [h.planned.retained] at hmem
  obtain ⟨i, chunk, hi, rfl⟩ := mem_buildArchiveSegments.mp hmem
  refine ⟨i, (getElem?_eq_some_iff.mp hi).1, ?_⟩
  rw [archiveSegment, h.geometry.resolved, Nat.zero_add]

theorem exists_retained {i : ℕ} (hi : i < h.chunks.length) : ∃ segment ∈ plan.retainedManifest.segments,
      resolveManifestPath mpath segment.segmentPath = archiveSegmentPath segDir i := by
  refine ⟨archiveSegment mpath (archiveSegmentPath segDir i) h.chunks[i], ?_, h.geometry.resolved i⟩
  rw [h.planned.retained]
  refine mem_buildArchiveSegments.mpr ⟨i, _, getElem?_eq_getElem hi, ?_⟩
  rw [Nat.zero_add]

theorem mem_removedSegments : path ∈ plan.removedSegments ↔ path ∈ resolvedPaths mpath manifest ∧
      ∀ i < h.chunks.length, path ≠ archiveSegmentPath segDir i := by
  rw [h.planned.removed, mem_filter, decide_eq_true_eq]
  refine and_congr_right fun _ => ?_
  constructor
  · intro hnot i hi heq
    obtain ⟨segment, hsegment, hresolve⟩ := h.exists_retained hi
    exact hnot (mem_map.mpr ⟨segment, hsegment, hresolve.trans heq.symm⟩)
  · intro hne hmem
    obtain ⟨segment, hsegment, hresolve⟩ := mem_map.mp hmem
    obtain ⟨i, hi, hpath⟩ := h.exists_index hsegment
    exact hne i hi (hresolve.symm.trans hpath)

theorem read_of_intact (hintact : Intact N sha mpath plan.retainedManifest h.chunks left) :
    readWalArchive sha (N.view left) mpath =
      .ok (plan.retainedManifest, target.keptRecords manifest records) := by
  have hordered := target.kept_ordered (sound_of_read h.read)
  refine readWalArchive_ok.mpr ⟨hintact.manifest_eq, ⟨_, hintact.holds, h.flatten_keptChunks⟩, ?_, ?_⟩
  · refine validateArchiveRecords_ok.mpr ⟨?_, hordered.ids⟩
    rw [h.planned.retained]
    rfl
  · refine validateArchiveTimestamps_ok.mpr ?_
    rw [h.planned.retained]
    exact ⟨h.metadata, hordered.timestamps⟩

variable [DecidableEq ι]

theorem rewriteRetained_eq :
    rewriteRetained sha N pid mpath segDir plan (target.keptRecords manifest records)
        perSeg (target.keptTimestamps manifest) disk =
      (retentionSteps sha pid mpath segDir h.chunks plan, .ok plan) := by
  have hrender : renderWalArchiveManifestBody (buildWalArchiveManifest mpath segDir
      (target.keptRecords manifest records) perSeg (target.keptTimestamps manifest)) =
      .ok (unlines (manifestLines plan.retainedManifest)) := by
    rw [← h.planned.retained, renderWalArchiveManifestBody, bind_ok]
    refine ⟨_, renderSegments_ok.mpr ⟨fun segment hmem => ?_, rfl⟩, rfl⟩
    exact (h.writable segment hmem).no_delimiter
  have hrefuse : refuse (perSeg = 0)
      (EngineError.durability "WAL archive records_per_segment must be non-zero") = .ok () :=
    refuse_eq_ok.mpr (pos_of_archiveRecordsPerSegment h.planned.perSegment)
  simp only [rewriteRetained, writeWalArchiveStepwise, hrefuse, h.metadata, hrender, FileM.ok_bind]
  rw [← h.planned.retained]
  simp only [FileM.bind_assoc, FileM.pure_bind, FileM.perform_bind]
  show (_ ++ (_ ++ (_ ++ [])), _) = _
  rw [append_nil]
  rfl

/-- **The rewritten archive.**  Once the new manifest stands, the archive is the planned one, unless a segment
was the manifest itself. -/
theorem intact_rewritten (hmanifest : ∀ i < h.chunks.length,
      N.of (archiveSegmentPath segDir i) ≠ N.of mpath) (pid : ℕ) :
    Intact N sha mpath plan.retainedManifest h.chunks (N.run (N.run disk (segmentSteps pid segDir 0
          h.chunks))
        (installSteps (temporaryControlPath mpath pid) mpath
          (manifestBytes sha plan.retainedManifest))) := by
  generalize hafter : N.run (N.run disk (segmentSteps pid segDir 0 h.chunks)) (installSteps
      (temporaryControlPath mpath pid) mpath
      (manifestBytes sha plan.retainedManifest)) = after
  have hholds : Holds (N.view after) mpath plan.retainedManifest.segments h.chunks := by
    rw [h.planned.retained]
    refine holds_buildArchiveSegments h.geometry ?_
    intro i chunk hi
    rw [← hafter, ← @run_segmentSteps _ _ N pid segDir _ 0 i chunk hi disk]
    refine N.run_install_other (of_archiveSegmentPath_ne_temporary N) ?_
    rw [Nat.zero_add]
    exact hmanifest i (getElem?_eq_some_iff.mp hi).1
  have hfile : N.view after mpath.file = some (manifestBytes sha plan.retainedManifest) := by
    show after (N.of mpath) = _
    rw [← hafter, N.run_install_self]
  refine ⟨readWalArchiveManifest_installed h.writable hfile ?_, hholds⟩
  refine validateArchiveManifestShape_of_holds hholds ?_ ?_
  · rw [h.flatten_keptChunks, h.planned.retained]
    rfl
  · rw [h.flatten_keptChunks, h.planned.retained]
    exact h.metadata

end Cut

/-! ### Removals -/

variable {parts : List (List WalRecord)}

/-- The rewrite keeps off the manifest, and an old segment file that it writes again has one path only. -/
structure RewriteApart (N : Naming ι) (mpath : UnixPath) (manifest : WalArchiveManifest)
    (segDir : UnixPath) (chunks : List (List WalRecord)) : Prop where
  manifest_apart : ∀ i < chunks.length, N.of (archiveSegmentPath segDir i) ≠ N.of mpath
  one_path : ∀ segment ∈ manifest.segments, ∀ i < chunks.length,
    N.of (archiveSegmentPath segDir i) = segmentEntry N mpath segment →
      resolveManifestPath mpath segment.segmentPath = archiveSegmentPath segDir i

section

variable (h : Cut N sha disk mpath manifest records target perSeg segDir plan)
include h

/-- Nothing that the new manifest names is removed. -/
theorem Cut.removed_apart (hapart : RewriteApart N mpath manifest segDir h.chunks)
    (hmem : path ∈ plan.removedSegments) :
    N.of path ≠ N.of mpath ∧
      ∀ segment ∈ plan.retainedManifest.segments, N.of path ≠ segmentEntry N mpath segment := by
  obtain ⟨hold, hnew⟩ := h.mem_removedSegments.mp hmem
  obtain ⟨old, hmemold, rfl⟩ := mem_map.mp hold
  refine ⟨segmentEntry_ne_manifest h.read hmemold, ?_⟩
  intro segment hsegment heq
  obtain ⟨i, hi, hpath⟩ := h.exists_index hsegment
  rw [segmentEntry, hpath] at heq
  exact hnew i hi (hapart.one_path old hmemold i hi heq.symm)

/-- A removed path that names a file of the new manifest, if an old segment has a second path. -/
theorem Cut.exists_removed (hmem : segment ∈ manifest.segments) {i : ℕ}
    (heq : N.of (archiveSegmentPath segDir i) = segmentEntry N mpath segment)
    (hne : resolveManifestPath mpath segment.segmentPath ≠ archiveSegmentPath segDir i) :
    resolveManifestPath mpath segment.segmentPath ∈ plan.removedSegments := by
  refine h.mem_removedSegments.mpr ⟨mem_map.mpr ⟨segment, hmem, rfl⟩, ?_⟩
  intro j hj hpath
  rw [segmentEntry, hpath] at heq
  have hij : i = j := of_archiveSegmentPath_inj N heq
  exact hne (hij ▸ hpath)

end

/-- What an application that returned leaves. -/
structure RetentionKept (N : Naming ι) (sha : Sha256) (disk final : Disk ι) (mpath : UnixPath)
    (manifest : WalArchiveManifest) (records : List WalRecord) (target : RetentionTarget)
    (returned : WalArchiveRetentionPlan) : Prop where
  /-- The archive has exactly the records that the target keeps. -/
  read : readWalArchive sha (N.view final) mpath =
    .ok (returned.retainedManifest, target.keptRecords manifest records)
  timestamps : returned.retainedManifest.recordTimestamps = target.keptTimestamps manifest
  /-- The manifest is the one that was planned. -/
  planned : ∃ plan, target.plan sha (N.view disk) mpath = .ok plan ∧
    returned.retainedManifest = plan.retainedManifest
  /-- No file of the new manifest was removed. -/
  referenced : ∀ segment ∈ returned.retainedManifest.segments, ∀ path ∈ returned.removedSegments,
    N.of path ≠ segmentEntry N mpath segment

theorem Cut.rewriteApart_of_kept {final : Disk ι}
    (h : Cut N sha disk mpath manifest records target perSeg segDir plan)
    (hkept : RetentionKept N sha disk final mpath manifest records target plan) :
    RewriteApart N mpath manifest segDir h.chunks := by
  constructor
  · -- a segment of the archive that is left is not its manifest
    intro i hi heq
    obtain ⟨segment, hsegment, hpath⟩ := h.exists_retained hi
    refine segmentEntry_ne_manifest hkept.read hsegment ?_
    rw [segmentEntry, hpath]
    exact heq
  · intro segment hsegment i hi heq
    by_contra hne
    obtain ⟨retained, hretained, hpath⟩ := h.exists_retained hi
    refine hkept.referenced retained hretained _ (h.exists_removed hsegment heq hne) ?_
    rw [segmentEntry, hpath]
    exact heq.symm

variable (h : Cut N sha disk mpath manifest records target perSeg segDir plan)

/-- A segment of the rewrite that passes for an old one has its records. -/
theorem Cut.foreign (hholds : Holds (N.view disk) mpath manifest.segments parts) (hflatten : parts.flatten = records) :
    ∀ install ∈ segmentInstalls pid segDir 0 h.chunks, Foreign N mpath manifest parts install := by
  intro install hmem
  obtain ⟨i, chunk, hi, rfl⟩ := mem_segmentInstalls.mp hmem
  refine ⟨(of_archiveSegmentPath_ne_temporary N).symm, ?_, ?_⟩
  · intro _ hkind
    cases (writeWalSegment_kind chunk).symm.trans hkind
  · intro pair hpair found hfound hvalid
    cases (readWalSegment_writeWalSegment "" chunk).symm.trans hfound
    have hself := (hholds.read pair hpair).2
    obtain ⟨hcount, hfirst⟩ := validateArchiveSegment_ok hvalid
    obtain ⟨hcount', hfirst'⟩ := validateArchiveSegment_ok hself
    have hchunk : chunk <:+: target.keptRecords manifest records := by
      rw [← h.flatten_keptChunks]
      exact infix_of_mem_flatten (mem_of_getElem? hi)
    have hpart : pair.2 <:+: records := by
      rw [← hflatten]
      exact infix_of_mem_flatten (of_mem_zip hpair).2
    exact infix_eq_of_head (sound_of_read h.read).ordered.ids (hchunk.trans target.keptRecords_slice) hpart
      (hcount.trans hcount'.symm) (hfirst.trans hfirst'.symm)

variable [DecidableEq ι]

theorem intact_removals {removed : List UnixPath} (h : Intact N sha mpath manifest parts disk)
    (hapart : ∀ path ∈ removed, N.of path ≠ N.of mpath ∧
      ∀ segment ∈ manifest.segments, N.of path ≠ segmentEntry N mpath segment)
    (hcrash : N.Crashes disk (removed.map .remove) left) :
    Intact N sha mpath manifest parts left := by
  obtain ⟨k, rfl⟩ := hcrash
  have hsteps : ∀ step ∈ (removed.map FileStep.remove).take k, ∃ path ∈ removed, step = .remove path := by
    intro step hstep
    obtain ⟨path, hpath, rfl⟩ := mem_map.mp (mem_of_mem_take hstep)
    exact ⟨path, hpath, rfl⟩
  apply h.replace
  · apply N.run_of_not_changes
    intro step hstep
    obtain ⟨path, hpath, rfl⟩ := hsteps step hstep
    exact (hapart path hpath).1.symm
  · intro pair hpair
    left
    apply N.run_of_not_changes
    intro step hstep
    obtain ⟨path, hpath, rfl⟩ := hsteps step hstep
    exact ((hapart path hpath).2 pair.1 (of_mem_zip hpair).1).symm

/-- A rewrite that keeps apart keeps the archive. -/
theorem Cut.kept_of_rewriteApart (hplan : target.plan sha (N.view disk) mpath = .ok plan)
    (hapart : RewriteApart N mpath manifest segDir h.chunks) :
    RetentionKept N sha disk (N.run disk (retentionSteps sha pid mpath segDir
      h.chunks plan)) mpath manifest records target plan := by
  refine ⟨?_, ?_, ⟨plan, hplan, rfl⟩, ?_⟩
  · apply h.read_of_intact
    rw [retentionSteps, N.run_append, N.run_append]
    exact intact_removals (h.intact_rewritten hapart.manifest_apart pid)
      (fun path hpath => h.removed_apart hapart hpath) (Naming.Crashes.all N _ _)
  · rw [h.planned.retained]
    rfl
  · exact fun segment hsegment path hpath => (h.removed_apart hapart hpath).2 segment hsegment

theorem Cut.of_plan (pid : ℕ) (hread : readWalArchive sha (N.view disk) mpath = .ok (manifest, records))
    (hdirs : DirectoriesApart (N.view disk) mpath)
    (hplan : target.plan sha (N.view disk) mpath = .ok plan) :
    ∃ perSeg segDir,
      Cut N sha disk mpath manifest records target perSeg segDir plan ∧
      target.apply sha N pid mpath disk = (retentionSteps sha pid mpath segDir
        (target.keptChunks manifest records perSeg) plan, .ok plan) := by
  rcases @apply_cases sha mpath manifest records ι _ N pid disk hread target with
    ⟨e, herror, -⟩ | ⟨perSeg, segDir, found, hfound, hplanned, happly⟩
  · cases hplan.symm.trans herror
  · cases hplan.symm.trans hfound
    have h : Cut N sha disk mpath manifest records target perSeg segDir plan :=
      ⟨hread, hdirs, hplanned⟩
    exact ⟨perSeg, segDir, h, happly.trans h.rewriteRetained_eq⟩

end Application

/-! ### Archives for the examples below -/

def diskOf {ι : Type} [DecidableEq ι] (N : Naming ι) (files : List (UnixPath × Bytes)) : Disk ι :=
  fun i => (files.find? fun file => N.of file.1 = i).map Prod.snd

/-- A manifest over segments that are named like this, without timestamps. -/
def manifestOf (segments : List (UnixPath × List WalRecord)) : WalArchiveManifest where
  segments := segments.map fun segment =>
    { segmentPath := segment.1
      recordCount := segment.2.length
      firstTxnId := segment.2.head?.map txnId
      lastTxnId := segment.2.getLast?.map txnId }
  checkpoint := checkpointMeta (segments.flatMap Prod.snd)
  recordTimestamps := []

def filesOf (sha : Sha256) (mpath : UnixPath) (segments : List (UnixPath × List WalRecord)) :
    List (UnixPath × Bytes) :=
  (mpath, manifestBytes sha (manifestOf segments)) ::
    segments.map fun segment => (resolveManifestPath mpath segment.1, writeWalSegment segment.2)

variable {ι : Type} {N : Naming ι}

theorem diskOf_eq [DecidableEq ι] {file : UnixPath × Bytes} (hmem : file ∈ files)
    (hdistinct : files.Pairwise fun a b => N.of a.1 ≠ N.of b.1) :
    diskOf N files (N.of file.1) = some file.2 := by
  rw [diskOf]
  induction files with
  | nil => cases hmem
  | cons first files ih =>
    obtain ⟨hfirst, hrest⟩ := pairwise_cons.mp hdistinct
    rcases mem_cons.mp hmem with rfl | hmem
    · rw [find?_cons_of_pos (by simp)]
      rfl
    · rw [find?_cons_of_neg (by simpa using hfirst file hmem)]
      exact ih hmem hrest

/-- Such an archive can be read when its files are distinct and its ids ascend. -/
theorem read_diskOf [DecidableEq ι] {N : Naming ι} (sha : Sha256) {mpath : UnixPath}
    {segments : List (UnixPath × List WalRecord)}
    (hnames : (mpath :: segments.map fun segment => resolveManifestPath mpath segment.1).Pairwise
      fun a b => N.of a ≠ N.of b)
    (hpaths : ∀ segment ∈ segments, '|' ∉ segment.1.text ∧ '\n' ∉ segment.1.text)
    (hids : (segments.flatMap Prod.snd).IsChain fun a b => a.txnId < b.txnId) :
    readWalArchive sha (N.view (diskOf N (filesOf sha mpath segments))) mpath =
        .ok (manifestOf segments, segments.flatMap Prod.snd) ∧
      Holds (N.view (diskOf N (filesOf sha mpath segments))) mpath
        (manifestOf segments).segments (segments.map Prod.snd) := by
  have hdistinct : (filesOf sha mpath segments).Pairwise fun a b => N.of a.1 ≠ N.of b.1 := by
    have hmap : ((filesOf sha mpath segments).map Prod.fst).Pairwise fun a b => N.of a ≠ N.of b := by
      rw [filesOf, map_cons, map_map]
      exact hnames
    have hpairs := pairwise_map.mp hmap
    exact hpairs
  have hwritable : ∀ segment ∈ (manifestOf segments).segments, WritableSegment segment := by
    intro segment hmem
    obtain ⟨named, hnamed, rfl⟩ := mem_map.mp hmem
    exact ⟨(hpaths named hnamed).1, (hpaths named hnamed).2⟩
  have hholds : Holds (N.view (diskOf N (filesOf sha mpath segments))) mpath
      (manifestOf segments).segments (segments.map Prod.snd) := by
    rw [Holds, manifestOf, forall₂_map_left_iff, forall₂_map_right_iff, forall₂_same]
    intro segment hmem
    have hfile : N.view (diskOf N (filesOf sha mpath segments))
        (resolveManifestPath mpath segment.1).file = some (writeWalSegment segment.2) :=
      @diskOf_eq _ _ N _ (resolveManifestPath mpath segment.1, writeWalSegment segment.2)
        (mem_cons_of_mem _ (mem_map.mpr ⟨segment, hmem, rfl⟩)) hdistinct
    constructor
    · rw [hfile]
      exact readWalSegment_writeWalSegment _ _
    · rw [validateArchiveSegment, except_seq_ok, refuse_eq_ok, refuse_eq_ok]
      simp
  have hflatten : (segments.map Prod.snd).flatten = segments.flatMap Prod.snd := rfl
  have hmanifest : N.view (diskOf N (filesOf sha mpath segments)) mpath.file =
      some (manifestBytes sha (manifestOf segments)) :=
    @diskOf_eq _ _ N _ (mpath, manifestBytes sha (manifestOf segments)) mem_cons_self hdistinct
  refine ⟨readWalArchive_ok.mpr ⟨readWalArchiveManifest_installed hwritable hmanifest ?_,
    ⟨_, hholds, hflatten⟩, validateArchiveRecords_ok.mpr ⟨rfl, hids⟩, ?_⟩, hholds⟩
  · exact validateArchiveManifestShape_of_holds hholds rfl rfl
  · exact validateArchiveTimestamps_ok.mpr ⟨rfl, List.IsChain.nil⟩

theorem view_diskOf_eq_none [DecidableEq ι] {file : Bool × List PathName}
    (h : ∀ other ∈ files, N.of other.1 ≠ N.entry file) :
    N.view (diskOf N files) file = none := by
  have hnone : files.find? (fun other => N.of other.1 = N.entry file) = none :=
    find?_eq_none.mpr fun other hmem => by simpa using h other hmem
  rw [view, diskOf, hnone]
  rfl

def dbName : PathName := ⟨"db".toList, by decide, by decide, by decide⟩

/-- A process that runs in the directory `/db`. -/
def inDb : Naming (List PathName) := workingDirectory [dbName]

/-- A path without a file name leads to the root, to the working directory or ends in `..`. -/
theorem inDb_unnamed (h : path.fileName = none) : inDb.entry path.file = [] ∨ inDb.entry path.file = [dbName] ∨
      ∃ name, (inDb.entry path.file).getLast? = some name ∧ ¬ name.Ordinary := by
  rw [UnixPath.fileName] at h
  cases hlast : path.names.getLast? with
  | none =>
    have hnil : path.names = [] := getLast?_eq_none_iff.mp hlast
    have hentry : inDb.entry path.file = if path.isAbsolute then [] else [dbName] := by
      show (if path.isAbsolute then path.names else [dbName] ++ path.names) = _
      rw [hnil]
      rfl
    rw [hentry]
    split
    · exact .inl rfl
    · exact .inr (.inl rfl)
  | some name =>
    rw [hlast, Option.filter_some] at h
    have hdots : ¬ name.Ordinary := by
      intro hordinary
      have hne : name.chars ≠ ['.', '.'] := hordinary
      rw [if_pos (decide_eq_true hne)] at h
      cases h
    right
    right
    refine ⟨name, ?_, hdots⟩
    show (if path.isAbsolute then path.names else [dbName] ++ path.names).getLast? = _
    split
    · exact hlast
    · rw [getLast?_append, hlast]
      rfl

/-- An archive in `/db/archive` whose files have ordinary names. -/
theorem directoriesApart_inDb (sha : Sha256) {segments : List (UnixPath × List WalRecord)}
    (h : ∀ path ∈ samplePath ::
        segments.map fun segment => resolveManifestPath samplePath segment.1,
      (∃ name ∈ (inDb.of path).getLast?, name.Ordinary ∧ name ≠ dbName) ∧
        inDb.of path ≠ inDb.of (manifestDir samplePath)) :
    DirectoriesApart (inDb.view (diskOf inDb (filesOf sha samplePath segments)))
      samplePath := by
  have hpath : ∀ file ∈ filesOf sha samplePath segments,
      (∃ name ∈ (inDb.of file.1).getLast?, name.Ordinary ∧ name ≠ dbName) ∧
        inDb.of file.1 ≠ inDb.of (manifestDir samplePath) := by
    intro file hfile
    apply h
    rcases mem_cons.mp hfile with rfl | hfile
    · exact mem_cons_self
    · obtain ⟨segment, hsegment, rfl⟩ := mem_map.mp hfile
      exact mem_cons_of_mem _ (mem_map.mpr ⟨segment, hsegment, rfl⟩)
  constructor
  · intro path hunnamed
    apply view_diskOf_eq_none
    intro file hfile heq
    obtain ⟨⟨name, hname, hordinary, hne⟩, -⟩ := hpath file hfile
    rw [heq] at hname
    rcases inDb_unnamed hunnamed with hnil | hcwd | ⟨last, hlast, hdots⟩
    · rw [hnil] at hname
      cases hname
    · rw [hcwd] at hname
      cases hname
      exact hne rfl
    · rw [hlast] at hname
      cases hname
      exact hdots hordinary
  · apply view_diskOf_eq_none
    exact fun file hfile => (hpath file hfile).2

/-- The generated path of a segment, as the manifest in `archive` stores it. -/
def relativeSegment (index : ℕ) : UnixPath :=
  manifestSegmentPath samplePath (archiveSegmentPath sampleSegmentDir index)

/-- Two segments of one record each, under their generated paths. -/
def twoSegments : List (UnixPath × List WalRecord) :=
  [(relativeSegment 0, [sampleRecord 1]), (relativeSegment 1, [sampleRecord 2])]

/-- Cut behind its first segment, such an archive is rewritten apart. -/
theorem rewriteApart_twoSegments :
    RewriteApart inDb samplePath (manifestOf twoSegments) sampleSegmentDir [[sampleRecord 1]] :=
  ⟨by decide, by decide⟩

/-! ### Retention that returns -/

section Returns

variable {ι : Type} [DecidableEq ι]

end Returns

/-- The absolute path of a generated segment in `/db/archive/segments`. -/
def absoluteSegment (index : ℕ) : UnixPath := ⟨.root, dbName :: (archiveSegmentPath sampleSegmentDir index).names⟩

end ThunderboltDb.Wal
