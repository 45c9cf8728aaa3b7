import ThunderboltDb.Wal.ArchiveRetention

/-!
# An archive while files are installed around it

Archive files come in kinds that no file has two of: a file that the segment reader accepts is no manifest.
So an installed file leaves an archive readable exactly when it keeps off the archive's files or puts the
same records back.
-/

namespace ThunderboltDb.Wal

open Lib Function UnixPath
open List hiding getElem?_eq_some_iff
open Canonical (Sha256)

variable {fs : FileStore} {path : UnixPath} {segments : List WalArchiveSegment} {bytes : Bytes}
  {sha : Sha256} {manifest : WalArchiveManifest}

/-! ### Kinds of files -/

/-- A text whose first line is `magic` has the bytes of `magic` in front. -/
theorem start_of_head_line {text magic : List Char} (htext : utf8Text bytes = some text)
    (hline : (textLines text).head? = some magic) : utf8Bytes magic <+: bytes := by
  obtain ⟨rest, rfl⟩ := head?_textLines hline
  rw [← utf8Bytes_of_utf8Text htext, utf8Bytes_append]
  exact prefix_append _ _

theorem getElem?_of_start {α : Type} {as bs : List α} {i : ℕ} {a : α} (h : as <+: bs)
    (hi : as[i]? = some a) : bs[i]? = some a := by
  obtain ⟨rest, rfl⟩ := h
  rw [getElem?_append_left (getElem?_eq_some_iff.mp hi).1, hi]

/-- Both manifest formats have an `A` behind `GPUDBWAL`. -/
theorem manifest_kind (h : readWalArchiveManifest sha fs path = .ok manifest) :
    ∃ bytes, fs path.file = some bytes ∧ bytes[8]? = some 65 := by
  rw [readWalArchiveManifest] at h
  split at h
  · cases h
  · rename_i bytes hfile
    refine ⟨bytes, hfile, ?_⟩
    split at h
    · cases h
    · rename_i text htext
      obtain ⟨body, hbody, -⟩ := bind_ok.mp h
      rw [manifestBody] at hbody
      split at hbody
      · rename_i magic hmagic
        have hpre := start_of_head_line htext hmagic
        split at hbody
        · rename_i heq
          subst heq
          exact getElem?_of_start hpre (by decide)
        · split at hbody
          · rename_i heq
            subst heq
            exact getElem?_of_start hpre (by decide)
          · cases hbody
      · cases hbody

/-- Segments have a `1` there. -/
theorem segment_kind {path : String} {records : List WalRecord}
    (h : readWalSegment path (some bytes) = .ok records) : bytes[8]? = some 49 := by
  rw [readWalSegment] at h
  simp only at h
  split at h
  · cases h
  · split at h
    · cases h
    · rename_i hmagic
      have hpre : walSegmentMagic <+: bytes := prefix_iff_eq_take.mpr (not_not.mp hmagic).symm
      exact getElem?_of_start hpre (by decide)

theorem writeWalSegment_kind (records : List WalRecord) : (writeWalSegment records)[8]? = some 49 :=
  segment_kind (readWalSegment_writeWalSegment "" records)

theorem manifestBytes_kind (sha : Sha256) (manifest : WalArchiveManifest) :
    (manifestBytes sha manifest)[8]? = some 65 := by
  have hpre : utf8Bytes walArchiveManifestMagic <+: manifestBytes sha manifest := by
    rw [manifestBytes, appendSha256Trailer]
    show _ <+: utf8Bytes (walArchiveManifestMagic ++ _)
    rw [utf8Bytes_append]
    exact prefix_append _ _
  exact getElem?_of_start hpre (by decide)

/-! ### The paths that a manifest holds -/

theorem not_mem_of_mem_splitOn {cs piece : List Char} {sep : Char} (h : piece ∈ cs.splitOn sep) : sep ∉ piece := by
  induction cs generalizing piece with
  | nil =>
    rw [splitOn_nil, mem_singleton] at h
    rw [h]
    exact not_mem_nil
  | cons c cs ih =>
    rw [splitOn_cons_eq_if_modifyHead] at h
    split at h
    · rcases mem_cons.mp h with rfl | hrest
      · exact not_mem_nil
      · exact ih hrest
    · rename_i hne
      cases hsplit : cs.splitOn sep with
      | nil => exact absurd hsplit (splitOn_ne_nil sep cs)
      | cons first rest =>
        rw [hsplit, modifyHead_cons] at h
        rcases mem_cons.mp h with rfl | hrest
        · rw [mem_cons, not_or]
          refine ⟨fun heq => hne (beq_iff_eq.mpr heq.symm), ?_⟩
          exact ih (hsplit ▸ mem_cons_self)
        · exact ih (hsplit ▸ mem_cons_of_mem _ hrest)

/-- A name that a manifest line can hold. -/
def Plain (name : PathName) : Prop := '\n' ∉ name.chars ∧ '|' ∉ name.chars

theorem parseSegment_plain {raw : List Char} {segment : WalArchiveSegment}
    (h : parseSegment raw path = .ok segment) (hraw : '\n' ∉ raw) :
    ∀ name ∈ segment.segmentPath.names, Plain name := by
  rw [parseSegment] at h
  cases hsplit : raw.splitOn '|' with
  | nil => exact absurd hsplit (splitOn_ne_nil _ _)
  | cons piece pieces =>
    rw [hsplit] at h
    obtain ⟨found, hfound, h⟩ := bind_ok.mp h
    cases hfound
    obtain ⟨count, -, h⟩ := bind_ok.mp h
    obtain ⟨recordCount, -, h⟩ := bind_ok.mp h
    obtain ⟨first, -, h⟩ := bind_ok.mp h
    obtain ⟨firstTxnId, -, h⟩ := bind_ok.mp h
    obtain ⟨last, -, h⟩ := bind_ok.mp h
    obtain ⟨lastTxnId, -, h⟩ := bind_ok.mp h
    obtain ⟨-, h⟩ := except_seq_ok.mp h
    cases h
    intro name hname
    have hpiece : piece ∈ raw.splitOn '|' := hsplit ▸ mem_cons_self
    constructor
    · exact fun hc => hraw (mem_of_mem_splitOn hpiece (mem_of_mem_names_ofText hname hc))
    · exact fun hc => not_mem_of_mem_splitOn hpiece (mem_of_mem_names_ofText hname hc)

theorem parseControlValue_some {line : List Char} {key : String} {value : List Char}
    (h : parseControlValue (some line) key path = .ok value) : controlKey key ++ value = line := by
  rw [parseControlValue] at h
  split at h
  · rename_i hpre
    cases h
    exact isPrefixOf?_eq_some_iff_append_eq.mp hpre
  · cases h

theorem parseSegments_plain {n : ℕ} {lines rest : List (List Char)}
    (h : parseSegments path n lines = .ok (segments, rest))
    (hlines : ∀ line ∈ lines, '\n' ∉ line) :
    ∀ segment ∈ segments, ∀ name ∈ segment.segmentPath.names, Plain name := by
  induction n generalizing lines segments with
  | zero =>
    cases h
    intro segment hmem
    cases hmem
  | succ n ih =>
    rw [parseSegments] at h
    cases lines with
    | nil => cases h
    | cons line lines =>
      obtain ⟨hline, hlines⟩ := forall_mem_cons.mp hlines
      simp only [nextLine] at h
      obtain ⟨raw, hraw, h⟩ := bind_ok.mp h
      obtain ⟨segment, hsegment, h⟩ := bind_ok.mp h
      obtain ⟨⟨others, behind⟩, hothers, h⟩ := bind_ok.mp h
      cases h
      rw [forall_mem_cons]
      refine ⟨parseSegment_plain hsegment ?_, ih hothers hlines⟩
      intro hmem
      rw [← parseControlValue_some hraw] at hline
      exact hline (mem_append_right _ hmem)

/-- Segment paths come from lines cut at the delimiter. -/
theorem segmentPath_plain (h : readWalArchiveManifest sha fs path = .ok manifest) :
    ∀ segment ∈ manifest.segments, ∀ name ∈ segment.segmentPath.names, Plain name := by
  rw [readWalArchiveManifest] at h
  split at h
  · cases h
  · split at h
    · cases h
    · obtain ⟨body, -, h⟩ := bind_ok.mp h
      obtain ⟨parsed, hparsed, h⟩ := bind_ok.mp h
      obtain ⟨-, h⟩ := except_seq_ok.mp h
      cases h
      rw [parseManifest] at hparsed
      have hall : ∀ line ∈ textLines body, '\n' ∉ line := fun line hmem => newline_not_mem_textLines hmem
      have hnext : ∀ {lines : List (List Char)}, (∀ line ∈ lines, '\n' ∉ line) →
          ∀ line ∈ (nextLine lines).2, '\n' ∉ line := by
        intro lines hlines
        cases lines with
        | nil => exact hlines
        | cons line lines => exact (forall_mem_cons.mp hlines).2
      obtain ⟨-, hparsed⟩ := except_seq_ok.mp hparsed
      iterate 6 obtain ⟨_, -, hparsed⟩ := bind_ok.mp hparsed
      obtain ⟨⟨segments, rest⟩, hsegments, hparsed⟩ := bind_ok.mp hparsed
      obtain ⟨timestamps, -, hparsed⟩ := bind_ok.mp hparsed
      cases hparsed
      exact parseSegments_plain hsegments (hnext (hnext (hnext (hnext hall))))

/-! ### Where retention puts its segments -/

/-- Directories are no files: no path without a file name is one, and the manifest's directory is none. -/
structure DirectoriesApart (fs : FileStore) (mpath : UnixPath) : Prop where
  unnamed : ∀ path : UnixPath, path.fileName = none → fs path.file = none
  manifestDir : fs (manifestDir mpath).file = none

theorem archiveSegmentPath_eq (dir : UnixPath) (index : ℕ) :
    archiveSegmentPath dir index = ⟨dir.start, dir.names ++ [segmentFileName index]⟩ := by
  rw [archiveSegmentPath, join]
  split
  · rename_i h
    rcases h with h | rfl
    · cases h
    · rfl
  · rfl

theorem names_stripPrefix {self base rest : UnixPath} (h : stripPrefix self base = some rest) :
    ∀ name ∈ rest.names, name ∈ self.names := by
  rw [stripPrefix] at h
  split at h
  · cases h
    exact fun name hname => hname
  · split at h
    · obtain ⟨names, hnames, rfl⟩ := Option.map_eq_some_iff.mp h
      rw [← isPrefixOf?_eq_some_iff_append_eq.mp hnames]
      exact fun name hname => mem_append_right _ hname
    · cases h

variable {name : PathName}

theorem names_of_fileName (h : path.fileName = some name) :
    path.names = path.names.dropLast ++ [name] ∧ name.Ordinary := by
  obtain ⟨hlast, hname⟩ := Option.filter_eq_some_iff.mp h
  obtain ⟨init, hinit⟩ := getLast?_eq_some_iff.mp hlast
  refine ⟨by rw [hinit, dropLast_concat], ?_⟩
  have hne : name.chars ≠ ['.', '.'] := of_decide_eq_true hname
  exact hne

/-- The directory that retention writes to, seen from the manifest. -/
structure SegmentGeometry (mpath : UnixPath) (manifest : WalArchiveManifest) (segDir : UnixPath) :
    Prop where
  resolved : ∀ i, resolveManifestPath mpath
    (manifestSegmentPath mpath (archiveSegmentPath segDir i)) = archiveSegmentPath segDir i
  names : ∀ i, ∀ name ∈ (manifestSegmentPath mpath (archiveSegmentPath segDir i)).names,
    name = segmentFileName i ∨ ∃ segment ∈ manifest.segments, name ∈ segment.segmentPath.names

variable {mpath : UnixPath} {segDir : UnixPath} {c : Char}

/-- A path under the manifest's directory is stored relative to it, any other absolute path as it is. -/
theorem resolve_manifestSegmentPath
    (h : path.isAbsolute ∨ (stripPrefix path (manifestDir mpath)).isSome) :
    resolveManifestPath mpath (manifestSegmentPath mpath path) = path := by
  rw [resolveManifestPath, manifestSegmentPath]
  cases hstrip : stripPrefix path (manifestDir mpath) with
  | some rest => exact resolve_stripPrefix hstrip
  | none =>
    rw [hstrip] at h
    rw [Option.getD_none, if_pos (h.resolve_right (by simp))]

theorem names_manifestSegmentPath : ∀ name ∈ (manifestSegmentPath mpath path).names, name ∈ path.names := by
  rw [manifestSegmentPath]
  cases hstrip : stripPrefix path (manifestDir mpath) with
  | some rest => exact names_stripPrefix hstrip
  | none => exact fun name hname => hname

/-- The parent of a path with names, with a segment in it. -/
theorem archiveSegmentPath_parent (h : path.names ≠ []) (index : ℕ) :
    archiveSegmentPath (path.parent.getD dot) index =
      ⟨path.start, path.names.dropLast ++ [segmentFileName index]⟩ := by
  obtain ⟨start, names⟩ := path
  cases names with
  | nil => exact absurd rfl h
  | cons name names => exact archiveSegmentPath_eq _ index

theorem mem_dropLast_segment {names : List PathName} {index : ℕ}
    (h : name ∈ names.dropLast ++ [segmentFileName index]) : name = segmentFileName index ∨ name ∈ names := by
  rcases mem_append.mp h with hin | hlast
  · exact .inr (dropLast_subset _ hin)
  · exact .inl (mem_singleton.mp hlast)

theorem segmentGeometry (hdirs : DirectoriesApart fs mpath)
    (hdir : archiveSegmentDir mpath manifest = .ok segDir)
    (hfiles : ∀ segment ∈ manifest.segments,
      fs (resolveManifestPath mpath segment.segmentPath).file ≠ none) :
    SegmentGeometry mpath manifest segDir := by
  rw [archiveSegmentDir] at hdir
  split at hdir
  · cases hdir
  · rename_i first hfirst
    cases hdir
    have hmem : first ∈ manifest.segments := mem_of_head? hfirst
    have hfile := hfiles first hmem
    have hnamed : (resolveManifestPath mpath first.segmentPath).names ≠ [] := by
      intro hnil
      refine hfile (hdirs.unnamed _ ?_)
      rw [fileName, hnil]
      rfl
    by_cases hown : first.segmentPath.isAbsolute ∨ manifestDir mpath = UnixPath.empty
    · -- the stored path is the resolved one
      have hresolve : resolveManifestPath mpath first.segmentPath = first.segmentPath := by
        rw [resolveManifestPath, join, if_pos hown, ite_self]
      rw [hresolve] at hnamed ⊢
      constructor
      · intro i
        rw [archiveSegmentPath_parent hnamed]
        apply resolve_manifestSegmentPath
        rcases hown with habsolute | hempty
        · exact .inl habsolute
        · right
          rw [hempty, stripPrefix, if_pos rfl]
          rfl
      · intro i name hname
        have hin := names_manifestSegmentPath name hname
        rw [archiveSegmentPath_parent hnamed] at hin
        exact (mem_dropLast_segment hin).imp_right fun hin => ⟨first, hmem, hin⟩
    · -- the stored path is relative to the manifest's directory, and stays so
      obtain ⟨hrelative, hdir⟩ := not_or.mp hown
      have hresolve : resolveManifestPath mpath first.segmentPath = ⟨(manifestDir mpath).start,
            (manifestDir mpath).names ++ first.segmentPath.names⟩ := by
        rw [resolveManifestPath, join, if_neg hown, if_neg hrelative]
      have hnames : first.segmentPath.names ≠ [] := by
        intro hnil
        rw [hresolve, hnil, append_nil] at hfile
        exact hfile hdirs.manifestDir
      have hsegment : ∀ i, archiveSegmentPath
          ((resolveManifestPath mpath first.segmentPath).parent.getD dot) i =
          ⟨(manifestDir mpath).start, (manifestDir mpath).names ++
            (first.segmentPath.names.dropLast ++ [segmentFileName i])⟩ := by
        intro i
        rw [archiveSegmentPath_parent hnamed, hresolve, dropLast_append_of_ne_nil hnames, append_assoc]
      have hstrip : ∀ i, stripPrefix (archiveSegmentPath
          ((resolveManifestPath mpath first.segmentPath).parent.getD dot) i)
          (manifestDir mpath) =
          some ⟨.nothing, first.segmentPath.names.dropLast ++ [segmentFileName i]⟩ := by
        intro i
        rw [hsegment, stripPrefix, if_neg hdir, if_pos rfl, Option.map_eq_some_iff]
        exact ⟨_, isPrefixOf?_eq_some_iff_append_eq.mpr rfl, rfl⟩
      constructor
      · intro i
        apply resolve_manifestSegmentPath
        right
        rw [hstrip]
        rfl
      · intro i name hname
        rw [manifestSegmentPath, hstrip, Option.getD_some] at hname
        exact (mem_dropLast_segment hname).imp_right fun hin => ⟨first, hmem, hin⟩

theorem not_mem_segmentFileName (hdigit : ¬ c.isDigit) (hbefore : c ∉ "segment-".toList)
    (hbehind : c ∉ ".wal".toList) (i : ℕ) : c ∉ (segmentFileName i).chars := by
  intro hc
  have hchars : (segmentFileName i).chars = "segment-".toList ++ (paddedText 4 (i + 1) ++ ".wal".toList) := rfl
  rw [hchars, mem_append, mem_append] at hc
  rcases hc with hc | hc | hc
  · exact hbefore hc
  · exact hdigit (isDigit_of_mem_paddedText hc)
  · exact hbehind hc

theorem plain_segmentFileName (i : ℕ) : Plain (segmentFileName i) :=
  ⟨not_mem_segmentFileName (by decide) (by decide) (by decide) i,
    not_mem_segmentFileName (by decide) (by decide) (by decide) i⟩

theorem not_mem_text (hslash : c ≠ '/') (hdot : c ≠ '.')
    (h : ∀ name ∈ path.names, c ∉ name.chars) : c ∉ path.text := by
  intro hc
  rcases mem_text hc with heq | heq | ⟨name, hname, hin⟩
  · exact hslash heq
  · exact hdot heq
  · exact h name hname hin

/-- No segment of the geometry has a delimiter or a line end in its stored path. -/
theorem SegmentGeometry.not_mem_text (h : SegmentGeometry mpath manifest segDir)
    (hplain : ∀ segment ∈ manifest.segments, ∀ name ∈ segment.segmentPath.names, Plain name) (i : ℕ) :
    '\n' ∉ (manifestSegmentPath mpath (archiveSegmentPath segDir i)).text ∧
      '|' ∉ (manifestSegmentPath mpath (archiveSegmentPath segDir i)).text := by
  have hnames : ∀ name ∈ (manifestSegmentPath mpath (archiveSegmentPath segDir i)).names,
      Plain name := by
    intro name hname
    rcases h.names i name hname with rfl | ⟨segment, hmem, hin⟩
    · exact plain_segmentFileName i
    · exact hplain segment hmem name hin
  constructor
  · exact Wal.not_mem_text (by decide) (by decide) fun name hname => (hnames name hname).1
  · exact Wal.not_mem_text (by decide) (by decide) fun name hname => (hnames name hname).2

/-! ### Installing files beside an archive -/

/-- A file that is created under a temporary name and renamed. -/
structure Install where
  tmp : UnixPath
  path : UnixPath
  bytes : Bytes

def Install.steps (self : Install) : List FileStep := installSteps self.tmp self.path self.bytes

section Installs

variable {ι : Type} [DecidableEq ι] (N : Naming ι) (sha : Sha256) (mpath : UnixPath)
  (manifest : WalArchiveManifest) (parts : List (List WalRecord))

def segmentEntry (segment : WalArchiveSegment) : ι :=
  N.of (resolveManifestPath mpath segment.segmentPath)

/-- The files of an archive: its manifest, and segments with these records. -/
structure Intact (disk : Disk ι) : Prop where
  manifest_eq : readWalArchiveManifest sha (N.view disk) mpath = .ok manifest
  holds : Holds (N.view disk) mpath manifest.segments parts

/-- The install keeps off the archive's files, or writes a segment of it as it is. -/
structure Harmless (install : Install) : Prop where
  tmp_manifest : N.of install.tmp ≠ N.of mpath
  path_manifest : N.of install.path ≠ N.of mpath
  tmp_segment : ∀ segment ∈ manifest.segments, N.of install.tmp ≠ segmentEntry N mpath segment
  path_segment : ∀ pair ∈ manifest.segments.zip parts,
    N.of install.path = segmentEntry N mpath pair.1 →
      readWalSegment "" (some install.bytes) = .ok pair.2

/-- An install whose content is not taken for another part of the archive. -/
structure Foreign (install : Install) : Prop where
  moves : N.of install.tmp ≠ N.of install.path
  no_manifest : N.of install.path = N.of mpath → install.bytes[8]? ≠ some 65
  same_segment : ∀ pair ∈ manifest.segments.zip parts, ∀ records,
    readWalSegment "" (some install.bytes) = .ok records →
      validateArchiveSegment mpath pair.1 records = .ok () → records = pair.2

variable {N sha mpath manifest parts} {disk left : Disk ι} {install : Install}

theorem crashes_install : N.Crashes disk install.steps left ↔
      left = disk ∨ left = N.step disk (.write install.tmp install.bytes) ∨
        left = N.run disk install.steps := by
  constructor
  · rintro ⟨k, rfl⟩
    match k with
    | 0 => exact .inl rfl
    | 1 => exact .inr (.inl rfl)
    | k + 2 =>
      have hlength : install.steps.length ≤ k + 2 := Nat.le_add_left 2 k
      rw [take_of_length_le hlength]
      exact .inr (.inr rfl)
  · rintro (rfl | rfl | rfl)
    · exact ⟨0, rfl⟩
    · exact ⟨1, rfl⟩
    · exact ⟨2, rfl⟩

/-- Segments that are the same files, or hold the same records again. -/
theorem Holds.replace {fs' : FileStore} (h : Holds fs mpath segments parts)
    (hfiles : ∀ pair ∈ segments.zip parts, fs' (resolveManifestPath mpath pair.1.segmentPath).file =
        fs (resolveManifestPath mpath pair.1.segmentPath).file ∨
      readWalSegment "" (fs' (resolveManifestPath mpath pair.1.segmentPath).file) = .ok pair.2) :
    Holds fs' mpath segments parts := by
  induction h with
  | nil => exact List.Forall₂.nil
  | cons hhead _ ih =>
    rw [zip_cons_cons, forall_mem_cons] at hfiles
    refine List.Forall₂.cons ⟨?_, hhead.2⟩ (ih hfiles.2)
    rcases hfiles.1 with hsame | hread
    · exact hsame ▸ hhead.1
    · exact readWalSegment_ok_path hread _

section

variable (h : Holds fs mpath segments parts)
include h

/-- Every segment has its records. -/
theorem Holds.read : ∀ pair ∈ segments.zip parts,
      readWalSegment "" (fs (resolveManifestPath mpath pair.1.segmentPath).file) = .ok pair.2 ∧
        validateArchiveSegment mpath pair.1 pair.2 = .ok () := by
  induction h with
  | nil =>
    intro pair hpair
    cases hpair
  | cons hhead _ ih =>
    rw [zip_cons_cons, forall_mem_cons]
    exact ⟨⟨readWalSegment_ok_path hhead.1 _, hhead.2⟩, ih⟩

theorem Holds.exists_read : ∀ segment ∈ segments, ∃ records,
      readWalSegment "" (fs (resolveManifestPath mpath segment.segmentPath).file) = .ok records ∧
        validateArchiveSegment mpath segment records = .ok () := by
  induction h with
  | nil =>
    intro segment hsegment
    cases hsegment
  | cons hhead _ ih =>
    rw [forall_mem_cons]
    exact ⟨⟨_, readWalSegment_ok_path hhead.1 _, hhead.2⟩, ih⟩

theorem Holds.file_ne_none :
    ∀ segment ∈ segments, fs (resolveManifestPath mpath segment.segmentPath).file ≠ none := by
  intro segment hsegment hnone
  obtain ⟨records, hread, -⟩ := h.exists_read segment hsegment
  rw [hnone] at hread
  cases hread

end

omit [DecidableEq ι] in
/-- A manifest is read from its own file. -/
theorem Intact.manifest_of_same {disk' : Disk ι} (h : Intact N sha mpath manifest parts disk)
    (hsame : disk' (N.of mpath) = disk (N.of mpath)) :
    readWalArchiveManifest sha (N.view disk') mpath = .ok manifest :=
  (readWalArchiveManifest_congr hsame).trans h.manifest_eq

omit [DecidableEq ι] in
theorem Intact.replace {disk' : Disk ι} (h : Intact N sha mpath manifest parts disk)
    (hmanifest : disk' (N.of mpath) = disk (N.of mpath))
    (hfiles : ∀ pair ∈ manifest.segments.zip parts,
      disk' (segmentEntry N mpath pair.1) = disk (segmentEntry N mpath pair.1) ∨
      readWalSegment "" (disk' (segmentEntry N mpath pair.1)) = .ok pair.2) :
    Intact N sha mpath manifest parts disk' :=
  ⟨h.manifest_of_same hmanifest, h.holds.replace hfiles⟩

theorem intact_of_harmless (h : Intact N sha mpath manifest parts disk)
    (hharmless : Harmless N mpath manifest parts install)
    (hstop : N.Stops disk install.steps left) : Intact N sha mpath manifest parts left := by
  have hsegment : ∀ pair ∈ manifest.segments.zip parts, segmentEntry N mpath pair.1 ≠ N.of install.tmp :=
    fun pair hpair => (hharmless.tmp_segment pair.1 (of_mem_zip hpair).1).symm
  rcases hstop.cases_install with ⟨content, rfl⟩ | rfl
  · apply h.replace
    · exact update_of_ne hharmless.tmp_manifest.symm _ _
    · intro pair hpair
      left
      exact update_of_ne (hsegment pair hpair) _ _
  · apply h.replace
    · exact N.run_install_other hharmless.tmp_manifest.symm hharmless.path_manifest.symm
    · intro pair hpair
      by_cases hpath : segmentEntry N mpath pair.1 = N.of install.path
      · right
        rw [hpath, N.run_install_self]
        exact hharmless.path_segment pair hpair hpath.symm
      · left
        exact N.run_install_other (hsegment pair hpair) hpath

/-- An install that is not harmless makes the archive unreadable. -/
theorem read_error_of_not_harmless (h : Intact N sha mpath manifest parts disk)
    (hforeign : Foreign N mpath manifest parts install)
    (hharm : ¬ Harmless N mpath manifest parts install)
    (result : WalArchiveManifest × List WalRecord) :
    readWalArchive sha (N.view (N.run disk install.steps)) mpath ≠ .ok result := by
  intro hread
  obtain ⟨hmanifest, ⟨parts', hholds, -⟩, -, -⟩ := readWalArchive_ok.mp hread
  -- the manifest is still there, so it is none of the two files
  have hpath : N.of install.path ≠ N.of mpath := by
    intro heq
    obtain ⟨bytes, hbytes, hkind⟩ := manifest_kind hmanifest
    have hself := N.run_install_self disk install.tmp install.path install.bytes
    rw [heq] at hself
    cases hself.symm.trans hbytes
    exact hforeign.no_manifest heq hkind
  have htmp : N.of install.tmp ≠ N.of mpath := by
    intro heq
    obtain ⟨bytes, hbytes, -⟩ := manifest_kind hmanifest
    have hgone : N.run disk install.steps (N.of mpath) = none := by
      rw [Install.steps, N.run_install, update_of_ne hpath.symm, heq, update_self]
    cases hgone.symm.trans hbytes
  have hsame : N.run disk install.steps (N.of mpath) = disk (N.of mpath) :=
    N.run_install_other htmp.symm hpath.symm
  cases (h.manifest_of_same hsame).symm.trans hmanifest
  -- so some segment is lost or replaced
  refine hharm ⟨htmp, hpath, ?_, ?_⟩
  · intro segment hsegment heq
    refine hholds.file_ne_none segment hsegment ?_
    show N.run disk install.steps (segmentEntry N mpath segment) = none
    rw [← heq, Install.steps, N.run_install, update_of_ne hforeign.moves, update_self]
  · intro pair hpair heq
    obtain ⟨records, hread', hvalid⟩ := hholds.exists_read pair.1 (of_mem_zip hpair).1
    have hbytes : N.run disk install.steps (segmentEntry N mpath pair.1) = some install.bytes := by
      rw [← heq]
      exact N.run_install_self _ _ _ _
    have hrecords : readWalSegment "" (some install.bytes) = .ok records := hbytes ▸ hread'
    rw [hrecords, hforeign.same_segment pair hpair records hrecords hvalid]

variable {installs : List Install}

/-- **Harmless installs.**  Wherever a sequence of them stops, the archive is what it was. -/
theorem intact_of_all_harmless (h : Intact N sha mpath manifest parts disk)
    (hharmless : ∀ install ∈ installs, Harmless N mpath manifest parts install)
    (hstop : N.Stops disk (installs.flatMap Install.steps) left) :
    Intact N sha mpath manifest parts left := by
  induction installs generalizing disk with
  | nil =>
    have hsame : left = disk := by
      funext i
      apply hstop.of_not_changes
      intro step hstep
      cases hstep
    rw [hsame]
    exact h
  | cons install installs ih =>
    obtain ⟨hfirst, hrest⟩ := forall_mem_cons.mp hharmless
    rw [flatMap_cons] at hstop
    rcases hstop.cases_append with hstop | hstop
    · exact intact_of_harmless h hfirst hstop
    · exact ih (intact_of_harmless h hfirst (.inl (Naming.Crashes.all N disk _))) hrest hstop

/-- **No other installs.**  If the archive can be read wherever the sequence is cut, every install in it is
harmless. -/
theorem harmless_of_crashes_read (h : Intact N sha mpath manifest parts disk)
    (hforeign : ∀ install ∈ installs, Foreign N mpath manifest parts install)
    (hread : ∀ left, N.Crashes disk (installs.flatMap Install.steps) left →
      ∃ result, readWalArchive sha (N.view left) mpath = .ok result) :
    ∀ install ∈ installs, Harmless N mpath manifest parts install := by
  induction installs generalizing disk with
  | nil =>
    intro install hmem
    cases hmem
  | cons install installs ih =>
    obtain ⟨hfirst, hrest⟩ := forall_mem_cons.mp hforeign
    simp only [flatMap_cons, N.crashes_append] at hread
    have hharmless : Harmless N mpath manifest parts install := by
      by_contra hharm
      obtain ⟨result, hresult⟩ := hread _ (.inl (Naming.Crashes.all N disk _))
      exact read_error_of_not_harmless h hfirst hharm result hresult
    rw [forall_mem_cons]
    refine ⟨hharmless, ih (intact_of_harmless h hharmless (.inl (Naming.Crashes.all N disk _))) hrest ?_⟩
    exact fun left hcrash => hread left (.inr hcrash)

end Installs

end ThunderboltDb.Wal
