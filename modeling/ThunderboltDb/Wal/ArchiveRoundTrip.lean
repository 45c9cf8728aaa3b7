import ThunderboltDb.Wal.Archive
import ThunderboltDb.Lib.Transition

/-!
# Archives read back what was written

The writer checks the timestamps' ids and the path delimiter; the reader also checks that ids ascend and
that timestamps do not decrease. An append reads the archive and applies the reader's rules to the result
before it installs the new manifest.

* `Agrees.step` — an append that returns `Ok` keeps the agreement, from any archive that has it;
* `wal_archive_reads_what_was_written` — an archive that was written reads back, after any number of appends.
-/

namespace ThunderboltDb.Wal

open Lib Function List
open Canonical (Sha256 sampleHash)

variable {mpath path dir : UnixPath} {records : List WalRecord} {manifest : WalArchiveManifest}
    {sha : Sha256} {segments : List WalArchiveSegment} {fs fs' : FileStore} {parts : List (List WalRecord)}
    {pid : ℕ} {recordTimestamps : List WalArchiveRecordTimestamp} {name other : PathName}
  {lines : List (List Char)} {c : Char}

/-! ### Validators -/

theorem findWindow_eq_none {α : Type} {bad : α → α → Bool} {as : List α} :
    findWindow bad as = none ↔ as.IsChain fun a b => bad a b = false := by
  induction as with
  | nil => simp [findWindow]
  | cons a as ih =>
    cases as with
    | nil => simp [findWindow]
    | cons b rest =>
      rw [findWindow, isChain_cons_cons, ← ih]
      cases bad a b <;> simp

theorem validateIncreasing_ok {what : String} : validateIncreasing mpath what records = .ok () ↔
      records.IsChain fun a b => a.txnId < b.txnId := by
  have hchain := @findWindow_eq_none _ (fun a b : WalRecord => decide (b.txnId ≤ a.txnId)) records
  simp only [decide_eq_false_iff_not, UInt64.not_le] at hchain
  rw [← hchain, validateIncreasing]
  split <;> simp_all

theorem validateArchiveRecords_ok : validateArchiveRecords mpath manifest records = .ok () ↔
      manifest.checkpoint = checkpointMeta records ∧ records.IsChain fun a b => a.txnId < b.txnId := by
  rw [validateArchiveRecords, except_seq_ok, except_seq_ok, refuse_eq_ok, refuse_eq_ok,
    validateIncreasing_ok, not_not, not_not, ← and_assoc]
  refine and_congr_left fun _ => ?_
  obtain ⟨segments, ⟨count, last⟩, timestamps⟩ := manifest
  simp only [checkpointMeta, WalCheckpointMeta.mk.injEq]
  exact ⟨fun h => ⟨h.1.symm, h.2.symm⟩, fun h => ⟨h.1.symm, h.2.symm⟩⟩

theorem validateArchiveTimestamps_ok : validateArchiveTimestamps mpath manifest records = .ok () ↔
      validateTimestampMetadata mpath records manifest.recordTimestamps = .ok () ∧
        manifest.recordTimestamps.IsChain fun a b => a.timestampMicros ≤ b.timestampMicros := by
  have hchain := @findWindow_eq_none _
    (fun a b : WalArchiveRecordTimestamp => decide (b.timestampMicros < a.timestampMicros))
    manifest.recordTimestamps
  simp only [decide_eq_false_iff_not, UInt64.not_lt] at hchain
  rw [validateArchiveTimestamps, except_seq_ok, ← hchain]
  refine and_congr_right fun _ => ?_
  split <;> simp_all

theorem validateArchiveSegment_self (mpath segmentPath : UnixPath) (records : List WalRecord) :
    validateArchiveSegment mpath (archiveSegment mpath segmentPath records) records = .ok () := by
  rw [validateArchiveSegment, except_seq_ok, refuse_eq_ok, refuse_eq_ok]
  simp [archiveSegment]

/-! ### The trailer -/

theorem getLast?_unlines (h : lines ≠ []) : (unlines lines).getLast? = some '\n' := by
  obtain ⟨init, last, rfl⟩ := eq_nil_or_concat lines |>.resolve_left h
  simp [unlines]

theorem not_mem_digestText (h : ¬ isHexDigit c) (body : List Char) : c ∉ digestText sha body :=
  fun hmem => h (isHexDigit_of_mem_hexText hmem)

theorem rfind_trailer (body : List Char) :
    rfind sha256Word (appendSha256Trailer sha body) = some body.length := by
  have hnot : 's' ∉ "ha256=".toList ++ (digestText sha body ++ ['\n']) := by
    have hdigest := @not_mem_digestText sha 's' (by decide) body
    simp [hdigest]
  exact rfind_append (rfind_self hnot) body

/-- The trailer of a text that ends in a newline checks. -/
theorem verifySha256Trailer_append {body : List Char} (h : body.getLast? = some '\n') :
    verifySha256Trailer sha (appendSha256Trailer sha body) path = .ok body := by
  have hdrop : (appendSha256Trailer sha body).drop body.length =
      sha256Word ++ (digestText sha body ++ ['\n']) := drop_left' rfl
  have htake : (appendSha256Trailer sha body).take body.length = body := take_left' rfl
  have hraw : (sha256Word ++ (digestText sha body ++ ['\n'])).drop sha256Word.length =
      digestText sha body ++ ['\n'] := drop_left' rfl
  have hbefore : 0 < body.length → (appendSha256Trailer sha body)[body.length - 1]? = some '\n' := by
    intro hpos
    rw [appendSha256Trailer, getElem?_append_left (by omega), ← getLast?_eq_getElem?, h]
  have hlen : (digestText sha body).length = 64 := by
    rw [digestText, length_hexText, List.Vector.toList_length]
  have hhex : (digestText sha body).all isHexDigit := by
    rw [all_eq_true]
    exact fun c hc => isHexDigit_of_mem_hexText hc
  rw [verifySha256Trailer, rfind_trailer]
  simp only [hdrop, htake, hraw, getLast?_concat, dropLast_concat, except_seq_ok, refuse_eq_ok,
    not_and, not_not, not_or, hlen, hhex, pure, Except.pure, and_true, ne_eq, not_true_eq_false,
    not_false_eq_true]
  exact hbefore

/-! ### The manifest's text -/

theorem parseCount_decimalText (n : ℕ) (what : String) : parseCount (decimalText n) what path = .ok n := by
  rw [parseCount, parseNatural_decimalText]

theorem parseU64_decimalText (n : UInt64) (what : String) :
    parseU64 (decimalText n.toNat) what path = .ok n := by
  rw [parseU64, parseUnsigned_decimalText n.toNat_lt]
  simp only [UInt64.ofNat_toNat]

theorem parseOptionalTxn_format (txnId : Option TxnId) (what : String) :
    parseOptionalTxn (formatOptionalTxn txnId) what path = .ok txnId := by
  cases txnId with
  | none => exact if_pos rfl
  | some txnId =>
    have hdigits : decimalText txnId.toNat ≠ noneWord := by
      intro heq
      have hn : 'n' ∈ decimalText txnId.toNat := by
        rw [heq]
        decide
      exact absurd (isDigit_of_mem_decimalText hn) (by decide)
    rw [parseOptionalTxn, formatOptionalTxn, if_neg hdigits, parseU64_decimalText]
    rfl

theorem parseControlValue_key (key : String) (value : List Char) :
    parseControlValue (some (controlKey key ++ value)) key path = .ok value := by
  have hpre : (controlKey key).isPrefixOf? (controlKey key ++ value) = some value :=
    isPrefixOf?_eq_some_iff_append_eq.mpr rfl
  rw [parseControlValue, hpre]

/-- No digit is a delimiter or a line end. -/
theorem not_mem_formatOptionalTxn (hdigit : ¬ c.isDigit) (hnone : c ∉ noneWord)
    (txnId : Option TxnId) : c ∉ formatOptionalTxn txnId := by
  cases txnId with
  | none => exact hnone
  | some txnId => exact fun hmem => hdigit (isDigit_of_mem_decimalText hmem)

theorem not_mem_decimalText (hdigit : ¬ c.isDigit) (n : ℕ) : c ∉ decimalText n :=
  fun hmem => hdigit (isDigit_of_mem_decimalText hmem)

theorem formatOptionalTxn_ne_nil (txnId : Option TxnId) : formatOptionalTxn txnId ≠ [] := by
  cases txnId with
  | none => decide
  | some txnId => exact decimalText_ne_nil _

/-- A line whose last field is a transaction id. -/
theorem isLine_append_formatOptionalTxn {line : List Char} (h : '\n' ∉ line) (txnId : Option TxnId) :
    IsLine (line ++ formatOptionalTxn txnId) := by
  constructor
  · rw [mem_append, not_or]
    exact ⟨h, not_mem_formatOptionalTxn (by decide) (by decide) txnId⟩
  · rw [getLast?_append_of_ne_nil _ (formatOptionalTxn_ne_nil txnId)]
    intro hlast
    exact not_mem_formatOptionalTxn (by decide) (by decide) txnId (mem_of_getLast? hlast)

/-- A segment whose path the manifest can hold. -/
structure WritableSegment (segment : WalArchiveSegment) : Prop where
  no_delimiter : '|' ∉ segment.segmentPath.text
  no_newline : '\n' ∉ segment.segmentPath.text

variable {segment : WalArchiveSegment} (timestamp : WalArchiveRecordTimestamp)

theorem isLine_segmentLine (h : WritableSegment segment) : IsLine (segmentLine segment) := by
  have hline : segmentLine segment = (controlKey "segment" ++ segment.segmentPath.text ++ ['|'] ++
      decimalText segment.recordCount ++ ['|'] ++ formatOptionalTxn segment.firstTxnId ++ ['|']) ++
      formatOptionalTxn segment.lastTxnId := by
    simp [segmentLine, intercalate]
  rw [hline]
  refine isLine_append_formatOptionalTxn ?_ _
  simp only [mem_append, mem_singleton, not_or]
  exact ⟨⟨⟨⟨⟨⟨by decide, h.no_newline⟩, by decide⟩, newline_not_mem_decimalText _⟩, by decide⟩,
    not_mem_formatOptionalTxn (by decide) (by decide) _⟩, by decide⟩

theorem isLine_timestampLine : IsLine (timestampLine timestamp) := by
  have hline : timestampLine timestamp = (controlKey "record_timestamp" ++
      decimalText timestamp.txnId.toNat ++ ['|']) ++ decimalText timestamp.timestampMicros.toNat := by
    simp [timestampLine, intercalate]
  rw [hline]
  refine isLine_append_decimalText ?_ _
  simp only [mem_append, mem_singleton, not_or]
  exact ⟨⟨by decide, newline_not_mem_decimalText _⟩, by decide⟩

theorem parseSegment_segmentLine (h : WritableSegment segment) :
    parseSegment (['|'].intercalate [segment.segmentPath.text, decimalText segment.recordCount,
      formatOptionalTxn segment.firstTxnId, formatOptionalTxn segment.lastTxnId]) path = .ok segment := by
  have hsplit := @splitOn_intercalate Char [segment.segmentPath.text, decimalText segment.recordCount,
      formatOptionalTxn segment.firstTxnId, formatOptionalTxn segment.lastTxnId] _ _ '|' (by
    simp only [forall_mem_cons, not_mem_nil, false_imp_iff, implies_true, and_true]
    exact ⟨h.no_delimiter, not_mem_decimalText (by decide) _, not_mem_formatOptionalTxn (by decide) (by decide) _,
      not_mem_formatOptionalTxn (by decide) (by decide) _⟩) (cons_ne_nil _ _)
  simp only [parseSegment, hsplit, nextLine, requirePart, parseCount_decimalText, parseOptionalTxn_format,
    except_ok_bind, UnixPath.ofText_text]
  rfl

theorem parseTimestamp_timestampLine : parseTimestamp (['|'].intercalate
      [decimalText timestamp.txnId.toNat, decimalText timestamp.timestampMicros.toNat]) path =
      .ok timestamp := by
  have hsplit := @splitOn_intercalate Char
    [decimalText timestamp.txnId.toNat, decimalText timestamp.timestampMicros.toNat] _ _ '|' (by
      simp only [forall_mem_cons, not_mem_nil, false_imp_iff, implies_true, and_true]
      exact ⟨not_mem_decimalText (by decide) _, not_mem_decimalText (by decide) _⟩) (cons_ne_nil _ _)
  simp only [parseTimestamp, hsplit, nextLine, requirePart, parseU64_decimalText, except_ok_bind]
  rfl

theorem parseSegments_segmentLines (h : ∀ segment ∈ segments, WritableSegment segment) :
    parseSegments path segments.length (segments.map segmentLine ++ lines) = .ok (segments, lines) := by
  induction segments with
  | nil => rfl
  | cons segment segments ih =>
    obtain ⟨hsegment, hsegments⟩ := forall_mem_cons.mp h
    simp only [length_cons, map_cons, cons_append, parseSegments, nextLine, segmentLine,
      parseControlValue_key, except_ok_bind, parseSegment_segmentLine hsegment]
    rw [ih hsegments]
    rfl

theorem parseTimestamps_timestampLines (timestamps : List WalArchiveRecordTimestamp) :
    parseTimestamps path (timestamps.map timestampLine) = .ok timestamps := by
  induction timestamps with
  | nil => rfl
  | cons timestamp timestamps ih =>
    simp only [map_cons, parseTimestamps, timestampLine, parseControlValue_key, except_ok_bind,
      parseTimestamp_timestampLine]
    rw [ih]
    rfl

theorem renderSegments_ok : renderSegments segments = .ok lines ↔
      (∀ segment ∈ segments, '|' ∉ segment.segmentPath.text) ∧ segments.map segmentLine = lines := by
  induction segments generalizing lines with
  | nil => simp [renderSegments]
  | cons segment segments ih =>
    rw [renderSegments, except_seq_ok, refuse_eq_ok, bind_ok, forall_mem_cons, and_assoc]
    refine and_congr_right fun _ => ?_
    simp only [ih, pure, Except.pure, Except.ok.injEq, map_cons, and_assoc, existsAndEq, true_and]

def manifestLines (manifest : WalArchiveManifest) : List (List Char) :=
  manifestHead manifest ++ manifest.segments.map segmentLine ++ manifest.recordTimestamps.map timestampLine

section

variable (h : ∀ segment ∈ manifest.segments, WritableSegment segment)
include h

theorem isLine_manifestLines : ∀ line ∈ manifestLines manifest, IsLine line := by
  intro line hmem
  rcases mem_append.mp hmem with hmem | htimestamp
  · rcases mem_append.mp hmem with hhead | hsegment
    · simp only [manifestHead, mem_cons, not_mem_nil, or_false] at hhead
      rcases hhead with rfl | rfl | rfl | rfl
      · exact ⟨by decide, by decide⟩
      · exact isLine_append_decimalText (by decide) _
      · exact isLine_append_formatOptionalTxn (by decide) _
      · exact isLine_append_decimalText (by decide) _
    · obtain ⟨segment, hin, rfl⟩ := mem_map.mp hsegment
      exact isLine_segmentLine (h segment hin)
  · obtain ⟨timestamp, -, rfl⟩ := mem_map.mp htimestamp
    exact isLine_timestampLine timestamp

/-- A manifest whose segment paths can be written is read back from its text. -/
theorem parseManifest_lines : parseManifest (unlines (manifestLines manifest)) path = .ok manifest := by
  rw [parseManifest, textLines_unlines (isLine_manifestLines h)]
  simp only [manifestLines, manifestHead, cons_append, nil_append, nextLine,
    parseControlValue_key, except_ok_bind, parseCount_decimalText, parseOptionalTxn_format,
    parseSegments_segmentLines h, parseTimestamps_timestampLines]
  rfl

/-- What a file store answers after a manifest was installed. -/
theorem readWalArchiveManifest_installed (hfile : fs path.file =
      some (utf8Bytes (appendSha256Trailer sha (unlines (manifestLines manifest)))))
    (hshape : validateArchiveManifestShape path manifest = .ok ()) :
    readWalArchiveManifest sha fs path = .ok manifest := by
  have hbody : manifestBody sha (appendSha256Trailer sha (unlines (manifestLines manifest))) path =
      .ok (unlines (manifestLines manifest)) := by
    have hfirst : (textLines (appendSha256Trailer sha (unlines (manifestLines manifest)))).head? =
        some walArchiveManifestMagic := by
      rw [appendSha256Trailer]
      show (textLines (walArchiveManifestMagic ++ '\n' :: _)).head? = _
      rw [textLines_append_newline (by decide) (by decide), head?_cons]
    rw [manifestBody, hfirst]
    show (if _ then _ else _) = _
    rw [if_pos rfl]
    exact verifySha256Trailer_append (getLast?_unlines (cons_ne_nil _ _))
  rw [readWalArchiveManifest, hfile]
  simp only [utf8Text_utf8Bytes, hbody, except_ok_bind, parseManifest_lines h, hshape]
  rfl

end

theorem readWalArchiveManifest_congr (h : fs path.file = fs' path.file) :
    readWalArchiveManifest sha fs path = readWalArchiveManifest sha fs' path := by
  rw [readWalArchiveManifest, readWalArchiveManifest, h]

/-! ### Where the manifest's paths lead -/

/-- The path that the manifest stores for a segment leads back to the segment. -/
def Located (mpath segmentPath : UnixPath) : Prop :=
  (resolveManifestPath mpath (manifestSegmentPath mpath segmentPath)).file = segmentPath.file

instance (mpath segmentPath : UnixPath) : Decidable (Located mpath segmentPath) :=
  inferInstanceAs (Decidable (_ = _))

/-! ### Reading the segments -/

/-- The store holds, at the paths the manifest names, segments with these records. -/
def Holds (fs : FileStore) (mpath : UnixPath) :
    List WalArchiveSegment → List (List WalRecord) → Prop :=
  List.Forall₂ fun segment records =>
    readWalSegment (display (resolveManifestPath mpath segment.segmentPath))
        (fs (resolveManifestPath mpath segment.segmentPath).file) = .ok records ∧
      validateArchiveSegment mpath segment records = .ok ()

theorem readArchiveSegments_ok : readArchiveSegments fs mpath segments = .ok records ↔
      ∃ parts, Holds fs mpath segments parts ∧ parts.flatten = records := by
  induction segments generalizing records with
  | nil => simp [readArchiveSegments, Holds]
  | cons segment segments ih =>
    simp only [readArchiveSegments, bind_ok, ih, pure, Except.pure, Except.ok.injEq, Holds,
      forall₂_cons_left_iff]
    constructor
    · rintro ⟨first, hread, _, hvalid, rest, ⟨parts, hparts, rfl⟩, rfl⟩
      exact ⟨first :: parts, ⟨first, parts, ⟨hread, hvalid⟩, hparts, rfl⟩, rfl⟩
    · rintro ⟨_, ⟨first, parts, ⟨hread, hvalid⟩, hparts, rfl⟩, rfl⟩
      exact ⟨first, hread, (), hvalid, parts.flatten, ⟨parts, hparts, rfl⟩, rfl⟩

/-- Files that are not segments of the archive do not matter. -/
theorem Holds.congr (h : Holds fs mpath segments parts)
    (hsame : ∀ segment ∈ segments, fs' (resolveManifestPath mpath segment.segmentPath).file =
      fs (resolveManifestPath mpath segment.segmentPath).file) :
    Holds fs' mpath segments parts := by
  induction h with
  | nil => exact List.Forall₂.nil
  | cons hhead htail ih =>
    obtain ⟨hfile, hfiles⟩ := forall_mem_cons.mp hsame
    exact List.Forall₂.cons ⟨hfile ▸ hhead.1, hhead.2⟩ (ih hfiles)

theorem Holds.sum_recordCount (h : Holds fs mpath segments parts) :
    (segments.map (·.recordCount)).sum = parts.flatten.length := by
  induction h with
  | nil => rfl
  | cons hhead _ ih =>
    have hcount := hhead.2
    rw [validateArchiveSegment, except_seq_ok, refuse_eq_ok, not_not] at hcount
    rw [map_cons, sum_cons, flatten_cons, length_append, ih, hcount.1]

/-- The whole archive is read exactly when its parts are. -/
theorem readWalArchive_ok : readWalArchive sha fs mpath = .ok (manifest, records) ↔
      readWalArchiveManifest sha fs mpath = .ok manifest ∧
      (∃ parts, Holds fs mpath manifest.segments parts ∧ parts.flatten = records) ∧
      validateArchiveRecords mpath manifest records = .ok () ∧
      validateArchiveTimestamps mpath manifest records = .ok () := by
  simp only [readWalArchive, bind_ok, readArchiveSegments_ok, pure, Except.pure, Except.ok.injEq,
    Prod.mk.injEq]
  constructor
  · rintro ⟨_, hmanifest, _, hparts, _, hrecords, _, htimestamps, rfl, rfl⟩
    exact ⟨hmanifest, hparts, hrecords, htimestamps⟩
  · rintro ⟨hmanifest, hparts, hrecords, htimestamps⟩
    exact ⟨manifest, hmanifest, records, hparts, (), hrecords, (), htimestamps, rfl, rfl⟩

/-! ### Writing the segments -/

/-- The file with the given name in a directory. -/
def inDir (dir : UnixPath) (name : PathName) : Bool × List PathName := (dir.isAbsolute, dir.names ++ [name])

theorem inDir_inj (h : inDir dir name = inDir dir other) : name = other := by
  have hnames := (Prod.mk.inj h).2
  exact singleton_inj.mp (append_cancel_left hnames)

theorem file_archiveSegmentPath (dir : UnixPath) (index : ℕ) :
    (archiveSegmentPath dir index).file = inDir dir (segmentFileName index) := by
  rw [archiveSegmentPath, UnixPath.join]
  split
  · rename_i h
    rcases h with h | rfl
    · cases h
    · rfl
  · rfl

theorem segmentFileName_inj {i j : ℕ} (h : segmentFileName i = segmentFileName j) : i = j := by
  have hchars := congrArg PathName.chars h
  have hnumber := append_cancel_right (append_cancel_left hchars)
  exact Nat.succ.inj (paddedText_inj hnumber)

/-- Temporary names start with a dot, segment names do not. -/
theorem segmentFileName_ne_temporaryName (index : ℕ) (name : PathName) (pid : ℕ) :
    segmentFileName index ≠ temporaryName name pid := by
  intro h
  have hhead := congrArg (fun name => name.chars.head?) h
  cases hhead

theorem file_withFileName_ne (h : other ≠ name) : inDir dir other ≠ (path.withFileName name).file := by
  intro heq
  rw [UnixPath.withFileName] at heq
  have hnames := (Prod.mk.inj heq).2
  have hlast := congrArg getLast? hnames
  split at hlast <;> simp [h] at hlast

theorem archiveSegmentPath_ne_temporary (index : ℕ) :
    (archiveSegmentPath dir index).file ≠ (path.withFileName (temporaryName name pid)).file := by
  rw [file_archiveSegmentPath]
  exact file_withFileName_ne (segmentFileName_ne_temporaryName index name pid)

theorem archiveSegmentPath_ne {i j : ℕ} (h : i ≠ j) :
    (archiveSegmentPath dir i).file ≠ (archiveSegmentPath dir j).file := by
  rw [file_archiveSegmentPath, file_archiveSegmentPath]
  exact fun heq => h (segmentFileName_inj (inDir_inj heq))

theorem install_self (fs : FileStore) (tmp path : UnixPath) (bytes : Bytes) :
    fs.install tmp path bytes path.file = some bytes := update_self _ _ _

variable {file : Bool × List PathName}

theorem install_other {tmp : UnixPath} {bytes : Bytes} (htmp : file ≠ tmp.file) (hpath : file ≠ path.file) :
    fs.install tmp path bytes file = fs file := by
  rw [FileStore.install, update_of_ne hpath, update_of_ne htmp]

theorem writeArchiveSegments_before {index i : ℕ} {chunks : List (List WalRecord)} (h : i < index) :
    (writeArchiveSegments pid mpath dir fs index chunks).1 (archiveSegmentPath dir i).file =
      fs (archiveSegmentPath dir i).file := by
  induction chunks generalizing fs index with
  | nil => rfl
  | cons chunk chunks ih =>
    rw [writeArchiveSegments]
    exact (ih (Nat.lt_succ_of_lt h)).trans
      (install_other (archiveSegmentPath_ne_temporary _) (archiveSegmentPath_ne (Nat.ne_of_lt h)))

/-- The files a segment loop leaves behind hold its chunks. -/
theorem writeArchiveSegments_holds (fs : FileStore) (index : ℕ) (chunks : List (List WalRecord))
    (h : ∀ i, index ≤ i → i < index + chunks.length → Located mpath (archiveSegmentPath dir i)) :
    Holds (writeArchiveSegments pid mpath dir fs index chunks).1 mpath
      (writeArchiveSegments pid mpath dir fs index chunks).2 chunks := by
  induction chunks generalizing fs index with
  | nil => exact List.Forall₂.nil
  | cons chunk chunks ih =>
    rw [length_cons] at h
    refine List.Forall₂.cons ⟨?_, validateArchiveSegment_self _ _ _⟩
      (ih _ (index + 1) fun i hle hlt => h i (by omega) (by omega))
    have hlocated := h index le_rfl (by omega)
    rw [Located] at hlocated
    have hfile : (writeArchiveSegments pid mpath dir fs index (chunk :: chunks)).1
        (archiveSegmentPath dir index).file = some (writeWalSegment chunk) :=
      (writeArchiveSegments_before (Nat.lt_succ_self index)).trans (install_self _ _ _ _)
    rw [archiveSegment, hlocated, hfile]
    exact readWalSegment_writeWalSegment _ chunk

theorem mem_writeArchiveSegments {index : ℕ} {chunks : List (List WalRecord)}
    (h : segment ∈ (writeArchiveSegments pid mpath dir fs index chunks).2) :
    ∃ i, index ≤ i ∧ i < index + chunks.length ∧
      segment.segmentPath = manifestSegmentPath mpath (archiveSegmentPath dir i) := by
  induction chunks generalizing fs index with
  | nil => cases h
  | cons chunk chunks ih =>
    rw [length_cons]
    rcases mem_cons.mp h with rfl | hrest
    · exact ⟨index, le_rfl, by omega, rfl⟩
    · obtain ⟨i, hle, hlt, hpath⟩ := ih hrest
      exact ⟨i, by omega, by omega, hpath⟩

theorem flatten_chunksFrom {n : ℕ} (hn : n ≠ 0) (fuel : ℕ) (records : List WalRecord)
    (h : records.length ≤ fuel) : (chunksFrom n fuel records).flatten = records := by
  induction fuel generalizing records with
  | zero =>
    rw [eq_nil_of_length_eq_zero (Nat.le_zero.mp h)]
    rfl
  | succ fuel ih =>
    cases records with
    | nil => rfl
    | cons record records =>
      have hdrop : ((record :: records).drop n).length ≤ fuel := by
        rw [length_drop]
        omega
      rw [chunksFrom, flatten_cons, ih _ hdrop, take_append_drop]
      exact cons_ne_nil _ _

/-! ### The archive after a write -/

/-- A segment path that the manifest can name: the stored path leads back to the segment, holds no line
end, and the segment is not the manifest itself. -/
structure Nameable (mpath segmentPath : UnixPath) : Prop where
  located : Located mpath segmentPath
  no_newline : '\n' ∉ (manifestSegmentPath mpath segmentPath).text
  separate : segmentPath.file ≠ mpath.file

/-- A named segment that no later manifest write touches. -/
structure Kept (mpath : UnixPath) (segment : WalArchiveSegment) : Prop where
  no_newline : '\n' ∉ segment.segmentPath.text
  separate : (resolveManifestPath mpath segment.segmentPath).file ≠ mpath.file
  untouched : ∀ pid, (resolveManifestPath mpath segment.segmentPath).file ≠
    (temporaryControlPath mpath pid).file

/-- Ids ascend strictly and timestamps do not decrease: the reader's order rules. -/
structure Ordered (records : List WalRecord) (recordTimestamps : List WalArchiveRecordTimestamp) : Prop where
  ids : records.IsChain fun a b => a.txnId < b.txnId
  timestamps : recordTimestamps.IsChain fun a b => a.timestampMicros ≤ b.timestampMicros

theorem writeWalArchiveManifest_ok : writeWalArchiveManifest sha pid fs path manifest = .ok fs' ↔
      (∀ segment ∈ manifest.segments, '|' ∉ segment.segmentPath.text) ∧
        fs.install (temporaryControlPath path pid) path
          (utf8Bytes (appendSha256Trailer sha (unlines (manifestLines manifest)))) = fs' := by
  simp only [writeWalArchiveManifest, renderWalArchiveManifestBody, bind_ok, renderSegments_ok, pure,
    Except.pure, Except.ok.injEq, and_assoc, existsAndEq, true_and, manifestLines]

/-- A manifest over kept segments reads back after its write, and the segments are untouched. -/
theorem read_after_writeWalArchiveManifest (hwrite : writeWalArchiveManifest sha pid fs path manifest = .ok fs')
    (hkept : ∀ segment ∈ manifest.segments, Kept path segment)
    (hholds : Holds fs path manifest.segments parts)
    (hshape : validateArchiveManifestShape path manifest = .ok ()) :
    readWalArchiveManifest sha fs' path = .ok manifest ∧ Holds fs' path manifest.segments parts := by
  obtain ⟨hdelimiter, rfl⟩ := writeWalArchiveManifest_ok.mp hwrite
  constructor
  · exact readWalArchiveManifest_installed
      (fun segment hmem => ⟨hdelimiter segment hmem, (hkept segment hmem).no_newline⟩)
      (install_self _ _ _ _) hshape
  · exact hholds.congr fun segment hmem =>
      install_other ((hkept segment hmem).untouched pid) (hkept segment hmem).separate

theorem validateTimestampMetadata_length
    (h : validateTimestampMetadata mpath records recordTimestamps = .ok ())
    (hne : recordTimestamps ≠ []) : recordTimestamps.length = records.length := by
  rw [validateTimestampMetadata, if_neg hne, except_seq_ok, refuse_eq_ok, not_not] at h
  exact h.1

/-- The shape check of a manifest whose segments hold its records. -/
theorem validateArchiveManifestShape_of_holds (hholds : Holds fs path manifest.segments parts)
    (hcheckpoint : manifest.checkpoint = checkpointMeta parts.flatten)
    (htimestamps : validateTimestampMetadata path parts.flatten manifest.recordTimestamps = .ok ()) :
    validateArchiveManifestShape path manifest = .ok () := by
  rw [validateArchiveManifestShape, except_seq_ok, except_seq_ok, refuse_eq_ok, refuse_eq_ok, refuse_eq_ok,
    hholds.sum_recordCount, hcheckpoint]
  refine ⟨not_not.mpr rfl, ?_, ?_⟩
  · rintro ⟨hnil, hlast⟩
    rw [hnil] at hholds
    cases hholds
    cases hlast
  · rintro ⟨hne, hlength⟩
    exact hlength (validateTimestampMetadata_length htimestamps hne)

/-- **After a write.**  The manifest reads back, and the archive does exactly when its order rules hold. -/
theorem read_after_writeWalArchive {segDir : UnixPath} {perSeg : ℕ}
    (hwrite : writeWalArchiveWithTimestamps sha pid fs mpath segDir records perSeg
      recordTimestamps = .ok (fs', manifest))
    (hpaths : ∀ i < (chunks perSeg records).length,
      Nameable mpath (archiveSegmentPath segDir i)) :
    readWalArchiveManifest sha fs' mpath = .ok manifest ∧
      (readWalArchive sha fs' mpath = .ok (manifest, records) ↔ Ordered records recordTimestamps) ∧
      ∀ segment ∈ manifest.segments, Kept mpath segment := by
  rw [writeWalArchiveWithTimestamps, except_seq_ok, except_seq_ok, refuse_eq_ok] at hwrite
  obtain ⟨hn, hmetadata, hwrite⟩ := hwrite
  obtain ⟨_, hmanifest, hresult⟩ := bind_ok.mp hwrite
  cases hresult
  have hflatten : (chunks perSeg records).flatten = records := flatten_chunksFrom hn _ records le_rfl
  have hholds : Holds (writeArchiveSegments pid mpath segDir fs 0
      (chunks perSeg records)).1 mpath _ (chunks perSeg records) :=
    writeArchiveSegments_holds fs 0 _ fun i _ hlt => (hpaths i (by omega)).located
  have hkept : ∀ segment ∈ (writeArchiveSegments pid mpath segDir fs 0
      (chunks perSeg records)).2, Kept mpath segment := by
    intro segment hmem
    obtain ⟨i, -, hlt, hpath⟩ := mem_writeArchiveSegments hmem
    have hname := hpaths i (by omega)
    have hlocated := hname.located
    rw [Located, ← hpath] at hlocated
    refine ⟨hpath ▸ hname.no_newline, hlocated ▸ hname.separate, fun pid' => ?_⟩
    rw [hlocated]
    exact archiveSegmentPath_ne_temporary _
  obtain ⟨hread, hafter⟩ := read_after_writeWalArchiveManifest hmanifest hkept hholds
    (validateArchiveManifestShape_of_holds hholds (by rw [hflatten]) (by rwa [hflatten]))
  refine ⟨hread, ?_, hkept⟩
  rw [readWalArchive_ok, validateArchiveRecords_ok, validateArchiveTimestamps_ok]
  constructor
  · rintro ⟨-, -, ⟨-, hids⟩, -, htimestamps⟩
    exact ⟨hids, htimestamps⟩
  · rintro ⟨hids, htimestamps⟩
    exact ⟨hread, ⟨_, hafter, hflatten⟩, ⟨rfl, hids⟩, hmetadata, htimestamps⟩

/-! ### Appending segments -/

/-- A segment file that may be appended: nameable, and no temporary file of the manifest. -/
structure Appendable (mpath segmentPath : UnixPath) : Prop extends
    Nameable mpath segmentPath where
  untouched : ∀ pid, segmentPath.file ≠ (temporaryControlPath mpath pid).file

/-- The store, and what was written so far. -/
structure ArchiveState where
  fs : FileStore
  manifest : WalArchiveManifest
  records : List WalRecord

/-- An append by some process, or any change to another file. -/
inductive ArchiveAction where
  | append (pid : ℕ) (segmentPath : UnixPath) (recordTimestamps : List WalArchiveRecordTimestamp)
  | outside (file : Bool × List PathName) (content : Option Bytes)

/-- An append counts when it returns `Ok`; what was written grows by the records of its segment. -/
def archiveStep (sha : Sha256) (mpath : UnixPath) (s : ArchiveState) :
    ArchiveAction → Option ArchiveState
  | .append pid segmentPath recordTimestamps =>
    match appendWalArchiveSegmentWithTimestamps sha pid s.fs mpath segmentPath recordTimestamps,
        readWalSegment (display segmentPath) (s.fs segmentPath.file) with
    | .ok (fs, manifest), .ok segmentRecords => some ⟨fs, manifest, s.records ++ segmentRecords⟩
    | _, _ => none
  | .outside file content => some { s with fs := Function.update s.fs file content }

/-- The archive that a write left, as a transition system. -/
def archiveSystem (sha : Sha256) (mpath : UnixPath) (start : ArchiveState) :
    TransitionSystem ArchiveState ArchiveAction where
  init s := s = start
  step := archiveStep sha mpath

/-- Appended paths are appendable; other writes keep off the manifest and its segments. -/
def ArchiveGuard (mpath : UnixPath) (s : ArchiveState) : ArchiveAction → Prop
  | .append _ segmentPath _ => Appendable mpath segmentPath
  | .outside file _ => file ≠ mpath.file ∧ ∀ segment ∈ s.manifest.segments,
      file ≠ (resolveManifestPath mpath segment.segmentPath).file

/-- The readers return what was written. -/
structure Agrees (sha : Sha256) (mpath : UnixPath) (s : ArchiveState) : Prop where
  archive : readWalArchive sha s.fs mpath = .ok (s.manifest, s.records)
  kept : ∀ segment ∈ s.manifest.segments, Kept mpath segment

variable {segmentPath : UnixPath} {s : ArchiveState}

theorem Kept.of_appendable (h : Appendable mpath segmentPath) :
    Kept mpath (archiveSegment mpath segmentPath records) := by
  have hlocated := h.located
  rw [Located] at hlocated
  refine ⟨h.no_newline, ?_, ?_⟩
  · rw [archiveSegment, hlocated]
    exact h.separate
  · rw [archiveSegment, hlocated]
    exact h.untouched

section

variable (h : Agrees sha mpath s)
include h

/-- **An append.**  Every rule of the reader is checked before the new manifest is installed. -/
theorem Agrees.append {segmentRecords : List WalRecord} (hpath : Appendable mpath segmentPath)
    (happend : appendWalArchiveSegmentWithTimestamps sha pid s.fs mpath segmentPath
      recordTimestamps = .ok (fs, manifest))
    (hsegment : readWalSegment (display segmentPath) (s.fs segmentPath.file) = .ok segmentRecords) :
    Agrees sha mpath ⟨fs, manifest, s.records ++ segmentRecords⟩ := by
  rw [appendWalArchiveSegmentWithTimestamps] at happend
  obtain ⟨_, harchive, happend⟩ := bind_ok.mp happend
  cases h.archive.symm.trans harchive
  obtain ⟨_, hread, happend⟩ := bind_ok.mp happend
  cases hsegment.symm.trans hread
  -- four checks of the appended part alone, then the reader's own three
  iterate 4 obtain ⟨-, happend⟩ := except_seq_ok.mp happend
  obtain ⟨hshape, happend⟩ := except_seq_ok.mp happend
  obtain ⟨hrecords, happend⟩ := except_seq_ok.mp happend
  obtain ⟨htimestamps, happend⟩ := except_seq_ok.mp happend
  obtain ⟨_, hmanifest, hresult⟩ := bind_ok.mp happend
  cases hresult
  obtain ⟨-, ⟨parts, hholds, hflatten⟩, -, -⟩ := readWalArchive_ok.mp h.archive
  have hlocated := hpath.located
  rw [Located] at hlocated
  have hnew : Holds s.fs mpath [archiveSegment mpath segmentPath segmentRecords]
      [segmentRecords] := by
    refine List.Forall₂.cons ⟨?_, validateArchiveSegment_self _ _ _⟩ List.Forall₂.nil
    rw [archiveSegment, hlocated]
    exact readWalSegment_ok_path hsegment _
  have hkept : ∀ segment ∈ s.manifest.segments ++ [archiveSegment mpath segmentPath segmentRecords],
      Kept mpath segment := by
    intro segment hmem
    rcases mem_append.mp hmem with hold | hlast
    · exact h.kept segment hold
    · rw [mem_singleton.mp hlast]
      exact Kept.of_appendable hpath
  obtain ⟨hread, hafter⟩ := read_after_writeWalArchiveManifest hmanifest hkept (rel_append hholds hnew) hshape
  refine ⟨readWalArchive_ok.mpr ⟨hread, ⟨_, hafter, ?_⟩, hrecords, htimestamps⟩, hkept⟩
  rw [flatten_append, hflatten, flatten_singleton]

/-- A change to another file. -/
theorem Agrees.outside {content : Option Bytes} (hmanifest : file ≠ mpath.file)
    (hsegments : ∀ segment ∈ s.manifest.segments,
      file ≠ (resolveManifestPath mpath segment.segmentPath).file) :
    Agrees sha mpath { s with fs := Function.update s.fs file content } := by
  obtain ⟨hread, ⟨parts, hholds, hflatten⟩, hrecords, htimestamps⟩ := readWalArchive_ok.mp h.archive
  refine ⟨readWalArchive_ok.mpr ⟨?_, ⟨parts, ?_, hflatten⟩, hrecords, htimestamps⟩, h.kept⟩
  · exact (readWalArchiveManifest_congr (update_of_ne hmanifest.symm _ _)).trans hread
  · exact hholds.congr fun segment hmem => update_of_ne (hsegments segment hmem).symm _ _

theorem Agrees.step {s' : ArchiveState} {a : ArchiveAction} (hguard : ArchiveGuard mpath s a)
    (hstep : archiveStep sha mpath s a = some s') : Agrees sha mpath s' := by
  cases a with
  | append pid segmentPath recordTimestamps =>
    rw [archiveStep] at hstep
    split at hstep
    · rename_i fs manifest segmentRecords happend hsegment
      cases hstep
      exact h.append hguard happend hsegment
    · cases hstep
  | outside file content =>
    cases hstep
    exact h.outside hguard.1 hguard.2

end

/-- Whatever is written under nameable segment paths has its manifest read back, and is read back as a
whole exactly when ids ascend strictly and timestamps do not decrease. From then on every run of appends
that return `Ok`, of appendable segment files and among changes to other files, leaves an archive whose
manifest and records are the ones written. -/
theorem wal_archive_reads_what_was_written (sha : Sha256) (pid : ℕ) (fs fs' : FileStore)
    (mpath segDir : UnixPath) (records : List WalRecord) (perSeg : ℕ)
    (recordTimestamps : List WalArchiveRecordTimestamp) (manifest : WalArchiveManifest)
    (hwrite : writeWalArchiveWithTimestamps sha pid fs mpath segDir records perSeg
      recordTimestamps = .ok (fs', manifest))
    (hpaths : ∀ i < (chunks perSeg records).length,
      Nameable mpath (archiveSegmentPath segDir i)) :
    readWalArchiveManifest sha fs' mpath = .ok manifest ∧
      (readWalArchive sha fs' mpath = .ok (manifest, records) ↔ Ordered records recordTimestamps) ∧
      (Ordered records recordTimestamps → ∀ s,
        (archiveSystem sha mpath ⟨fs', manifest, records⟩).ReachableVia (ArchiveGuard mpath) s →
        readWalArchiveManifest sha s.fs mpath = .ok s.manifest ∧
          readWalArchive sha s.fs mpath = .ok (s.manifest, s.records)) := by
  obtain ⟨hread, hiff, hkept⟩ := read_after_writeWalArchive hwrite hpaths
  refine ⟨hread, hiff, ?_⟩
  intro hordered s hreach
  have hagrees : Agrees sha mpath s := by
    refine hreach.invariant ?_ ?_
    · rintro _ rfl
      exact ⟨hiff.mpr hordered, hkept⟩
    · intro s a s' hs hguard hstep
      exact hs.step hguard hstep
  exact ⟨(readWalArchive_ok.mp hagrees.archive).1, hagrees.archive⟩

/-- A relative manifest path with its segments below it. -/
def samplePath : UnixPath := UnixPath.ofText "archive/MANIFEST".toList

def sampleSegmentDir : UnixPath := UnixPath.ofText "archive/segments".toList

def sampleRecord (txnId : TxnId) : WalRecord := ⟨txnId, [], by decide⟩

theorem nameable_sample {i : ℕ} (h : i < 2) :
    Nameable samplePath (archiveSegmentPath sampleSegmentDir i) := by
  interval_cases i
  · exact ⟨by decide, by decide, by decide⟩
  · exact ⟨by decide, by decide, by decide⟩

/-- Two records with ascending ids, one segment each. -/
theorem wal_archive_reads_sample :
    ∃ fs manifest, writeWalArchiveWithTimestamps sampleHash 1 (fun _ => none)
        samplePath sampleSegmentDir [sampleRecord 1, sampleRecord 2] 1 [] = .ok (fs, manifest) ∧
      readWalArchive sampleHash fs samplePath =
        .ok (manifest, [sampleRecord 1, sampleRecord 2]) := by
  refine ⟨_, _, rfl, ?_⟩
  have h := wal_archive_reads_what_was_written sampleHash 1 (fun _ => none) _
    samplePath sampleSegmentDir [sampleRecord 1, sampleRecord 2] 1 [] _ rfl
    fun i hi => nameable_sample hi
  exact h.2.1.mpr ⟨by decide, by decide⟩

/-- The writer accepts descending ids, and the reader refuses what it wrote. -/
theorem wal_archive_descending_ids_not_read :
    ∃ fs manifest, writeWalArchiveWithTimestamps sampleHash 1 (fun _ => none)
        samplePath sampleSegmentDir [sampleRecord 2, sampleRecord 1] 1 [] = .ok (fs, manifest) ∧
      readWalArchive sampleHash fs samplePath ≠
        .ok (manifest, [sampleRecord 2, sampleRecord 1]) := by
  refine ⟨_, _, rfl, ?_⟩
  intro hread
  have hwritten := @read_after_writeWalArchive samplePath [sampleRecord 2, sampleRecord 1] _
    sampleHash (fun _ => none) _ 1 [] sampleSegmentDir 1 rfl fun i hi => nameable_sample hi
  exact absurd (hwritten.2.1.mp hread).ids (by decide)

end ThunderboltDb.Wal
