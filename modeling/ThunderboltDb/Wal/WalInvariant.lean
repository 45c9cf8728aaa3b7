import ThunderboltDb.Wal.LogView

/-!
# Every WAL function keeps the representation invariant

`Frames WalState.exactView m`: a call that does not touch the log, its file or the exact lifecycle, however it
returns. `Keeps fl f m`: a call that may touch them but keeps `LogInv fl f`, so in
particular leaves the watermark at `f`. The functions of the buffer fall into these two groups, except
for the handoff of a group, the commit of a job and the rotation of the segment, which get their own
triples.
-/

namespace ThunderboltDb.Wal

open Lib WalState
open List hiding get getElem?_eq_some_iff

variable {ι α β : Type}

/-! ### Functions that do not touch the log -/

theorem framesExact_recordTailOffset (io : IoOutcome) :
    Frames exactView (recordTailOffset io : WalM ι Unit) := by
  unfold recordTailOffset
  refine .get_bind fun w => .ite (.pure _) ?_
  cases io with
  | fail n => exact .throw _
  | ok => exact .bind (.modify fun _ => rfl) fun _ => .modify fun _ => rfl

theorem framesExact_requireUnpoisoned : Frames exactView (requireUnpoisoned : WalM ι Unit) := by
  unfold requireUnpoisoned
  refine .get_bind fun w => ?_
  dsimp only
  cases w.core.fixedFault with
  | some fault => exact .throw _
  | none =>
    cases w.core.poisoned with
    | some reason => exact .throw _
    | none => exact .pure _

theorem framesExact_reserveTypedExactCredit (bytes : ℕ) :
    Frames exactView (reserveTypedExactCredit bytes : WalM ι Unit) := by
  unfold reserveTypedExactCredit
  intro c
  refine .get_bind fun w hw => .ite (fun _ => ?_) fun _ => .ite (fun _ => ?_) fun _ => ?_
  · exact .throw fun _ h => h ▸ hw
  · exact .throw fun _ h => h ▸ hw
  · refine .modify fun _ h => ?_
    subst h
    exact hw

section

variable [DecidableEq ι] (env : WalEnv ι)

section

variable (io : IoOutcome)
include io

theorem framesExact_checkOrInstallDurableIdentity {identity : ι} :
    Frames exactView (checkOrInstallDurableIdentity io identity) := by
  unfold checkOrInstallDurableIdentity
  refine .get_bind fun w => ?_
  match w.disk.anchor with
  | .error e => exact .throw _
  | .ok (some existing) =>
    exact .ite (.ite (.pure _) (.throw _)) (.throw _)
  | .ok none =>
    cases io with
    | ok => exact .modify fun _ => rfl
    | fail n => exact .bind (.modify fun _ => rfl) fun _ => .throw _

theorem framesExact_anchorIdentity {wasBound : Bool} {identity : Option ι} :
    Frames exactView (anchorIdentity io wasBound identity) := by
  cases identity with
  | none => exact .pure _
  | some identity =>
    refine .get_bind fun w => .ite ?_ (framesExact_checkOrInstallDurableIdentity io)
    cases requireDurableIdentity w.core.segmentPath w.disk.anchor identity with
    | error e => exact .throw _
    | ok u => exact .pure _

theorem framesExact_verifyThrough {target : ℕ} : Frames exactView (verifyThrough env io target) := by
  unfold verifyThrough
  refine .get_bind fun w => .ite (.pure _) (.ite (.throw _) ?_)
  cases scanIdentity env w.buffer.durableIdentityBinding.identity
      ((w.buffer.records.take target).drop w.buffer.durableIdentityBinding.verifiedRecords) with
  | error e => exact .throw _
  | ok identity =>
    exact .bind (framesExact_anchorIdentity io)
      fun _ => .modify fun _ => rfl

theorem framesExact_preverifyTypedExactLineage (exactIdentity : ι) :
    Frames exactView (preverifyTypedExactLineage env io exactIdentity) := by
  unfold preverifyTypedExactLineage
  refine .get_bind fun w => .bind (framesExact_verifyThrough env io) fun _ => .get_bind fun w' => ?_
  dsimp only
  cases w'.buffer.durableIdentityBinding.identity with
  | some identity =>
    refine .ite (.throw _) ?_
    cases requireDurableIdentity w'.core.segmentPath w'.disk.anchor identity with
    | error e => exact .throw _
    | ok u => exact .pure _
  | none => exact .bind (framesExact_checkOrInstallDurableIdentity io) fun _ => .pure _

theorem framesExact_verifyGroupIdentity (p : WalGroupPrefix) :
    Frames exactView (verifyGroupIdentity env io p) := by
  unfold verifyGroupIdentity
  exact .get_bind fun w => .ite (framesExact_verifyThrough env io) (.pure _)

theorem framesExact_bindRetained (retained : List WalRecord) :
    Frames exactView (bindRetained env io retained) := by
  unfold bindRetained
  refine .get_bind fun w => ?_
  cases w.buffer.durableIdentityBinding.identity with
  | some identity => exact framesExact_anchorIdentity io
  | none =>
    cases scanIdentity env none retained with
    | error e => exact .throw _
    | ok identity => exact framesExact_anchorIdentity io

end

end

/-! ### Functions that keep the invariant -/

/-- However the call returns, the representation invariant holds as before. -/
def Keeps (fl : Option FlushProgress) (f : ℕ) (m : WalM ι α) : Prop :=
  Triple (fun w => LogInv fl f w.view) m (fun _ w => LogInv fl f w.view)
    (fun _ w => LogInv fl f w.view)

variable {fl : Option FlushProgress} {f : ℕ} {m : WalM ι α} {v : LogView}

theorem keeps_of_frames (h : Frames exactView m) : Keeps fl f m := h.triple fun x => LogInv fl f x.log

theorem Keeps.bind {g : α → WalM ι β} (hm : Keeps fl f m) (hg : ∀ a, Keeps fl f (g a)) : Keeps fl f (m >>= g) :=
  Triple.bind hm fun a => hg a

/-- An update of the buffer, by what it does to the view. -/
theorem Keeps.modify {g : WalState ι → WalState ι} (h : ∀ w, LogInv fl f w.view → LogInv fl f (g w).view) :
    Keeps fl f (modify g : WalM ι Unit) :=
  Triple.modify h

theorem keeps_prune : Keeps fl f (pruneDurableTypedExactWireRecords : WalM ι Unit) :=
  Keeps.modify fun _ h => h.dropWires (dropWhile_sublist _)

theorem keeps_append (r : WalRecord) : Keeps fl f (append r : WalM ι Unit) := by
  unfold append
  exact keeps_prune.bind fun _ => Keeps.modify fun _ h => h.push r

theorem keeps_appendCanonical (prepared : PreparedCanonicalWalRecord ι) :
    Keeps fl f (appendCanonical prepared) := by
  unfold appendCanonical
  refine keeps_prune.bind fun _ => ?_
  split
  · exact keeps_of_frames (.throw _)
  · exact Keeps.modify fun _ h => h.push prepared.record

/-! ### The file -/

/-- While the file is closed the invariant says nothing about the segment. -/
theorem LogInv.setClosedSegment (h : LogInv fl f v) (hc : v.fileOpen = false)
    (segment : Option Bytes) : LogInv fl f { v with segment := segment } := by
  refine { h with
      opened := fun ho => absurd (hc.symm.trans ho) (by simp), closed := fun _ => ?_,
      flight := ?_ }
  · obtain ⟨hd, hp, hb⟩ := h.closed hc
    exact ⟨hd, hp, hb⟩
  · cases fl with
    | none => exact h.flight
    | some p =>
      have hj : JobInv p v := h.flight
      exact absurd (hc.symm.trans hj.fileOpen) (by simp)

/-- The view in which the file is created: closed, with the invariant. -/
def Creating (fl : Option FlushProgress) (f : ℕ) (v : LogView) : Prop :=
  LogInv fl f v ∧ v.fileOpen = false

theorem Creating.setSegment (h : Creating fl f v) {segment : Option Bytes} :
    Creating fl f { v with segment := segment } :=
  ⟨h.1.setClosedSegment h.2 segment, h.2⟩

theorem triple_require (P : WalState ι → Prop) (c : Prop) [Decidable c] (message : String) :
    Triple P (require c message) (fun _ w => P w ∧ c) (fun _ w => P w) :=
  Triple.ite (fun hc => .pure fun _ h => ⟨h, hc⟩) fun _ => .throw fun _ h => h

/-- A view-keeping call in the middle of the creation. -/
theorem triple_creating (h : Frames view m) {P : LogView → Prop} :
    Triple (fun w => Creating fl f w.view ∧ P w.view) m
      (fun _ w => Creating fl f w.view ∧ P w.view) (fun _ w => LogInv fl f w.view) :=
  (h.triple fun v => Creating fl f v ∧ P v).conseq (fun _ h => h) (fun _ _ h => h)
    fun _ _ h => h.1.1

theorem triple_writeMagicFile {io : IoOutcome} :
    Triple (fun w => Creating fl f w.view) (writeMagicFile io : WalM ι Unit)
      (fun _ w => Creating fl f w.view ∧ w.view.segment = some walSegmentMagic)
      (fun _ w => LogInv fl f w.view) := by
  unfold writeMagicFile
  refine .get_bind fun w hw => ?_
  cases io with
  | ok =>
    refine .modify ?_
    rintro _ rfl
    exact ⟨hw.setSegment, rfl⟩
  | fail n =>
    refine .bind (Q := fun _ w => LogInv fl f w.view) (Triple.modify ?_) fun _ => ?_
    · rintro _ rfl
      exact (hw.setSegment).1
    · exact .throw fun _ h => h

def createdSegment (env : WalEnv ι) : Bytes :=
  walSegmentMagic ++ zeros (env.walPreallocChunkBytes - 10)

section

variable (env : WalEnv ι)
include env

theorem zeroFillExtend_magic : zeroFillExtend .ok walSegmentMagic.length env.walPreallocChunkBytes walSegmentMagic =
      createdSegment env := by
  have h := writeAt_append walSegmentMagic [] (zeros (env.walPreallocChunkBytes - 10))
  rw [append_nil, drop_nil, append_nil] at h
  exact h

theorem triple_createSegmentFile {io : SegmentIo} :
    Triple (fun w => Creating fl f w.view) (createSegmentFile env io)
      (fun _ w => Creating fl f w.view ∧ w.view.segment = some (createdSegment env))
      (fun _ w => LogInv fl f w.view) := by
  have hreq : ∀ (P : LogView → Prop) (c : Prop) [Decidable c] (message : String),
      Triple (fun w : WalState ι => Creating fl f w.view ∧ P w.view) (require c message)
        (fun _ w => Creating fl f w.view ∧ P w.view) (fun _ w => LogInv fl f w.view) :=
    fun P c _ message => triple_creating (.ite (.pure _) (.throw _))
  unfold createSegmentFile
  refine .get_bind fun w₀ hw₀ => ?_
  refine .bind (Q := fun _ w => Creating fl f w.view ∧ True) ?_ fun _ => ?_
  · refine .modify ?_
    rintro _ rfl
    exact ⟨hw₀, trivial⟩
  refine .bind (hreq (fun _ => True) _ _) fun _ => ?_
  refine .bind (hreq (fun _ => True) _ _) fun _ => ?_
  refine .bind ((triple_writeMagicFile).conseq (fun _ h => h.1)
    (fun _ _ h => h) fun _ _ h => h) fun _ => ?_
  refine .bind (hreq (fun v => v.segment = some walSegmentMagic) _ _) fun _ => ?_
  refine .bind (hreq (fun v => v.segment = some walSegmentMagic) _ _) fun _ => ?_
  refine .bind (Q := fun _ w => Creating fl f w.view ∧
    (io.zeroFillCreated = .ok → w.view.segment = some (createdSegment env))) ?_ fun _ => ?_
  · refine .modify ?_
    rintro w ⟨hw, hseg⟩
    refine ⟨hw.setSegment, fun hio => ?_⟩
    have hbytes : w.disk.bytes = walSegmentMagic := by
      rw [WalDisk.bytes, show w.disk.segment = some walSegmentMagic from hseg, Option.getD_some]
    rw [← zeroFillExtend_magic env, ← hio]
    show some (zeroFillExtend _ _ _ w.disk.bytes) = _
    rw [hbytes]
  · exact (triple_require _ _ _).conseq (fun _ h => h) (fun _ _ h => ⟨h.1.1, h.1.2 h.2⟩)
      fun _ _ h => h.1.1

theorem triple_ensureCreated (io : SegmentIo) : Triple (fun w => LogInv fl f w.view) (ensureCreated env io)
      (fun _ w => LogInv fl f w.view ∧ w.view.fileOpen = true) (fun _ w => LogInv fl f w.view) := by
  unfold ensureCreated
  refine .get_bind fun w hw => .ite (fun ho => .pure ?_) fun hc => ?_
  · rintro _ rfl
    exact ⟨hw, ho⟩
  · have hclosed : w.core.fileOpen = false := by simpa using hc
    refine .bind ((triple_createSegmentFile env).conseq ?_ (fun _ _ h => h) fun _ _ h => h)
      fun _ => ?_
    · rintro _ rfl
      exact ⟨hw, hclosed⟩
    refine .bind (Q := fun _ w => LogInv fl f w.view ∧ w.view.fileOpen = true) ?_ fun _ => ?_
    · refine .modify ?_
      rintro w' ⟨hw', hseg⟩
      refine ⟨?_, rfl⟩
      have hchunk : 10 ≤ env.walPreallocChunkBytes := le_trans (by decide) env.chunk_ge
      have hnew := hw'.1.create hw'.2 hchunk
      rw [show some (walSegmentMagic ++ zeros (env.walPreallocChunkBytes - 10)) = w'.view.segment from
        hseg.symm] at hnew
      exact hnew
    · exact (((framesExact_recordTailOffset io.recordTail).comp ExactView.log).triple
        fun v => LogInv fl f v ∧ v.fileOpen = true).conseq (fun _ h => h) (fun _ _ h => h)
          fun _ _ h => h.1

/-- After `ensure_preallocated_through` the extent reaches `writeEnd`. -/
theorem triple_ensurePreallocatedThrough (io : IoOutcome) (writeEnd : ℕ) :
    Triple (fun w => LogInv fl f w.view ∧ w.view.fileOpen = true) (ensurePreallocatedThrough env io writeEnd)
      (fun _ w => LogInv fl f w.view ∧ w.view.fileOpen = true ∧ writeEnd ≤ w.view.prealloc)
      (fun _ w => LogInv fl f w.view) := by
  unfold ensurePreallocatedThrough
  refine .get_bind fun w hw => .ite (fun hle => .pure ?_) fun hgt => ?_
  · rintro _ rfl
    exact ⟨hw.1, hw.2, hle⟩
  have hopen : w.core.fileOpen = true := hw.2
  rw [if_neg (by simp [hopen])]
  generalize hnew : max (max writeEnd (w.core.preallocBytes + env.walPreallocChunkBytes))
    env.walPreallocChunkBytes = newPrealloc
  have hle : w.view.prealloc ≤ newPrealloc := by
    show w.core.preallocBytes ≤ newPrealloc
    omega
  cases io with
  | ok =>
    rintro _ rfl
    exact ⟨hw.1.extend hw.2 hle, hopen, by show writeEnd ≤ newPrealloc; omega⟩
  | fail n =>
    rintro _ rfl
    exact hw.1.writeBehind hw.2 _

/-- The core without what it knows of the file. -/
def WalDurableState.unfiled (c : WalDurableState) : WalDurableState :=
  { c with fileOpen := false, preallocBytes := 0, durableBytes := 0, tailOffsetRecorded := 0 }

/-- Creating the file changes the core's file fields only, and leaves the anchor beside the segment. -/
theorem frames_ensureCreated (io : SegmentIo) :
    Frames (fun w : WalState ι => (w.buffer, w.disk.anchor, w.core.unfiled)) (ensureCreated env io) := by
  unfold ensureCreated createSegmentFile
  refine .get_bind fun w => .ite (.pure _) (.bind ?_ fun _ => .bind (.modify fun _ => rfl) fun _ => ?_)
  · have hreq : ∀ (c : Prop) [Decidable c] (message : String),
        Frames (fun w : WalState ι => (w.buffer, w.disk.anchor, w.core.unfiled))
          (require c message : WalM ι Unit) :=
      fun c _ message => .ite (.pure _) (.throw _)
    refine .get_bind fun w' => .bind (.modify fun _ => rfl) fun _ => .bind (hreq _ _) fun _ => ?_
    refine .bind (hreq _ _) fun _ => .bind ?_ fun _ => .bind (hreq _ _) fun _ => ?_
    · unfold writeMagicFile
      refine .get_bind fun w => ?_
      cases io.writeMagic with
      | ok => exact .modify fun _ => rfl
      | fail n => exact .bind (.modify fun _ => rfl) fun _ => .throw _
    · exact .bind (hreq _ _) fun _ => .bind (.modify fun _ => rfl) fun _ => hreq _ _
  · unfold recordTailOffset
    refine .get_bind fun w => .ite (.pure _) ?_
    cases io.recordTail with
    | fail n => exact .throw _
    | ok => exact .bind (.modify fun _ => rfl) fun _ => .modify fun _ => rfl

/-- Extending the preallocation leaves the buffer, the anchor and the rest of the core alone. -/
theorem frames_ensurePreallocatedThrough (io : IoOutcome) (writeEnd : ℕ) :
    Frames (fun w : WalState ι => (w.buffer, w.disk.anchor, { w.core with preallocBytes := 0 }))
      (ensurePreallocatedThrough env io writeEnd) := by
  unfold ensurePreallocatedThrough
  refine .get_bind fun w => .ite (.pure _) (.ite (.throw _) ?_)
  exact .bind (.modify fun _ => rfl) fun _ =>
    .bind (.ite (.pure _) (.throw _)) fun _ => .modify fun _ => rfl

end

/-! ### The typed exact lifecycle -/

variable (env : WalEnv ι) (io : SegmentIo)

theorem keeps_admitSerialExtent {len : ℕ} : Keeps fl f (admitSerialExtent env io len) := by
  unfold admitSerialExtent
  refine (keeps_of_frames framesExact_requireUnpoisoned).bind fun _ => ?_
  refine Triple.bind (triple_ensureCreated env io) fun _ => Triple.get_bind fun w hw => ?_
  have hstay : ∀ w', w' = w → LogInv fl f w'.view := fun _ h => h ▸ hw.1
  cases w.buffer.oversizedLegacy w.core.flushedRecords with
  | some r => exact .throw hstay
  | none =>
    refine .ite (fun _ => .pure hstay) fun _ => ?_
    refine .ite (fun _ => .throw hstay) fun _ => ?_
    refine (triple_ensurePreallocatedThrough env _ _).conseq ?_ (fun _ _ h => h.1) fun _ _ h => h
    rintro _ rfl
    exact hw

theorem keeps_reserveTypedExactAppend [DecidableEq ι] (prepared : PreparedCanonicalWalRecord ι) :
    Keeps fl f (reserveTypedExactAppend env io prepared) := by
  unfold reserveTypedExactAppend
  refine keeps_prune.bind fun _ => .get_bind fun w hw => ?_
  have hstay : ∀ w', w' = w → LogInv fl f w'.view := fun _ h => h ▸ hw
  refine .ite (fun _ => .throw hstay) fun _ => ?_
  cases prepared.exact with
  | none => exact .throw hstay
  | some exact =>
    refine Triple.conseq (P := fun w => LogInv fl f w.view) ?_ hstay (fun _ _ h => h) fun _ _ h => h
    unfold reserveExact
    refine .ite (fun _ => .throw fun _ h => h) fun _ => ?_
    refine (keeps_of_frames (framesExact_reserveTypedExactCredit _)).bind fun _ => ?_
    refine Keeps.bind (Triple.onError ?_) fun prior => ?_
    · -- releasing the credit of a failed preflight does not touch the log
      exact (keeps_admitSerialExtent env io).bind fun _ =>
        keeps_of_frames (framesExact_preverifyTypedExactLineage env _ _)
    · exact keeps_of_frames (.get_bind fun _ => .pure _)

/-- Set a state that keeps the invariant, then fail. -/
theorem triple_set_throw {s₀ s₁ : WalState ι × WalTypedExactAppendReservation ι} {e : CallFailure}
    {Q : Unit → WalState ι × WalTypedExactAppendReservation ι → Prop}
    (h : LogInv fl f s₁.1.view) :
    Triple (fun s => s = s₀) (do set s₁; throw e : ReservationM ι Unit) Q (fun _ s => LogInv fl f s.1.view) :=
  Triple.bind (Q := fun _ s => LogInv fl f s.1.view) (Triple.set fun _ _ => h)
    fun _ => .throw fun _ h => h

theorem triple_appendTypedExactTentative [DecidableEq ι] :
    Triple (fun s => LogInv fl f s.1.view) (appendTypedExactTentative : ReservationM ι Unit)
      (fun _ s => LogInv fl f s.1.view) (fun _ s => LogInv fl f s.1.view) := by
  unfold appendTypedExactTentative
  refine .get_bind fun s hs => ?_
  obtain ⟨w, r⟩ := s
  have hstay : ∀ s, s = (w, r) → LogInv fl f s.1.view := fun _ h => h ▸ hs
  refine .ite (fun _ => .throw hstay) fun _ => ?_
  match hp : r.prepared, r.pendingGroupCredit with
  | none, _ => exact .throw hstay
  | some prepared, none => exact triple_set_throw hs
  | some prepared, some credit =>
    dsimp only
    match hexact : prepared.exact with
    | none => exact triple_set_throw hs
    | some exact =>
      refine .ite (fun _ => triple_set_throw hs) fun _ => ?_
      refine .ite (fun _ => triple_set_throw hs) fun _ => .set ?_
      rintro _ rfl
      exact hs.pushWire prepared.record rfl (prepared.exact_serialized exact hexact)

theorem triple_rollbackTypedExactAppend :
    Triple (fun s => LogInv fl f s.1.view) (rollbackTypedExactAppend : ReservationM ι Unit)
      (fun _ s => LogInv fl f s.1.view) (fun _ s => LogInv fl f s.1.view) := by
  unfold rollbackTypedExactAppend
  refine .get_bind fun s hs => ?_
  obtain ⟨w, r⟩ := s
  have hstay : ∀ s, s = (w, r) → LogInv fl f s.1.view := fun _ h => h ▸ hs
  dsimp only
  cases r.state with
  | prepared => exact .pure hstay
  | tentative position expectedGeneration =>
    refine .ite (fun _ => .throw hstay) fun hdrift => ?_
    split
    iterate 4 exact .throw hstay
    · rename_i wire recordCount tail record hwire _ _
      refine .ite (fun _ => .throw hstay) fun _ => ?_
      cases r.rollbackAuthority with
      | none => exact .throw hstay
      | some authority =>
        dsimp only
        split
        · rename_i hmatch
          refine .set ?_
          rintro _ rfl
          refine hs.pop hwire ?_
          simp only [settleDrifted, Bool.not_eq_true, decide_eq_false_iff_not, not_or, not_not] at hdrift
          rw [hmatch.1]
          exact hdrift.2.1
        · exact .throw hstay

theorem keeps_claimTypedExactAppend (r : WalTypedExactAppendReservation ι) :
    Keeps fl f (claimTypedExactAppend r) := by
  unfold claimTypedExactAppend
  refine .get_bind fun w hw => ?_
  have hstay : ∀ w', w' = w → LogInv fl f w'.view := fun _ h => h ▸ hw
  cases r.state with
  | prepared => exact .throw hstay
  | tentative position expectedGeneration =>
    refine .ite (fun _ => .throw hstay) fun _ => ?_
    cases hlast : w.buffer.exactTypedWireRecords.getLast? with
    | none => exact .throw hstay
    | some wire =>
      refine .ite (fun _ => .throw hstay) fun _ => ?_
      refine .bind (Q := fun _ w => LogInv fl f w.view) (Triple.modify ?_)
        fun _ => .pure fun _ h => h
      rintro _ rfl
      exact hw.claimLast .claimedPending hlast

/-! ### Truncation of the tail -/

/-- Cutting the tail at or behind the frontier keeps the log. -/
theorem triple_truncate {len : ℕ} :
    Triple (fun w : WalState ι => LogInv fl f w.view ∧ frontier fl f ≤ len) (truncate io len)
      (fun _ w => LogInv fl f w.view) (fun _ w => LogInv fl f w.view) := by
  unfold truncate
  refine .get_bind fun w hw => ?_
  have hstay : ∀ w', w' = w → LogInv fl f w'.view := fun _ h => h ▸ hw.1
  refine .ite (fun _ => .pure hstay) fun _ => ?_
  refine .ite (fun _ => .throw hstay) fun _ => ?_
  refine .ite (fun _ => .throw hstay) fun hwires => ?_
  have hlen : frontier fl w.view.flushed ≤ len := by
    rw [hw.1.flushed_eq]
    exact hw.2
  have hflushed : w.view.flushed ≤ len := le_trans hw.1.flushed_le_frontier hlen
  refine .bind (Q := fun _ w' => w'.view = w.view) (Triple.modify ?_) fun _ => ?_
  · rintro _ rfl
    rfl
  refine .bind (Q := fun _ w' => w'.view = w.view) ?_ fun _ => .modify ?_
  · unfold rewindDurable
    refine .get_bind fun w' hw' => ?_
    have hle' : w'.core.flushedRecords ≤ len := (congrArg LogView.flushed hw').le.trans hflushed
    rw [if_pos hle']
    exact .pure fun _ h => by rw [h, hw']
  · intro w' hw'
    show LogInv fl f { w'.view with records := w'.view.records.take len }
    rw [hw']
    refine hw.1.take (List.Sublist.refl _) hlen ?_
    intro wire hwire
    have := hwires
    simp only [any_eq_true, decide_eq_true_eq, not_exists, not_and, not_le] at this
    exact this wire hwire

/-! ### Forming a group -/

theorem selectLoop_spec (b : WalBuffer ι) (firstRecord : ℕ) (free : Option ℕ) (room target wireBytes : ℕ)
    (includesExact : Bool) {t wb : ℕ}
    (h : b.selectLoop firstRecord free room target wireBytes includesExact = .ok (t, wb))
    (hle : target ≤ b.records.length) :
    target ≤ t ∧ t ≤ b.records.length ∧
      (target = firstRecord → includesExact = false → 0 < room → target < b.records.length → target < t) := by
  induction room generalizing target wireBytes includesExact with
  | zero =>
    rw [WalBuffer.selectLoop] at h
    cases h
    exact ⟨le_rfl, hle, fun _ _ hroom _ => absurd hroom (by omega)⟩
  | succ room ih =>
    rw [WalBuffer.selectLoop] at h
    cases hrec : b.records[target]? with
    | none =>
      rw [hrec] at h
      cases h
      refine ⟨le_rfl, hle, fun _ _ _ hlt => ?_⟩
      rw [getElem?_eq_none_iff] at hrec
      omega
    | some record =>
      have hlt : target < b.records.length := (getElem?_eq_some_iff.mp hrec).1
      rw [hrec] at h
      dsimp only at h
      cases hwire : b.exactWireForGroup target record with
      | error e => rw [hwire] at h; cases h
      | ok exact =>
        rw [hwire] at h
        dsimp only at h
        split_ifs at h with hexact hfull hfirst
        · cases h
          exact ⟨le_rfl, hle, fun _ hinc _ _ => absurd hexact.1 (by simp [hinc])⟩
        · cases h
          exact ⟨le_rfl, hle, fun heq => absurd heq hfirst⟩
        · obtain ⟨h1, h2, -⟩ := ih _ _ _ h (by omega)
          exact ⟨by omega, h2, fun _ _ _ _ => by omega⟩

/-- A selected prefix starts where it was asked to, is not empty and lies inside the records. -/
structure PrefixInv (b : WalBuffer ι) (firstRecord : ℕ) (p : WalGroupPrefix) : Prop where
  first_eq : p.firstRecord = firstRecord
  first_lt : firstRecord < p.targetRecords
  target_le : p.targetRecords ≤ b.records.length

variable {b : WalBuffer ι} {p : WalGroupPrefix} {lo : ℕ}

theorem selectPreparedGroupPrefix_spec {firstRecord : ℕ} {free : Option ℕ}
    (h : b.selectPreparedGroupPrefix firstRecord free = .ok (some p)) :
    PrefixInv b firstRecord p := by
  rw [WalBuffer.selectPreparedGroupPrefix] at h
  split at h
  · cases h
  · rename_i hlt
    cases hl : b.selectLoop firstRecord free maxWalGroupRecords firstRecord 0 false with
    | error e => rw [hl] at h; cases h
    | ok r =>
      obtain ⟨target, wireBytes⟩ := r
      rw [hl] at h
      dsimp only at h
      cases hc : b.exactWirePrefixCount target with
      | error e => rw [hc] at h; cases h
      | ok n =>
        rw [hc] at h
        cases h
        obtain ⟨-, hle, hfirst⟩ := selectLoop_spec b _ _ _ _ _ _ hl (by omega)
        exact ⟨rfl, hfirst rfl rfl (by decide) (by omega), hle⟩

/-- The entry carries the encoding of a record. -/
def GroupEntry.Holds : GroupEntry → WalRecord → Prop
  | .exact wire, r => wire.serializedRecord = encodedRecord r
  | .legacy header payload, r => header = encodeRecordHeader r ∧ payload = r.payload

theorem flatMap_bytes_of_holds {entries : List GroupEntry} {records : List WalRecord}
    (h : Forall₂ GroupEntry.Holds entries records) :
    entries.flatMap GroupEntry.bytes = encodedRecords records := by
  induction h with
  | nil => rfl
  | @cons e r _ _ he _ ih =>
    have hbytes : e.bytes = encodedRecord r := by
      cases e with
      | exact wire => exact he
      | legacy header payload => rw [GroupEntry.bytes, he.1, he.2, encodedRecord_eq]
    rw [flatMap_cons, hbytes, ih, encodedRecords_cons]

/-- The entries of a group hold its records, whether they come from an exact owner or are encoded at the
handoff. -/
theorem formEntries_holds {records : List (WalRecord × ℕ)} {wires : List ExactTypedWireRecord}
    (h : ∀ p ∈ records, ∀ wire ∈ wires, wire.recordIndex = p.2 → wire.serializedRecord = encodedRecord p.1) :
    Forall₂ GroupEntry.Holds (formEntries records wires) (records.map (·.1)) := by
  induction records generalizing wires with
  | nil => exact .nil
  | cons p records ih =>
    cases wires with
    | nil => exact .cons ⟨rfl, rfl⟩ (ih (by simp))
    | cons wire wires =>
      rw [formEntries]
      split
      · rename_i hidx
        exact .cons (h p (by simp) wire (by simp) hidx) (ih fun p hp w hw => h p (by simp [hp]) w (by simp [hw]))
      · exact .cons ⟨rfl, rfl⟩ (ih fun p hp w hw => h p (by simp [hp]) w hw)

theorem prefixRecords_map :
    (b.prefixRecords p).map (·.1) = recordRange b.records p.firstRecord p.targetRecords := by
  rw [WalBuffer.prefixRecords, recordRange, map_drop, map_take]
  congr 2
  exact zipIdx_map_fst 0 b.records

theorem getElem?_of_mem_prefixRecords {q : WalRecord × ℕ}
    (h : q ∈ b.prefixRecords p) : b.records[q.2]? = some q.1 := by
  have hmem : q ∈ b.records.zipIdx := mem_of_mem_take (mem_of_mem_drop h)
  exact mem_zipIdx_iff_getElem?.mp hmem

theorem formGroup_holds {slot exactCount : ℕ} (hw : WiresInv b.records lo b.exactTypedWireRecords) :
    Forall₂ GroupEntry.Holds (b.formGroup p slot exactCount).entries
      (recordRange b.records p.firstRecord p.targetRecords) := by
  rw [← prefixRecords_map]
  refine formEntries_holds fun q hq wire hwire hidx => ?_
  refine hw.encoded wire (mem_of_mem_take hwire) q.1 ?_
  rw [hidx]
  exact getElem?_of_mem_prefixRecords hq

theorem formGroup_bytes (b : WalBuffer ι) (p : WalGroupPrefix) (slot exactCount : ℕ)
    (hw : WiresInv b.records lo b.exactTypedWireRecords) : (b.formGroup p slot exactCount).bytes =
      encodedRecords (recordRange b.records p.firstRecord p.targetRecords) :=
  flatMap_bytes_of_holds (formGroup_holds hw)

theorem drop_exactWirePrefixCount {upTo n : ℕ} (h : b.exactWirePrefixCount upTo = .ok n) :
    b.exactTypedWireRecords.drop n = b.exactTypedWireRecords.dropWhile fun w => w.recordIndex < upTo := by
  rw [WalBuffer.exactWirePrefixCount] at h
  split at h
  · obtain rfl := Except.ok.inj h
    calc b.exactTypedWireRecords.drop _
        = (b.exactTypedWireRecords.takeWhile (fun w => w.recordIndex < upTo) ++
            b.exactTypedWireRecords.dropWhile (fun w => w.recordIndex < upTo)).drop _ := by
          rw [takeWhile_append_dropWhile]
      _ = b.exactTypedWireRecords.dropWhile (fun w => w.recordIndex < upTo) := drop_left' rfl
  · cases h

/-- What a handoff leaves: the owners of the group are gone from the buffer, the group holds the
encoding of its records. -/
def HandedOff (v : LogView) (p : WalGroupPrefix) (g : PreparedWalGroup) (v' : LogView) : Prop :=
  v' = { v with wires := v.wires.dropWhile fun w => w.recordIndex < p.targetRecords } ∧
    g.bytes = encodedRecords (recordRange v.records p.firstRecord p.targetRecords) ∧
    g.wireBytes = g.bytes.length ∧ g.wireBytes = p.wireBytes

theorem triple_handoffPreparedGroup (hwires : WiresInv v.records lo v.wires) :
    Triple (fun w : WalState ι => w.view = v) (handoffPreparedGroup p) (fun g w => match g with
        | none => w.view = v | some g => HandedOff v p g w.view) (fun _ w => w.view = v) := by
  unfold handoffPreparedGroup
  refine .get_bind fun w hw => ?_
  have hstay : ∀ w', w' = w → w'.view = v := fun _ h => h ▸ hw
  have hpoison : ∀ slot (e : EngineError) (Q : Option PreparedWalGroup → WalState ι → Prop),
      Triple (fun w' => w' = w) (do modifyBuffer fun b => b.setSlot slot descriptorPoison; failWith e) Q
        (fun _ w' => w'.view = v) := by
    intro slot e Q
    refine .bind (Q := fun _ w' => w'.view = v) (Triple.modify ?_) fun _ => .throw fun _ h => h
    rintro _ rfl
    exact hw
  dsimp only
  match tryAcquire w.buffer.preparedGroupArena.slots with
  | .error fault => exact .throw hstay
  | .ok none => exact .pure hstay
  | .ok (some slot) =>
    cases hcount : w.buffer.exactWirePrefixCount p.targetRecords with
    | error e => exact hpoison slot e _
    | ok exactCount =>
      refine .ite (fun _ => hpoison slot _ _) fun _ => ?_
      refine .ite (fun _ => .throw hstay) fun hformed => ?_
      refine .bind (Q := fun _ w' => HandedOff v p (w.buffer.formGroup p slot exactCount) w'.view)
        (Triple.modify ?_) fun _ => .pure fun _ h => h
      rintro w rfl
      subst hw
      refine ⟨?_, formGroup_bytes w.buffer p slot exactCount hwires, ?_, rfl⟩
      · simp only [view, WalBuffer.setSlot, drop_exactWirePrefixCount hcount]
      · simp only [ne_eq, not_or, not_not] at hformed
        exact hformed.2.symm

/-- The state a begun flush leaves, by its outcome. -/
def Begun (f : ℕ) (r : WalGroupFlushBegin) (v : LogView) : Prop :=
  match r with
  | .job job => LogInv (some ⟨job, 0, false⟩) f v
  | .clean _ => LogInv none f v
  | .busy => LogInv none f v

/-- A prefix that can be handed off: it starts at the watermark and fits the open file's extent. -/
structure Ready (f : ℕ) (p : WalGroupPrefix) (v : LogView) : Prop where
  inv : LogInv none f v
  first_eq : p.firstRecord = f
  first_lt : f < p.targetRecords
  target_le : p.targetRecords ≤ v.records.length
  fileOpen : v.fileOpen = true
  fits : v.durable + p.wireBytes ≤ v.prealloc

theorem triple_startJob :
    Triple (fun w : WalState ι => Ready f p w.view) (startJob p) (fun r w => Begun f r w.view)
      (fun _ w => LogInv none f w.view) := by
  unfold startJob
  refine .get_bind fun w hw => ?_
  have hopen : w.core.fileOpen = true := hw.fileOpen
  rw [if_neg (by simp [hopen])]
  refine .bind ((triple_handoffPreparedGroup hw.inv.wires).conseq ?_ (fun _ _ h => h) ?_)
    fun g => ?_
  · rintro _ rfl
    rfl
  · intro _ w' hw'
    rw [hw']
    exact hw.inv
  cases g with
  | none => exact .pure fun w' hw' => by rw [hw']; exact hw.inv
  | some g =>
    refine .bind (Q := fun _ w' => Begun f
      (.job ⟨w.core.durableBytes, p.targetRecords, p.groupSize, g⟩) w'.view) (Triple.modify ?_)
      fun _ => .pure fun _ h => h
    rintro w' ⟨hview, hbytes, hwire, hwire'⟩
    have hf : w.view.flushed = f := hw.inv.flushed_eq
    have hjob := hw.inv.handoff hw.fileOpen ⟨w.core.durableBytes, p.targetRecords, p.groupSize, g⟩ rfl
      (by rw [hf]; exact hw.first_lt) hw.target_le (by rw [hf, ← hw.first_eq]; exact hbytes) hwire
      (by rw [hwire']; exact hw.fits)
    show LogInv _ f { w'.view with ioInFlight := true }
    rw [hview]
    exact hjob

/-- The capped prefix is selected as the natural one was; with exact owners it fits the extent. -/
theorem triple_capToExtent {natural : WalGroupPrefix} (w : WalState ι)
    (hn : w.buffer.selectPreparedGroupPrefix w.core.flushedRecords none = .ok (some natural)) :
    Triple (fun w' => w' = w) (capToExtent natural) (fun p w' => w' = w ∧
        (∃ free, w.buffer.selectPreparedGroupPrefix w.core.flushedRecords free = .ok (some p)) ∧
        (p.exactRecords ≠ 0 → w.core.fileOpen = true ∧
          w.core.durableBytes + p.wireBytes ≤ w.core.preallocBytes))
      (fun _ w' => w' = w) := by
  unfold capToExtent
  refine .get_self (.ite (fun hzero => .pure ?_) fun _ => .ite (fun _ => .throw fun _ h => h) fun _ => ?_)
  · exact fun _ h => ⟨h, ⟨none, hn⟩, fun hne => absurd hzero hne⟩
  match hsel : w.buffer.selectPreparedGroupPrefix w.core.flushedRecords
      (some (w.core.preallocBytes - w.core.durableBytes)) with
  | .error e | .ok none => exact .throw fun _ h => h
  | .ok (some p) =>
    refine .ite (fun _ => .throw fun _ h => h) fun hext => .pure fun _ h => ⟨h, ⟨_, hsel⟩, fun hne => ?_⟩
    rw [not_and_or, not_or] at hext
    obtain ⟨ho, hle⟩ := hext.resolve_left (not_not_intro hne)
    exact ⟨by simpa using ho, by omega⟩

/-- A selected prefix; only exact owners are known to fit the extent already. -/
structure Selected (f : ℕ) (p : WalGroupPrefix) (v : LogView) : Prop where
  inv : LogInv none f v
  first_eq : p.firstRecord = f
  first_lt : f < p.targetRecords
  target_le : p.targetRecords ≤ v.records.length
  exact_fits : p.exactRecords ≠ 0 → v.fileOpen = true ∧ v.durable + p.wireBytes ≤ v.prealloc

theorem Selected.ready (h : Selected f p v)
    (ho : v.fileOpen = true) (hfits : v.durable + p.wireBytes ≤ v.prealloc) : Ready f p v :=
  ⟨h.inv, h.first_eq, h.first_lt, h.target_le, ho, hfits⟩

theorem triple_prepareGroupExtent : Triple (fun w => Selected f p w.view) (prepareGroupExtent env io p)
      (fun _ w => Ready f p w.view) (fun _ w => LogInv none f w.view) := by
  unfold prepareGroupExtent
  refine .get_bind fun w hw => .ite (fun hne => .pure ?_) fun _ => ?_
  · rintro _ rfl
    exact hw.ready (hw.exact_fits hne).1 (hw.exact_fits hne).2
  refine .ite (fun _ => ?_) fun _ => ?_
  · -- creating and extending the file keeps the records the prefix was selected from
    have hcreate := (frames_ensureCreated env io).triple fun t => p.targetRecords ≤ t.1.records.length
    refine .bind (((triple_ensureCreated env io).and hcreate).conseq ?_ (fun _ _ h => h)
      fun _ _ h => h.1) fun _ => .get_bind fun w' hw' => ?_
    · rintro _ rfl
      exact ⟨hw.inv, hw.target_le⟩
    refine ((triple_ensurePreallocatedThrough env io.zeroFillExtend _).and
      (frames_ensurePreallocatedThrough env io.zeroFillExtend _
        (w'.buffer, w'.disk.anchor, { w'.core with preallocBytes := 0 }))).conseq ?_ ?_ fun _ _ h => h.1
    · rintro _ rfl
      exact ⟨hw'.1, rfl⟩
    · rintro _ w'' ⟨⟨hinv, ho, hfits⟩, hframe⟩
      simp only [Prod.mk.injEq] at hframe
      obtain ⟨hbuf, -, hcore⟩ := hframe
      have hdur := congrArg WalDurableState.durableBytes hcore
      refine ⟨hinv, hw.first_eq, hw.first_lt, ?_, ho, ?_⟩
      · show p.targetRecords ≤ w''.buffer.records.length
        rw [hbuf]
        exact hw'.2
      · show w''.core.durableBytes + p.wireBytes ≤ w''.view.prealloc
        rw [hdur]
        exact hfits
  · refine (triple_require (fun w' => w' = w) _ _).conseq (fun _ h => h) ?_ ?_
    · rintro _ _ ⟨rfl, ho, hfits⟩
      exact hw.ready ho hfits
    · rintro _ _ rfl
      exact hw.inv

theorem triple_formNextGroup [DecidableEq ι] :
    Triple (fun w => LogInv none f w.view) (formNextGroup env io) (fun r w => Begun f r w.view)
      (fun _ w => LogInv none f w.view) := by
  unfold formNextGroup
  refine .get_bind fun w hw => ?_
  have hf : w.core.flushedRecords = f := hw.flushed_eq
  have hstay : ∀ w', w' = w → LogInv none f w'.view := fun _ h => h ▸ hw
  match hsel : w.buffer.selectPreparedGroupPrefix w.core.flushedRecords none with
  | .error e => exact .throw hstay
  | .ok none => exact .pure hstay
  | .ok (some natural) =>
    refine .bind ((triple_capToExtent w hsel).conseq (fun _ h => h) (fun _ _ h => h)
      fun _ w' h => hstay w' h) fun p => ?_
    refine .bind (Q := fun _ w => Selected f p w.view) ?_ fun _ =>
      Triple.bind (triple_prepareGroupExtent env io) fun _ => triple_startJob
    refine (((framesExact_verifyGroupIdentity env io.installIdentity p).comp ExactView.log).triple
      (Selected f p)).conseq ?_ (fun _ _ h => h) fun _ _ h => h.inv
    rintro _ ⟨rfl, ⟨free, hfree⟩, hext⟩
    have hp := selectPreparedGroupPrefix_spec hfree
    rw [hf] at hp
    exact ⟨hw, hp.first_eq, hp.first_lt, hp.target_le, hext⟩

/-- The refusal of a flush in front of an unclaimed tail. -/
def unclaimedTail : CallFailure :=
  .error (.durability "cannot flush an unclaimed tentative typed exact WAL tail")

/-- The error of the test hook. -/
def simulatedFailure : CallFailure := .error (.durability "simulated wal flush failure")

variable {w : WalState ι}

/-- The owners of a represented log lie behind the watermark: there is nothing to prune. -/
theorem prune_eq (h : LogInv fl f w.view) : pruneDurableTypedExactWireRecords w = .ok () w := by
  have hlow : ∀ wire ∈ w.buffer.exactTypedWireRecords, ¬ wire.recordIndex < w.core.flushedRecords := by
    intro wire hwire
    have hlo := h.wires.lower wire hwire
    have hle : w.core.flushedRecords ≤ frontier fl w.core.flushedRecords := h.flushed_le_frontier
    exact not_lt.mpr (le_trans hle hlo)
  have htake : w.buffer.exactTypedWireRecords.takeWhile
      (fun wire => wire.recordIndex < w.core.flushedRecords) = [] := by
    cases hwires : w.buffer.exactTypedWireRecords with
    | nil => rfl
    | cons wire wires => simp [hlow wire (by rw [hwires]; simp)]
  have hdrop := takeWhile_append_dropWhile
    (p := fun wire : ExactTypedWireRecord => decide (wire.recordIndex < w.core.flushedRecords))
    (l := w.buffer.exactTypedWireRecords)
  rw [htake, nil_append] at hdrop
  show EStateM.Result.ok () { w with buffer := w.buffer.pruneDurable w.core.flushedRecords } = _
  rw [WalBuffer.pruneDurable, htake, hdrop]
  rfl

/-- A flush of a represented log, up to the selection of its group. -/
theorem beginGroupFlush_eq [DecidableEq ι] (hl : LogInv fl f w.view) : beginGroupFlush env io w =
      if w.buffer.typedExactTentativeCount ≠ 0 then .error unclaimedTail w else if w.buffer.failNextFlush then
        .error simulatedFailure { w with buffer := { w.buffer with failNextFlush := false } }
      else if w.core.fixedFault = none ∧ w.core.ioInFlight then .ok .busy w
      else (requireUnpoisoned >>= fun _ => formNextGroup env io) w := by
  rw [beginGroupFlush, bind_of_ok (prune_eq hl)]
  have hget : ∀ {α : Type} (k : WalState ι → WalM ι α), (get >>= k) w = k w w := fun _ => rfl
  simp only [requireNoUnclaimedTypedExactTail, takeSimulatedFailure, bind_assoc, hget]
  by_cases htail : w.buffer.typedExactTentativeCount ≠ 0
  · simp only [if_pos htail]
    rfl
  simp only [if_neg htail, pure_bind, hget]
  by_cases harmed : w.buffer.failNextFlush = true
  · simp only [if_pos harmed]
    rfl
  simp only [if_neg harmed, pure_bind, hget]
  split_ifs <;> rfl

/-- A flush that begins with no job in flight forms one, finds nothing to do or fails, and the log is
represented as before. -/
theorem triple_beginGroupFlush [DecidableEq ι] :
    Triple (fun w => LogInv none f w.view) (beginGroupFlush env io) (fun r w => Begun f r w.view)
      (fun _ w => LogInv none f w.view) := by
  intro w hw
  rw [beginGroupFlush_eq env io hw]
  split_ifs
  · exact hw
  · exact hw
  · exact hw
  · exact Triple.bind (keeps_of_frames framesExact_requireUnpoisoned) (fun _ => triple_formNextGroup env io) w hw

variable {p : FlushProgress}

/-- With a job in flight no second one is formed, and the owners stay. -/
theorem triple_beginGroupFlush_inFlight [DecidableEq ι] (hw : LogInv (some p) f w.view) :
    Triple (fun w' => w' = w) (beginGroupFlush env io)
      (fun r w' => (∀ job, r ≠ .job job) ∧ w'.exactView = w.exactView)
      (fun _ w' => w'.exactView = w.exactView) := by
  intro w' h
  subst h
  rw [beginGroupFlush_eq env io hw]
  split_ifs with htail harmed hbusy
  · rfl
  · rfl
  · exact ⟨fun _ h => (by cases h), rfl⟩
  · -- only a fixed fault gets past the in-flight test, and it is reported
    have hio : w'.core.ioInFlight = true := (show JobInv p w'.view from hw.flight).inFlight
    cases hfix : w'.core.fixedFault with
    | none => exact absurd ⟨hfix, hio⟩ hbusy
    | some fault =>
      simp only [bind, EStateM.bind, requireUnpoisoned, get, getThe, MonadStateOf.get, EStateM.get, hfix]
      rfl

/-! ### Finishing a job -/

/-- The core is poisoned: later flushes fail until a restart. -/
def Poisoned (w : WalState ι) : Prop := w.core.poisoned ≠ none ∨ w.core.fixedFault ≠ none

theorem JobInv.frontierHolds (h : JobInv p w.view) : Wal.frontierHolds w.core p.job :=
  ⟨h.offset_eq.symm, by rw [h.offset_eq]; exact h.fits⟩

theorem triple_advanceDurable (hs : p.synced = true)
    (hw : LogInv (some p) f w.view) {E : CallFailure → WalState ι → Prop} :
    Triple (fun w' => w' = w) (advanceDurable p.job : WalM ι ℕ)
      (fun _ w => LogInv none p.job.targetRecords w.view) E := by
  rintro _ rfl
  exact hw.commit hs

/-- A job whose write and sync succeeded moves the watermark to its target. -/
theorem triple_commit_ok (hs : p.synced = true) :
    Triple (fun w : WalState ι => LogInv (some p) f w.view) (p.job.commit (.ok ()))
      (fun _ w => LogInv none p.job.targetRecords w.view) (fun _ _ => False) := by
  refine .ite (fun _ => ?_) fun _ => ?_
  · unfold serialExactPostHandoff
    refine .get_bind fun w hw => ?_
    rw [if_pos (show JobInv p w.view from hw.flight).frontierHolds]
    exact triple_advanceDurable hs hw
  · unfold serialLegacyPostHandoff
    refine .get_bind fun w hw => ?_
    dsimp only
    rw [if_pos (show JobInv p w.view from hw.flight).frontierHolds]
    exact triple_advanceDurable hs hw

theorem triple_serialExactFault {g : PreparedWalGroup} {fault : DurabilityFault} {P : WalState ι → Prop}
    {Q : α → WalState ι → Prop} :
    Triple P (serialExactFault g fault) Q (fun _ w => Poisoned w) := by
  intro w _
  exact Or.inr (by simp [WalDurableState.installFixedFault])

theorem triple_serialLegacyFault {g : PreparedWalGroup} {fault : DurabilityFault}
    {reason message : String} {P : WalState ι → Prop} {Q : α → WalState ι → Prop} :
    Triple P (serialLegacyFault g fault reason message) Q (fun _ w => Poisoned w) := by
  intro w _
  exact Or.inl (by simp)

/-- A job whose write or sync failed poisons the core. -/
theorem triple_commit_error (job : SerialFlushJob) (fault : DurabilityFault) (P : WalState ι → Prop)
    (Q : ℕ → WalState ι → Prop) :
    Triple P (job.commit (.error fault)) Q (fun _ w => Poisoned w) := by
  refine .ite (fun _ => triple_serialExactFault) fun _ => ?_
  unfold serialLegacyPostHandoff
  exact .get_bind fun w _ => triple_serialLegacyFault

theorem triple_abandon (job : SerialFlushJob) (P : WalState ι → Prop) (Q : Unit → WalState ι → Prop) :
    Triple P job.abandon Q (fun _ w => Poisoned w) :=
  Triple.ite (fun _ => triple_serialExactFault) fun _ => triple_serialLegacyFault

/-! ### Rotation of the live segment -/

theorem triple_installSegment {io : IoOutcome} {retained : List WalRecord} :
    Triple (fun w : WalState ι => w.view = v) (installSegment io retained) (fun _ w => w.view =
        { v with segment := some (walSegmentMagic ++ encodedRecords retained) }) (fun _ _ => True) := by
  unfold installSegment
  cases io with
  | ok =>
    refine .modify ?_
    rintro w rfl
    rw [← writeWalSegment_eq]
    rfl
  | fail n =>
    exact .bind (Q := fun _ _ => True) (Triple.modify fun _ _ => trivial)
      fun _ => .throw fun _ _ => trivial

theorem triple_replaceSegment [DecidableEq ι] {retained : List WalRecord} {preallocTo : ℕ} :
    Triple (fun w : WalState ι => w.view = v)
      (replaceSegment env io retained (10 + (encodedRecords retained).length) preallocTo)
      (fun _ w => w.view = { v with segment := some (walSegmentMagic ++ encodedRecords retained ++
        zeros (preallocTo - (10 + (encodedRecords retained).length))) }) (fun _ _ => True) := by
  have hreq : ∀ (v : LogView) (c : Prop) [Decidable c] (message : String),
      Triple (fun w : WalState ι => w.view = v) (require c message) (fun _ w => w.view = v) (fun _ _ => True) :=
    fun v c _ message => (triple_require _ c message).conseq (fun _ h => h) (fun _ _ h => h.1)
      fun _ _ _ => trivial
  unfold replaceSegment
  refine .bind (((framesExact_bindRetained env io.installIdentity retained).comp ExactView.log v).conseq
    (fun _ h => h) (fun _ _ h => h) fun _ _ _ => trivial) fun _ => ?_
  refine .bind (triple_installSegment) fun _ => ?_
  refine .bind (hreq _ _ _) fun _ => .bind (hreq _ _ _) fun _ => ?_
  refine .bind (Q := fun _ w => io.zeroFillRewritten = .ok → w.view =
    { v with segment := some (walSegmentMagic ++ encodedRecords retained ++
      zeros (preallocTo - (10 + (encodedRecords retained).length))) }) ?_ fun _ => ?_
  · refine .modify ?_
    intro w hw hio
    have hseg : w.disk.bytes = walSegmentMagic ++ encodedRecords retained := by
      rw [WalDisk.bytes, show w.disk.segment = _ from congrArg LogView.segment hw, Option.getD_some]
    have hfill := writeAt_append (walSegmentMagic ++ encodedRecords retained) []
      (zeros (preallocTo - (10 + (encodedRecords retained).length)))
    rw [append_nil, drop_nil, append_nil, length_append, length_walSegmentMagic] at hfill
    show { w.view with segment := some (zeroFillExtend io.zeroFillRewritten
      (10 + (encodedRecords retained).length) preallocTo w.disk.bytes) } = _
    rw [hio, hseg, hw]
    simp only [zeroFillExtend, hfill]
  · exact (triple_require _ _ _).conseq (fun _ h => h) (fun _ _ h => h.1 h.2) fun _ _ _ => trivial

/-- Rotating the segment keeps the log represented, with a later base. -/
theorem triple_truncateDurableSegmentPrefix [DecidableEq ι] (base : ℕ) :
    Triple (fun w => LogInv none f w.view) (truncateDurableSegmentPrefix env io base)
      (fun _ w => LogInv none f w.view) (fun _ w => LogInv none f w.view ∨ Poisoned w) := by
  unfold truncateDurableSegmentPrefix
  refine .get_bind fun w hw => ?_
  have hstay : ∀ w', w' = w → LogInv none f w'.view ∨ Poisoned w' := fun _ h => .inl (h ▸ hw)
  dsimp only
  refine .ite (fun _ => .throw hstay) fun _ => ?_
  refine .ite (fun _ => .throw hstay) fun _ => ?_
  refine .ite (fun _ => .throw hstay) fun hbase => ?_
  refine .ite (fun _ => .throw hstay) fun _ => ?_
  split
  · exact .throw hstay
  generalize hret : (w.buffer.records.take w.core.flushedRecords).drop base = retained
  have hretained : recordRange w.view.records base w.view.flushed = retained := hret
  rw [sum_encodedRecordLen, length_walSegmentMagic]
  refine .bind (Q := fun _ w' => w'.view = { w.view with fileOpen := false }) (Triple.modify ?_)
    fun _ => ?_
  · rintro _ rfl
    rfl
  refine .bind (Triple.onError ((triple_replaceSegment env io).conseq (fun _ h => h)
    (fun _ _ h => h) fun _ _ _ => .inr (.inl (by simp)))) fun _ => ?_
  refine .bind (Q := fun _ w => LogInv none f w.view) (Triple.modify ?_) fun _ => ?_
  · intro w' hw'
    have hnew := hw.rewrite base (max (10 + (encodedRecords retained).length) env.walPreallocChunkBytes)
      (by show base ≤ w.core.flushedRecords; omega) (by rw [hretained]; exact le_max_left _ _)
    rw [hretained] at hnew
    show LogInv none f { w'.view with
      prealloc := max (10 + (encodedRecords retained).length) env.walPreallocChunkBytes
      fileOpen := true, durable := 10 + (encodedRecords retained).length, base := base }
    rw [hw']
    exact hnew
  · exact (keeps_of_frames (framesExact_recordTailOffset io.recordTail)).conseq (fun _ h => h)
      (fun _ _ h => h) fun _ _ h => .inl h

end ThunderboltDb.Wal
