import ThunderboltDb.WriteConveyor.FenceSteps

/-!
# The durable cut never covers an unwritten frame

* `durable_seq_covers_written_prefix` — in every run in which calls continue above the sequences already
  published and no `end_seq` is overwritten between the release of `durable_frames` and the load of that
  `end_seq`, `durable_seq` is at most the end of the longest written prefix and covers no group with an
  unwritten fragment;
* `reused_slot_acknowledges_unwritten_frames` — the run in which the appender reuses the slot in between.
-/

namespace ThunderboltDb.WriteConveyor

open Lib List FenceState

namespace FenceState

variable {τ : Type} {s s' : FenceState τ} {l : τ} {i j : ℕ} {f : PlacedFrame}
  {log : FrameLogGeometry} {op : AppenderOp} {ops : List AppenderOp} {g : PlacedGroup}

/-! ### What lanes leave to the appender -/

/-- What a lane's step leaves unchanged for the appender. -/
structure LaneFrame (s s' : FenceState τ) : Prop where
  appender : s'.appender = s.appender
  groups : s'.groups = s.groups
  cursor : s'.cursor = s.cursor
  staging : s'.staging = s.staging
  durableFrames : s.durableFrames ≤ s'.durableFrames
  slots : ∀ j, s.frames.length ≤ j → j < s.durableFrames + frameSlots → s'.slot j = s.slot j

/-- A step that stores neither `fenced` nor `durable_frames`. -/
theorem LaneFrame.of_same (happ : s'.appender = s.appender) (hgroups : s'.groups = s.groups)
    (hcursor : s'.cursor = s.cursor) (hstaging : s'.staging = s.staging)
    (hdurable : s'.durableFrames = s.durableFrames) (hslots : s'.slots = s.slots) : LaneFrame s s' :=
  ⟨happ, hgroups, hcursor, hstaging, hdurable.ge, fun j _ _ => by rw [slot, slot, hslots]⟩

theorem laneStep_frame [DecidableEq τ] (h : s.Core) (hs : s.laneStep log l = some s') : LaneFrame s s' := by
  unfold laneStep at hs
  cases hl : s.lane l with
  | storeFenced g =>
    simp only [hl, Option.some.injEq] at hs
    subst hs
    refine ⟨rfl, rfl, rfl, rfl, le_refl _, ?_⟩
    intro j hlo hhi
    have hwork : (s.lane l).working = some g := by rw [hl]; rfl
    have hg := h.working_lt_length hwork
    have hfrontier := h.frontier_le_working hwork
    have hdurable := h.durableFrames_le
    have hne : ringIndex j ≠ ringIndex g := (ringIndex_ne (by omega) (by omega)).symm
    simp only [slot]
    exact modifySlot_of_ne s.slots _ hne
  | storeDurableFrames advanced =>
    simp only [hl, Option.some.injEq] at hs
    subst hs
    have hok : s.LaneOk (.storeDurableFrames advanced) := hl ▸ h.lanes l
    exact ⟨rfl, rfl, rfl, rfl, hok.2.le, fun _ _ _ => rfl⟩
  | _ =>
    simp only [hl] at hs
    (try split at hs) <;> cases hs <;> exact .of_same rfl rfl rfl rfl rfl rfl

section

variable {m w : (ℕ → FrameSlot) × Memory UInt8} (hslot : w.1 j = m.1 j) (hstaging : w.2 = m.2)
include hslot hstaging

/-- The effect of a store on one slot depends on that slot only. -/
theorem runOp_congr : (runOp op w).1 j = (runOp op m).1 j ∧ (runOp op w).2 = (runOp op m).2 := by
  have hmodify : ∀ (f : ℕ) (change : FrameSlot → FrameSlot),
      modifySlot w.1 f change j = modifySlot m.1 f change j := by
    intro f change
    by_cases hj : j = ringIndex f
    · rw [hj] at hslot ⊢
      rw [modifySlot_self, modifySlot_self, hslot]
    · rw [modifySlot_of_ne _ _ hj, modifySlot_of_ne _ _ hj, hslot]
  cases op with
  | stage offset bytes => exact ⟨hslot, by simp only [runOp, hstaging]⟩
  | _ =>
    dsimp only [runOp]
    exact ⟨hmodify _ _, hstaging⟩

theorem runOps_congr : (runOps ops w).1 j = (runOps ops m).1 j ∧ (runOps ops w).2 = (runOps ops m).2 := by
  induction ops generalizing m w with
  | nil => exact ⟨hslot, hstaging⟩
  | cons op ops ih =>
    rw [runOps_cons, runOps_cons]
    obtain ⟨hs, hst⟩ := @runOp_congr j op m w hslot hstaging
    exact ih hs hst

end

/-- The appender keeps what it knows over the steps of the lanes. -/
theorem AppenderOk.of_laneFrame (h : s.AppenderOk log) (hcore : s.Core) (hf : LaneFrame s s') :
    s'.AppenderOk log := by
  have hframes : s'.frames = s.frames := by rw [frames, frames, hf.groups]
  have hlast : s'.lastSeq = s.lastSeq := by rw [lastSeq, lastSeq, hf.groups]
  have hdurable := hf.durableFrames
  rw [AppenderOk] at h ⊢
  rw [hf.appender, hf.cursor, hframes, hlast]
  cases happ : s.appender with
  | idle | finished => trivial
  | reserve source plan firstSeq seqCount =>
    rw [happ] at h
    exact h
  | verify reservation source firstSeq seqCount =>
    rw [happ] at h
    obtain ⟨hseq, plan, lastSeq, df, hdf, hinput, hreserve⟩ := h
    exact ⟨hseq, plan, lastSeq, df, hdf.trans hdurable, hinput, hreserve⟩
  | staging ops group =>
    rw [happ] at h
    cases group with
    | none => exact h
    | some g =>
      obtain ⟨hg, hseq, hring, hwithin, hdone⟩ := h
      refine ⟨hg, hseq, by omega, hwithin, ?_⟩
      intro f hmem
      have hnext : s.cursor.nextFrame = s.frames.length := hcore.layout.nextFrame
      obtain ⟨⟨hlo, hhi⟩, -⟩ := mem_lies hg hmem
      have hsame : s'.slots (ringIndex f.frameId) = s.slots (ringIndex f.frameId) :=
        hf.slots f.frameId (by omega) (by omega)
      have hm : ((s'.slots, s'.staging) : (ℕ → FrameSlot) × Memory UInt8).2 =
          ((s.slots, s.staging) : (ℕ → FrameSlot) × Memory UInt8).2 := hf.staging
      obtain ⟨hslot, hstaging⟩ := @runOps_congr _ ops (s.slots, s.staging) (s'.slots, s'.staging) hsame hm
      rw [hslot, hstaging]
      exact hdone f hmem

/-! ### The appender's calls -/

/-- The invariant of the frame log. -/
structure Inv (log : FrameLogGeometry) (s : FenceState τ) : Prop where
  core : s.Core
  appender : s.AppenderOk log

/-- No lane is about to load the end sequence that the appender overwrites next. -/
def Undisturbed (s : FenceState τ) : Prop :=
  ∀ f e ops group, s.appender = .staging (.storeEndSeq f e :: ops) group →
    ∀ l advanced, s.lane l = .loadEndSeq advanced → ringIndex (advanced - 1) ≠ ringIndex f

/-- Calls continue above the published sequences, and the appender overwrites no end sequence that a lane
is about to load. -/
def Calm (s : FenceState τ) : FenceAction τ → Prop
  | .publish call => s.lastSeq ≤ call.firstSeq.toNat
  | .appender => s.Undisturbed
  | _ => True

variable {crc : UInt32 → Bytes → UInt32}

section

variable {durableFrames : ℕ} {chunks : List Bytes} {firstSeq : UInt64} {seqCount : UInt32}
  {group : Option FrameGroupMetadata}

/-- An admitted call has room in the ring and on disk for all its frames. -/
theorem Core.admits (h : s.Core) (hcall : Admitted log s.cursor durableFrames chunks firstSeq seqCount)
    (hdurable : durableFrames ≤ s.durableFrames) :
    (placeGroup crc log s.cursor chunks firstSeq seqCount group).Lies s.cursor ∧
      s.frames.length + (placeGroup crc log s.cursor chunks firstSeq seqCount group).frames.length ≤
        s.durableFrames + frameSlots ∧
      (placeGroup crc log s.cursor chunks firstSeq seqCount group).frames.Pairwise Apart := by
  have hlies := @placeGroup_lies crc log s.cursor chunks firstSeq seqCount group hcall.chunks_ne
  have hlen : (placeGroup crc log s.cursor chunks firstSeq seqCount group).frames.length =
      chunks.length := length_placeFrames
  have hnext : s.cursor.nextFrame = s.frames.length := h.layout.nextFrame
  have hslots := hcall.slots
  have hle := h.durableFrames_le.trans h.durableFrontier_le
  exact ⟨hlies, by omega, hlies.apart (by omega)⟩

/-- The program of `publish_internal` for an admitted call. -/
theorem Inv.stageInternal (h : s.Inv log)
    (hcall : publishInternal crc log s.cursor s.durableFrames chunks firstSeq seqCount group = .ok g)
    (hseq : s.lastSeq ≤ firstSeq.toNat) :
    Inv log { s with appender := .staging (internalOps g.frames) (some g) } := by
  obtain ⟨hadmitted, -, -, rfl⟩ := publishInternal_ok.mp hcall
  obtain ⟨hlies, hring, hapart⟩ :=
    @Core.admits τ s log crc _ chunks firstSeq seqCount group h.core hadmitted (le_refl _)
  have hnext : s.cursor.nextFrame = s.frames.length := h.core.layout.nextFrame
  exact ⟨h.core.setFlags, hlies, hseq, hring, hnext ▸ within_internalOps hlies, completes_internalOps hapart⟩

/-- The program of `stage_sealed_scatter` for a reservation that still fits. -/
theorem Inv.stageScatter (h : s.Inv log) {reservation : FuaScatterReservation}
    {source : FuaScatterSource} {plan : FuaScatterPlan} {lastSeq : ℕ}
    (hdurable : durableFrames ≤ s.durableFrames)
    (hinput : validateScatterInput log s.cursor source plan firstSeq seqCount = .ok lastSeq)
    (hreserve : reserveScatter log s.cursor durableFrames plan = .ok reservation)
    (hseq : s.lastSeq ≤ firstSeq.toNat) :
    Inv log { s with
      appender := .staging (scatterProgram crc log reservation source firstSeq seqCount).1
        (scatterProgram crc log reservation source firstSeq seqCount).2 } := by
  refine ⟨h.core.setFlags, ?_⟩
  have hplan : reservation = ⟨log.segmentId, s.cursor.nextFrame, s.cursor.nextOffset, plan, plan⟩ := by
    simp only [reserveScatter, bind_ok, pure, Except.pure, Except.ok.injEq] at hreserve
    obtain ⟨_, -, rfl⟩ := hreserve
    rfl
  subst hplan
  obtain ⟨⟨chunks, ok⟩, hcopy⟩ : ∃ copied, copyChunks source 0 plan.chunks = copied := ⟨_, rfl⟩
  cases ok with
  | false =>
    simp only [scatterProgram, stageSealedScatter, hcopy, AppenderOk]
    exact within_copyOps chunks false (le_refl _)
  | true =>
    obtain ⟨-, hadmitted⟩ := admitted_of_reserve hinput hreserve hcopy
    obtain ⟨hlies, hring, hapart⟩ := @Core.admits τ s log crc _ chunks firstSeq seqCount
      (scatterMetadata crc chunks) h.core hadmitted hdurable
    have hnext : s.cursor.nextFrame = s.frames.length := h.core.layout.nextFrame
    have hcopies : copyOps s.cursor.nextOffset chunks true =
        payloadOps (placeGroup crc log s.cursor chunks firstSeq seqCount
          (scatterMetadata crc chunks)).frames := copyOps_eq_payloadOps
    simp only [scatterProgram, stageSealedScatter, hcopy, AppenderOk]
    refine ⟨hlies, hseq, hring, ?_, ?_⟩
    · intro op hop
      rcases mem_append.mp hop with hop | hop
      · exact within_copyOps chunks true (le_refl _) op hop
      · exact (hnext ▸ within_headerOps hlies) op hop
    · rw [hcopies]
      exact completes_scatterOps hapart

end

theorem Inv.publish (h : s.Inv log) {call : PublishCall}
    (hseq : s.lastSeq ≤ call.firstSeq.toNat) : Inv log (s.publish crc log call) := by
  cases call with
  | frame payload firstSeq seqCount =>
    simp only [FenceState.publish]
    split
    · rename_i g hcall
      exact h.stageInternal hcall hseq
    · exact h
  | batch chunks firstSeq seqCount =>
    simp only [FenceState.publish]
    split
    · rename_i g hcall
      simp only [publishBatch, bind_ok, refuse_eq_ok, exists_const] at hcall
      exact h.stageInternal hcall.2.2.2 hseq
    · exact h
  | scatter source plan firstSeq seqCount =>
    simp only [FenceState.publish]
    split
    · rename_i lastSeq hinput
      split
      · exact h
      · exact ⟨h.core.setFlags, hseq, lastSeq, hinput⟩
    · exact h

/-- Every step of the appender inside a call keeps the invariant. -/
theorem Inv.appenderStep (h : s.Inv log) (hcalm : s.Undisturbed)
    (hs : s.appenderStep crc log = some s') : s'.Inv log := by
  have happ := h.appender
  rw [AppenderOk] at happ
  unfold FenceState.appenderStep at hs
  cases hpc : s.appender with
  | idle | finished =>
    simp only [hpc] at hs
    cases hs
  | reserve source plan firstSeq seqCount =>
    simp only [hpc] at hs
    rw [hpc] at happ
    obtain ⟨hseq, lastSeq, hinput⟩ := happ
    split at hs
    · rename_i reservation hreserve
      cases hs
      exact ⟨h.core.setFlags, hseq, plan, lastSeq, _, le_refl _, hinput, hreserve⟩
    · cases hs
      exact ⟨h.core.setFlags, trivial⟩
  | verify reservation source firstSeq seqCount =>
    simp only [hpc] at hs
    rw [hpc] at happ
    obtain ⟨hseq, plan, lastSeq, df, hdf, hinput, hreserve⟩ := happ
    split at hs
    · cases hs
      exact ⟨h.core.setFlags, trivial⟩
    · split at hs
      · cases hs
        exact h.stageScatter hdf hinput hreserve hseq
      · cases hs
        exact ⟨h.core.setFlags, trivial⟩
  | staging ops group =>
    rw [hpc] at happ
    cases ops with
    | nil =>
      cases group with
      | none =>
        simp only [hpc] at hs
        cases hs
        exact ⟨h.core.setFlags, trivial⟩
      | some g =>
        simp only [hpc] at hs
        cases hs
        obtain ⟨hlies, hseq, hring, -, hdone⟩ := happ
        exact ⟨h.core.release hlies hseq hring hdone, trivial⟩
    | cons op ops =>
      simp only [hpc] at hs
      cases hs
      have hundisturbed : ∀ f e, op = .storeEndSeq f e → ∀ l advanced,
          s.lane l = .loadEndSeq advanced → ringIndex (advanced - 1) ≠ ringIndex f := by
        rintro f e rfl
        exact hcalm f e ops group hpc
      cases group with
      | none =>
        obtain ⟨hop, hops⟩ := forall_mem_cons.mp happ
        have hring := h.core.ring
        exact ⟨h.core.runOp hop hring hundisturbed, hops⟩
      | some g =>
        obtain ⟨hlies, hseq, hring, hwithin, hdone⟩ := happ
        obtain ⟨hop, hops⟩ := forall_mem_cons.mp hwithin
        exact ⟨h.core.runOp hop hring hundisturbed, hlies, hseq, hring, hops, hdone⟩

/-- **The step lemma.**  Every calm step keeps the invariant. -/
theorem Inv.step [DecidableEq τ] (h : s.Inv log) {a : FenceAction τ} (hcalm : s.Calm a)
    (hs : s.step crc log a = some s') : s'.Inv log := by
  cases a with
  | publish call =>
    simp only [FenceState.step] at hs
    split at hs
    · cases hs
      exact h.publish hcalm
    · cases hs
  | appender => exact h.appenderStep hcalm hs
  | finish =>
    simp only [FenceState.step] at hs
    split at hs
    · cases hs
      exact ⟨h.core.setFlags, trivial⟩
    · cases hs
  | lane l =>
    exact ⟨h.core.laneStep hs, h.appender.of_laneFrame h.core (laneStep_frame h.core hs)⟩
  | pwriteReturns l n =>
    simp only [FenceState.step, FenceState.pwriteReturns] at hs
    split at hs
    · rename_i g offset paddedLen written hl
      split at hs
      · split at hs
        · cases hs
          exact ⟨h.core.setLane trivial (fun _ hg => by cases hg) (by rw [hl]; rfl),
            h.appender.of_laneFrame h.core (.of_same rfl rfl rfl rfl rfl rfl)⟩
        · cases hs
          exact ⟨h.core.pwrite hl (by omega), h.appender.of_laneFrame h.core (.of_same rfl rfl rfl rfl rfl rfl)⟩
      · cases hs
    · cases hs
  | pwriteInterrupted l =>
    simp only [FenceState.step, FenceState.pwriteInterrupted] at hs
    split at hs
    · split at hs
      · cases hs
        exact h
      · cases hs
    · cases hs
  | pwriteFails l =>
    simp only [FenceState.step, FenceState.pwriteFails] at hs
    split at hs
    · rename_i g offset paddedLen written hl
      split at hs
      · cases hs
        exact ⟨h.core.setLane trivial (fun _ hg => by cases hg) (by rw [hl]; rfl),
          h.appender.of_laneFrame h.core (.of_same rfl rfl rfl rfl rfl rfl)⟩
      · cases hs
    · cases hs

theorem Inv.of_opened (h : s.Opened) : s.Inv log := by
  obtain ⟨hslots, hfile, hpub, hcur, hfront, hdf, hds, hfc, hlock, -, -, -, hcursor, happ, hlane, hgroups⟩ := h
  have hframes : s.frames = [] := by rw [frames, hgroups]; rfl
  refine ⟨?_, by rw [AppenderOk, happ]; trivial⟩
  exact
    { layout := by
        rw [hgroups, hcursor, hpub]
        constructor <;> simp [paddedTotal]
      durableFrames_le := by omega
      durableFrontier_le := by omega
      fenceCursor_le := by omega
      ring := by rw [hframes]; exact Nat.zero_le _
      slots := by simp [hframes]
      staged := by simp [hframes]
      settled := by
        intro i hi
        omega
      fenced := by simp [hframes]
      claims := by
        constructor
        · intro l i hi
          rw [hlane l] at hi
          cases hi
        · intro l l' i hi
          rw [hlane l] at hi
          cases hi
      holder := by
        intro l
        rw [hlane l, hlock]
        simp [LanePc.holdsFrontier]
      lanes := by
        intro l
        rw [hlane l]
        trivial
      durable := by rw [hds]; exact Nat.zero_le _ }

/-! ### The durable cut -/

/-- The first `n` frames have all been completely written. -/
def IsWrittenPrefix (s : FenceState τ) (n : ℕ) : Prop :=
  n ≤ s.frames.length ∧ ∀ f ∈ s.frames.take n, s.Written f

/-- `durable_seq` acknowledges only what is on disk. -/
structure CutSound (s : FenceState τ) : Prop where
  /-- it is at most the end of the last frame of the longest written prefix -/
  le_written : ∃ n, IsGreatest { n | s.IsWrittenPrefix n } n ∧ s.durableSeq ≤ endSeqAt s.frames n
  /-- it covers no group with an unwritten fragment -/
  le_firstSeq : ∀ g ∈ s.groups, (∃ f ∈ g.frames, ¬ s.Written f) → s.durableSeq ≤ g.firstSeq

theorem exists_greatest_writtenPrefix (s : FenceState τ) : ∃ n, IsGreatest { n | s.IsWrittenPrefix n } n := by
  have hbdd : BddAbove { n | s.IsWrittenPrefix n } := ⟨s.frames.length, fun n hn => hn.1⟩
  have hne : { n | s.IsWrittenPrefix n }.Nonempty := ⟨0, Nat.zero_le _, by simp⟩
  exact ⟨_, Nat.sSup_mem hne hbdd, fun n hn => le_csSup hbdd hn⟩

theorem Core.writtenPrefix_frontier (h : s.Core) : s.IsWrittenPrefix s.durableFrontier := by
  refine ⟨h.durableFrontier_le, ?_⟩
  intro f hf
  obtain ⟨i, hi, rfl⟩ := mem_take_iff_getElem.mp hf
  have hi' : i < s.durableFrontier := (lt_min_iff.mp hi).1
  exact (h.settled i hi').written _ (getElem?_eq_getElem _)

/-- A frame that is not written lies at or above the frontier, so the cut ends before its group. -/
theorem Core.durableSeq_le_of_not_written (h : s.Core) (hf : f ∈ s.frames) (hw : ¬ s.Written f) :
    s.durableSeq ≤ f.header.firstSeq.toNat := by
  obtain ⟨i, hi, rfl⟩ := getElem_of_mem hf
  have hfrontier : s.durableFrontier ≤ i := by
    by_contra hlt
    exact hw ((h.settled i (not_le.mp hlt)).written _ (getElem?_eq_getElem hi))
  refine h.durable.trans ?_
  cases hk : s.durableFrontier with
  | zero => exact Nat.zero_le _
  | succ k =>
    have hord := pairwise_iff_getElem.mp h.layout.ordered k i (show k < s.frames.length by omega) hi (by omega)
    rw [endSeqAt, getElem?_eq_getElem (by omega)]
    exact hord

theorem Core.cutSound (h : s.Core) : s.CutSound where
  le_written := by
    obtain ⟨n, hn⟩ := s.exists_greatest_writtenPrefix
    refine ⟨n, hn, h.durable.trans ?_⟩
    exact endSeqAt_mono h.layout.ordered (hn.2 h.writtenPrefix_frontier) hn.1.1
  le_firstSeq := by
    rintro g hg ⟨f, hf, hw⟩
    rw [← h.layout.firstSeq_eq g hg f hf]
    exact h.durableSeq_le_of_not_written (mem_flatMap.mpr ⟨g, hg, hf⟩) hw

end FenceState

/-- **The durable cut of a frame log.**  In every run of one appender and any lanes in which calls continue
above the published sequences and no `end_seq` is overwritten just before a lane loads it, `durable_seq`
acknowledges only what is on disk. -/
theorem durable_seq_covers_written_prefix {τ : Type} [DecidableEq τ]
    (crc : UInt32 → Bytes → UInt32) (log : FrameLogGeometry) {s : FenceState τ}
    (h : (fenceSystem τ crc log).ReachableVia FenceState.Calm s) : s.CutSound := by
  have hinv : s.Inv log := h.invariant (fun _ => FenceState.Inv.of_opened)
    (fun _ _ _ hi hcalm hs => hi.step hcalm hs)
  exact hinv.core.cutSound

/-! ### A run of each kind

Sample frames hold one byte and one sequence. A single lane fences them. -/

def sampleCrc (_ : UInt32) (_ : Bytes) : UInt32 := 0

/-- A segment with room for one frame more than the ring has slots. -/
def sampleLog : FrameLogGeometry := ⟨1, 4097 * 4096⟩

/-- A new log whose staging arena is zeroed. -/
def sampleOpened : FenceState Unit where
  slots := fun _ => .empty
  staging := fun _ => 0
  file := fun _ => none
  publishedFrames := 0
  fenceCursor := 0
  durableFrontier := 0
  durableFrames := 0
  durableSeq := 0
  fencesCompleted := 0
  frontierLock := none
  publishingFinished := false
  fenceFailed := false
  fixedFault := false
  cursor := ⟨0, 0⟩
  appender := .idle
  lane := fun _ => .checkFault
  groups := []

theorem sampleOpened_opened : sampleOpened.Opened :=
  ⟨rfl, rfl, rfl, rfl, rfl, rfl, rfl, rfl, rfl, rfl, rfl, rfl, rfl, rfl, fun _ => rfl, rfl⟩

/-- The step is calm for a single lane, decided. -/
def calmStep (s : FenceState Unit) : FenceAction Unit → Bool
  | .publish call => decide (s.lastSeq ≤ call.firstSeq.toNat)
  | .appender =>
    match s.lane () with
    | .loadEndSeq _ => false
    | _ => true
  | _ => true

theorem calm_of_calmStep {s : FenceState Unit} {a : FenceAction Unit} (h : calmStep s a = true) : s.Calm a := by
  cases a with
  | publish call =>
    have hle : s.lastSeq ≤ call.firstSeq.toNat := of_decide_eq_true h
    exact hle
  | appender =>
    intro f e ops group _ l advanced hl
    simp [calmStep, hl] at h
  | _ => trivial

theorem durable_seq_covers_one_frame :
    ∃ s, (fenceSystem Unit sampleCrc sampleLog).ReachableVia FenceState.Calm s ∧ s.durableSeq = 1 ∧
      s.CutSound := by
  obtain ⟨s, ⟨s₀, hinit, hrun⟩, hseq⟩ :=
    TransitionSystem.exists_reachable_of_runVia (T := fenceSystem Unit sampleCrc sampleLog)
      (fun s a => calmStep s a = true) (s := sampleOpened)
      (.publish (.frame [0] 0 1) :: List.replicate 9 .appender ++ List.replicate 7 (.lane ()) ++
        .pwriteReturns () 4096 :: List.replicate 12 (.lane ()))
      sampleOpened_opened (fun s => s.durableSeq == 1) (by decide +kernel)
  have hs : (fenceSystem Unit sampleCrc sampleLog).ReachableVia FenceState.Calm s :=
    ⟨s₀, hinit, hrun.mono fun _ _ => calm_of_calmStep⟩
  exact ⟨s, hs, beq_iff_eq.mp hseq, durable_seq_covers_written_prefix _ _ hs⟩

/-! ### The slot reused under the lane's eyes -/

/-- The appender executes the rest of its program. -/
theorem FenceState.run_ops {τ : Type} [DecidableEq τ] {crc : UInt32 → Bytes → UInt32}
    {log : FrameLogGeometry} {ok : FenceState τ → FenceAction τ → Prop} (hok : ∀ s, ok s .appender)
    {s : FenceState τ} {ops : List AppenderOp} {group : Option PlacedGroup}
    (hpc : s.appender = .staging ops group) :
    (fenceSystem τ crc log).RunVia ok s { s with
      slots := (runOps ops (s.slots, s.staging)).1
      staging := (runOps ops (s.slots, s.staging)).2
      appender := .staging [] group } := by
  induction ops generalizing s with
  | nil =>
    have hsame : { s with
        slots := (runOps [] (s.slots, s.staging)).1
        staging := (runOps [] (s.slots, s.staging)).2
        appender := .staging [] group } = s := by
      cases s
      cases hpc
      rfl
    rw [hsame]
    exact Relation.ReflTransGen.refl
  | cons op ops ih =>
    have hstep : (fenceSystem τ crc log).step s .appender = some { s with
        slots := (runOp op (s.slots, s.staging)).1
        staging := (runOp op (s.slots, s.staging)).2
        appender := .staging ops group } := by
      simp only [fenceSystem, step, appenderStep, hpc]
    exact Relation.ReflTransGen.head ⟨_, hok s, hstep⟩ (ih rfl)

/-- Calls continue above the published sequences. -/
def InOrder {τ : Type} (s : FenceState τ) (a : FenceAction τ) : Prop :=
  ∀ call, a = .publish call → s.lastSeq ≤ call.firstSeq.toNat

/-- A run of the sample log whose calls are in order. -/
abbrev SampleRun : FenceState Unit → FenceState Unit → Prop :=
  (fenceSystem Unit sampleCrc sampleLog).RunVia InOrder

/-- A frame of one byte and one sequence. -/
def sampleGroup (i : ℕ) : PlacedGroup :=
  placeGroup sampleCrc sampleLog ⟨i, i * 4096⟩ [[0]] (UInt64.ofNat i) 1 none

theorem sampleGroup_frames (i : ℕ) : ∃ f, (sampleGroup i).frames = [f] ∧ f.frameId = i ∧
    f.offset = i * 4096 ∧ f.payload = [0] := ⟨_, rfl, rfl, rfl, rfl⟩

/-- The state after publishing sample frame `i`. -/
def publishSample (s : FenceState Unit) (i : ℕ) : FenceState Unit :=
  release { s with
    slots := (runOps (internalOps (sampleGroup i).frames) (s.slots, s.staging)).1
    staging := (runOps (internalOps (sampleGroup i).frames) (s.slots, s.staging)).2
    appender := .staging [] (some (sampleGroup i)) } (sampleGroup i)

variable {s s' : FenceState Unit}

theorem run_publishSample {i : ℕ} (hidle : s.appender = .idle)
    (hcursor : s.cursor = ⟨i, i * 4096⟩) (hi : i < 4097) (hring : i + 1 ≤ s.durableFrames + 4096)
    (hseq : s.lastSeq ≤ i) : SampleRun s (publishSample s i) := by
  have hok : ∀ s : FenceState Unit, InOrder s .appender := by
    intro s call h
    cases h
  have hfirst : (UInt64.ofNat i).toNat = i := by
    rw [UInt64.toNat_ofNat']
    omega
  have hcall : publishFrame sampleCrc sampleLog s.cursor s.durableFrames [0] (UInt64.ofNat i) 1 =
      .ok (sampleGroup i) := by
    rw [publishFrame, publishInternal_ok, hcursor]
    refine ⟨⟨by decide, ?_, by simp, ?_, ?_, ?_, hring⟩, by simp, by decide, rfl⟩
    · rw [hfirst]
      simp only [UInt32.reduceToNat]
      omega
    · simp [u32Max]
    · simp only [paddedChunks, paddedFrameBytes, sampleLog, frameHeaderBytes, frameAlign,
        map_cons, map_nil, sum_cons, sum_nil, length_cons, length_nil]
      omega
    · simp only [length_cons, length_nil]
      omega
  have henter : (fenceSystem Unit sampleCrc sampleLog).step s (.publish (.frame [0] (UInt64.ofNat i) 1)) =
      some { s with
        appender := .staging (internalOps (sampleGroup i).frames) (some (sampleGroup i)) } := by
    simp only [fenceSystem, step, hidle, publish, hcall]
  have horder : InOrder s (.publish (.frame [0] (UInt64.ofNat i) 1)) := by
    rintro call h
    cases h
    rw [PublishCall.firstSeq, hfirst]
    exact hseq
  refine Relation.ReflTransGen.head ⟨_, horder, henter⟩ ?_
  refine Relation.ReflTransGen.trans (run_ops hok rfl) ?_
  exact Relation.ReflTransGen.single ⟨.appender, hok _, rfl⟩

/-- The first `n` sample frames are published and no lane has moved. -/
structure Filled (n : ℕ) (s : FenceState Unit) : Prop where
  appender : s.appender = .idle
  cursor : s.cursor = ⟨n, n * 4096⟩
  groups : s.groups = (List.range n).map sampleGroup
  published : s.publishedFrames = n
  durableFrames : s.durableFrames = 0
  durableFrontier : s.durableFrontier = 0
  durableSeq : s.durableSeq = 0
  fenceCursor : s.fenceCursor = 0
  frontierLock : s.frontierLock = none
  fixedFault : s.fixedFault = false
  lane : s.lane = fun _ => .checkFault
  file : s.file = fun _ => none
  first : 0 < n → ∀ f ∈ (sampleGroup 0).frames, (s.slots 0).Describes f
  second : (s.slots 1).fenced = false

variable {n : ℕ}

theorem lastSeq_sample (hn : n ≤ 4096) (h : s.groups = (List.range n).map sampleGroup) : s.lastSeq = n := by
  cases n with
  | zero => rw [lastSeq, h]; rfl
  | succ n =>
    rw [lastSeq, h, range_succ, map_append, map_singleton, getLast?_append]
    show (UInt64.ofNat n).toNat + 1 = n + 1
    rw [UInt64.toNat_ofNat']
    omega

theorem publishSample_slot {j : ℕ} (h : j ≠ ringIndex n) : (publishSample s n).slots j = s.slots j := by
  show (runOps (internalOps (sampleGroup n).frames) (s.slots, s.staging)).1 j = s.slots j
  rw [runOps_slot]
  obtain ⟨f, hf, hid, -, -⟩ := sampleGroup_frames n
  rw [hf]
  intro op hop
  simp only [internalOps, slotStores, hid, flatMap_singleton, cons_append, nil_append,
    mem_cons, not_mem_nil, or_false] at hop
  rcases hop with rfl | rfl | rfl | rfl | rfl | rfl | rfl | rfl
  · trivial
  · trivial
  · trivial
  all_goals exact h

theorem publishSample_describes (s : FenceState Unit) (n : ℕ) :
    ∀ f ∈ (sampleGroup n).frames, ((publishSample s n).slots (ringIndex n)).Describes f ∧
      ((publishSample s n).slots (ringIndex n)).fenced = false := by
  intro f hf
  have hdone := @completes_internalOps (sampleGroup n).frames (s.slots, s.staging)
    (pairwise_singleton _ _) f hf
  obtain ⟨f', hf', hid, -, -⟩ := sampleGroup_frames n
  rw [hf', mem_singleton] at hf
  subst hf
  rw [hid] at hdone
  exact ⟨hdone.1, hdone.2.1⟩

theorem Filled.publish (h : Filled n s) (hn : n < 4096) : Filled (n + 1) (publishSample s n) where
  appender := rfl
  cursor := by
    have hpad : paddedTotal (sampleGroup n).frames = 4096 := by
      obtain ⟨f, hf, -, -, hpay⟩ := sampleGroup_frames n
      simp [paddedTotal, hf, PlacedFrame.paddedLen, hpay, paddedFrameBytes, frameHeaderBytes, frameAlign]
    show (⟨s.cursor.nextFrame + 1, s.cursor.nextOffset + paddedTotal (sampleGroup n).frames⟩ : AppenderCursor) = _
    rw [h.cursor, hpad, Nat.add_mul]
  groups := by
    show s.groups ++ [sampleGroup n] = _
    rw [h.groups, range_succ, map_append]
    rfl
  published := by
    show s.cursor.nextFrame + 1 = n + 1
    rw [h.cursor]
  durableFrames := h.durableFrames
  durableFrontier := h.durableFrontier
  durableSeq := h.durableSeq
  fenceCursor := h.fenceCursor
  frontierLock := h.frontierLock
  fixedFault := h.fixedFault
  lane := h.lane
  file := h.file
  first := by
    intro _ f hf
    rcases Nat.eq_zero_or_pos n with rfl | hpos
    · exact (publishSample_describes s 0 f hf).1
    · rw [publishSample_slot (by simp only [ringIndex, frameSlots]; omega)]
      exact h.first hpos f hf
  second := by
    by_cases hone : n = 1
    · subst hone
      obtain ⟨f, hf, -, -, -⟩ := sampleGroup_frames 1
      exact (publishSample_describes s 1 f (by rw [hf]; exact mem_singleton_self f)).2
    · rw [publishSample_slot (by simp only [ringIndex, frameSlots]; omega)]
      exact h.second

theorem exists_filled (hn : n ≤ 4096) :
    ∃ s, (fenceSystem Unit sampleCrc sampleLog).ReachableVia InOrder s ∧ Filled n s := by
  induction n with
  | zero =>
    exact ⟨sampleOpened, .of_init sampleOpened_opened, rfl, rfl, rfl, rfl, rfl, rfl, rfl, rfl, rfl, rfl,
      rfl, rfl, fun h => absurd h (Nat.lt_irrefl 0), rfl⟩
  | succ n ih =>
    obtain ⟨s, hs, h⟩ := ih (by omega)
    refine ⟨_, hs.trans (run_publishSample h.appender h.cursor (by omega) ?_ ?_), h.publish hn⟩
    · rw [h.durableFrames]
      omega
    · rw [lastSeq_sample (by omega) h.groups]

/-- With a single lane, moving it replaces the whole lane map. -/
theorem setLane_unit (q : LanePc) : s.setLane () q = { s with lane := fun _ => q } := by
  have hlane : Function.update s.lane () q = fun _ => q := by
    funext l
    exact Function.update_self l q s.lane
  rw [setLane, hlane]

theorem run_lane (h : s.laneStep sampleLog () = some s') : SampleRun s s' :=
  Relation.ReflTransGen.single ⟨.lane (), fun _ hcall => (by cases hcall), h⟩

/-- A step that changes the lane's place only, and the run behind it. -/
theorem run_to (q : LanePc) (h : s.laneStep sampleLog () = some { s with lane := fun _ => q })
    (hrest : SampleRun { s with lane := fun _ => q } s') : SampleRun s s' :=
  (run_lane h).trans hrest

theorem run_claimFirst (hlane : s.lane = fun _ => .checkFault)
    (hfault : s.fixedFault = false) (hcursor : s.fenceCursor = 0) (hpub : 0 < s.publishedFrames) :
    SampleRun s { s with lane := fun _ => .loadFrameId 0, fenceCursor := 1 } := by
  refine run_to .loadCursor (by simp [laneStep, setLane_unit, hlane, hfault]) ?_
  refine run_to (.loadPublished 0) (by simp [laneStep, setLane_unit, hcursor]) ?_
  refine run_to (.claim 0) (by simp [laneStep, setLane_unit, hpub]) (run_lane ?_)
  simp [laneStep, setLane_unit, hcursor]

/-- One `pwrite` stores the whole of frame 0. -/
theorem run_writeFirst (hlane : s.lane = fun _ => .loadFrameId 0)
    (hid : (s.slots 0).frameId = 0) (hoffset : (s.slots 0).offset = 0)
    (hlen : (s.slots 0).paddedLen = 4096) :
    SampleRun s { s with
      lane := fun _ => .storeFenced 0
      file := s.file.write 0 ((s.staging.read 0 4096).map some) } := by
  refine run_to (.loadOffset 0)
    (by simp [laneStep, setLane_unit, hlane, slot, ringIndex, hid]) ?_
  refine run_to (.loadPaddedLen 0 0)
    (by simp [laneStep, setLane_unit, slot, ringIndex, hoffset]) ?_
  refine run_to (.pwrite 0 0 4096 0) (by simp [laneStep, setLane_unit, slot, ringIndex,
    hlen, frameHeaderBytes, sampleLog]) ?_
  have hpwrite : pwriteReturns { s with lane := fun _ => .pwrite 0 0 4096 0 } () 4096 =
      some { s with
        lane := fun _ => .pwrite 0 0 4096 4096
        file := s.file.write 0 ((s.staging.read 0 4096).map some) } := by
    simp [pwriteReturns, setLane_unit]
  refine Relation.ReflTransGen.head ⟨.pwriteReturns () 4096, fun _ hcall => (by cases hcall), hpwrite⟩ (run_lane ?_)
  simp [laneStep, setLane_unit]

/-- The lane marks frame 0 fenced. -/
theorem run_markFirst (hlane : s.lane = fun _ => .storeFenced 0) :
    SampleRun s { s with
      slots := modifySlot s.slots 0 fun slot => { slot with fenced := true }
      fencesCompleted := s.fencesCompleted + 1
      lane := fun _ => .lockFrontier } := by
  have hmark : s.laneStep sampleLog () = some { s with
      slots := modifySlot s.slots 0 fun slot => { slot with fenced := true }
      lane := fun _ => .countFence } := by
    simp [laneStep, setLane_unit, hlane]
  refine (run_lane hmark).trans (run_lane ?_)
  simp [laneStep, setLane_unit]

/-- The lane takes the frontier, sees frame 0 fenced and frame 1 not, and stores `durable_frames`. -/
theorem run_advanceFirst (hlane : s.lane = fun _ => .lockFrontier)
    (hlock : s.frontierLock = none) (hfrontier : s.durableFrontier = 0)
    (hpub : 1 < s.publishedFrames) (hfirst : (s.slots 0).fenced = true)
    (hsecond : (s.slots 1).fenced = false) :
    SampleRun s { s with
      lane := fun _ => .loadEndSeq 1
      frontierLock := some ()
      durableFrontier := 1
      durableFrames := 1 } := by
  have hlocked : s.laneStep sampleLog () =
      some { s with lane := fun _ => .scanPublished 0, frontierLock := some () } := by
    simp [laneStep, setLane_unit, hlane, hlock, hfrontier]
  refine (run_lane hlocked).trans ?_
  refine run_to (.scanFenced 0) (by simp [laneStep, setLane_unit, Nat.zero_lt_of_lt hpub]) ?_
  refine run_to (.scanPublished 1)
    (by simp [laneStep, setLane_unit, slot, ringIndex, hfirst]) ?_
  refine run_to (.scanFenced 1) (by simp [laneStep, setLane_unit, hpub]) ?_
  refine run_to (.storeFrontier 1)
    (by simp [laneStep, setLane_unit, slot, ringIndex, frameSlots, hsecond]) ?_
  have hstore : laneStep sampleLog
      { s with lane := fun _ => .storeFrontier 1, frontierLock := some () } () =
      some { s with
        lane := fun _ => .storeDurableFrames 1, frontierLock := some (), durableFrontier := 1 } := by
    simp [laneStep, setLane_unit, hfrontier]
  refine (run_lane hstore).trans (run_lane ?_)
  simp [laneStep, setLane_unit]

/-- The lane takes the end sequence it finds in slot 0 for the durable one. -/
theorem run_storeFirst {e : ℕ} (hlane : s.lane = fun _ => .loadEndSeq 1)
    (hend : (s.slots 0).endSeq = e) (hseq : s.durableSeq = 0) :
    SampleRun s { s with lane := fun _ => .unlockFrontier, durableSeq := e } := by
  refine run_to (.loadDurableSeq e)
    (by simp [laneStep, setLane_unit, hlane, slot, ringIndex, hend]) ?_
  refine run_to (.storeDurableSeq e 0) (by simp [laneStep, setLane_unit, hseq]) (run_lane ?_)
  simp [laneStep, setLane_unit]

/-- The ring is full, frame 0 is written and counted in `durable_frames`, and the lane is about to load the
end sequence of its slot. -/
theorem exists_advanced : ∃ s, (fenceSystem Unit sampleCrc sampleLog).ReachableVia InOrder s ∧
    s.appender = .idle ∧
      s.cursor = ⟨4096, 4096 * 4096⟩ ∧ s.groups = (List.range 4096).map sampleGroup ∧
      s.durableFrames = 1 ∧ s.durableSeq = 0 ∧ s.lane = (fun _ => .loadEndSeq 1) ∧
      s.file 4096 = none := by
  obtain ⟨s, hs, h⟩ := exists_filled (le_refl 4096)
  obtain ⟨f, hf, hid, hoff, hpay⟩ := sampleGroup_frames 0
  have hslot := h.first (by decide) f (by rw [hf]; exact mem_singleton_self f)
  have hlen : f.paddedLen = 4096 := by
    simp [PlacedFrame.paddedLen, hpay, paddedFrameBytes, frameHeaderBytes, frameAlign]
  have hclaim := hs.trans (run_claimFirst h.lane h.fixedFault h.fenceCursor (by rw [h.published]; decide))
  have hwrite := hclaim.trans (run_writeFirst rfl (hslot.frameId.trans hid)
    (hslot.offset.trans hoff) (hslot.paddedLen.trans hlen))
  have hmark := hwrite.trans (run_markFirst rfl)
  have hfence := hmark.trans (run_advanceFirst rfl h.frontierLock h.durableFrontier
    (by rw [h.published]; decide) (by simp [modifySlot, ringIndex])
    (by simp [modifySlot, ringIndex, h.second]))
  refine ⟨_, hfence, h.appender, h.cursor, h.groups, rfl, h.durableSeq, rfl, ?_⟩
  simp [Memory.write, h.file]

/-- Then slot 0 is staged for frame 4096, and the lane acknowledges all 4097 sequences although frame 0
alone is written. -/
theorem reused_slot_acknowledges_unwritten_frames :
    ∃ s, (fenceSystem Unit sampleCrc sampleLog).ReachableVia InOrder s ∧ s.durableSeq = 4097 ∧ ¬ s.CutSound := by
  obtain ⟨s, hs, hidle, hcursor, hgroups, hframes, hseq, hlane, hfile⟩ := exists_advanced
  have hreuse := hs.trans (run_publishSample hidle hcursor (by decide) (by rw [hframes])
    (lastSeq_sample (le_refl 4096) hgroups).le)
  obtain ⟨f, hf, -, -, -⟩ := sampleGroup_frames 4096
  have hend := (publishSample_describes s 4096 f (by rw [hf]; exact mem_singleton_self f)).1.endSeq
  have hfend : f.endSeq = 4097 := by
    obtain rfl : _ = f := (List.cons.inj hf).1
    rfl
  refine ⟨_, hreuse.trans (run_storeFirst hlane (hend.trans hfend) hseq), rfl, ?_⟩
  intro hsound
  obtain ⟨f₁, hf₁, -, hoff₁, -⟩ := sampleGroup_frames 1
  have hmem : sampleGroup 1 ∈ s.groups ++ [sampleGroup 4096] := by
    rw [hgroups]
    exact mem_append_left _ (mem_map_of_mem (mem_range.mpr (by decide)))
  have hle : 4097 ≤ (sampleGroup 1).firstSeq := by
    refine hsound.le_firstSeq _ hmem ⟨f₁, by rw [hf₁]; exact mem_singleton_self f₁, ?_⟩
    intro hwritten
    have hcell := hwritten 0 _ rfl
    rw [hoff₁] at hcell
    cases hfile.symm.trans hcell
  exact absurd hle (by decide)

end ThunderboltDb.WriteConveyor
