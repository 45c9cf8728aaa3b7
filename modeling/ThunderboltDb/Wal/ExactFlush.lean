import ThunderboltDb.Wal.ExactExtent

/-!
# Flushing claimed exact records

What `begin_group_flush` does to the exact owners: it leaves them alone, or it hands the owners of one group
to a job and marks the first descriptor slot (`triple_beginGroupFlush_exact`). With a claimed owner pending
and its extent provided, it does form a group: the first record fits the extent and a group, so the prefix
selection cannot fail, and neither of the two extent checks can (`triple_beginGroupFlush_pending`).
-/

namespace ThunderboltDb.Wal

open Lib WalBuffer
open List hiding get

variable {ι : Type} {f : ℕ}

/-! ### Counting the owners of a group -/

/-- The prefix counts the owners in front of its target. -/
def Counted (x : ExactView) (p : WalGroupPrefix) : Prop :=
  p.exactRecords = (x.log.wires.takeWhile fun wire => wire.recordIndex < p.targetRecords).length

theorem exactWirePrefixCount_eq {b : WalBuffer ι}
    (h : ∀ wire ∈ b.exactTypedWireRecords, wire.state = .claimedPending) {upTo : ℕ} :
    b.exactWirePrefixCount upTo =
      .ok (b.exactTypedWireRecords.takeWhile fun wire => wire.recordIndex < upTo).length := by
  rw [exactWirePrefixCount, if_pos]
  rw [all_eq_true]
  intro wire hwire
  exact decide_eq_true (h wire ((takeWhile_sublist _).subset hwire))

variable {w : WalState ι} {free : Option ℕ} {p : WalGroupPrefix}

theorem counted_of_selected {first : ℕ}
    (hclaimed : ∀ wire ∈ w.buffer.exactTypedWireRecords, wire.state = .claimedPending)
    (h : w.buffer.selectPreparedGroupPrefix first free = .ok (some p)) : Counted w.exactView p := by
  rw [selectPreparedGroupPrefix] at h
  split at h
  · cases h
  · cases hl : w.buffer.selectLoop first free maxWalGroupRecords first 0 false with
    | error e => rw [hl] at h; cases h
    | ok r =>
      rw [hl] at h
      dsimp only at h
      rw [exactWirePrefixCount_eq hclaimed] at h
      cases h
      rfl

/-! ### The handoff -/

/-- The view behind a handoff of the group up to `target`. -/
def ExactView.handedOff (x : ExactView) (target : ℕ) : ExactView :=
  { x with
    log := { x.log with
      wires := x.log.wires.dropWhile fun wire => wire.recordIndex < target, ioInFlight := true }
    slots := [.busy, .idle] }

/-- A job over the first slot. -/
structure StartedJob (target : ℕ) (r : WalGroupFlushBegin) (job : SerialFlushJob) : Prop where
  result_eq : r = .job job
  slot_eq : job.group.slot = 0
  target_eq : job.targetRecords = target

variable {x : ExactView} (env : WalEnv ι) (io : SegmentIo)

/-- A handoff of claimed owners fails in no way but by an assertion. -/
theorem triple_startJob_exact (hx : ExactInv none x) (hzero : x.tentatives = 0) (hcount : Counted x p) :
    Triple (fun w : WalState ι => w.exactView = x) (startJob p)
      (fun r w => w.exactView = x.handedOff p.targetRecords ∧ ∃ job, StartedJob p.targetRecords r job)
      (fun e _ => ∃ message, e = .panic message) := by
  unfold startJob
  refine .get_bind fun w hw => ?_
  subst hw
  refine .ite (fun _ => .throw fun _ _ => ⟨_, rfl⟩) fun _ => ?_
  have hslots : w.buffer.preparedGroupArena.slots = [.idle, .idle] := hx.slots
  have hpre : w.buffer.exactWirePrefixCount p.targetRecords = .ok p.exactRecords :=
    (exactWirePrefixCount_eq (hx.claimed hzero)).trans (congrArg Except.ok hcount.symm)
  refine .bind (Q := fun g w' => ∃ group, g = some group ∧ group.slot = 0 ∧ w'.exactView = { w.exactView with
      log := { w.exactView.log with wires := w.exactView.log.wires.dropWhile fun wire =>
        wire.recordIndex < p.targetRecords }
      slots := [.busy, .idle] }) ?_ fun g => ?_
  · unfold handoffPreparedGroup
    refine .get_bind fun w' hw' => ?_
    subst hw'
    dsimp only
    rw [hslots, show tryAcquire [.idle, .idle] = .ok (some 0) from rfl]
    dsimp only
    have hcount' : w'.buffer.exactWirePrefixCount p.targetRecords = .ok p.exactRecords := hpre
    rw [hcount']
    dsimp only
    rw [if_neg (not_not_intro rfl)]
    refine .ite (fun _ => .throw fun _ _ => ⟨_, rfl⟩) fun _ => ?_
    refine .bind (Q := fun _ w'' => w''.exactView = { w'.exactView with
      log := { w'.exactView.log with wires := w'.exactView.log.wires.dropWhile fun wire =>
        wire.recordIndex < p.targetRecords }
      slots := [.busy, .idle] }) (Triple.modify fun w'' h => ?_) fun _ => .pure fun w'' h => ?_
    · subst h
      have hdrop := drop_exactWirePrefixCount hcount'
      simp only [WalState.exactView, WalState.view, setSlot, hslots, hdrop, set_cons_zero]
    · exact ⟨_, rfl, rfl, h⟩
  · cases g with
    | none =>
      refine .pure fun w' h => ?_
      obtain ⟨_, hg, -⟩ := h
      cases hg
    | some group =>
      refine .bind (Q := fun _ w' => w'.exactView = w.exactView.handedOff p.targetRecords ∧
        group.slot = 0) (Triple.modify fun w' h => ?_) fun _ => .pure fun w' h => ?_
      · obtain ⟨group', hg, hslot, hview⟩ := h
        obtain rfl := Option.some.inj hg
        refine ⟨?_, hslot⟩
        show { w'.exactView with log := { w'.exactView.log with ioInFlight := true } } = _
        rw [hview]
        rfl
      · exact ⟨h.1, _, rfl, h.2, rfl⟩

/-! ### Beginning a flush -/

theorem requireUnpoisoned_eq (h : ¬ Poisoned w) : requireUnpoisoned w = .ok () w := by
  rw [Poisoned, not_or, not_not, not_not] at h
  simp only [requireUnpoisoned, bind, EStateM.bind, get, getThe, MonadStateOf.get, EStateM.get, h.1, h.2]
  rfl

/-- What a begun flush leaves of the exact owners. -/
def FlushBegun (x : ExactView) (r : WalGroupFlushBegin) (x' : ExactView) : Prop :=
  match r with
  | .job job => job.group.slot = 0 ∧ x.tentatives = 0 ∧
      ∃ y, Grown x y ∧ x' = y.handedOff job.targetRecords
  | .clean _ => Grown x x'
  | .busy => Grown x x'

theorem grows_prepareGroupExtent (p : WalGroupPrefix) : Grows (prepareGroupExtent env io p) := by
  intro x
  unfold prepareGroupExtent
  refine .get_bind fun w hw => ?_
  have hstay : ∀ w', w' = w → Grown x w'.exactView := by
    intro w' h
    rw [h, hw]
    exact .refl x
  refine .ite (fun _ => .pure hstay) fun _ => .ite (fun _ => ?_) fun _ => ?_
  · refine .bind (((grows_ensureCreated env io) x).conseq ?_ (fun _ _ h => h) fun _ _ h => h)
      fun _ => .get_bind fun w' hw' => ?_
    · intro w' h
      rw [h, hw]
    · refine ((grows_ensurePreallocatedThrough env io.zeroFillExtend _).triple x).conseq ?_
        (fun _ _ h => h) fun _ _ h => h
      intro w'' h
      rw [h]
      exact hw'
  · exact (triple_require _ _ _).conseq (fun _ h => h) (fun _ w' h => hstay w' h.1) fun _ w' h => hstay w' h

theorem triple_formNextGroup_exact [DecidableEq ι] (hx : ExactInv none x) (hzero : x.tentatives = 0) :
    Triple (fun w => w.exactView = x) (formNextGroup env io) (fun r w => FlushBegun x r w.exactView)
      (fun e w => (∃ message, e = .panic message) ∨ Grown x w.exactView) := by
  unfold formNextGroup
  refine .get_bind fun w hw => ?_
  subst hw
  have hstay : ∀ w', w' = w → Grown w.exactView w'.exactView := fun w' h => h ▸ .refl _
  match hsel : w.buffer.selectPreparedGroupPrefix w.core.flushedRecords none with
  | .error e => exact .throw fun w' h => .inr (hstay w' h)
  | .ok none => exact .pure hstay
  | .ok (some natural) =>
    refine .bind ((triple_capToExtent w hsel).conseq (fun _ h => h) (fun _ _ h => h)
      fun _ w' h => .inr (hstay w' h)) fun p => ?_
    refine .bind (Q := fun _ w' => Grown w.exactView w'.exactView ∧ Counted w.exactView p) ?_
      fun _ => .bind (Q := fun _ w' => Grown w.exactView w'.exactView ∧ Counted w.exactView p) ?_
      fun _ => ?_
    · refine ((framesExact_verifyGroupIdentity env io.installIdentity p).triple fun y =>
        Grown w.exactView y ∧ Counted w.exactView p).conseq ?_ (fun _ _ h => h) fun _ _ h => .inr h.1
      rintro w' ⟨rfl, ⟨free, hfree⟩, -⟩
      exact ⟨.refl _, counted_of_selected (hx.claimed hzero) hfree⟩
    · intro w' hw'
      have hg := (grows_prepareGroupExtent env io p).triple w.exactView w' hw'.1
      cases hres : prepareGroupExtent env io p w' with
      | ok u w'' => rw [hres] at hg; exact ⟨hg, hw'.2⟩
      | error e w'' => rw [hres] at hg; exact .inr hg
    · intro w' hw'
      obtain ⟨hg, hcount⟩ := hw'
      have hcount' : Counted w'.exactView p := by
        rw [Counted, hg.wires_eq]
        exact hcount
      have hjob := triple_startJob_exact (hg.exactInv hx) (hg.tentatives_eq.trans hzero) hcount' w' rfl
      cases hres : startJob p w' with
      | error e w'' => rw [hres] at hjob; exact .inl hjob
      | ok r w'' =>
        rw [hres] at hjob
        obtain ⟨hview, job, rfl, hslot, htarget⟩ := hjob
        exact ⟨hslot, hzero, w'.exactView, hg, by rw [hview, htarget]⟩

/-- A begun flush keeps the owners or hands off a group of them. -/
theorem triple_beginGroupFlush_exact [DecidableEq ι] (hx : ExactInv none x) (hl : LogInv none f x.log) :
    Triple (fun w => w.exactView = x) (beginGroupFlush env io) (fun r w => FlushBegun x r w.exactView)
      (fun e w => (∃ message, e = .panic message) ∨ Grown x w.exactView) := by
  intro w hw
  subst hw
  rw [beginGroupFlush_eq env io hl]
  split_ifs with htail
  · exact .inr (.refl _)
  · exact .inr (.refl _)
  · exact .refl _
  · refine Triple.bind ((framesExact_requireUnpoisoned w.exactView).conseq (fun _ h => h) (fun _ _ h => h) ?_)
      (fun _ => triple_formNextGroup_exact env io hx (not_not.mp htail)) w rfl
    exact fun _ _ h => .inr (h ▸ .refl _)

/-! ### A pending owner is handed off -/

theorem exactWireForGroup_eq (hx : ExactInv none w.exactView)
    (hzero : w.exactView.tentatives = 0) {i : ℕ} {r : WalRecord} (hr : w.buffer.records[i]? = some r) :
    w.buffer.exactWireForGroup i r = .ok (w.buffer.wireAt i) := by
  rw [exactWireForGroup]
  cases hwire : w.buffer.wireAt i with
  | none => rfl
  | some wire =>
    obtain ⟨hmem, hidx⟩ := mem_of_wireAt hwire
    have hstate := hx.claimed hzero wire hmem
    have hpay := hx.payload wire hmem r (by rw [hidx]; exact hr)
    simp [hstate, hpay]

/-- One turn of the selection over a record: its bytes are its encoding's. -/
theorem selectLoop_succ (hx : ExactInv none w.exactView) (hl : LogInv none f w.view)
    (hzero : w.exactView.tentatives = 0) (first : ℕ) (room target wireBytes : ℕ)
    (includesExact : Bool) {record : WalRecord} (hrec : w.buffer.records[target]? = some record) :
    w.buffer.selectLoop first free (room + 1) target wireBytes includesExact =
      if includesExact ∧ w.buffer.wireAt target = none then .ok (target, wireBytes)
      else if maxWalGroupWireBytes < wireBytes + encodedRecordLen record ∨
          free.any (· < wireBytes + encodedRecordLen record) then if target = first then .error (.durability
          s!"WAL record of {encodedRecordLen record} bytes exceeds its configured group or preallocated serial extent bound")
        else .ok (target, wireBytes)
      else w.buffer.selectLoop first free room (target + 1) (wireBytes + encodedRecordLen record)
        (includesExact || (w.buffer.wireAt target).isSome) := by
  rw [selectLoop, hrec]
  dsimp only
  rw [exactWireForGroup_eq hx hzero hrec]
  cases hwire : w.buffer.wireAt target with
  | none => rfl
  | some wire =>
    have hlen := recordWireBytes_eq hl.wires hrec
    rw [recordWireBytes, hwire] at hlen
    simp only [hlen]

/-- A prefix of known length within its bounds. -/
structure FittingPrefix (w : WalState ι) (free : Option ℕ) (target wireBytes : ℕ) : Prop where
  first_le : w.core.flushedRecords ≤ target
  bytes_eq : wireBytes = spanBytes w.buffer.records w.core.flushedRecords target
  fits : ∀ n ∈ free, wireBytes ≤ n

/-- The selection loop cannot fail when the first record fits a group and the extent. -/
theorem selectLoop_total (hx : ExactInv none w.exactView) (hl : LogInv none f w.view)
    (hzero : w.exactView.tentatives = 0) (hfirst : ∀ r, w.buffer.records[w.core.flushedRecords]? = some r →
      encodedRecordLen r ≤ maxWalGroupWireBytes ∧ ∀ n ∈ free, encodedRecordLen r ≤ n)
    (room target wireBytes : ℕ) (includesExact : Bool) (h : FittingPrefix w free target wireBytes) :
    ∃ t wb, w.buffer.selectLoop w.core.flushedRecords free room target wireBytes includesExact =
      .ok (t, wb) ∧ FittingPrefix w free t wb := by
  induction room generalizing target wireBytes includesExact with
  | zero => exact ⟨target, wireBytes, rfl, h⟩
  | succ room ih =>
    cases hrec : w.buffer.records[target]? with
    | none =>
      rw [selectLoop, hrec]
      exact ⟨target, wireBytes, rfl, h⟩
    | some record =>
      rw [selectLoop_succ hx hl hzero _ _ _ _ _ hrec]
      split
      · exact ⟨target, wireBytes, rfl, h⟩
      · split
        · rename_i hfull
          -- only the first record of a group could be refused
          split
          · rename_i heq
            subst heq
            obtain ⟨hmax, hfree⟩ := hfirst record hrec
            have hz : wireBytes = 0 := by rw [h.bytes_eq, spanBytes_self]
            rcases hfull with hbig | hbig
            · omega
            · obtain ⟨n, hn, hlt⟩ := (Option.any_eq_true _ _).mp hbig
              have := hfree n hn
              simp only [decide_eq_true_eq] at hlt
              omega
          · exact ⟨target, wireBytes, rfl, h⟩
        · rename_i hfull
          rw [not_or] at hfull
          refine ih (target + 1) _ _ ⟨le_trans h.first_le (Nat.le_succ _), ?_, fun n hn => ?_⟩
          · rw [spanBytes_succ h.first_le hrec, ← h.bytes_eq]
          · rw [Option.mem_def.mp hn, Option.any_some, decide_eq_true_eq] at hfull
            exact not_lt.mp hfull.2

structure SelectedPrefix (w : WalState ι) (free : Option ℕ) (p : WalGroupPrefix) : Prop where
  inv : PrefixInv w.buffer w.core.flushedRecords p
  counted : Counted w.exactView p
  bytes_eq : p.wireBytes = spanBytes w.buffer.records w.core.flushedRecords p.targetRecords
  fits : ∀ n ∈ free, p.wireBytes ≤ n

theorem select_total (hx : ExactInv none w.exactView) (hl : LogInv none f w.view)
    (hzero : w.exactView.tentatives = 0) (free : Option ℕ)
    (hlt : w.core.flushedRecords < w.buffer.records.length)
    (hfirst : ∀ r, w.buffer.records[w.core.flushedRecords]? = some r →
      encodedRecordLen r ≤ maxWalGroupWireBytes ∧ ∀ n ∈ free, encodedRecordLen r ≤ n) :
    ∃ p, w.buffer.selectPreparedGroupPrefix w.core.flushedRecords free = .ok (some p) ∧
      SelectedPrefix w free p := by
  obtain ⟨t, wb, hloop, hfit⟩ := selectLoop_total hx hl hzero hfirst maxWalGroupRecords
    w.core.flushedRecords 0 false ⟨le_rfl, (spanBytes_self _ _).symm, fun _ _ => Nat.zero_le _⟩
  have hsel : w.buffer.selectPreparedGroupPrefix w.core.flushedRecords free = .ok (some
      ⟨w.core.flushedRecords, t, wb,
        (w.buffer.exactTypedWireRecords.takeWhile fun wire => wire.recordIndex < t).length⟩) := by
    rw [selectPreparedGroupPrefix, if_neg (not_le.mpr hlt), hloop]
    dsimp only
    rw [exactWirePrefixCount_eq (hx.claimed hzero)]
  exact ⟨_, hsel, selectPreparedGroupPrefix_spec hsel, counted_of_selected (hx.claimed hzero) hsel,
    hfit.bytes_eq, hfit.fits⟩

/-- A state with a claimed owner to flush. -/
structure Pending (f : ℕ) (w : WalState ι) : Prop where
  owners : ExactInv none w.exactView
  log : LogInv none f w.view
  tentatives_eq : w.buffer.typedExactTentativeCount = 0
  unpoisoned : ¬ Poisoned w
  pending : w.buffer.exactTypedWireRecords ≠ []

namespace Pending

variable {w : WalState ι}

/-- The first owner lies behind the watermark and its extent is provided. -/
theorem first_owner (h : Pending f w) : ∃ wire rest, w.buffer.exactTypedWireRecords = wire :: rest ∧
    w.core.flushedRecords ≤ wire.recordIndex ∧ wire.recordIndex < w.buffer.records.length ∧
    Provided w.view (wire.recordIndex + 1) 0 := by
  cases hwires : w.buffer.exactTypedWireRecords with
  | nil => exact absurd hwires h.pending
  | cons wire rest =>
    have hmem : wire ∈ w.view.wires := by
      show wire ∈ w.buffer.exactTypedWireRecords
      rw [hwires]
      simp
    exact ⟨wire, rest, rfl, h.log.wires.lower wire hmem, h.log.wires.upper wire hmem, h.owners.provided wire hmem⟩

theorem fileOpen (h : Pending f w) : w.core.fileOpen = true := by
  obtain ⟨wire, rest, -, -, -, hprov⟩ := h.first_owner
  exact hprov.fileOpen

/-- The record at the watermark fits a group and the extent. -/
theorem first_fits (h : Pending f w) : w.core.flushedRecords < w.buffer.records.length ∧
    w.core.durableBytes ≤ w.core.preallocBytes ∧
    ∀ r, w.buffer.records[w.core.flushedRecords]? = some r → encodedRecordLen r ≤ maxWalGroupWireBytes ∧
        encodedRecordLen r ≤ w.core.preallocBytes - w.core.durableBytes := by
  obtain ⟨wire, -, -, hlo, hhi, hprov⟩ := h.first_owner
  have hfits : w.core.durableBytes + spanBytes w.buffer.records w.core.flushedRecords
      (wire.recordIndex + 1) + 0 ≤ w.core.preallocBytes := hprov.fits
  refine ⟨lt_of_le_of_lt hlo hhi, by omega, fun r hr => ⟨?_, ?_⟩⟩
  · exact hprov.bounded _ r le_rfl (Nat.lt_succ_of_le hlo) hr
  · have hone := spanBytes_succ le_rfl hr
    rw [spanBytes_self] at hone
    have hmono : spanBytes w.buffer.records w.core.flushedRecords (w.core.flushedRecords + 1) ≤
        spanBytes w.buffer.records w.core.flushedRecords (wire.recordIndex + 1) :=
      spanBytes_mono (Nat.le_succ _) (Nat.succ_le_succ hlo) hhi
    omega

/-- A prefix that the capping leaves fits the provided extent. -/
theorem capped_fits (h : Pending f w) (hp : SelectedPrefix w free p)
    (hcap : p.exactRecords = 0 ∨ free = some (w.core.preallocBytes - w.core.durableBytes)) :
    w.core.durableBytes + p.wireBytes ≤ w.core.preallocBytes := by
  obtain ⟨-, hdur, -⟩ := h.first_fits
  rcases hcap with hzero | hfree
  · -- without an owner in the prefix the first owner lies behind it
    obtain ⟨wire, rest, hwires, -, hhi, hprov⟩ := h.first_owner
    have hcount := hp.counted
    rw [Counted, hzero, show w.exactView.log.wires = wire :: rest from hwires] at hcount
    have hbehind : p.targetRecords ≤ wire.recordIndex := by
      by_contra hlt
      rw [takeWhile_cons_of_pos (by simpa using hlt)] at hcount
      simp at hcount
    have hle : p.targetRecords ≤ wire.recordIndex + 1 := by omega
    have hmono := spanBytes_mono (le_of_lt hp.inv.first_lt) hle hhi
    have hfits := hprov.fits
    have hbytes := hp.bytes_eq
    change w.core.durableBytes + spanBytes w.buffer.records w.core.flushedRecords (wire.recordIndex + 1) +
      0 ≤ w.core.preallocBytes at hfits
    omega
  · have hle := hp.fits (w.core.preallocBytes - w.core.durableBytes) (by rw [hfree]; rfl)
    omega

end Pending

theorem triple_capToExtent_pending (h : Pending f w) {natural : WalGroupPrefix}
    (hn : SelectedPrefix w none natural) :
    Triple (fun w' => w' = w) (capToExtent natural) (fun p w' => w' = w ∧ (∃ free, SelectedPrefix w free p) ∧
        w.core.durableBytes + p.wireBytes ≤ w.core.preallocBytes) (fun _ _ => False) := by
  unfold capToExtent
  refine .get_self (.ite (fun hzero => .pure fun _ h' => ?_) fun _ => ?_)
  · exact ⟨h', ⟨none, hn⟩, h.capped_fits hn (.inl hzero)⟩
  obtain ⟨hlt, hdur, hfirst⟩ := h.first_fits
  rw [if_neg (not_lt.mpr hdur)]
  obtain ⟨p, hsel, hp⟩ := select_total h.owners h.log h.tentatives_eq
    (some (w.core.preallocBytes - w.core.durableBytes)) hlt fun r hr => by
      refine ⟨(hfirst r hr).1, fun n hn => ?_⟩
      rw [← Option.mem_some_iff.mp hn]
      exact (hfirst r hr).2
  have hfits := h.capped_fits hp (.inr rfl)
  rw [hsel]
  dsimp only
  rw [if_neg (by simp [h.fileOpen]; omega)]
  exact .pure fun _ h' => ⟨h', ⟨_, hp⟩, hfits⟩

theorem formEntries_length (records : List (WalRecord × ℕ)) (wires : List ExactTypedWireRecord) :
    (formEntries records wires).length = records.length := by
  induction records generalizing wires with
  | nil => rfl
  | cons q records ih =>
    cases wires with
    | nil => rw [formEntries, length_cons, ih, length_cons]
    | cons wire wires =>
      rw [formEntries]
      split
      · rw [length_cons, ih, length_cons]
      · rw [length_cons, ih, length_cons]

theorem triple_startJob_pending (h : Pending f w) (hp : SelectedPrefix w free p) :
    Triple (fun w' => w' = w) (startJob p) (fun r _ => ∃ job, r = .job job) (fun _ _ => False) := by
  have hslots : w.buffer.preparedGroupArena.slots = [.idle, .idle] := h.owners.slots
  have hpre : w.buffer.exactWirePrefixCount p.targetRecords = .ok p.exactRecords :=
    (exactWirePrefixCount_eq (h.owners.claimed h.tentatives_eq)).trans
      (congrArg Except.ok hp.counted.symm)
  unfold startJob
  refine .get_self ?_
  rw [if_neg (by simp [h.fileOpen])]
  refine .bind (Q := fun g _ => ∃ group, g = some group) ?_ fun g => ?_
  · unfold handoffPreparedGroup
    refine .get_self ?_
    dsimp only
    rw [hslots, show tryAcquire [.idle, .idle] = .ok (some 0) from rfl]
    dsimp only
    rw [hpre]
    dsimp only
    rw [if_neg (not_not_intro rfl), if_neg]
    · exact .bind (Q := fun _ _ => True) (Triple.modify fun _ _ => trivial) fun _ =>
        Triple.pure fun _ _ => ⟨_, rfl⟩
    · -- the group holds one entry for each record and exactly the selected bytes
      rw [not_or, not_not, not_not]
      constructor
      · show (formEntries _ _).length = _
        have hle := hp.inv.target_le
        rw [formEntries_length, prefixRecords, length_drop, length_take, length_zipIdx, min_eq_left hle]
        rfl
      · rw [formGroup_bytes w.buffer p 0 p.exactRecords h.log.wires, hp.bytes_eq, hp.inv.first_eq]
        rfl
  · cases g with
    | none =>
      refine .pure fun w h => ?_
      obtain ⟨_, hg⟩ := h
      cases hg
    | some group =>
      exact .bind (Q := fun _ _ => True) (Triple.modify fun _ _ => trivial) fun _ =>
        Triple.pure fun _ _ => ⟨_, rfl⟩

/-- **A pending claimed owner is handed off**: the flush forms a job, unless the test hook was armed, which
fails one flush and is spent. -/
theorem triple_beginGroupFlush_pending [DecidableEq ι] (h : Pending f w) :
    Triple (fun w' => w' = w) (beginGroupFlush env io) (fun r _ => ∃ job, r = .job job)
      (fun e w' => e = simulatedFailure ∧ w.buffer.failNextFlush = true ∧
        w' = { w with buffer := { w.buffer with failNextFlush := false } }) := by
  have hio : w.core.ioInFlight = false := h.log.flight
  intro w' hw'
  subst hw'
  rw [beginGroupFlush_eq env io h.log, if_neg (not_not_intro h.tentatives_eq)]
  split_ifs with harmed hbusy
  · exact ⟨rfl, harmed, rfl⟩
  · simp [hio] at hbusy
  rw [bind_of_ok (requireUnpoisoned_eq h.unpoisoned)]
  refine Triple.conseq (P := fun w => w = w') (E := fun _ _ => False) ?_ (fun _ h => h) (fun _ _ h => h)
    (fun _ _ h => h.elim) w' rfl
  unfold formNextGroup
  refine .get_self ?_
  obtain ⟨hlt, -, hfirst⟩ := h.first_fits
  obtain ⟨natural, hsel, hn⟩ := select_total h.owners h.log h.tentatives_eq none hlt fun r hr =>
    ⟨(hfirst r hr).1, fun _ hn => by cases hn⟩
  rw [hsel]
  refine .bind (triple_capToExtent_pending h hn) fun p w hw => ?_
  obtain ⟨rfl, ⟨free, hp⟩, hfits⟩ := hw
  refine Triple.bind (P := fun w' => w' = w) (Q := fun _ w' => w' = w) ?_
    (fun _ => Triple.bind (Q := fun _ w' => w' = w) ?_ fun _ => triple_startJob_pending h hp) w rfl
  · unfold verifyGroupIdentity
    refine .get_self ?_
    rw [if_neg h.pending]
    exact .pure fun _ h => h
  · unfold prepareGroupExtent
    refine .get_self (.ite (fun _ => .pure fun _ h => h) fun _ => ?_)
    rw [if_neg h.pending, require, if_pos ⟨h.fileOpen, hfits⟩]
    exact .pure fun _ h => h

end ThunderboltDb.Wal
