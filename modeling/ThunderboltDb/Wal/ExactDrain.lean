import ThunderboltDb.Wal.ExactFlush
import ThunderboltDb.Wal.TypedExactUndo

/-!
# Claimed typed exact records drain

Every step keeps what exact owners and reservations were promised (`promised_of_step`), as long as a rotation
of the live segment leaves the extent they need (`KeepsExtent`). In every state that such a run reaches,
flushing round after round makes all claimed records durable, and no flush fails on their extent
(`claimed_records_drain`).

`truncate_durable_segment_prefix` does not look at pending owners when it resets the preallocated length:
`rotation_strands_claimed_record` is a run after which a claimed record can never be flushed again.
-/

namespace ThunderboltDb.Wal

open Lib List Option WalSystem WalBuffer Triple

variable {ι : Type} {f : ℕ}

/-! ### Rotation of the live segment -/

/-- The durable bytes of the segment that a rotation to `base` writes. -/
def rotatedBytes (w : WalState ι) (base : ℕ) : ℕ :=
  walSegmentMagic.length + spanBytes w.buffer.records base w.core.flushedRecords

section

variable (env : WalEnv ι)

/-- The extent that a rotation to `base` leaves holds what owners and live reservations were promised. -/
def KeepsExtent (s : WalSystem ι) (base : ℕ) : Prop :=
  (∀ wire ∈ s.wal.buffer.exactTypedWireRecords,
    rotatedBytes s.wal base + spanBytes s.wal.buffer.records s.wal.core.flushedRecords
      (wire.recordIndex + 1) ≤ max (rotatedBytes s.wal base) env.walPreallocChunkBytes) ∧
  (∀ r ∈ s.reservations, Live s.wal.exactView r →
    rotatedBytes s.wal base + spanBytes s.wal.buffer.records s.wal.core.flushedRecords
      s.wal.buffer.records.length + r.expectedSerializedLen ≤
        max (rotatedBytes s.wal base) env.walPreallocChunkBytes)

/-- The view behind a rotation: only the file and its counters changed. -/
structure Rotated (durable prealloc : ℕ) (x x' : ExactView) : Prop where
  records_eq : x'.log.records = x.log.records
  wires_eq : x'.log.wires = x.log.wires
  flushed_eq : x'.log.flushed = x.log.flushed
  tentatives_eq : x'.tentatives = x.tentatives
  generation_eq : x'.generation = x.generation
  slots_eq : x'.slots = x.slots
  fileOpen : x'.log.fileOpen = true
  durable_eq : x'.log.durable = durable
  prealloc_eq : x'.log.prealloc = prealloc

def ExactView.withoutSegment (x : ExactView) : ExactView := { x with log := { x.log with segment := none } }

theorem frames_replaceSegment [DecidableEq ι] (io : SegmentIo) (retained : List WalRecord)
    (durableBytes preallocTo : ℕ) : Frames (fun w : WalState ι => w.exactView.withoutSegment)
      (replaceSegment env io retained durableBytes preallocTo) := by
  have hreq : ∀ (c : Prop) [Decidable c] (message : String),
      Frames (fun w : WalState ι => w.exactView.withoutSegment) (require c message : WalM ι Unit) :=
    fun c _ message => .ite (.pure _) (.throw _)
  unfold replaceSegment
  refine .bind ((framesExact_bindRetained env io.installIdentity retained).comp ExactView.withoutSegment)
    fun _ => .bind ?_ fun _ => ?_
  · unfold installSegment
    cases io.rewriteSegment with
    | ok => exact .modify fun _ => rfl
    | fail n => exact .bind (.modify fun _ => rfl) fun _ => .throw _
  · refine .bind (hreq _ _) fun _ => .bind (hreq _ _) fun _ => ?_
    exact .bind (.modify fun _ => rfl) fun _ => hreq _ _

/-- A rotation to `base` leaves the owners alone and resets the extent. -/
def RotatesTo (base : ℕ) (w w' : WalState ι) : Prop :=
  Rotated (rotatedBytes w base) (max (rotatedBytes w base) env.walPreallocChunkBytes) w.exactView w'.exactView

/-- A rotation succeeds, fails before it did anything, or poisons the core. -/
theorem triple_rotation_outcome [DecidableEq ι] (io : SegmentIo) (base : ℕ) (w : WalState ι) :
    Triple (fun w' => w' = w) (truncateDurableSegmentPrefix env io base) (fun _ => RotatesTo env base w)
      (fun _ w' => w' = w ∨ Poisoned w' ∨ RotatesTo env base w w') := by
  unfold truncateDurableSegmentPrefix
  refine .get_self ?_
  dsimp only
  refine .ite (fun _ => .throw fun _ => .inl) fun _ => .ite (fun _ => .throw fun _ => .inl) fun _ => ?_
  refine .ite (fun _ => .throw fun _ => .inl) fun _ => .ite (fun _ => .throw fun _ => .inl) fun _ => ?_
  split
  · exact .throw fun _ => .inl
  have hbytes : walSegmentMagic.length + (((w.buffer.records.take w.core.flushedRecords).drop base).map
      encodedRecordLen).sum = rotatedBytes w base := by
    rw [sum_encodedRecordLen]
    rfl
  rw [hbytes]
  refine .bind (Q := fun _ w' => w'.exactView.withoutSegment =
    { w.exactView.withoutSegment with log := { w.exactView.withoutSegment.log with fileOpen := false } })
    (modify fun w' h => by rw [h]; rfl) fun _ => ?_
  refine .bind (onError ((frames_replaceSegment env io _ _ _ _).conseq (fun _ h => h)
    (fun _ _ h => h) fun _ _ _ => .inr (.inl (.inl (by simp))))) fun _ => ?_
  refine .bind (Q := fun _ => RotatesTo env base w) (modify fun w' h => ?_) fun _ => ?_
  · exact ⟨congrArg (·.log.records) h, congrArg (·.log.wires) h, congrArg (·.log.flushed) h,
      congrArg (·.tentatives) h, congrArg (·.generation) h, congrArg (·.slots) h, rfl, rfl, rfl⟩
  · exact ((framesExact_recordTailOffset io.recordTail).triple fun y => Rotated (rotatedBytes w base)
      (max (rotatedBytes w base) env.walPreallocChunkBytes) w.exactView y).conseq (fun _ h => h)
      (fun _ _ h => h) fun _ _ h => .inr (.inr h)

variable {s : WalSystem ι} {w : WalState ι}

/-- A rotation that leaves the extent keeps the promises. -/
theorem RotatesTo.promised {env : WalEnv ι} {base : ℕ} (h : RotatesTo env base s.wal w) (hs : Promised s)
    (hext : KeepsExtent env s base) :
    Promised { s with wal := w } := by
  have hprov : ∀ upTo extra, Provided s.wal.exactView.log upTo extra →
      rotatedBytes s.wal base + spanBytes s.wal.buffer.records s.wal.core.flushedRecords upTo + extra ≤
        max (rotatedBytes s.wal base) env.walPreallocChunkBytes → Provided w.exactView.log upTo extra := by
    intro upTo extra hp hfits
    refine ⟨h.fileOpen, ?_, ?_⟩
    · rw [h.durable_eq, h.prealloc_eq, h.records_eq, h.flushed_eq]
      exact hfits
    · rw [h.records_eq, h.flushed_eq]
      exact hp.bounded
  refine ⟨⟨?_, ?_, ?_, ?_, ?_⟩, fun r hr => ⟨?_, ?_, fun hlive => ?_⟩⟩
  · rw [h.wires_eq]
    exact hs.owners.front
  · rw [h.wires_eq, h.tentatives_eq]
    exact hs.owners.claimed
  · rw [h.wires_eq, h.records_eq]
    exact hs.owners.payload
  · rw [h.wires_eq]
    exact fun wire hwire => hprov _ _ (hs.owners.provided wire hwire) (hext.1 wire hwire)
  · rw [h.slots_eq]
    exact hs.owners.slots
  · rw [h.generation_eq]
    exact (hs.reservations r hr).generation_le
  · rw [h.generation_eq, h.tentatives_eq]
    exact (hs.reservations r hr).generation_lt
  · have hl : Live s.wal.exactView r := ⟨hlive.1, hlive.2.1, hlive.2.2.trans h.generation_eq⟩
    obtain ⟨hp, hmax⟩ := (hs.reservations r hr).provided hl
    rw [h.records_eq]
    exact ⟨hprov _ _ hp (hext.2 r hr hl), hmax⟩

/-! ### One step -/

theorem Grown.promised (h : Grown s.wal.exactView w.exactView)
    (hs : Promised s) : Promised { s with wal := w } :=
  ⟨h.exactInv hs.owners, fun r hr => h.reservationInv (hs.reservations r hr)⟩

theorem Promised.congr (hs : Promised s) (h : w.exactView = s.wal.exactView) : Promised { s with wal := w } :=
  Grown.promised (h ▸ .refl _) hs

theorem not_poisoned_of_view {w w' : WalState ι} (h : ¬ Poisoned w)
    (hp : w'.exactView.poisoned = w.exactView.poisoned)
    (hf : w'.exactView.fixedFault = w.exactView.fixedFault) : ¬ Poisoned w' := by
  rw [Poisoned, show w'.core.poisoned = _ from hp, show w'.core.fixedFault = _ from hf]
  exact h

theorem Promised.pushed (hs : Promised s) (hl : SysInv s) (r : WalRecord)
    (tail : CanonicalCatalogTailCache ι) :
    Promised { s with wal := { s.wal with buffer := s.wal.buffer.push r tail } } :=
  ⟨hs.owners.push hl r _, fun r hr => (hs.reservations r hr).bump rfl⟩

theorem append_eq {fl : Option FlushProgress} (h : LogInv fl f w.view) (r : WalRecord) :
    append r w = .ok () { w with buffer := w.buffer.push r .dirty } :=
  bind_of_ok (prune_eq h)

/-- The length of a rotation's new base. -/
def WalAction.rotation : WalAction ι → Option ℕ
  | .truncateDurableSegmentPrefix _ base => some base
  | _ => none

/-- A step on an unpoisoned core that does not truncate the tail; a rotation leaves the extent that owners and
live reservations need. -/
def Undisturbed (s : WalSystem ι) (a : WalAction ι) : Prop :=
  ¬ Poisoned s.wal ∧ a.cut = none ∧ ∀ base ∈ a.rotation, KeepsExtent env s base

end

section

variable [DecidableEq ι] (env : WalEnv ι) {s s' : WalSystem ι} {job : SerialFlushJob}

theorem promised_appendCanonical (prepared : PreparedCanonicalWalRecord ι) (hl : SysInv s)
    (hs : Promised s) (hstep : s.step env (.appendCanonical prepared) = some s') : Promised s' := by
  rw [step, call, appendCanonical, bind_of_ok (prune_eq hl)] at hstep
  split_ifs at hstep
  · cases hstep
  · obtain rfl := some.inj hstep
    exact hs.pushed hl _ _

theorem promised_reserve (io : SegmentIo) (prepared : PreparedCanonicalWalRecord ι) (hl : SysInv s)
    (hs : Promised s) (hstep : s.step env (.reserve io prepared) = some s') : Promised s' := by
  rw [step] at hstep
  rcases call_cases (triple_reserveTypedExactAppend env io prepared hs.owners) ⟨rfl, hl⟩ hstep with
    ⟨r, w, hnew, rfl⟩ | ⟨e, w, hg, rfl⟩
  · refine ⟨hnew.grown.exactInv hs.owners, fun r' hr' => ?_⟩
    rcases mem_append.mp hr' with hr' | hr'
    · exact hnew.grown.reservationInv (hs.reservations r' hr')
    · rw [mem_singleton.mp hr']
      exact hnew.reservationInv
  · exact hg.promised hs

theorem promised_tentative (i : ℕ) (hl : SysInv s) (hs : Promised s)
    (hstep : s.step env (.tentative i) = some s') : Promised s' := by
  obtain ⟨r, hr, w, r', rfl, happ | ⟨e, hview, hsame⟩⟩ := callReservation_cases (P := fun _ => True)
    (fun r => (triple_tentative_outcome s.wal r).conseq (fun _ h => h.1) (fun _ _ h => h) fun _ _ h => h)
    (fun _ _ => trivial) hstep
  · obtain ⟨record, credit, -, hpush⟩ := happ.pushed
    refine ⟨happ.exactInv hs.owners hl (hs.reservations r hr), fun q hq => ?_⟩
    have hgen : w.exactView.generation = s.wal.exactView.generation + 1 := by
      rw [show w.exactView = _ from hpush]
      rfl
    rcases mem_or_eq_of_mem_set hq with hq | hq
    · exact (hs.reservations q hq).bump hgen
    · -- the consumed reservation is no longer prepared
      rw [hq]
      exact ⟨fun h => absurd h happ.state_ne, fun h => absurd h happ.state_ne,
        fun h => absurd h.1 happ.state_ne⟩
  · have hs' := hs.congr hview
    refine ⟨hs'.owners, fun q hq => ?_⟩
    rcases mem_or_eq_of_mem_set hq with hq | rfl
    · exact hs'.reservations q hq
    · exact (hs'.reservations r hr).same hsame

theorem promised_rollback (i : ℕ) (hl : SysInv s) (hs : Promised s)
    (hstep : s.step env (.rollback i) = some s') : Promised s' := by
  obtain ⟨r, hr, w, r', rfl, hout⟩ := callReservation_cases (P := fun _ => True)
    (fun r => (triple_rollback_outcome s.wal r).conseq (fun _ h => h.1) (fun _ _ h => h) fun _ _ h => h)
    (fun _ _ => trivial) hstep
  rcases hout.elim id fun ⟨_, h⟩ => .inl h with heq | hroll
  · obtain ⟨rfl, rfl⟩ := Prod.mk.inj heq
    refine ⟨hs.owners, fun q hq => ?_⟩
    rcases mem_or_eq_of_mem_set hq with hq | rfl
    · exact hs.reservations q hq
    · exact hs.reservations q hr
  · obtain ⟨wire, hlast, hidx⟩ := hroll.last
    have hpop := hroll.popped
    refine ⟨?_, fun q hq => ?_⟩
    · show ExactInv s.flight w.exactView
      rw [hpop]
      exact hs.owners.pop hl hlast hidx
    · show ReservationInv w.exactView q
      rcases mem_or_eq_of_mem_set hq with hq | hq
      · exact (hs.reservations q hq).bump (by rw [hpop]; rfl)
      · rw [hq]
        refine ⟨fun _ => hroll.generation_eq.le, fun _ hne => ?_, fun h => absurd hroll.authority_eq h.2.1⟩
        rw [hpop] at hne
        exact absurd rfl hne

theorem promised_dropReservation (i : ℕ) (hs : Promised s)
    (hstep : s.step env (.dropReservation i) = some s') : Promised s' := by
  obtain ⟨r, -, hstep⟩ := reservation_of_step hstep
  obtain rfl := some.inj hstep
  exact ⟨hs.owners, fun q hq => hs.reservations q (mem_of_mem_eraseIdx hq)⟩

theorem promised_claim (i : ℕ) (hs : Promised s) (hstep : s.step env (.claim i) = some s') : Promised s' := by
  obtain ⟨r, -, hstep⟩ := reservation_of_step hstep
  obtain ⟨s₁, hs₁, hdrop⟩ := bind_eq_some_iff.mp hstep
  have hprom : Promised s₁ ∧ s₁.reservations = s.reservations := by
    rcases call_cases (triple_claim_outcome s.wal r) rfl hs₁ with ⟨_, w, hw, rfl⟩ | ⟨_, w, rfl, rfl⟩
    · exact ⟨⟨hw.exactInv hs.owners, fun q hq => hw.reservationInv (hs.reservations q hq)⟩, rfl⟩
    · exact ⟨hs, rfl⟩
  obtain rfl := some.inj hdrop
  exact ⟨hprom.1.owners, fun q hq => hprom.1.reservations q (mem_of_mem_eraseIdx hq)⟩

/-- The owners of a handed-off group are gone; the others keep what they were promised. -/
theorem ExactInv.handedOff {x : ExactView} (h : ExactInv none x) (hzero : x.tentatives = 0)
    (hslot : job.group.slot = 0) :
    ExactInv (some ⟨job, 0, false⟩) (x.handedOff job.targetRecords) := by
  have hsub : ∀ wire ∈ (x.handedOff job.targetRecords).log.wires, wire ∈ x.log.wires :=
    fun wire hwire => (dropWhile_sublist _).subset hwire
  refine ⟨?_, ?_, ?_, ?_, rfl, hslot⟩
  · exact fun wire hwire => h.claimed hzero wire (hsub wire (mem_of_mem_dropLast hwire))
  · exact fun _ wire hwire => h.claimed hzero wire (hsub wire hwire)
  · exact fun wire hwire => h.payload wire (hsub wire hwire)
  · intro wire hwire
    obtain ⟨ho, hf, hb⟩ := h.provided wire (hsub wire hwire)
    exact ⟨ho, hf, hb⟩

theorem promised_beginGroupFlush (io : SegmentIo) (hl : SysInv s) (hs : Promised s)
    (hstep : s.step env (.beginGroupFlush io) = some s') : Promised s' := by
  rw [step] at hstep
  obtain ⟨wal, flight, reservations⟩ := s
  cases flight with
  | none =>
    have hown : ExactInv none wal.exactView := hs.owners
    rcases call_cases (triple_beginGroupFlush_exact env io hown hl) rfl hstep with
      ⟨r, w, hw, rfl⟩ | ⟨e, w, hw, rfl⟩
    · cases r with
      | clean n | busy => exact Grown.promised hw hs
      | job job =>
        obtain ⟨hslot, hzero, y, hg, hview⟩ := hw
        refine ⟨?_, fun q hq => ?_⟩
        · show ExactInv _ w.exactView
          rw [hview]
          exact (hg.exactInv hown).handedOff (hg.tentatives_eq.trans hzero) hslot
        · show ReservationInv w.exactView q
          rw [hview]
          have hq' := hg.reservationInv (hs.reservations q hq)
          refine ⟨hq'.generation_le, hq'.generation_lt, fun hlive => ?_⟩
          obtain ⟨⟨ho, hf, hb⟩, hmax⟩ := hq'.provided hlive
          exact ⟨⟨ho, hf, hb⟩, hmax⟩
    · rcases hw with ⟨message, hp⟩ | hg
      · cases hp
      · exact hg.promised hs
  | some p =>
    rcases call_cases (triple_beginGroupFlush_inFlight env io (hl.log rfl)) rfl hstep with
      ⟨r, w, ⟨hr, hview⟩, rfl⟩ | ⟨e, w, hview, rfl⟩
    · cases r with
      | job job => exact absurd rfl (hr job)
      | clean n | busy => exact hs.congr hview
    · exact hs.congr hview

theorem promised_jobWrite (n : ℕ) (hs : Promised s) (hstep : s.step env (.jobWrite n) = some s') : Promised s' := by
  obtain ⟨wal, _ | p, reservations⟩ := s
  · cases hstep
  · obtain ⟨-, heq⟩ := ite_none_right_eq_some.mp hstep
    obtain rfl := some.inj heq
    have hg : Grown wal.exactView (jobWrite ⟨wal, some p, reservations⟩ p n).wal.exactView :=
      ⟨rfl, rfl, rfl, rfl, rfl, rfl, rfl, rfl, rfl, fun ho => ⟨ho, rfl, le_rfl⟩⟩
    have hown := hg.exactInv hs.owners
    exact ⟨{ hown with slots := hown.slots }, fun q hq => hg.reservationInv (hs.reservations q hq)⟩

theorem promised_jobSync (hs : Promised s) (hstep : s.step env .jobSync = some s') : Promised s' := by
  obtain ⟨wal, _ | p, reservations⟩ := s
  · cases hstep
  · obtain ⟨-, heq⟩ := ite_none_right_eq_some.mp hstep
    obtain rfl := some.inj heq
    exact ⟨{ hs.owners with slots := hs.owners.slots }, hs.reservations⟩

def ExactView.committed (x : ExactView) (job : SerialFlushJob) : ExactView :=
  { x with
    log := { x.log with
      durable := job.offset + job.group.wireBytes, flushed := job.targetRecords, ioInFlight := false }
    slots := x.slots.set job.group.slot .idle }

variable {p : FlushProgress}

omit [DecidableEq ι] in
theorem triple_commit_exact {w : WalState ι} (hj : JobInv p w.view) :
    Triple (fun w' => w' = w) (p.job.commit (.ok ()) : WalM ι ℕ)
      (fun _ w' => w'.exactView = w.exactView.committed p.job) (fun _ _ => False) := by
  have hadvance : Triple (fun w' => w' = w) (advanceDurable p.job : WalM ι ℕ)
      (fun _ w' => w'.exactView = w.exactView.committed p.job) (fun _ _ => False) := by
    rintro w' rfl
    rfl
  refine .ite (fun _ => .get_self ?_) fun _ => .get_self ?_
  · rw [if_pos hj.frontierHolds]
    exact hadvance
  · dsimp only
    rw [if_pos hj.frontierHolds]
    exact hadvance

omit [DecidableEq ι] in
/-- Behind a commit the extent of what remains is provided as before. -/
theorem promised_of_committed (hfl : s.flight = some p) (hl : SysInv s)
    (hs : Promised s) {w : WalState ι} (hview : w.exactView = s.wal.exactView.committed p.job) :
    Promised { s with wal := w, flight := none } := by
  have hj := hl.job hfl
  replace hl := hl.log hfl
  obtain ⟨hfront, hclaimed, hpayload, hprov, hslots, hslot⟩ := hfl ▸ hs.owners
  have hbytes : p.job.offset + p.job.group.wireBytes =
      s.wal.view.durable + spanBytes s.wal.view.records s.wal.view.flushed p.job.targetRecords := by
    rw [hj.offset_eq, hj.wireBytes_eq, hj.bytes_eq]
    rfl
  have hcommit : ∀ upTo extra, Provided s.wal.view upTo extra → p.job.targetRecords ≤ upTo →
      upTo ≤ s.wal.view.records.length → Provided (s.wal.exactView.committed p.job).log upTo extra := by
    intro upTo extra hp hlo hhi
    rw [ExactView.committed, hbytes]
    exact hp.commit (le_of_lt hj.flushed_lt) hlo hhi
  refine ⟨?_, fun q hq => ?_⟩
  · show ExactInv none w.exactView
    rw [hview]
    refine ⟨hfront, hclaimed, hpayload, fun wire hwire => ?_, ?_⟩
    · have hlo : p.job.targetRecords ≤ wire.recordIndex := hl.wires.lower wire hwire
      exact hcommit _ _ (hprov wire hwire) (Nat.le_succ_of_le hlo) (hl.wires.upper wire hwire)
    · show s.wal.exactView.slots.set p.job.group.slot .idle = [.idle, .idle]
      rw [hslots, hslot]
      rfl
  · show ReservationInv w.exactView q
    rw [hview]
    have hq' := hs.reservations q hq
    refine ⟨hq'.generation_le, hq'.generation_lt, fun hlive => ?_⟩
    obtain ⟨hp, hmax⟩ := hq'.provided hlive
    exact ⟨hcommit _ _ hp hj.target_le le_rfl, hmax⟩

theorem promised_jobCommit (hl : SysInv s) (hs : Promised s) (hstep : s.step env .jobCommit = some s') :
    Promised s' := by
  obtain ⟨wal, _ | p, reservations⟩ := s
  · cases hstep
  · obtain ⟨-, hstep⟩ := ite_none_right_eq_some.mp hstep
    obtain ⟨n, w, hres, hview⟩ := (triple_commit_exact (hl.job rfl)).exists_ok rfl
    rw [endJob, call, hres] at hstep
    obtain rfl := some.inj hstep
    exact promised_of_committed rfl hl hs hview

theorem promised_rotation (io : SegmentIo) (base : ℕ) (hs : Promised s) (hext : KeepsExtent env s base)
    (hstep : s.step env (.truncateDurableSegmentPrefix io base) = some s') :
    Poisoned s'.wal ∨ Promised s' := by
  rw [step] at hstep
  rcases call_cases (triple_rotation_outcome env io base s.wal) rfl hstep with
    ⟨_, w, hrot, rfl⟩ | ⟨_, w, rfl | hpois | hrot, rfl⟩
  · exact .inr (hrot.promised hs hext)
  · exact .inr hs
  · exact .inl hpois
  · exact .inr (hrot.promised hs hext)

/-- **One step.**  Every call and every I/O step keeps the promises or poisons the core. -/
theorem promised_of_step (a : WalAction ι) (hl : SysInv s) (hs : Promised s)
    (hok : Undisturbed env s a) (hstep : s.step env a = some s') : Poisoned s'.wal ∨ Promised s' := by
  cases a with
  | append r =>
    rw [step, call, append_eq hl r] at hstep
    obtain rfl := some.inj hstep
    exact .inr (hs.pushed hl r _)
  | appendCanonical prepared => exact .inr (promised_appendCanonical env prepared hl hs hstep)
  | reserve io prepared => exact .inr (promised_reserve env io prepared hl hs hstep)
  | tentative i => exact .inr (promised_tentative env i hl hs hstep)
  | rollback i => exact .inr (promised_rollback env i hl hs hstep)
  | claim i => exact .inr (promised_claim env i hs hstep)
  | dropReservation i => exact .inr (promised_dropReservation env i hs hstep)
  | beginGroupFlush io => exact .inr (promised_beginGroupFlush env io hl hs hstep)
  | jobWrite n => exact .inr (promised_jobWrite env n hs hstep)
  | jobSync => exact .inr (promised_jobSync env hs hstep)
  | jobCommit => exact .inr (promised_jobCommit env hl hs hstep)
  | jobFail stage raw => exact .inl (poisoned_of_jobFail env stage raw hstep)
  | jobAbandon => exact .inl (poisoned_of_jobAbandon env hstep)
  | truncate io len => cases hok.2.1
  | truncateDurableSegmentPrefix io base => exact promised_rotation env io base hs (hok.2.2 base rfl) hstep
  | failNextFlush =>
    obtain rfl := some.inj hstep
    exact .inr ⟨hs.owners, hs.reservations⟩

/-! ### Runs -/

omit [DecidableEq ι] in
theorem promised_of_init (h : WalInit env s) : Promised s := by
  have hnil : ∀ x : ExactView, x.log.wires = [] → x.slots = [.idle, .idle] → ExactInv none x := by
    intro x hw hslots
    refine ⟨?_, ?_, ?_, ?_, hslots⟩ <;> simp [hw]
  cases h with
  | fresh ownerId path identity disk | recovered ownerId path records recovery identity disk hrec hsuffix =>
    exact ⟨hnil _ rfl rfl, fun _ h => absurd h not_mem_nil⟩

theorem promised_of_reachable (h : (walSystem env).ReachableVia (Undisturbed env) s)
    (hp : ¬ Poisoned s.wal) : SysInv s ∧ Promised s := by
  have hinv : Poisoned s.wal ∨ (SysInv s ∧ Promised s) := by
    refine h.invariant (P := fun s => Poisoned s.wal ∨ (SysInv s ∧ Promised s))
      (fun s hs => .inr ⟨sysInv_of_init env hs, promised_of_init env hs⟩) ?_
    intro s a s' hs hok hstep
    obtain ⟨hl, hs⟩ := hs.resolve_left hok.1
    have hspare : SparesFlight s a := by
      intro len hlen
      rw [hok.2.1] at hlen
      cases hlen
    rcases stepOutcome_of_step env a hl hspare hstep with hpois | ⟨hl', -⟩
    · exact .inl hpois
    · rcases promised_of_step env a hl hs hok hstep with hpois | hs'
      · exact .inl hpois
      · exact .inr ⟨hl', hs'⟩
  exact hinv.resolve_left hp

/-! ### One round of flushing -/

/-- Write, sync and commit the job in flight, if there is one. -/
def WalSystem.finishJob (s : WalSystem ι) : Option (WalSystem ι) :=
  match s.flight with
  | none => some s
  | some p => (s.step env (.jobWrite p.job.group.wireBytes)).bind fun s₁ =>
      (s₁.step env .jobSync).bind fun s₂ => s₂.step env .jobCommit

/-- Call `begin_group_flush` and commit its job. -/
def WalSystem.flushRound (s : WalSystem ι) : Option (WalSystem ι) :=
  (s.step env (.beginGroupFlush {})).bind fun s₁ => s₁.finishJob env

def WalSystem.flushRounds : ℕ → WalSystem ι → Option (WalSystem ι)
  | 0, s => some s
  | n + 1, s => (s.flushRound env).bind fun s₁ => flushRounds n s₁

/-- A state between two rounds: no job in flight and no unclaimed tail. -/
structure Settled (s : WalSystem ι) : Prop where
  log : SysInv s
  promised : Promised s
  flight_eq : s.flight = none
  tentatives_eq : s.wal.buffer.typedExactTentativeCount = 0
  unpoisoned : ¬ Poisoned s.wal

omit [DecidableEq ι] in
theorem JobInv.wireBytes_pos {v : LogView} (h : JobInv p v) : 0 < p.job.group.wireBytes := by
  have hlt : v.flushed < v.records.length := lt_of_lt_of_le h.flushed_lt h.target_le
  have hone := spanBytes_succ (le_refl v.flushed) (getElem?_eq_getElem hlt)
  have hmono := spanBytes_mono (Nat.le_succ v.flushed) h.flushed_lt h.target_le
  have hbytes : p.job.group.wireBytes = spanBytes v.records v.flushed p.job.targetRecords := by
    rw [h.wireBytes_eq, h.bytes_eq]
    rfl
  have hlen : walRecordHeaderLen ≤ encodedRecordLen v.records[v.flushed] := Nat.le_add_right _ _
  have hpos : 0 < walRecordHeaderLen := by decide
  rw [hbytes]
  exact lt_of_lt_of_le (by rw [Nat.succ_eq_add_one, hone]; omega) hmono

/-- A new job runs to its commit, and the watermark moves to its target. -/
theorem finishJob_total (hl : SysInv s) (hs : Promised s)
    (hfl : s.flight = some ⟨job, 0, false⟩) (hpois : ¬ Poisoned s.wal) :
    ∃ w, s.finishJob env = some { s with wal := w, flight := none } ∧
      SysInv { s with wal := w, flight := none } ∧ Promised { s with wal := w, flight := none } ∧
      w.exactView.withoutSegment = (s.wal.exactView.committed job).withoutSegment := by
  have hj := hl.job hfl
  -- the three steps, with the invariant of the state behind each
  let s₁ := s.jobWrite ⟨job, 0, false⟩ job.group.wireBytes
  have h₁ : s.step env (.jobWrite job.group.wireBytes) = some s₁ := by
    rw [step, hfl]
    exact if_pos ⟨rfl, hj.wireBytes_pos, (Nat.zero_add _).le⟩
  have hl₁ : SysInv s₁ := ((stepOutcome_jobWrite env _ hl h₁).resolve_left hpois).1
  have hs₁ := promised_jobWrite env _ hs h₁
  let s₂ : WalSystem ι := { s₁ with flight := some ⟨job, job.group.wireBytes, true⟩ }
  have h₂ : s₁.step env .jobSync = some s₂ := by
    show (if false = false ∧ 0 + job.group.wireBytes = job.group.wireBytes then
      some { s₁ with flight := some ⟨job, 0 + job.group.wireBytes, true⟩ } else none) = _
    rw [if_pos ⟨rfl, Nat.zero_add _⟩, Nat.zero_add]
  have hl₂ : SysInv s₂ := ((stepOutcome_jobSync env hl₁ h₂).resolve_left hpois).1
  have hs₂ := promised_jobSync env hs₁ h₂
  have hj₂ : JobInv ⟨job, job.group.wireBytes, true⟩ s₂.wal.view := hl₂.flight
  obtain ⟨n, w, hres, hview⟩ := (triple_commit_exact hj₂).exists_ok (s := s₂.wal) rfl
  have h₃ : s₂.step env .jobCommit = some { s with wal := w, flight := none } := by
    show (s₂.endJob (job.commit (.ok ()))) = _
    rw [endJob, call, hres]
    rfl
  have hview' : w.exactView = s₁.wal.exactView.committed job := hview
  have hl₃ : SysInv { s with wal := w, flight := none } := by
    refine ((stepOutcome_jobCommit env hl₂ h₃).resolve_left ?_).1
    exact not_poisoned_of_view hpois (congrArg (·.poisoned) hview') (congrArg (·.fixedFault) hview')
  refine ⟨w, ?_, hl₃, promised_jobCommit env hl₂ hs₂ h₃, ?_⟩
  · rw [finishJob, hfl]
    show (s.step env (.jobWrite job.group.wireBytes)).bind _ = _
    rw [h₁]
    show (s₁.step env .jobSync).bind _ = _
    rw [h₂]
    exact h₃
  · rw [hview']
    rfl

/-- What remains to be flushed; an armed test hook costs one more round. -/
def WalSystem.remaining (s : WalSystem ι) : ℕ :=
  2 * (s.wal.buffer.records.length - s.wal.core.flushedRecords) + if s.wal.buffer.failNextFlush then 1 else 0

/-- What a round leaves: the log as it was, with less to flush. -/
structure RoundOutcome (s s' : WalSystem ι) : Prop where
  settled : Settled s'
  records_eq : s'.wal.buffer.records = s.wal.buffer.records
  flushed_le : s.wal.core.flushedRecords ≤ s'.wal.core.flushedRecords
  owners : ∀ wire ∈ s.wal.buffer.exactTypedWireRecords,
    wire.recordIndex < s'.wal.core.flushedRecords ∨ wire ∈ s'.wal.buffer.exactTypedWireRecords
  remaining_lt : s'.remaining < s.remaining

/-- **One round.**  With a claimed owner pending, a round succeeds and makes progress. -/
theorem flushRound_total (hs : Settled s) (hpend : s.wal.buffer.exactTypedWireRecords ≠ []) :
    ∃ s', s.flushRound env = some s' ∧ RoundOutcome s s' := by
  have hlog := hs.log.log hs.flight_eq
  have hown : ExactInv none s.wal.exactView := hs.flight_eq ▸ hs.promised.owners
  have hp : Pending s.wal.core.flushedRecords s.wal := ⟨hown, hlog, hs.tentatives_eq, hs.unpoisoned, hpend⟩
  have hbegin := triple_beginGroupFlush_pending env {} hp s.wal rfl
  have hexact := triple_beginGroupFlush_exact env {} hown hlog s.wal rfl
  cases hres : beginGroupFlush env {} s.wal with
  | error e w =>
    -- the armed hook: nothing changed but the hook
    rw [hres] at hbegin
    obtain ⟨rfl, harmed, rfl⟩ := hbegin
    refine ⟨{ s with wal := { s.wal with buffer := { s.wal.buffer with failNextFlush := false } } }, ?_, ?_⟩
    · rw [flushRound, step, call, hres]
      show finishJob env _ = _
      rw [finishJob, hs.flight_eq]
    · refine ⟨⟨hs.log, ⟨hs.promised.owners, hs.promised.reservations⟩, hs.flight_eq, hs.tentatives_eq,
        hs.unpoisoned⟩, rfl, le_rfl, fun _ h => .inr h, ?_⟩
      simp only [remaining, harmed, if_true, Bool.false_eq_true, if_false]
      omega
  | ok r w =>
    rw [hres] at hbegin hexact
    obtain ⟨job, rfl⟩ := hbegin
    obtain ⟨-, hzero, y, hg, hview⟩ := hexact
    let s₁ : WalSystem ι := { s with wal := w, flight := some ⟨job, 0, false⟩ }
    have h₁ : s.step env (.beginGroupFlush {}) = some s₁ := by
      rw [step, call, hres]
    have hpois₁ : ¬ Poisoned w := not_poisoned_of_view hs.unpoisoned
      ((congrArg (·.poisoned) hview).trans hg.poisoned_eq)
      ((congrArg (·.fixedFault) hview).trans hg.fixedFault_eq)
    have hl₁ : SysInv s₁ := ((stepOutcome_beginGroupFlush env {} hs.log h₁).resolve_left hpois₁).1
    have hs₁ := promised_beginGroupFlush env {} hs.log hs.promised h₁
    obtain ⟨w', hfin, hl', hs', hview'⟩ := finishJob_total env hl₁ hs₁ rfl hpois₁
    have hj : JobInv ⟨job, 0, false⟩ w.view := hl₁.flight
    -- the view behind the round
    have hrec₁ : w.buffer.records = s.wal.buffer.records := (congrArg (·.log.records) hview).trans hg.records_eq
    have hrec : w'.buffer.records = s.wal.buffer.records := (congrArg (·.log.records) hview').trans hrec₁
    have hflu : w'.core.flushedRecords = job.targetRecords := congrArg (·.log.flushed) hview'
    have hwir : w'.buffer.exactTypedWireRecords = s.wal.buffer.exactTypedWireRecords.dropWhile
        fun wire => wire.recordIndex < job.targetRecords :=
      (congrArg (·.log.wires) hview').trans
        ((congrArg (·.log.wires) hview).trans (congrArg (dropWhile _) hg.wires_eq))
    have hlt : s.wal.core.flushedRecords < job.targetRecords :=
      ((congrArg (·.log.flushed) hview).trans hg.flushed_eq).ge.trans_lt hj.flushed_lt
    have hle : job.targetRecords ≤ s.wal.buffer.records.length := hrec₁ ▸ hj.target_le
    refine ⟨{ s with wal := w', flight := none }, ?_, ⟨hl', hs', rfl, ?_, ?_⟩, hrec, ?_, ?_, ?_⟩
    · rw [flushRound, h₁]
      exact hfin
    · exact (congrArg (·.tentatives) hview').trans
        ((congrArg (·.tentatives) hview).trans (hg.tentatives_eq.trans hzero))
    · exact not_poisoned_of_view hpois₁ (congrArg (·.poisoned) hview') (congrArg (·.fixedFault) hview')
    · exact hflu.symm ▸ hlt.le
    · intro wire hwire
      rw [hflu, hwir]
      by_cases hidx : wire.recordIndex < job.targetRecords
      · exact .inl hidx
      · right
        have hsplit := takeWhile_append_dropWhile
          (p := fun wire : ExactTypedWireRecord => decide (wire.recordIndex < job.targetRecords))
          (l := s.wal.buffer.exactTypedWireRecords)
        rw [← hsplit] at hwire
        refine (mem_append.mp hwire).resolve_left fun htake => hidx ?_
        have himp := mem_takeWhile_imp htake
        exact of_decide_eq_true himp
    · show 2 * (w'.buffer.records.length - w'.core.flushedRecords) + _ < 2 * _ + _
      rw [hrec, hflu]
      split <;> omega

/-- Rounds until no owner is pending. -/
theorem flushRounds_total (n : ℕ) (hs : Settled s) (hn : s.remaining ≤ n) :
    ∃ k s', s.flushRounds env k = some s' ∧ s'.flight = none ∧ s'.wal.buffer.records = s.wal.buffer.records ∧
      s.wal.core.flushedRecords ≤ s'.wal.core.flushedRecords ∧
      ∀ wire ∈ s.wal.buffer.exactTypedWireRecords, wire.recordIndex < s'.wal.core.flushedRecords := by
  induction n generalizing s with
  | zero =>
    by_cases hpend : s.wal.buffer.exactTypedWireRecords = []
    · exact ⟨0, s, rfl, hs.flight_eq, rfl, le_rfl, by rw [hpend]; simp⟩
    · obtain ⟨s', -, hout⟩ := flushRound_total env hs hpend
      have := hout.remaining_lt
      omega
  | succ n ih =>
    by_cases hpend : s.wal.buffer.exactTypedWireRecords = []
    · exact ⟨0, s, rfl, hs.flight_eq, rfl, le_rfl, by rw [hpend]; simp⟩
    · obtain ⟨s₁, hround, hout⟩ := flushRound_total env hs hpend
      have hlt := hout.remaining_lt
      obtain ⟨k, s', hk, hfl, hrec, hle, hdone⟩ := ih hout.settled (by omega)
      refine ⟨k + 1, s', ?_, hfl, hrec.trans hout.records_eq, le_trans hout.flushed_le hle, ?_⟩
      · rw [flushRounds, hround]
        exact hk
      · intro wire hwire
        rcases hout.owners wire hwire with hidx | hmem
        · exact lt_of_lt_of_le hidx hle
        · exact hdone wire hmem

/-! ### The result -/

/-- With an owner pending, a flush fails on nothing but an unclaimed tail or the test hook. -/
theorem beginGroupFlush_refuses (hl : SysInv s) (hs : Promised s) (hpois : ¬ Poisoned s.wal)
    (hpend : s.wal.buffer.exactTypedWireRecords ≠ []) {e : CallFailure} {w : WalState ι}
    (hres : beginGroupFlush env {} s.wal = .error e w) : e = unclaimedTail ∨ e = simulatedFailure := by
  by_cases hzero : s.wal.buffer.typedExactTentativeCount = 0
  · cases hfl : s.flight with
    | none =>
      have hbegin := triple_beginGroupFlush_pending env {}
        ⟨hfl ▸ hs.owners, hl.log hfl, hzero, hpois, hpend⟩ s.wal rfl
      rw [hres] at hbegin
      exact .inr hbegin.1
    | some p =>
      -- with a job in flight the flush reports that it is busy
      have hio : s.wal.core.ioInFlight = true := (hl.job hfl).inFlight
      have hfix : s.wal.core.fixedFault = none := not_not.mp fun hne => hpois (.inr hne)
      rw [beginGroupFlush_eq env {} hl, if_neg (not_not_intro hzero), if_pos (c := _ ∧ _) ⟨hfix, hio⟩] at hres
      split_ifs at hres
      exact .inr (EStateM.Result.error.inj hres).1.symm
  · -- the unclaimed tail is refused first
    rw [beginGroupFlush_eq env {} hl, if_pos hzero] at hres
    exact .inl (EStateM.Result.error.inj hres).1.symm

/-- **Claimed records drain.**  In every state that an undisturbed run reaches: with no job in flight and no
unclaimed tail, some number of rounds of `begin_group_flush` and commit makes every pending claimed record
durable; and while an owner is pending, `begin_group_flush` fails on nothing but an unclaimed tail or the
armed test hook, so never on the extent. -/
theorem claimed_records_drain (s : WalSystem ι)
    (hreach : (walSystem env).ReachableVia (Undisturbed env) s) (hpois : ¬ Poisoned s.wal) :
    (s.flight = none → s.wal.buffer.typedExactTentativeCount = 0 →
      ∃ n s', s.flushRounds env n = some s' ∧ s'.flight = none ∧ s'.wal.buffer.records = s.wal.buffer.records ∧
        ∀ wire ∈ s.wal.buffer.exactTypedWireRecords, wire.recordIndex < s'.wal.core.flushedRecords) ∧
    (s.wal.buffer.exactTypedWireRecords ≠ [] → ∀ e w, beginGroupFlush env {} s.wal = .error e w →
      e = unclaimedTail ∨ e = simulatedFailure) := by
  obtain ⟨hl, hs⟩ := promised_of_reachable env hreach hpois
  refine ⟨fun hfl hzero => ?_, fun hpend e w hres => beginGroupFlush_refuses env hl hs hpois hpend hres⟩
  obtain ⟨n, s', hrounds, hfl', hrec, -, hdone⟩ :=
    flushRounds_total env s.remaining ⟨hl, hs, hfl, hzero, hpois⟩ le_rfl
  exact ⟨n, s', hrounds, hfl', hrec, hdone⟩

end

instance (x : ExactView) (r : WalTypedExactAppendReservation ι) : Decidable (Live x r) :=
  inferInstanceAs (Decidable (_ ∧ _ ∧ _))

instance (env : WalEnv ι) (s : WalSystem ι) (base : ℕ) : Decidable (KeepsExtent env s base) :=
  inferInstanceAs (Decidable (_ ∧ _))

instance (env : WalEnv ι) (s : WalSystem ι) (a : WalAction ι) : Decidable (Undisturbed env s a) :=
  inferInstanceAs (Decidable (_ ∧ _ ∧ ∀ base ∈ a.rotation, _))

/-- A record reserved, appended and claimed on a fresh log drains, also behind a rotation. -/
theorem claimed_records_drain_rotated : ∃ (s : WalSystem Unit) (wire : ExactTypedWireRecord),
    wire ∈ s.wal.buffer.exactTypedWireRecords ∧ ∃ n s', s.flushRounds plainEnv n = some s' ∧
      wire.recordIndex < s'.wal.core.flushedRecords := by
  obtain ⟨s, hreach, hs⟩ := TransitionSystem.exists_reachable_of_runVia (Undisturbed plainEnv)
    [.reserve {} sealedRecord, .tentative 0, .claim 0, .truncateDurableSegmentPrefix {} 0]
    walInit_freshSystem
    (fun s => s.flight = none ∧ s.wal.buffer.typedExactTentativeCount = 0 ∧ ¬ Poisoned s.wal ∧
      s.wal.buffer.exactTypedWireRecords ≠ [])
    (by decide +kernel)
  obtain ⟨hfl, hzero, hpois, hpend⟩ := of_decide_eq_true hs
  obtain ⟨hdrain, -⟩ := claimed_records_drain plainEnv s hreach hpois
  obtain ⟨n, s', hrounds, -, -, hdone⟩ := hdrain hfl hzero
  obtain ⟨wire, hwire⟩ := exists_mem_of_ne_nil _ hpend
  exact ⟨s, wire, hwire, n, s', hrounds, hdone wire hwire⟩

/-! ### A rotation that strands a claimed record -/

section

variable {ι : Type} (env : WalEnv ι)

/-- Without I/O errors the creation of the file succeeds. -/
theorem triple_ensureCreated_ok (P : WalState ι → Prop) :
    Triple P (ensureCreated env {}) (fun _ _ => True) (fun _ _ => False) := by
  have hreq : ∀ (message : String), Triple (fun _ => True)
      (require (IoOutcome.ok = .ok) message : WalM ι Unit) (fun _ _ => True) (fun _ _ => False) :=
    fun message => .ite (fun _ => .pure fun _ _ => trivial) fun h => absurd rfl h
  have hmod : ∀ (g : WalState ι → WalState ι) (P : WalState ι → Prop), Triple P (modify g : WalM ι Unit)
      (fun _ _ => True) (fun _ _ => False) := fun g P => .modify fun _ _ => trivial
  unfold ensureCreated
  refine .get_bind fun w _ => .ite (fun _ => .pure fun _ _ => trivial) fun _ => ?_
  refine .bind (Q := fun _ _ => True) ?_ fun _ => .bind (hmod _ _) fun _ => ?_
  · unfold createSegmentFile
    refine .get_bind fun w _ => .bind (hmod _ _) fun _ => .bind (hreq _) fun _ => ?_
    refine .bind (hreq _) fun _ => .bind (Q := fun _ _ => True) ?_ fun _ => ?_
    · unfold writeMagicFile
      exact .get_bind fun w _ => hmod _ _
    · refine .bind (hreq _) fun _ => .bind (hreq _) fun _ => ?_
      exact .bind (hmod _ _) fun _ => hreq _
  · unfold recordTailOffset
    refine .get_bind fun w _ => .ite (fun _ => .pure fun _ _ => trivial) fun _ => ?_
    exact .bind (hmod _ _) fun _ => hmod _ _

theorem triple_ensurePreallocatedThrough_ok (writeEnd : ℕ) :
    Triple (fun w : WalState ι => w.core.fileOpen = true) (ensurePreallocatedThrough env .ok writeEnd)
      (fun _ _ => True) (fun _ _ => False) := by
  unfold ensurePreallocatedThrough
  refine .get_bind fun w hopen => .ite (fun _ => .pure fun _ _ => trivial) fun _ => ?_
  rw [if_neg (by simp [hopen])]
  refine .bind (Q := fun _ _ => True) (modify fun _ _ => trivial) fun _ => ?_
  refine .bind (Q := fun _ _ => True) ?_ fun _ => .modify fun _ _ => trivial
  exact .ite (fun _ => .pure fun _ _ => trivial) fun h => absurd rfl h

/-- A log that has flushed nothing, with buffer `b` and anchor `a`. -/
structure Unflushed (b : WalBuffer ι) (a : Except EngineError (Option ι)) (w : WalState ι) : Prop where
  buffer_eq : w.buffer = b
  anchor_eq : w.disk.anchor = a
  flushed_eq : w.core.flushedRecords = 0
  base_eq : w.core.segmentBaseRecords = 0
  inFlight_eq : w.core.ioInFlight = false
  poisoned_eq : w.core.poisoned = none
  fixedFault_eq : w.core.fixedFault = none
  log : LogInv none 0 w.view

variable {b : WalBuffer ι} {a : Except EngineError (Option ι)}

theorem Unflushed.not_poisoned {w : WalState ι} (h : Unflushed b a w) : ¬ Poisoned w := by
  rw [Poisoned, h.poisoned_eq, h.fixedFault_eq]
  simp

/-- The file of an unflushed log may change. -/
theorem Unflushed.of_frame {w w' : WalState ι}
    (h : Unflushed b a w) (hbuf : w'.buffer = w.buffer) (hanchor : w'.disk.anchor = w.disk.anchor)
    (hcore : w'.core.unfiled = w.core.unfiled) (hlog : LogInv none 0 w'.view) : Unflushed b a w' := by
  exact ⟨hbuf.trans h.buffer_eq, hanchor.trans h.anchor_eq, (congrArg (·.flushedRecords) hcore).trans h.flushed_eq,
    (congrArg (·.segmentBaseRecords) hcore).trans h.base_eq,
    (congrArg (·.ioInFlight) hcore).trans h.inFlight_eq, (congrArg (·.poisoned) hcore).trans h.poisoned_eq,
    (congrArg (·.fixedFault) hcore).trans h.fixedFault_eq, hlog⟩

/-- Without I/O errors an empty log admits a record of any length. -/
theorem triple_admitSerialExtent_ok (len : ℕ) (hb : b.records = []) :
    Triple (Unflushed b a) (admitSerialExtent env {} len) (fun _ => Unflushed b a) (fun _ _ => False) := by
  unfold admitSerialExtent
  refine .bind (Q := fun _ => Unflushed b a) ?_ fun _ => ?_
  · intro w hw
    rw [requireUnpoisoned_eq hw.not_poisoned]
    exact hw
  refine .bind (Q := fun _ w => Unflushed b a w ∧ w.core.fileOpen = true) ?_ fun _ => ?_
  · intro w hw
    have hok := triple_ensureCreated_ok env (Unflushed b a) w hw
    have hframe := frames_ensureCreated env {} _ w rfl
    have hlog := triple_ensureCreated env {} w hw.log
    cases hres : ensureCreated env {} w with
    | error e w' => rw [hres] at hok; exact hok
    | ok u w' =>
      rw [hres] at hframe hlog
      obtain ⟨hbuf, hrest⟩ := Prod.mk.inj hframe
      obtain ⟨hanchor, hcore⟩ := Prod.mk.inj hrest
      exact ⟨hw.of_frame hbuf hanchor hcore hlog.1, hlog.2⟩
  refine .get_bind fun w hw => ?_
  obtain ⟨hw, hopen⟩ := hw
  have hover : w.buffer.oversizedLegacy w.core.flushedRecords = none := by
    rw [oversizedLegacy, hw.buffer_eq, hb]
    simp
  rw [hover]
  refine .ite (fun _ => .pure fun w' h => h ▸ hw) fun _ => ?_
  rw [if_neg (by simp [hw.inFlight_eq])]
  generalize w.core.durableBytes + w.buffer.currentTailWireBytes w.core.flushedRecords + len = writeEnd
  intro w' h
  subst h
  have hok := triple_ensurePreallocatedThrough_ok env writeEnd w' hopen
  have hframe := frames_ensurePreallocatedThrough env .ok writeEnd _ w' rfl
  have hlog := triple_ensurePreallocatedThrough env .ok writeEnd w' ⟨hw.log, hopen⟩
  cases hres : ensurePreallocatedThrough env .ok writeEnd w' with
  | error e w'' => rw [hres] at hok; exact hok
  | ok u w'' =>
    rw [hres] at hframe hlog
    obtain ⟨hbuf, hrest⟩ := Prod.mk.inj hframe
    obtain ⟨hanchor, hcore⟩ := Prod.mk.inj hrest
    exact hw.of_frame hbuf hanchor (congrArg WalDurableState.unfiled hcore :) hlog.1

end

section

variable (r : WalRecord)

/-- A record sealed for the exact lifecycle. -/
def sealExact : PreparedCanonicalWalRecord Unit where
  record := r
  tail := ⟨(), 0, []⟩
  exact := some ⟨(), r.txnId, encodedRecord r⟩
  exact_serialized := by
    intro e he
    rw [Option.mem_some_iff] at he
    rw [← he]

/-- The buffer of a fresh log with one credit handed out. -/
def creditedBuffer (len : ℕ) : WalBuffer Unit :=
  { withDurableSegment 0 none with preparedGroupArena := ⟨[.idle, .idle], 0 + 1, 0 + len⟩ }

/-- A fresh log reserves any record that fits a group. -/
theorem triple_reserve_sealExact (hmax : encodedRecordLen r ≤ maxWalGroupWireBytes) :
    Triple (fun w => w = freshSystem.wal) (reserveTypedExactAppend plainEnv {} (sealExact r))
      (fun q w => Unflushed (creditedBuffer (encodedRecordLen r)) (.ok (some ())) w ∧
        tentativeDrifted w.buffer q = false ∧ w.buffer.durableIdentityBinding = q.priorDurableIdentityBinding)
      (fun _ _ => False) := by
  have hfresh : LogInv none 0 freshSystem.wal.view := sysInv_of_init plainEnv walInit_freshSystem
  have hlen : (encodedRecord r).length = encodedRecordLen r := length_encodedRecord r
  unfold reserveTypedExactAppend
  refine .bind (Q := fun _ w => w = freshSystem.wal) ?_ fun _ => .get_self ?_
  · rintro w rfl
    rw [prune_eq hfresh]
  rw [if_neg (show ¬ freshSystem.wal.buffer.typedExactTentativeCount ≠ 0 from not_not_intro rfl)]
  show Triple _ (reserveExact plainEnv {} (sealExact r) ⟨(), r.txnId, encodedRecord r⟩) _ _
  unfold reserveExact
  rw [if_neg (show ¬ r.txnId ≠ (sealExact r).record.txnId from not_not_intro rfl), hlen]
  refine .bind (Q := fun _ => Unflushed (creditedBuffer (encodedRecordLen r)) (.ok none)) ?_ fun _ => ?_
  · unfold reserveTypedExactCredit
    refine .get_self ?_
    rw [if_neg (not_lt.mpr hmax), if_neg]
    · refine .modify fun w hw => ?_
      subst hw
      exact ⟨rfl, rfl, rfl, rfl, rfl, rfl, rfl, hfresh⟩
    · rw [not_or]
      refine ⟨by decide, ?_⟩
      show ¬ maxWalGroupWireBytes * 2 < 0 + encodedRecordLen r
      omega
  refine .bind (Q := fun prior w => Unflushed (creditedBuffer (encodedRecordLen r)) (.ok (some ())) w ∧
    prior = ⟨none, 0⟩) (onError ?_) fun prior => ?_
  · unfold preflightTypedExactSerialAdmission
    refine .bind (triple_admitSerialExtent_ok plainEnv _ rfl) fun _ => ?_
    unfold preverifyTypedExactLineage
    refine .get_bind fun w hw => .bind (Q := fun _ w' => w' = w) ?_ fun _ => ?_
    · unfold verifyThrough
      refine .get_self ?_
      have hbind : w.buffer.durableIdentityBinding.verifiedRecords = w.buffer.records.length := by
        rw [hw.buffer_eq]
        rfl
      rw [if_pos hbind]
      exact .pure fun _ h => h
    refine .get_self ?_
    have hnone : w.buffer.durableIdentityBinding = ⟨none, 0⟩ := by
      rw [hw.buffer_eq]
      rfl
    rw [hnone]
    refine .bind (Q := fun _ => Unflushed (creditedBuffer (encodedRecordLen r)) (.ok (some ()))) ?_
      fun _ => .pure fun _ h => ⟨h, rfl⟩
    unfold checkOrInstallDurableIdentity
    refine .get_self ?_
    rw [hw.anchor_eq]
    refine .modify fun w' h => ?_
    subst h
    exact ⟨hw.buffer_eq, rfl, hw.flushed_eq, hw.base_eq, hw.inFlight_eq, hw.poisoned_eq, hw.fixedFault_eq, hw.log⟩
  · refine .get_bind fun w hw => .pure fun w' h => ?_
    subst h
    refine ⟨hw.1, ?_, ?_⟩
    · simp [tentativeDrifted, hw.1.buffer_eq, creditedBuffer, withDurableSegment]
    · rw [hw.2, hw.1.buffer_eq]
      rfl

/-- The owner of the record at position zero. -/
def firstOwner (state : ExactTypedWireState) : ExactTypedWireRecord :=
  ⟨0, r.payload, encodedRecord r, state, (encodedRecord r).length⟩

/-- The buffer with the record and its claimed owner. -/
def claimedBuffer : WalBuffer Unit :=
  { creditedBuffer (encodedRecordLen r) with
    records := [r]
    exactTypedWireRecords := [firstOwner r .claimedPending]
    highestClaimedTypedExactRecord := some 0
    generation := 1
    canonicalCatalogTail := .known 1 (some ⟨(), 0, []⟩)
    durableIdentityBinding := ⟨some (), 1⟩ }

/-- The I/O outcomes that an action brings along. -/
def WalAction.io {ι : Type} : WalAction ι → Option SegmentIo
  | .reserve io _ | .beginGroupFlush io | .truncate io _ | .truncateDurableSegmentPrefix io _ => some io
  | _ => none

/-- A step without I/O errors that does not truncate the tail. -/
def FaultFree {ι : Type} (s : WalSystem ι) (a : WalAction ι) : Prop :=
  ¬ Poisoned s.wal ∧ a.cut = none ∧ ∀ io ∈ a.io, io = {}

theorem sysInv_of_faultFree {ι : Type} [DecidableEq ι] (env : WalEnv ι) {s : WalSystem ι}
    (h : (walSystem env).ReachableVia FaultFree s) (hp : ¬ Poisoned s.wal) : SysInv s := by
  obtain ⟨s₀, h₀, hrun⟩ := h
  refine sysInv_of_reachable env ⟨s₀, h₀, hrun.mono fun s a hok => ⟨hok.1, fun len hlen => ?_⟩⟩ hp
  rw [hok.2.1] at hlen
  cases hlen

/-- Reserved, appended and claimed on a fresh log. -/
theorem exists_claimed (hmax : encodedRecordLen r ≤ maxWalGroupWireBytes) :
    ∃ s, (walSystem plainEnv).ReachableVia FaultFree s ∧ s.flight = none ∧
      Unflushed (claimedBuffer r) (.ok (some ())) s.wal := by
  obtain ⟨q, w, hres, hw, hdrift, hbind⟩ := (triple_reserve_sealExact r hmax).exists_ok rfl
  obtain ⟨exact, hq⟩ := exists_reserved hres
  have hexact : exact = ⟨(), r.txnId, encodedRecord r⟩ := (some.inj hq.exact_eq).symm
  have htent := tentative_of_reserved hq hdrift hbind
  obtain ⟨buffer, core, disk⟩ := w
  obtain rfl : buffer = creditedBuffer (encodedRecordLen r) := hw.buffer_eq
  subst hexact
  let s₁ : WalSystem Unit := ⟨⟨creditedBuffer (encodedRecordLen r), core, disk⟩, none, [q]⟩
  have h₁ : (walSystem plainEnv).step freshSystem (.reserve {} (sealExact r)) = some s₁ := by
    show step plainEnv freshSystem (.reserve {} (sealExact r)) = _
    rw [step, call, hres]
    rfl
  let w₂ : WalState Unit := ⟨(creditedBuffer (encodedRecordLen r)).pushTentative (sealExact r)
    ⟨(), r.txnId, encodedRecord r⟩ (encodedRecord r).length, core, disk⟩
  let q₂ := tentativeReservation s₁.wal q
  have h₂ : (walSystem plainEnv).step s₁ (.tentative 0) = some ⟨w₂, none, [q₂]⟩ := by
    show s₁.callReservation 0 appendTypedExactTentative = _
    rw [callReservation, show s₁.reservations[0]? = some q from rfl]
    dsimp only
    rw [htent]
    rfl
  have hclaim : claimTypedExactAppend q₂ w₂ = .ok 1 ⟨claimedBuffer r, core, disk⟩ := by
    have hsettle : settleDrifted w₂.buffer q₂ 0 1 = false := by
      simp only [tentativeDrifted, decide_eq_false_iff_not, not_or, not_not] at hdrift
      have howner : q.expectedOwnerId = 0 := hdrift.1.symm
      have hwires : q.expectedExactWireLen = 0 := hdrift.2.2.1.symm
      simp [settleDrifted, w₂, q₂, tentativeReservation, howner, hwires, pushTentative,
        push, creditedBuffer, withDurableSegment]
    show (if settleDrifted w₂.buffer q₂ 0 1 then _ else _ : WalM Unit ℕ) w₂ = _
    rw [hsettle]
    rfl
  have h₃ : (walSystem plainEnv).step ⟨w₂, none, [q₂]⟩ (.claim 0) =
      some ⟨⟨claimedBuffer r, core, disk⟩, none, []⟩ := by
    show (call ⟨w₂, none, [q₂]⟩ (claimTypedExactAppend q₂) fun _ s => s).bind _ = _
    rw [call, hclaim]
    rfl
  have hpois : ¬ Poisoned s₁.wal := hw.not_poisoned
  have hreach : (walSystem plainEnv).ReachableVia FaultFree ⟨⟨claimedBuffer r, core, disk⟩, none, []⟩ := by
    refine (((TransitionSystem.ReachableVia.of_init walInit_freshSystem).step ?_ h₁).step ?_ h₂).step ?_ h₃
    · exact ⟨by decide, rfl, fun io hio => (some.inj hio).symm⟩
    · exact ⟨hpois, rfl, fun _ hio => by cases hio⟩
    · exact ⟨hpois, rfl, fun _ hio => by cases hio⟩
  refine ⟨_, hreach, rfl, rfl, hw.anchor_eq, hw.flushed_eq, hw.base_eq, hw.inFlight_eq, hw.poisoned_eq,
    hw.fixedFault_eq, ?_⟩
  have hinv := sysInv_of_faultFree plainEnv hreach hpois
  rw [SysInv, show (core.flushedRecords) = 0 from hw.flushed_eq] at hinv
  exact hinv

/-- Without I/O errors a rotation of an unflushed log succeeds, and leaves one chunk of extent. -/
theorem triple_rotation_unflushed {b : WalBuffer Unit} (hb : b.durableIdentityBinding.identity = some ()) :
    Triple (Unflushed b (.ok (some ()))) (truncateDurableSegmentPrefix plainEnv {} 0)
      (fun _ w => w.buffer = b ∧ w.core.durableBytes = 10 ∧
        w.core.preallocBytes = plainEnv.walPreallocChunkBytes ∧ w.core.flushedRecords = 0 ∧
        ¬ Poisoned w) (fun _ _ => False) := by
  unfold truncateDurableSegmentPrefix
  refine .get_bind fun w hw => ?_
  rw [if_neg (by simp [hw.inFlight_eq]), if_neg (by simp [hw.fixedFault_eq]),
    if_neg (by simp), if_neg (by simp [hw.base_eq]), hw.buffer_eq, hb, hw.anchor_eq, hw.flushed_eq]
  simp only [map_some, requireDurableIdentity, if_true, take_zero, drop_nil, map_nil, sum_nil, Nat.add_zero]
  -- the state between the steps: the buffer, the anchor and the watermark stay
  let Between : Bool → WalState Unit → Prop := fun poisonable w' =>
    w'.buffer = b ∧ w'.disk.anchor = .ok (some ()) ∧ w'.core.flushedRecords = 0 ∧
      w'.core.fixedFault = none ∧ (poisonable = false → w'.core.poisoned = none)
  have hreq : ∀ message, Triple (Between true) (require (IoOutcome.ok = .ok) message : WalM Unit Unit)
      (fun _ => Between true) (fun _ _ => False) :=
    fun message => .ite (fun _ => .pure fun _ h => h) fun h => absurd rfl h
  refine .bind (Q := fun _ => Between true) (modify fun w' h => ?_) fun _ => ?_
  · subst h
    exact ⟨hw.buffer_eq, hw.anchor_eq, hw.flushed_eq, hw.fixedFault_eq, fun h => by cases h⟩
  refine .bind (Q := fun _ => Between true) (onError ?_) fun _ => ?_
  · unfold replaceSegment
    refine .bind (Q := fun _ => Between true) ?_ fun _ =>
      Triple.bind (Q := fun _ => Between true) (modify fun _ h => h) fun _ =>
      Triple.bind (hreq _) fun _ => .bind (hreq _) fun _ =>
      Triple.bind (Q := fun _ => Between true) (modify fun _ h => h) fun _ => hreq _
    unfold bindRetained
    refine .get_bind fun w' h' => ?_
    rw [h'.1, hb]
    refine .get_bind fun w'' h'' => ?_
    subst h''
    rw [if_pos rfl, h'.2.1]
    exact .pure fun _ h => h ▸ h'
  refine .bind (Q := fun _ w' => Between false w' ∧ w'.core.durableBytes = 10 ∧
    w'.core.preallocBytes = plainEnv.walPreallocChunkBytes) (modify fun w' h => ?_) fun _ => ?_
  · exact ⟨⟨h.1, h.2.1, h.2.2.1, h.2.2.2.1, fun _ => rfl⟩, rfl, rfl⟩
  · unfold recordTailOffset
    refine .get_bind fun w' h => ?_
    obtain ⟨⟨h₁, -, h₃, h₄, h₅⟩, hdur, hpre⟩ := h
    have hpois : ∀ w'' : WalState Unit, w''.core.poisoned = w'.core.poisoned →
        w''.core.fixedFault = w'.core.fixedFault → ¬ Poisoned w'' := by
      intro w'' hp hf
      rw [Poisoned, hp, hf, h₄, h₅ rfl]
      simp
    refine .ite (fun _ => .pure fun w'' h => ?_) fun _ => ?_
    · subst h
      exact ⟨h₁, hdur, hpre, h₃, hpois _ rfl rfl⟩
    · refine .bind (Q := fun _ w'' => w''.buffer = w'.buffer ∧ w''.core = w'.core)
        (modify fun w'' h => by subst h; exact ⟨rfl, rfl⟩) fun _ => .modify fun w'' h => ?_
      obtain ⟨hbuf, hcore⟩ := h
      rw [hcore]
      exact ⟨hbuf.trans h₁, hdur, hpre, h₃, hpois _ rfl rfl⟩

/-- The selection over the one claimed record, by whether it fits. -/
theorem selectLoop_claimedBuffer (free : Option ℕ) (room : ℕ)
    (hmax : encodedRecordLen r ≤ maxWalGroupWireBytes) :
    (claimedBuffer r).selectLoop 0 free (room + 1) 0 0 false =
      if free.any (· < encodedRecordLen r) then .error (.durability
        s!"WAL record of {encodedRecordLen r} bytes exceeds its configured group or preallocated serial extent bound")
      else (claimedBuffer r).selectLoop 0 free room 1 (encodedRecordLen r) true := by
  have hlen : (encodedRecord r).length = encodedRecordLen r := length_encodedRecord r
  have hwire : (claimedBuffer r).exactWireForGroup 0 r = .ok (some (firstOwner r .claimedPending)) := by
    simp [exactWireForGroup, wireAt, claimedBuffer, firstOwner]
  rw [selectLoop]
  rw [show (claimedBuffer r).records[0]? = some r from rfl]
  dsimp only
  rw [hwire]
  dsimp only [firstOwner]
  rw [if_neg (by simp)]
  simp only [hlen, Nat.zero_add, not_lt.mpr hmax, false_or, if_true, Bool.false_or, isSome_some]

/-- The error that every later flush of the stranded record returns. -/
def strandedError : CallFailure := .error (.durability
  s!"WAL record of {encodedRecordLen r} bytes exceeds its configured group or preallocated serial extent bound")

end

variable {r : WalRecord}

/-- With one chunk of extent left, the flush of a claimed record that does not fit it fails and changes
nothing. -/
theorem triple_beginGroupFlush_stranded (hmax : encodedRecordLen r ≤ maxWalGroupWireBytes)
    (hbig : plainEnv.walPreallocChunkBytes < 10 + encodedRecordLen r) {w : WalState Unit}
    (hbuf : w.buffer = claimedBuffer r) (hdur : w.core.durableBytes = 10)
    (hpre : w.core.preallocBytes = plainEnv.walPreallocChunkBytes) (hflu : w.core.flushedRecords = 0)
    (hpois : ¬ Poisoned w) (hl : LogInv none 0 w.view) :
    Triple (fun w' => w' = w) (beginGroupFlush plainEnv {}) (fun _ _ => False)
      (fun e w' => e = strandedError r ∧ w' = w) := by
  have hio : w.core.ioInFlight = false := hl.flight
  have hchunk := plainEnv.chunk_ge
  have hloop := selectLoop_claimedBuffer r none 1023 hmax
  have hcapped := selectLoop_claimedBuffer r (some (plainEnv.walPreallocChunkBytes - 10)) 1023 hmax
  have hend : (claimedBuffer r).selectLoop 0 none 1023 1 (encodedRecordLen r) true =
      .ok (1, encodedRecordLen r) := rfl
  have hcount : (claimedBuffer r).exactWirePrefixCount 1 = .ok 1 := rfl
  rw [if_neg (by simp), hend] at hloop
  rw [if_pos (by simp only [any_some, decide_eq_true_eq]; omega)] at hcapped
  have hnatural : (claimedBuffer r).selectPreparedGroupPrefix 0 none =
      .ok (some ⟨0, 1, encodedRecordLen r, 1⟩) := by
    rw [selectPreparedGroupPrefix, if_neg (by simp [claimedBuffer]),
      show maxWalGroupRecords = 1023 + 1 from rfl, hloop]
    dsimp only
    rw [hcount]
  have hselect : (claimedBuffer r).selectPreparedGroupPrefix 0
      (some (plainEnv.walPreallocChunkBytes - 10)) = .error (.durability
        s!"WAL record of {encodedRecordLen r} bytes exceeds its configured group or preallocated serial extent bound") := by
    rw [selectPreparedGroupPrefix, if_neg (by simp [claimedBuffer]),
      show maxWalGroupRecords = 1023 + 1 from rfl, hcapped]
  intro w' hw'
  subst hw'
  rw [beginGroupFlush_eq _ _ hl, hbuf,
    if_neg (show ¬ (claimedBuffer r).typedExactTentativeCount ≠ 0 from not_not_intro rfl),
    if_neg (show ¬ (claimedBuffer r).failNextFlush = true from Bool.false_ne_true), if_neg (by simp [hio]),
    bind_of_ok (requireUnpoisoned_eq hpois)]
  refine (show Triple (fun w => w = w') (formNextGroup plainEnv {}) (fun _ _ => False)
    (fun e w => e = strandedError r ∧ w = w') from ?_) w' rfl
  unfold formNextGroup
  refine .get_self ?_
  rw [hbuf, hflu, hnatural]
  refine .bind (Q := fun _ _ => False) ?_ fun _ _ h => h.elim
  unfold capToExtent
  refine .get_self ?_
  rw [if_neg (show ¬ (1 : ℕ) = 0 by decide), hbuf, hflu, hdur, hpre, if_neg (by omega), hselect]
  exact .throw fun _ h => ⟨rfl, h⟩

/-- A state without I/O errors and without an unclaimed tail, in which a claimed record stays unflushed however
often it is flushed. -/
def Strands (s : WalSystem Unit) : Prop :=
  (walSystem plainEnv).ReachableVia FaultFree s ∧ ¬ Poisoned s.wal ∧ s.flight = none ∧
    s.wal.buffer.typedExactTentativeCount = 0 ∧
    ∃ wire ∈ s.wal.buffer.exactTypedWireRecords, wire.state = .claimedPending ∧
      ∀ n, ∃ s', s.flushRounds plainEnv n = some s' ∧ ¬ wire.recordIndex < s'.wal.core.flushedRecords

/-- A rotation strands every claimed record that does not fit one chunk. -/
theorem exists_stranded (hmax : encodedRecordLen r ≤ maxWalGroupWireBytes)
    (hbig : plainEnv.walPreallocChunkBytes < 10 + encodedRecordLen r) : ∃ s, Strands s := by
  obtain ⟨s, hreach, hfl, hs⟩ := exists_claimed r hmax
  obtain ⟨_, w, hres, hbuf, hdur, hpre, hflu, hpois⟩ :=
    (triple_rotation_unflushed (b := claimedBuffer r) rfl).exists_ok hs
  have hrot : (walSystem plainEnv).step s (.truncateDurableSegmentPrefix {} 0) = some { s with wal := w } := by
    show step plainEnv s (.truncateDurableSegmentPrefix {} 0) = _
    rw [step, call, hres]
  have hreach' : (walSystem plainEnv).ReachableVia FaultFree { s with wal := w } := by
    refine hreach.step ⟨hs.not_poisoned, rfl, ?_⟩ hrot
    exact fun io hio => (some.inj hio).symm
  have hinv : LogInv none 0 w.view := by
    rw [← hflu]
    exact (sysInv_of_faultFree plainEnv hreach' hpois).log hfl
  have hbegin := triple_beginGroupFlush_stranded hmax hbig hbuf hdur hpre hflu hpois hinv w rfl
  have hround : flushRound plainEnv { s with wal := w } = some { s with wal := w } := by
    cases hflush : beginGroupFlush plainEnv {} w with
    | ok begun w' =>
      rw [hflush] at hbegin
      exact hbegin.elim
    | error e w' =>
      rw [hflush] at hbegin
      obtain ⟨rfl, rfl⟩ := hbegin
      rw [flushRound, step, call, hflush]
      show finishJob plainEnv { s with wal := w' } = _
      rw [finishJob, hfl]
  refine ⟨{ s with wal := w }, hreach', hpois, hfl, ?_, firstOwner r .claimedPending, ?_, rfl,
    fun n => ⟨{ s with wal := w }, ?_, ?_⟩⟩
  · show w.buffer.typedExactTentativeCount = 0
    rw [hbuf]
    rfl
  · show _ ∈ w.buffer.exactTypedWireRecords
    rw [hbuf]
    exact mem_singleton.mpr rfl
  · induction n with
    | zero => rfl
    | succ n ih =>
      rw [flushRounds, hround]
      exact ih
  · show ¬ 0 < w.core.flushedRecords
    omega

/-- Reserve, append and claim a record as long as one chunk, rotate the live segment, and flush: the rotation
took back the extent that the reservation had provided, and no number of flushes makes the record durable. -/
theorem rotation_strands_claimed_record : ∃ s, Strands s := by
  have hlt : (List.replicate (1024 * 1024) (0 : UInt8)).length < 2 ^ 64 := by
    rw [length_replicate]
    decide
  have hlen : encodedRecordLen ⟨7, List.replicate (1024 * 1024) 0, hlt⟩ = 24 + 1024 * 1024 := by
    rw [encodedRecordLen, length_replicate]
    rfl
  refine exists_stranded (r := ⟨7, List.replicate (1024 * 1024) 0, hlt⟩) ?_ ?_
  · rw [hlen]
    decide
  · rw [hlen]
    decide

end ThunderboltDb.Wal
