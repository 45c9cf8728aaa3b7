import ThunderboltDb.Wal.WalSafety

/-!
# The extent that claimed exact records were promised

`reserve_typed_exact_append` provides the file extent for the whole unflushed tail and the new record before
the record is replicated; a flush of claimed records must not grow the file any more. `Provided v upTo extra`
is that promise for the records up to position `upTo` and `extra` further bytes.

`ExactInv` says that the promise stands for every exact owner in the buffer, that owners in front of an
unclaimed tail are claimed, and that the descriptor slots belong to the job in flight. `ReservationInv` says
that it stands for every reservation that can still be appended: one whose generation is the buffer's. Every
operation keeps both, apart from `truncate_durable_segment_prefix`, which resets the preallocated length;
`KeepsExtent` is what it has to leave.
-/

namespace ThunderboltDb.Wal

open Lib WalBuffer WalDurableState
open List hiding getElem?_eq_some_iff

variable {ι α β : Type} {records : List WalRecord} {r : WalTypedExactAppendReservation ι}

/-! ### Wire bytes of a range of records -/

/-- The wire bytes of the records from position `lo` up to `hi`. -/
def spanBytes (records : List WalRecord) (lo hi : ℕ) : ℕ :=
  (encodedRecords (recordRange records lo hi)).length

theorem spanBytes_self (records : List WalRecord) (n : ℕ) : spanBytes records n n = 0 := by
  rw [spanBytes, recordRange_self]
  rfl

variable {lo mid hi : ℕ} {b : WalBuffer ι}

theorem spanBytes_add (hlo : lo ≤ mid) (hmid : mid ≤ hi) (hhi : hi ≤ records.length) :
    spanBytes records lo hi = spanBytes records lo mid + spanBytes records mid hi := by
  rw [spanBytes, recordRange_append hlo hmid hhi, encodedRecords_append, length_append]
  rfl

theorem spanBytes_succ {i : ℕ} {r : WalRecord} (hlo : lo ≤ i) (hr : records[i]? = some r) :
    spanBytes records lo (i + 1) = spanBytes records lo i + encodedRecordLen r := by
  have hlt : i < records.length := (getElem?_eq_some_iff.mp hr).1
  have hone : recordRange records i (i + 1) = [r] := by
    rw [recordRange, take_add_one, hr, drop_append_of_le_length (by simp; omega)]
    simp
  rw [spanBytes_add hlo (Nat.le_succ i) hlt]
  show _ + (encodedRecords (recordRange records i (i + 1))).length = _
  rw [hone]
  simp

theorem spanBytes_mono (hlo : lo ≤ mid) (hmid : mid ≤ hi)
    (hhi : hi ≤ records.length) : spanBytes records lo mid ≤ spanBytes records lo hi := by
  rw [spanBytes_add hlo hmid hhi]
  exact Nat.le_add_right _ _

theorem spanBytes_append (lo : ℕ) (more : List WalRecord)
    (h : hi ≤ records.length) : spanBytes (records ++ more) lo hi = spanBytes records lo hi := by
  rw [spanBytes, recordRange_append_right lo more h]
  rfl

/-- An owner found at a position is one of the buffer's and carries that position. -/
theorem mem_of_wireAt {index : ℕ} {wire : ExactTypedWireRecord}
    (h : b.wireAt index = some wire) : wire ∈ b.exactTypedWireRecords ∧ wire.recordIndex = index := by
  refine ⟨mem_of_find?_eq_some h, ?_⟩
  have := find?_some h
  simpa using this

/-- A record's wire bytes are its encoding's, with or without an exact owner. -/
theorem recordWireBytes_eq {i : ℕ} {r : WalRecord}
    (hw : WiresInv b.records lo b.exactTypedWireRecords) (hr : b.records[i]? = some r) :
    b.recordWireBytes i r = encodedRecordLen r := by
  rw [recordWireBytes]
  cases hwire : b.wireAt i with
  | none => rfl
  | some wire =>
    obtain ⟨hmem, hidx⟩ := mem_of_wireAt hwire
    have henc := hw.encoded wire hmem r (by rw [hidx]; exact hr)
    show wire.serializedRecord.length = _
    rw [henc, length_encodedRecord]

theorem currentTailWireBytes_eq (first : ℕ) (hw : WiresInv b.records lo b.exactTypedWireRecords) :
    b.currentTailWireBytes first = spanBytes b.records first b.records.length := by
  have hmap : (b.records.zipIdx.drop first).map (fun p => b.recordWireBytes p.2 p.1) =
      ((b.records.zipIdx.drop first).map (·.1)).map encodedRecordLen := by
    rw [map_map]
    refine map_congr_left fun p hp => ?_
    exact recordWireBytes_eq hw (mem_zipIdx_iff_getElem?.mp (mem_of_mem_drop hp))
  have hfst : (b.records.zipIdx.drop first).map (·.1) = recordRange b.records first b.records.length := by
    rw [map_drop, recordRange, take_length]
    congr 1
    exact zipIdx_map_fst 0 b.records
  rw [currentTailWireBytes, hmap, hfst, sum_encodedRecordLen]
  rfl

/-! ### The promise -/

/-- The open file's extent takes every record up to `upTo` and `extra` further bytes, and each of the records
fits a group. -/
structure Provided (v : LogView) (upTo extra : ℕ) : Prop where
  fileOpen : v.fileOpen = true
  fits : v.durable + spanBytes v.records v.flushed upTo + extra ≤ v.prealloc
  bounded : ∀ i r, v.flushed ≤ i → i < upTo → v.records[i]? = some r →
    encodedRecordLen r ≤ maxWalGroupWireBytes

namespace Provided

variable {v v' : LogView} {upTo extra : ℕ}

section

variable (h : Provided v upTo extra)
include h

/-- The extent may grow behind the promise. -/
theorem grow (hrecords : v'.records = v.records) (hflushed : v'.flushed = v.flushed)
    (hext : v.fileOpen = true → v'.fileOpen = true ∧ v'.durable = v.durable ∧ v.prealloc ≤ v'.prealloc) :
    Provided v' upTo extra := by
  obtain ⟨hopen, hdur, hpre⟩ := hext h.fileOpen
  refine ⟨hopen, ?_, ?_⟩
  · rw [hrecords, hflushed, hdur]
    exact le_trans h.fits hpre
  · rw [hrecords, hflushed]
    exact h.bounded

/-- Records behind the promised ones do not matter. -/
theorem setRecords (hrange : spanBytes records v.flushed upTo = spanBytes v.records v.flushed upTo)
    (hget : ∀ i, i < upTo → records[i]? = v.records[i]?) (wires : List ExactTypedWireRecord) :
    Provided { v with records := records, wires := wires } upTo extra := by
  refine ⟨h.fileOpen, ?_, ?_⟩
  · show v.durable + spanBytes records v.flushed upTo + extra ≤ v.prealloc
    rw [hrange]
    exact h.fits
  · intro i r hlo hi hr
    exact h.bounded i r hlo hi (by rw [← hget i hi]; exact hr)

theorem append (hle : upTo ≤ v.records.length) (more : List WalRecord) (wires : List ExactTypedWireRecord) :
    Provided { v with records := v.records ++ more, wires := wires } upTo extra :=
  h.setRecords (spanBytes_append _ _ hle) (fun _ hi => getElem?_append_left (by omega)) wires

theorem dropLast (hlt : upTo ≤ v.records.length - 1) (wires : List ExactTypedWireRecord) :
    Provided { v with records := v.records.dropLast, wires := wires } upTo extra := by
  refine h.setRecords ?_ (fun i hi => ?_) wires
  · rw [dropLast_eq_take, spanBytes, recordRange_take _ hlt]
    rfl
  · rw [dropLast_eq_take, getElem?_take_of_lt (by omega)]

end

/-- The extra bytes take one more record. -/
theorem push (h : Provided v v.records.length extra) {r : WalRecord} (hlen : encodedRecordLen r = extra)
    (hmax : extra ≤ maxWalGroupWireBytes) (hf : v.flushed ≤ v.records.length)
    (wires : List ExactTypedWireRecord) :
    Provided { v with records := v.records ++ [r], wires := wires } (v.records.length + 1) 0 := by
  have hlast : (v.records ++ [r])[v.records.length]? = some r := getElem?_concat_length
  refine ⟨h.fileOpen, ?_, ?_⟩
  · show v.durable + spanBytes (v.records ++ [r]) v.flushed (v.records.length + 1) + 0 ≤ v.prealloc
    rw [spanBytes_succ hf hlast, spanBytes_append _ _ le_rfl, hlen]
    have := h.fits
    omega
  · intro i r' hlo hi hr'
    rcases Nat.lt_succ_iff_lt_or_eq.mp hi with hi | rfl
    · rw [getElem?_append_left hi] at hr'
      exact h.bounded i r' hlo hi hr'
    · rw [hlast] at hr'
      rw [← Option.some.inj hr', hlen]
      exact hmax

/-- A committed group moves the durable bytes by what it takes off the span. -/
theorem commit (h : Provided v upTo extra) {target : ℕ} (hlo : v.flushed ≤ target) (hhi : target ≤ upTo)
    (hle : upTo ≤ v.records.length) :
    Provided { v with
      durable := v.durable + spanBytes v.records v.flushed target, flushed := target,
      ioInFlight := false } upTo extra := by
  refine ⟨h.fileOpen, ?_, fun i r hi => h.bounded i r (le_trans hlo hi)⟩
  have hfits := h.fits
  rw [spanBytes_add hlo hhi hle] at hfits
  show v.durable + spanBytes v.records v.flushed target + spanBytes v.records target upTo + extra ≤ v.prealloc
  omega

end Provided

/-! ### The invariant -/

/-- The first slot carries the job in flight; the second is never needed. -/
def SlotsInv (fl : Option FlushProgress) (slots : List GroupSlotState) : Prop :=
  match fl with
  | none => slots = [.idle, .idle]
  | some p => slots = [.busy, .idle] ∧ p.job.group.slot = 0

/-- The exact owners of a buffer. -/
structure ExactInv (fl : Option FlushProgress) (x : ExactView) : Prop where
  front : ∀ wire ∈ x.log.wires.dropLast, wire.state = .claimedPending
  claimed : x.tentatives = 0 → ∀ wire ∈ x.log.wires, wire.state = .claimedPending
  payload : ∀ wire ∈ x.log.wires, ∀ r, x.log.records[wire.recordIndex]? = some r →
    wire.packedPayload = r.payload
  provided : ∀ wire ∈ x.log.wires, Provided x.log (wire.recordIndex + 1) 0
  slots : SlotsInv fl x.slots

/-- A reservation that a tentative append can still consume. -/
def Live (x : ExactView) (r : WalTypedExactAppendReservation ι) : Prop :=
  r.state = .prepared ∧ r.rollbackAuthority ≠ none ∧ r.expectedGeneration = x.generation

/-- A reservation: it is not ahead of the buffer, it is behind an unclaimed tail, and while it is live its
extent is provided. -/
structure ReservationInv (x : ExactView) (r : WalTypedExactAppendReservation ι) : Prop where
  generation_le : r.state = .prepared → r.expectedGeneration ≤ x.generation
  generation_lt : r.state = .prepared → x.tentatives ≠ 0 → r.expectedGeneration < x.generation
  provided : Live x r → Provided x.log x.log.records.length r.expectedSerializedLen ∧
    r.expectedSerializedLen ≤ maxWalGroupWireBytes

/-- What the owners and reservations of a system state were promised stands. -/
structure Promised (s : WalSystem ι) : Prop where
  owners : ExactInv s.flight s.wal.exactView
  reservations : ∀ r ∈ s.reservations, ReservationInv s.wal.exactView r

/-! ### Calls that only grow the extent -/

/-- Nothing but the extent changed, and an open file's extent only grew. -/
structure Grown (x x' : ExactView) : Prop where
  records_eq : x'.log.records = x.log.records
  wires_eq : x'.log.wires = x.log.wires
  flushed_eq : x'.log.flushed = x.log.flushed
  inFlight_eq : x'.log.ioInFlight = x.log.ioInFlight
  tentatives_eq : x'.tentatives = x.tentatives
  generation_eq : x'.generation = x.generation
  slots_eq : x'.slots = x.slots
  poisoned_eq : x'.poisoned = x.poisoned
  fixedFault_eq : x'.fixedFault = x.fixedFault
  extent : x.log.fileOpen = true →
    x'.log.fileOpen = true ∧ x'.log.durable = x.log.durable ∧ x.log.prealloc ≤ x'.log.prealloc

namespace Grown

variable {x x' x'' : ExactView}

theorem refl (x : ExactView) : Grown x x :=
    ⟨rfl, rfl, rfl, rfl, rfl, rfl, rfl, rfl, rfl, fun h => ⟨h, rfl, le_rfl⟩⟩

theorem trans (h : Grown x x') (h' : Grown x' x'') : Grown x x'' where
  records_eq := h'.records_eq.trans h.records_eq
  wires_eq := h'.wires_eq.trans h.wires_eq
  flushed_eq := h'.flushed_eq.trans h.flushed_eq
  inFlight_eq := h'.inFlight_eq.trans h.inFlight_eq
  tentatives_eq := h'.tentatives_eq.trans h.tentatives_eq
  generation_eq := h'.generation_eq.trans h.generation_eq
  slots_eq := h'.slots_eq.trans h.slots_eq
  poisoned_eq := h'.poisoned_eq.trans h.poisoned_eq
  fixedFault_eq := h'.fixedFault_eq.trans h.fixedFault_eq
  extent := fun ho => by
    obtain ⟨ho', hd, hp⟩ := h.extent ho
    obtain ⟨ho'', hd', hp'⟩ := h'.extent ho'
    exact ⟨ho'', hd'.trans hd, le_trans hp hp'⟩

theorem provided {upTo extra : ℕ} (h : Grown x x') (hp : Provided x.log upTo extra) : Provided x'.log upTo extra :=
  hp.grow h.records_eq h.flushed_eq h.extent

theorem exactInv {fl : Option FlushProgress} (h : Grown x x') (hx : ExactInv fl x) : ExactInv fl x' where
  front := by rw [h.wires_eq]; exact hx.front
  claimed := by rw [h.wires_eq, h.tentatives_eq]; exact hx.claimed
  payload := by rw [h.wires_eq, h.records_eq]; exact hx.payload
  provided := by rw [h.wires_eq]; exact fun wire hw => h.provided (hx.provided wire hw)
  slots := by rw [h.slots_eq]; exact hx.slots

theorem reservationInv (h : Grown x x') (hr : ReservationInv x r) : ReservationInv x' r where
  generation_le := by rw [h.generation_eq]; exact hr.generation_le
  generation_lt := by rw [h.generation_eq, h.tentatives_eq]; exact hr.generation_lt
  provided := by
    intro hl
    have hlive : Live x r := ⟨hl.1, hl.2.1, hl.2.2.trans h.generation_eq⟩
    rw [h.records_eq]
    exact ⟨h.provided (hr.provided hlive).1, (hr.provided hlive).2⟩

end Grown

/-- However the call returns, only the extent grew. -/
def Grows (m : WalM ι α) : Prop :=
  ∀ x, Triple (fun w => w.exactView = x) m (fun _ w => Grown x w.exactView) (fun _ w => Grown x w.exactView)

theorem Grows.triple {m : WalM ι α} (h : Grows m) (x : ExactView) :
    Triple (fun w => Grown x w.exactView) m (fun _ w => Grown x w.exactView) (fun _ w => Grown x w.exactView) := by
  intro w hw
  have hm := h w.exactView w rfl
  cases hres : m w with
  | ok a w' | error e w' => rw [hres] at hm; exact hw.trans hm

variable (env : WalEnv ι) (io : SegmentIo) {fl : Option FlushProgress} {f : ℕ}

theorem grows_ensureCreated : Grows (ensureCreated env io) := by
  intro x
  by_cases hopen : x.log.fileOpen = true
  · -- the file is open and nothing happens
    unfold ensureCreated
    refine .get_bind fun w hw => ?_
    have hw' : w.core.fileOpen = true := by rw [← hw] at hopen; exact hopen
    rw [if_pos hw']
    refine .pure fun w' h => ?_
    rw [h, hw]
    exact .refl x
  · intro w hw
    have hf := frames_ensureCreated env io _ w rfl
    have hgrown : ∀ w' : WalState ι, (w'.buffer, w'.disk.anchor, w'.core.unfiled) =
        (w.buffer, w.disk.anchor, w.core.unfiled) → Grown x w'.exactView := by
      intro w' h
      obtain ⟨hbuf, hrest⟩ := Prod.mk.inj h
      have hcore := congrArg Prod.snd hrest
      have h₁ := congrArg flushedRecords hcore
      have h₂ := congrArg ioInFlight hcore
      have h₃ := congrArg poisoned hcore
      have h₄ := congrArg fixedFault hcore
      subst hw
      exact ⟨congrArg records hbuf, congrArg exactTypedWireRecords hbuf, h₁, h₂,
        congrArg typedExactTentativeCount hbuf, congrArg generation hbuf,
        congrArg (fun b => b.preparedGroupArena.slots) hbuf, h₃, h₄, fun ho => absurd ho hopen⟩
    cases hres : ensureCreated env io w with
    | ok a w' | error e w' => rw [hres] at hf; exact hgrown w' hf

theorem grows_ensurePreallocatedThrough (io : IoOutcome) (writeEnd : ℕ) :
    Grows (ensurePreallocatedThrough env io writeEnd) := by
  intro x
  unfold ensurePreallocatedThrough
  refine .get_bind fun w hw => ?_
  subst hw
  have hstay : ∀ w', w' = w → Grown w.exactView w'.exactView := fun w' h => h ▸ .refl _
  refine .ite (fun _ => .pure hstay) fun _ => ?_
  refine .ite (fun _ => .throw hstay) fun _ => ?_
  generalize hnew : max (max writeEnd (w.core.preallocBytes + env.walPreallocChunkBytes))
    env.walPreallocChunkBytes = newPrealloc
  refine .bind (Q := fun _ w' => Grown w.exactView w'.exactView ∧ w'.core.preallocBytes =
    w.core.preallocBytes) (Triple.modify fun w' h => ?_) fun _ => ?_
  · subst h
    exact ⟨⟨rfl, rfl, rfl, rfl, rfl, rfl, rfl, rfl, rfl, fun ho => ⟨ho, rfl, le_rfl⟩⟩, rfl⟩
  refine .bind ((triple_require _ _ _).conseq (fun _ h => h) (fun _ _ h => h.1) fun _ _ h => h.1)
    fun _ => .modify fun w' h => ?_
  obtain ⟨hg, hpre⟩ := h
  refine hg.trans ⟨rfl, rfl, rfl, rfl, rfl, rfl, rfl, rfl, rfl, fun ho => ⟨ho, rfl, ?_⟩⟩
  show w'.core.preallocBytes ≤ newPrealloc
  omega

/-! ### Plain appends -/

variable {x : ExactView} {x' : ExactView}

/-- A record pushed behind the owners leaves their extent alone. -/
theorem ExactInv.push (h : ExactInv fl x) (hl : LogInv fl f x.log) (r : WalRecord) (generation : ℕ) :
    ExactInv fl { x with log := { x.log with records := x.log.records ++ [r] }, generation := generation } where
  front := h.front
  claimed := h.claimed
  payload := by
    intro wire hwire r' hr'
    refine h.payload wire hwire r' ?_
    rw [getElem?_append_left (hl.wires.upper wire hwire)] at hr'
    exact hr'
  provided := by
    intro wire hwire
    exact (h.provided wire hwire).append (hl.wires.upper wire hwire) [r] _
  slots := h.slots

/-- A reservation behind the buffer's generation is promised nothing. -/
theorem ReservationInv.bump
    (h : ReservationInv x r) (hgen : x'.generation = x.generation + 1) : ReservationInv x' r where
  generation_le := fun hs => by have := h.generation_le hs; omega
  generation_lt := fun hs _ => by have := h.generation_le hs; omega
  provided := by
    intro hl
    have hle := h.generation_le hl.1
    have heq := hl.2.2
    omega

/-! ### Reservations -/

theorem triple_reserveTypedExactCredit (bytes : ℕ) :
    Triple (fun _ => True) (reserveTypedExactCredit bytes : WalM ι Unit)
      (fun _ _ => bytes ≤ maxWalGroupWireBytes) (fun _ _ => True) := by
  unfold reserveTypedExactCredit
  refine .get_bind fun w _ => .ite (fun _ => .throw fun _ _ => trivial) fun hle => ?_
  refine .ite (fun _ => .throw fun _ _ => trivial) fun _ => .modify fun _ _ => ?_
  exact not_lt.mp hle

/-- Every record behind the watermark fits a group: a legacy record is checked at the admission, an exact one
was checked at its own. -/
theorem bounded_of_admitted {w : WalState ι} (hx : ExactInv fl w.exactView)
    (hover : w.buffer.oversizedLegacy w.core.flushedRecords = none) (i : ℕ) (r : WalRecord)
    (hlo : w.core.flushedRecords ≤ i) (hr : w.buffer.records[i]? = some r) :
    encodedRecordLen r ≤ maxWalGroupWireBytes := by
  cases hwire : w.buffer.wireAt i with
  | some wire =>
    obtain ⟨hmem, hidx⟩ := mem_of_wireAt hwire
    exact (hx.provided wire hmem).bounded i r hlo (by omega) hr
  | none =>
    rw [oversizedLegacy, Option.map_eq_none_iff, find?_eq_none] at hover
    have hmem : (r, i) ∈ w.buffer.records.zipIdx.drop w.core.flushedRecords := by
      refine mem_of_getElem? (i := i - w.core.flushedRecords) ?_
      rw [getElem?_drop, Nat.add_sub_cancel' hlo, getElem?_zipIdx, hr]
      simp
    have hnot := hover (r, i) hmem
    simpa [hwire] using hnot

/-- An admission provides the extent of the whole tail and of the record it is for. -/
theorem triple_admitSerialExtent (len : ℕ) (hx : ExactInv fl x) :
    Triple (fun w => Grown x w.exactView ∧ LogInv fl f w.view) (admitSerialExtent env io len)
      (fun _ w => Grown x w.exactView ∧ Provided w.view w.view.records.length len)
      (fun _ w => Grown x w.exactView) := by
  unfold admitSerialExtent
  refine .bind ((framesExact_requireUnpoisoned.triple fun y => Grown x y ∧ LogInv fl f y.log).conseq
    (fun _ h => h) (fun _ _ h => h) fun _ _ h => h.1) fun _ => ?_
  refine .bind ((((grows_ensureCreated env io).triple x).and (triple_ensureCreated env io)).conseq
    (fun _ h => h) (fun _ _ h => h) fun _ _ h => h.1) fun _ => .get_bind fun w hw => ?_
  obtain ⟨hg, hl, hopen⟩ := hw
  have hstay : ∀ w', w' = w → Grown x w'.exactView := fun w' h => h ▸ hg
  cases hover : w.buffer.oversizedLegacy w.core.flushedRecords with
  | some r => exact .throw hstay
  | none =>
    have hbound := bounded_of_admitted (hg.exactInv hx) hover
    have hspan := currentTailWireBytes_eq w.core.flushedRecords hl.wires
    rw [hspan]
    refine .ite (fun hfits => .pure fun w' h => ?_) fun _ => ?_
    · subst h
      exact ⟨hg, hopen, hfits, fun i r hlo _ hr => hbound i r hlo hr⟩
    refine .ite (fun _ => .throw hstay) fun _ => ?_
    refine ((((grows_ensurePreallocatedThrough env io.zeroFillExtend _).triple x).and
      (@triple_ensurePreallocatedThrough ι fl f env io.zeroFillExtend _)).and
      (frames_ensurePreallocatedThrough env io.zeroFillExtend _
        (w.buffer, w.disk.anchor, { w.core with preallocBytes := 0 }))).conseq ?_ ?_ fun _ _ h => h.1.1
    · intro w' h
      subst h
      exact ⟨⟨hg, hl, hopen⟩, rfl⟩
    · intro _ w' h
      obtain ⟨⟨hg', -, hopen', hfits⟩, hframe⟩ := h
      obtain ⟨hbuf, hrest⟩ := Prod.mk.inj hframe
      have hcore := congrArg Prod.snd hrest
      have hdur := congrArg durableBytes hcore
      have hflushed := congrArg flushedRecords hcore
      refine ⟨hg', hopen', ?_, ?_⟩
      · show w'.core.durableBytes + spanBytes w'.buffer.records w'.core.flushedRecords
          w'.buffer.records.length + len ≤ w'.view.prealloc
        rw [hbuf, hdur, hflushed]
        exact hfits
      · show ∀ i r, w'.core.flushedRecords ≤ i → i < w'.buffer.records.length →
          w'.buffer.records[i]? = some r → _
        rw [hbuf, hflushed]
        exact fun i r hlo _ hr => hbound i r hlo hr

/-- What a new reservation was given. -/
structure NewReservation (x x' : ExactView) (r : WalTypedExactAppendReservation ι) : Prop where
  grown : Grown x x'
  tentatives_eq : x'.tentatives = 0
  generation_eq : r.expectedGeneration = x'.generation
  bounded : r.expectedSerializedLen ≤ maxWalGroupWireBytes
  provided : Provided x'.log x'.log.records.length r.expectedSerializedLen

theorem NewReservation.reservationInv (h : NewReservation x x' r) : ReservationInv x' r where
  generation_le := fun _ => h.generation_eq.le
  generation_lt := fun _ hne => absurd h.tentatives_eq hne
  provided := fun _ => ⟨h.provided, h.bounded⟩

theorem triple_reserveTypedExactAppend [DecidableEq ι] (prepared : PreparedCanonicalWalRecord ι)
    (hx : ExactInv fl x) :
    Triple (fun w => w.exactView = x ∧ LogInv fl f w.view) (reserveTypedExactAppend env io prepared)
      (fun r w => NewReservation x w.exactView r) (fun _ w => Grown x w.exactView) := by
  unfold reserveTypedExactAppend
  refine .bind (Q := fun _ w => w.exactView = x ∧ LogInv fl f w.view) ?_ fun _ => ?_
  · intro w hw
    rw [prune_eq hw.2]
    exact hw
  refine .get_bind fun w hw => ?_
  have hstay : ∀ w', w' = w → Grown x w'.exactView := by
    intro w' h
    rw [h, hw.1]
    exact .refl x
  refine .ite (fun _ => .throw hstay) fun htent => ?_
  have hzero : x.tentatives = 0 := by
    rw [← hw.1]
    exact not_not.mp htent
  cases prepared.exact with
  | none => exact .throw hstay
  | some exact =>
    unfold reserveExact
    refine .ite (fun _ => .throw hstay) fun _ => ?_
    refine .bind (Q := fun _ w => (Grown x w.exactView ∧ LogInv fl f w.view) ∧
      exact.serializedRecord.length ≤ maxWalGroupWireBytes) ?_ fun _ => ?_
    · refine (((framesExact_reserveTypedExactCredit _).triple fun y => Grown x y ∧ LogInv fl f y.log).and
        (triple_reserveTypedExactCredit _)).conseq ?_ (fun _ _ h => h) fun _ _ h => h.1.1
      intro w' h
      exact ⟨⟨hstay w' h, by rw [h]; exact hw.2⟩, trivial⟩
    refine .bind (Q := fun _ w => (Grown x w.exactView ∧
      Provided w.view w.view.records.length exact.serializedRecord.length) ∧
      exact.serializedRecord.length ≤ maxWalGroupWireBytes) ?_ fun prior => ?_
    · -- releasing the credit of a failed preflight does not touch the log
      refine .onError ?_
      intro w' hw'
      refine Triple.bind ((triple_admitSerialExtent env io _ hx).conseq (fun _ h => h) (fun _ _ h => h)
        fun _ _ h => h) (fun _ => ?_) w' hw'.1
      refine ((framesExact_preverifyTypedExactLineage env io.installIdentity exact.identity).triple fun y =>
        Grown x y ∧ Provided y.log y.log.records.length exact.serializedRecord.length).conseq
        (fun _ h => h) (fun _ _ h => ⟨h, hw'.2⟩) fun _ _ h => h.1
    · refine .get_bind fun w' hw' => .pure fun w'' h => ?_
      subst h
      exact ⟨hw'.1.1, hw'.1.1.tentatives_eq.trans hzero, rfl, hw'.2, hw'.1.2⟩

/-! ### Tentative append, rollback and claim -/

/-- The reservation as far as the promise looks at it. -/
def SameClaim (r r' : WalTypedExactAppendReservation ι) : Prop :=
  r'.state = r.state ∧ r'.rollbackAuthority = r.rollbackAuthority ∧
    r'.expectedGeneration = r.expectedGeneration ∧ r'.expectedSerializedLen = r.expectedSerializedLen

variable {r' : WalTypedExactAppendReservation ι} (w : WalState ι)

theorem ReservationInv.same (h : ReservationInv x r) (hs : SameClaim r r') : ReservationInv x r' := by
  obtain ⟨h₁, h₂, h₃, h₄⟩ := hs
  refine ⟨?_, ?_, ?_⟩
  · rw [h₁, h₃]
    exact h.generation_le
  · rw [h₁, h₃]
    exact h.generation_lt
  · rw [Live, h₁, h₂, h₃, h₄]
    exact h.provided

/-- A tentative append of `record` with its owner. -/
def ExactView.pushTentative (x : ExactView) (record : WalRecord) (wire : ExactTypedWireRecord) : ExactView :=
  { x with
    log := { x.log with records := x.log.records ++ [record], wires := x.log.wires ++ [wire] }
    tentatives := 1
    generation := x.generation + 1 }

/-- A tentative append consumes a live reservation, whose record and owner it pushes. -/
structure Appended (x : ExactView) (r : WalTypedExactAppendReservation ι) (x' : ExactView)
    (r' : WalTypedExactAppendReservation ι) : Prop where
  live : Live x r
  tentatives_eq : x.tentatives = 0
  state_ne : r'.state ≠ .prepared
  pushed : ∃ (record : WalRecord) (credit : ℕ), encodedRecordLen record = r.expectedSerializedLen ∧
    x' = x.pushTentative record
      ⟨x.log.records.length, record.payload, encodedRecord record, .tentative, credit⟩

theorem triple_tentative_outcome [DecidableEq ι] (r : WalTypedExactAppendReservation ι) :
    Triple (fun t => t = (w, r)) (appendTypedExactTentative : ReservationM ι Unit)
      (fun _ t => Appended w.exactView r t.1.exactView t.2)
      (fun _ t => t.1.exactView = w.exactView ∧ SameClaim r t.2) := by
  unfold appendTypedExactTentative
  refine .get_bind fun t ht => ?_
  subst ht
  have hstay : ∀ t : WalState ι × WalTypedExactAppendReservation ι, t = (w, r) →
      t.1.exactView = w.exactView ∧ SameClaim r t.2 := by
    intro t h
    subst h
    exact ⟨rfl, rfl, rfl, rfl, rfl⟩
  have hlost : ∀ (t₁ : WalState ι × WalTypedExactAppendReservation ι) (e : CallFailure)
      (Q : Unit → WalState ι × WalTypedExactAppendReservation ι → Prop),
      t₁.1.exactView = w.exactView ∧ SameClaim r t₁.2 →
      Triple (fun t => t = (w, r)) (do set t₁; throw e : ReservationM ι Unit) Q
        (fun _ t => t.1.exactView = w.exactView ∧ SameClaim r t.2) := by
    intro t₁ e Q h
    exact .bind (Q := fun _ t => t.1.exactView = w.exactView ∧ SameClaim r t.2)
      (Triple.set fun _ _ => h) fun _ => .throw fun _ h => h
  refine .ite (fun _ => .throw hstay) fun hdrift => ?_
  match r.prepared, r.pendingGroupCredit with
  | none, _ => exact .throw hstay
  | some prepared, none => exact hlost _ _ _ ⟨rfl, rfl, rfl, rfl, rfl⟩
  | some prepared, some credit =>
    dsimp only
    match hexact : prepared.exact with
    | none => exact hlost _ _ _ ⟨rfl, rfl, rfl, rfl, rfl⟩
    | some exact =>
      refine .ite (fun _ => hlost _ _ _ ⟨rfl, rfl, rfl, rfl, rfl⟩) fun hbind => ?_
      refine .ite (fun _ => hlost _ _ _ ⟨rfl, rfl, rfl, rfl, rfl⟩) fun _ => .set ?_
      intro t _
      simp only [tentativeDrifted, Bool.not_eq_true, decide_eq_false_iff_not, not_or, not_not] at hdrift
      obtain ⟨-, -, -, htent, hgen, hstate⟩ := hdrift
      simp only [not_or, not_not] at hbind
      obtain ⟨hlen, -, hauth⟩ := hbind
      have hser := prepared.exact_serialized exact hexact
      refine ⟨⟨hstate, ?_, hgen.symm⟩, htent, by simp, prepared.record, credit, ?_, ?_⟩
      · intro hnone
        rw [hnone] at hauth
        cases hauth
      · rw [← hlen, hser, length_encodedRecord]
      · rw [← hser]
        rfl

/-- A tentative append keeps the promise: the extent it was reserved is its record's. -/
theorem Appended.exactInv
    (h : Appended x r x' r') (hx : ExactInv fl x) (hl : LogInv fl f x.log) (hr : ReservationInv x r) :
    ExactInv fl x' := by
  obtain ⟨hprov, hmax⟩ := hr.provided h.live
  obtain ⟨record, credit, hlen, rfl⟩ := h.pushed
  have hpush := hx.push hl record (x.generation + 1)
  refine ⟨?_, ?_, ?_, ?_, hx.slots⟩
  · intro wire hwire
    rw [ExactView.pushTentative, dropLast_concat] at hwire
    exact hx.claimed h.tentatives_eq wire hwire
  · intro hzero
    cases hzero
  · intro wire hwire r' hr'
    rcases mem_append.mp hwire with hmem | hmem
    · exact hpush.payload wire hmem r' hr'
    · rw [mem_singleton.mp hmem] at hr' ⊢
      have hlast : (x.log.records ++ [record])[x.log.records.length]? = some record := getElem?_concat_length
      rw [Option.some.inj (hlast.symm.trans hr')]
  · intro wire hwire
    rcases mem_append.mp hwire with hmem | hmem
    · exact (hx.provided wire hmem).append (hl.wires.upper wire hmem) _ _
    · rw [mem_singleton.mp hmem]
      exact hprov.push hlen hmax hl.flushed_le _

def ExactView.pop (x : ExactView) : ExactView :=
  { x with
    log := { x.log with records := x.log.records.dropLast, wires := x.log.wires.dropLast }
    tentatives := 0
    generation := x.generation + 1 }

/-- A rollback pops the last record with its owner; its reservation can be appended no more. -/
structure RolledBack (x x' : ExactView) (r' : WalTypedExactAppendReservation ι) : Prop where
  popped : x' = x.pop
  last : ∃ wire, x.log.wires.getLast? = some wire ∧ wire.recordIndex + 1 = x.log.records.length
  generation_eq : r'.expectedGeneration = x'.generation
  authority_eq : r'.rollbackAuthority = none

theorem triple_rollback_outcome (r : WalTypedExactAppendReservation ι) :
    Triple (fun t => t = (w, r)) (rollbackTypedExactAppend : ReservationM ι Unit)
      (fun _ t => t = (w, r) ∨ RolledBack w.exactView t.1.exactView t.2) (fun _ t => t = (w, r)) := by
  unfold rollbackTypedExactAppend
  refine .get_bind fun t ht => ?_
  subst ht
  have hstay : ∀ t : WalState ι × WalTypedExactAppendReservation ι, t = (w, r) → t = (w, r) :=
    fun _ h => h
  dsimp only
  cases r.state with
  | prepared => exact .pure fun _ h => .inl h
  | tentative position expectedGeneration =>
    refine .ite (fun _ => .throw hstay) fun hdrift => ?_
    split
    · exact .throw hstay
    · exact .throw hstay
    · exact .throw hstay
    · exact .throw hstay
    · rename_i wire recordCount tail record hwire _ _
      refine .ite (fun _ => .throw hstay) fun _ => ?_
      cases r.rollbackAuthority with
      | none => exact .throw hstay
      | some authority =>
        dsimp only
        split
        · rename_i hmatch
          refine .set fun _ _ => .inr ⟨rfl, ⟨wire, hwire, ?_⟩, rfl, rfl⟩
          simp only [settleDrifted, Bool.not_eq_true, decide_eq_false_iff_not, not_or, not_not] at hdrift
          rw [hmatch.1]
          exact hdrift.2.1
        · exact .throw hstay

theorem ExactInv.pop (h : ExactInv fl x) (hl : LogInv fl f x.log)
    {last : ExactTypedWireRecord} (hlast : x.log.wires.getLast? = some last)
    (hidx : last.recordIndex + 1 = x.log.records.length) : ExactInv fl x.pop := by
  obtain ⟨front, hfront⟩ : ∃ front, x.log.wires = front ++ [last] := getLast?_eq_some_iff.mp hlast
  have hsorted := hl.wires.sorted
  rw [hfront, pairwise_append] at hsorted
  have hmem : ∀ wire ∈ x.log.wires.dropLast,
      wire ∈ x.log.wires ∧ wire.recordIndex + 1 ≤ x.log.records.length - 1 := by
    intro wire hwire
    refine ⟨mem_of_mem_dropLast hwire, ?_⟩
    rw [hfront, dropLast_concat] at hwire
    have := hsorted.2.2 wire hwire last (by simp)
    omega
  refine ⟨?_, ?_, ?_, ?_, h.slots⟩
  · exact fun wire hwire => h.front wire (mem_of_mem_dropLast hwire)
  · exact fun _ => h.front
  · intro wire hwire r hr
    obtain ⟨hw, hlt⟩ := hmem wire hwire
    refine h.payload wire hw r ?_
    rw [← hr]
    show _ = x.log.records.dropLast[wire.recordIndex]?
    rw [dropLast_eq_take, getElem?_take_of_lt (by omega)]
  · intro wire hwire
    obtain ⟨hw, hlt⟩ := hmem wire hwire
    exact (h.provided wire hw).dropLast hlt _

def ExactView.claimLast (x : ExactView) (wire : ExactTypedWireRecord) : ExactView :=
  { x with
    log := { x.log with wires := x.log.wires.dropLast ++ [{ wire with state := .claimedPending }] }
    tentatives := 0 }

/-- A claim of the unclaimed tail. -/
structure Claimed (x x' : ExactView) : Prop where
  tentatives_ne : x.tentatives ≠ 0
  claimed : ∃ wire, x.log.wires.getLast? = some wire ∧ x' = x.claimLast wire

theorem triple_claim_outcome (r : WalTypedExactAppendReservation ι) :
    Triple (fun w' => w' = w) (claimTypedExactAppend r) (fun _ w' => Claimed w.exactView w'.exactView)
      (fun _ w' => w' = w) := by
  unfold claimTypedExactAppend
  refine .get_bind fun w' hw' => ?_
  subst hw'
  have hstay : ∀ w'', w'' = w' → w'' = w' := fun _ h => h
  cases r.state with
  | prepared => exact .throw hstay
  | tentative position expectedGeneration =>
    refine .ite (fun _ => .throw hstay) fun hdrift => ?_
    cases hlast : w'.buffer.exactTypedWireRecords.getLast? with
    | none => exact .throw hstay
    | some wire =>
      refine .ite (fun _ => .throw hstay) fun _ => ?_
      refine .bind (Q := fun _ w'' => Claimed w'.exactView w''.exactView) (Triple.modify fun w'' h => ?_)
        fun _ => .pure fun _ h => h
      subst h
      simp only [settleDrifted, Bool.not_eq_true, decide_eq_false_iff_not, not_or, not_not] at hdrift
      refine ⟨?_, wire, hlast, rfl⟩
      show w''.buffer.typedExactTentativeCount ≠ 0
      omega

theorem Claimed.exactInv (h : Claimed x x') (hx : ExactInv fl x) : ExactInv fl x' := by
  obtain ⟨wire, hlast, rfl⟩ := h.claimed
  have hmem : ∀ w ∈ x.log.wires.dropLast ++ [{ wire with state := .claimedPending }],
      w.state = .claimedPending ∧ ∃ w' ∈ x.log.wires, w'.recordIndex = w.recordIndex ∧
        w'.packedPayload = w.packedPayload := by
    intro w hw
    rcases mem_append.mp hw with hw | hw
    · exact ⟨hx.front w hw, w, mem_of_mem_dropLast hw, rfl, rfl⟩
    · rw [mem_singleton.mp hw]
      exact ⟨rfl, wire, mem_of_getLast? hlast, rfl, rfl⟩
  refine ⟨?_, ?_, ?_, ?_, hx.slots⟩
  · exact fun w hw => (hmem w (mem_of_mem_dropLast hw)).1
  · exact fun _ w hw => (hmem w hw).1
  · intro w hw r hr
    obtain ⟨-, w', hw', hidx, hpay⟩ := hmem w hw
    rw [← hpay]
    exact hx.payload w' hw' r (by rw [hidx]; exact hr)
  · intro w hw
    obtain ⟨-, w', hw', hidx, -⟩ := hmem w hw
    rw [← hidx]
    obtain ⟨hopen, hfits, hbound⟩ := hx.provided w' hw'
    exact ⟨hopen, hfits, hbound⟩

/-- A claim leaves every reservation behind: none was made while the tail was unclaimed. -/
theorem Claimed.reservationInv (h : Claimed x x') (hr : ReservationInv x r) : ReservationInv x' r := by
  obtain ⟨wire, -, rfl⟩ := h.claimed
  refine ⟨hr.generation_le, fun _ hne => absurd rfl hne, fun hl => ?_⟩
  have hlt := hr.generation_lt hl.1 h.tentatives_ne
  exact absurd hl.2.2 (Nat.ne_of_lt hlt)

end ThunderboltDb.Wal
