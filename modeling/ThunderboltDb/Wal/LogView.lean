import ThunderboltDb.Wal.WalSystem

/-!
# The representation invariant of the serial WAL

`LogView` is the part of a WAL state that says what the segment file holds: the records, the exact
wire owners, the file and the counters of the durable core. `LogInv fl f v` is the representation
invariant with `fl` the job in flight and `f` the durable watermark:

* the segment base, the watermark and the record count are ordered;
* an open file is the magic, the encoding of the flushed records behind the base, the bytes the job
  has written so far, and zeros up to the preallocated length and possibly beyond it;
* a job's bytes are the encoding of the records from the watermark to its target;
* exact wire owners are sorted, lie behind everything handed to a job and hold the encoding of their
  record.

Each update that a WAL function makes to the view has one lemma here.
-/

namespace ThunderboltDb.Wal

open Lib List

variable {wire : ExactTypedWireRecord}

/-- What a WAL state says about the log and its file. -/
structure LogView where
  records : List WalRecord
  wires : List ExactTypedWireRecord
  segment : Option Bytes
  fileOpen : Bool
  prealloc : ℕ
  durable : ℕ
  flushed : ℕ
  base : ℕ
  ioInFlight : Bool

def WalState.view {ι : Type} (w : WalState ι) : LogView where
  records := w.buffer.records
  wires := w.buffer.exactTypedWireRecords
  segment := w.disk.segment
  fileOpen := w.core.fileOpen
  prealloc := w.core.preallocBytes
  durable := w.core.durableBytes
  flushed := w.core.flushedRecords
  base := w.core.segmentBaseRecords
  ioInFlight := w.core.ioInFlight

/-- The log with what decides whether the next flush goes through: the unclaimed tail, the generation that
reservations are compared with, the descriptor slots and the two poison flags. -/
structure ExactView where
  log : LogView
  tentatives : ℕ
  generation : ℕ
  slots : List GroupSlotState
  poisoned : Option String
  fixedFault : Option DurabilityFault

def WalState.exactView {ι : Type} (w : WalState ι) : ExactView where
  log := w.view
  tentatives := w.buffer.typedExactTentativeCount
  generation := w.buffer.generation
  slots := w.buffer.preparedGroupArena.slots
  poisoned := w.core.poisoned
  fixedFault := w.core.fixedFault

/-- The records from position `lo` up to `hi`. -/
def recordRange (records : List WalRecord) (lo hi : ℕ) : List WalRecord := (records.take hi).drop lo

/-- The flushed records that the live segment holds. -/
def LogView.live (v : LogView) : List WalRecord := recordRange v.records v.base v.flushed

section

variable (fl : Option FlushProgress)

/-- Where the next group starts: behind the job in flight, if there is one. -/
def frontier (flushed : ℕ) : ℕ :=
  match fl with
  | none => flushed
  | some p => p.job.targetRecords

/-- The bytes a job has put behind the durable bytes. -/
def pendingBytes : Bytes :=
  match fl with
  | none => []
  | some p => p.job.group.bytes.take p.written

/-- Exact wire owners: sorted, behind the frontier, with their record's encoding. -/
structure WiresInv (records : List WalRecord) (lo : ℕ) (wires : List ExactTypedWireRecord) : Prop where
  sorted : wires.Pairwise fun a b => a.recordIndex < b.recordIndex
  lower : ∀ wire ∈ wires, lo ≤ wire.recordIndex
  upper : ∀ wire ∈ wires, wire.recordIndex < records.length
  encoded : ∀ wire ∈ wires, ∀ r, records[wire.recordIndex]? = some r →
    wire.serializedRecord = encodedRecord r

/-- The segment file, once it is open. -/
structure FileInv (fl : Option FlushProgress) (v : LogView) : Prop where
  durable_eq : v.durable = 10 + (encodedRecords v.live).length
  image : ∃ n beyond, v.segment = some (walSegmentMagic ++ encodedRecords v.live ++ pendingBytes fl ++
    zeros n ++ zeros beyond) ∧ v.prealloc = v.durable + (pendingBytes fl).length + n

/-- A closed file holds nothing of the log. -/
structure ClosedInv (v : LogView) : Prop where
  durable_eq : v.durable = 0
  prealloc_eq : v.prealloc = 0
  base_eq : v.base = v.flushed

/-- The job in flight was formed at the watermark and fits the preallocated extent. -/
structure JobInv (p : FlushProgress) (v : LogView) : Prop where
  inFlight : v.ioInFlight = true
  fileOpen : v.fileOpen = true
  offset_eq : p.job.offset = v.durable
  flushed_lt : v.flushed < p.job.targetRecords
  target_le : p.job.targetRecords ≤ v.records.length
  bytes_eq : p.job.group.bytes = encodedRecords (recordRange v.records v.flushed p.job.targetRecords)
  wireBytes_eq : p.job.group.wireBytes = p.job.group.bytes.length
  fits : v.durable + p.job.group.wireBytes ≤ v.prealloc
  written_le : p.written ≤ p.job.group.wireBytes
  written_eq : p.synced = true → p.written = p.job.group.wireBytes

def FlightInv (v : LogView) : Prop :=
  match fl with
  | none => v.ioInFlight = false
  | some p => JobInv p v

end

open ClosedInv

structure LogInv (fl : Option FlushProgress) (f : ℕ) (v : LogView) : Prop where
  flushed_eq : v.flushed = f
  base_le : v.base ≤ v.flushed
  flushed_le : v.flushed ≤ v.records.length
  wires : WiresInv v.records (frontier fl v.flushed) v.wires
  opened : v.fileOpen = true → FileInv fl v
  closed : v.fileOpen = false → ClosedInv v
  flight : FlightInv fl v

/-! ### Record ranges -/

theorem recordRange_self (records : List WalRecord) (n : ℕ) : recordRange records n n = [] := by
  simp [recordRange]

variable {records : List WalRecord} {hi : ℕ} {len : ℕ}

theorem recordRange_append_right (lo : ℕ) (more : List WalRecord) (h : hi ≤ records.length) :
    recordRange (records ++ more) lo hi = recordRange records lo hi := by
  rw [recordRange, recordRange, take_append_of_le_length h]

theorem recordRange_take (lo : ℕ) (h : hi ≤ len) :
    recordRange (records.take len) lo hi = recordRange records lo hi := by
  rw [recordRange, recordRange, take_take, min_eq_left h]

theorem recordRange_append {lo mid : ℕ} (hlo : lo ≤ mid) (hmid : mid ≤ hi) (hhi : hi ≤ records.length) :
    recordRange records lo hi = recordRange records lo mid ++ recordRange records mid hi := by
  have hsplit : records.take hi = records.take mid ++ (records.take hi).drop mid := by
    rw [← take_append_drop mid (records.take hi), take_take, min_eq_left hmid,
      drop_append_of_le_length (by simp; omega)]
    simp
  have hlen : lo ≤ (records.take mid).length := by
    rw [length_take]
    omega
  rw [recordRange, hsplit, drop_append_of_le_length hlen, recordRange, recordRange]

theorem sum_encodedRecordLen (rs : List WalRecord) :
    (rs.map encodedRecordLen).sum = (encodedRecords rs).length := by
  induction rs with
  | nil => rfl
  | cons r rs ih => simp [ih]

/-! ### Wire owners -/

namespace WiresInv

variable {records : List WalRecord} {lo : ℕ} {wires : List ExactTypedWireRecord}

theorem sublist {wires' : List ExactTypedWireRecord} (h : WiresInv records lo wires)
    (hs : wires'.Sublist wires) : WiresInv records lo wires' :=
  ⟨h.sorted.sublist hs, fun w hw => h.lower w (hs.subset hw), fun w hw => h.upper w (hs.subset hw),
    fun w hw => h.encoded w (hs.subset hw)⟩

section

variable (h : WiresInv records lo wires)
include h

theorem push (r : WalRecord) : WiresInv (records ++ [r]) lo wires := by
  refine ⟨h.sorted, h.lower, fun w hw => ?_, fun w hw r' hr' => ?_⟩
  · rw [length_append]
    have := h.upper w hw
    omega
  · rw [getElem?_append_left (h.upper w hw)] at hr'
    exact h.encoded w hw r' hr'

theorem pushWire (r : WalRecord) (hlo : lo ≤ records.length) (hidx : wire.recordIndex = records.length)
    (henc : wire.serializedRecord = encodedRecord r) :
    WiresInv (records ++ [r]) lo (wires ++ [wire]) := by
  have hp := h.push r
  refine ⟨?_, ?_, ?_, ?_⟩
  · rw [pairwise_append]
    refine ⟨h.sorted, pairwise_singleton _ _, fun a ha b hb => ?_⟩
    rw [mem_singleton.mp hb, hidx]
    exact h.upper a ha
  · intro w hw
    rcases mem_append.mp hw with hw | hw
    · exact h.lower w hw
    · rw [mem_singleton.mp hw, hidx]
      exact hlo
  · intro w hw
    rcases mem_append.mp hw with hw | hw
    · exact hp.upper w hw
    · rw [mem_singleton.mp hw, hidx]
      simp
  · intro w hw r' hr'
    rcases mem_append.mp hw with hw | hw
    · exact hp.encoded w hw r' hr'
    · rw [mem_singleton.mp hw] at hr' ⊢
      rw [hidx, getElem?_concat_length] at hr'
      rw [henc, Option.some.inj hr']

/-- Cutting the records behind every owner keeps the owners. -/
theorem take (hlt : ∀ wire ∈ wires, wire.recordIndex < len) : WiresInv (records.take len) lo wires := by
  refine ⟨h.sorted, h.lower, fun w hw => ?_, fun w hw r' hr' => ?_⟩
  · rw [length_take]
    exact lt_min (hlt w hw) (h.upper w hw)
  · rw [getElem?_take_of_lt (hlt w hw)] at hr'
    exact h.encoded w hw r' hr'

/-- The owners of a sorted list from the first one at or behind `target` on. -/
theorem dropWhile (target : ℕ) : WiresInv records target (wires.dropWhile fun w => w.recordIndex < target) := by
  have hsub := dropWhile_sublist (fun w : ExactTypedWireRecord => decide (w.recordIndex < target)) (l := wires)
  have hs := h.sublist hsub
  refine ⟨hs.sorted, ?_, hs.upper, hs.encoded⟩
  intro w hw
  cases hd : wires.dropWhile fun w => w.recordIndex < target with
  | nil => rw [hd] at hw; cases hw
  | cons a rest =>
    -- the head fails the test, and everything behind it is larger
    have hhead : ¬ a.recordIndex < target := by
      have := dropWhile_get_zero_not (fun w : ExactTypedWireRecord => decide (w.recordIndex < target))
        wires (by rw [hd]; simp)
      simpa [hd] using this
    rw [hd] at hw
    have hsorted := hs.sorted
    rw [hd, pairwise_cons] at hsorted
    rcases mem_cons.mp hw with rfl | hmem
    · omega
    · have := hsorted.1 w hmem
      omega

end

end WiresInv

/-! ### Positional writes -/

theorem writeAt_append (a c bytes : Bytes) :
    writeAt (a ++ c) a.length bytes = a ++ bytes ++ c.drop bytes.length := by
  have hpad : a.length - (a ++ c).length = 0 := by
    rw [length_append]
    omega
  rw [writeAt, hpad]
  simp [zeros, drop_append]

/-! ### Updates of the view -/

theorem ClosedInv.of_open {v : LogView} (h : v.fileOpen = true) : v.fileOpen = false → ClosedInv v :=
  fun hc => Bool.noConfusion (h.symm.trans hc)

namespace LogInv

variable {fl : Option FlushProgress} {f : ℕ} {v : LogView}

section

variable (h : LogInv fl f v)
include h

theorem flushed_le_frontier : v.flushed ≤ frontier fl v.flushed := by
  cases fl with
  | none => exact le_rfl
  | some p => exact le_of_lt h.flight.flushed_lt

theorem frontier_le : frontier fl v.flushed ≤ v.records.length := by
  cases fl with
  | none => exact h.flushed_le
  | some p => exact h.flight.target_le

variable {wires : List ExactTypedWireRecord}

/-- Records and owners may change behind the frontier. -/
theorem setRecords (hagree : ∀ lo hi, hi ≤ frontier fl v.flushed →
      recordRange records lo hi = recordRange v.records lo hi)
    (hlen : frontier fl v.flushed ≤ records.length)
    (hw : WiresInv records (frontier fl v.flushed) wires) :
    LogInv fl f { v with records := records, wires := wires } := by
  have hlive : LogView.live { v with records := records, wires := wires } = v.live :=
    hagree v.base v.flushed h.flushed_le_frontier
  refine ⟨h.flushed_eq, h.base_le, le_trans h.flushed_le_frontier hlen, hw, ?_, ?_, ?_⟩
  · intro ho
    obtain ⟨hd, himage⟩ := h.opened ho
    exact ⟨by rw [hlive]; exact hd, by rw [hlive]; exact himage⟩
  · intro hc
    obtain ⟨hd, hp, hb⟩ := h.closed hc
    exact ⟨hd, hp, hb⟩
  · cases fl with
    | none => exact h.flight
    | some p =>
      have hj : JobInv p v := h.flight
      exact { hj with
        target_le := hlen
        bytes_eq := by rw [hj.bytes_eq]; exact congrArg _ (hagree _ _ le_rfl).symm }

theorem push (r : WalRecord) : LogInv fl f { v with records := v.records ++ [r] } := by
  have hle := h.frontier_le
  refine h.setRecords (fun lo hi hhi => recordRange_append_right lo [r] (by omega)) ?_ (h.wires.push r)
  rw [length_append]
  omega

theorem pushWire (r : WalRecord)
    (hidx : wire.recordIndex = v.records.length) (henc : wire.serializedRecord = encodedRecord r) :
    LogInv fl f { v with records := v.records ++ [r], wires := v.wires ++ [wire] } := by
  have hle := h.frontier_le
  refine h.setRecords (fun lo hi hhi => recordRange_append_right lo [r] (by omega)) ?_
    (h.wires.pushWire r hle hidx henc)
  rw [length_append]
  omega

/-- The tail may be cut down to the frontier, as long as no owner is cut off. -/
theorem take (hsub : wires.Sublist v.wires) (hlen : frontier fl v.flushed ≤ len)
    (hlt : ∀ wire ∈ wires, wire.recordIndex < len) :
    LogInv fl f { v with records := v.records.take len, wires := wires } := by
  have hle := h.frontier_le
  refine h.setRecords (fun lo hi hhi => recordRange_take lo (by omega)) ?_ ((h.wires.sublist hsub).take hlt)
  rw [length_take]
  omega

/-- The last record is popped together with its owner. -/
theorem pop (hlast : v.wires.getLast? = some wire) (hidx : wire.recordIndex + 1 = v.records.length) :
    LogInv fl f { v with records := v.records.dropLast, wires := v.wires.dropLast } := by
  obtain ⟨front, hfront⟩ : ∃ front, v.wires = front ++ [wire] := by
    rw [getLast?_eq_some_iff] at hlast
    exact hlast
  have hmem : wire ∈ v.wires := by rw [hfront]; simp
  have hdrop : v.wires.dropLast = front := by rw [hfront]; simp
  have hsorted := h.wires.sorted
  rw [hfront, pairwise_append] at hsorted
  rw [dropLast_eq_take]
  refine h.take ?_ ?_ ?_
  · exact dropLast_sublist _
  · have := h.wires.lower wire hmem
    omega
  · intro w hw
    rw [hdrop] at hw
    have := hsorted.2.2 w hw wire (by simp)
    omega

/-- An owner's lifecycle state is not part of the representation. -/
theorem claimLast (state : ExactTypedWireState) (hlast : v.wires.getLast? = some wire) :
    LogInv fl f { v with wires := v.wires.dropLast ++ [{ wire with state := state }] } := by
  obtain ⟨front, hfront⟩ : ∃ front, v.wires = front ++ [wire] := by
    rw [getLast?_eq_some_iff] at hlast
    exact hlast
  have hmem : ∀ w ∈ v.wires.dropLast ++ [{ wire with state := state }],
      ∃ w' ∈ v.wires, w'.recordIndex = w.recordIndex ∧ w'.serializedRecord = w.serializedRecord := by
    intro w hw
    rw [hfront] at hw ⊢
    simp only [dropLast_concat, mem_append, mem_singleton] at hw
    rcases hw with hw | rfl
    · exact ⟨w, by simp [hw], rfl, rfl⟩
    · exact ⟨wire, by simp, rfl, rfl⟩
  refine h.setRecords (fun _ _ _ => rfl) h.frontier_le ⟨?_, ?_, ?_, ?_⟩
  · have hsorted := h.wires.sorted
    rw [hfront] at hsorted ⊢
    rw [dropLast_concat, pairwise_append] at *
    refine ⟨hsorted.1, pairwise_singleton _ _, fun a ha b hb => ?_⟩
    rw [mem_singleton.mp hb]
    exact hsorted.2.2 a ha wire (by simp)
  · intro w hw
    obtain ⟨w', hw', hidx, -⟩ := hmem w hw
    rw [← hidx]
    exact h.wires.lower w' hw'
  · intro w hw
    obtain ⟨w', hw', hidx, -⟩ := hmem w hw
    rw [← hidx]
    exact h.wires.upper w' hw'
  · intro w hw r hr
    obtain ⟨w', hw', hidx, hser⟩ := hmem w hw
    rw [← hidx] at hr
    rw [← hser]
    exact h.wires.encoded w' hw' r hr

theorem dropWires (hsub : wires.Sublist v.wires) : LogInv fl f { v with wires := wires } :=
  h.setRecords (fun _ _ _ => rfl) h.frontier_le (h.wires.sublist hsub)

/-- The file is created with the magic and the first zero chunk. -/
theorem create (hclosed : v.fileOpen = false) {chunk : ℕ} (hchunk : 10 ≤ chunk) :
    LogInv fl f { v with segment := some (walSegmentMagic ++ zeros (chunk - 10)), fileOpen := true,
                         prealloc := chunk, durable := 10 } := by
  obtain ⟨-, -, hbase⟩ := h.closed hclosed
  have hlive : recordRange v.records v.base v.flushed = [] := by rw [hbase, recordRange_self]
  cases fl with
  | some p =>
    have hj : JobInv p v := h.flight
    rw [hj.fileOpen] at hclosed
    cases hclosed
  | none =>
    refine ⟨h.flushed_eq, h.base_le, h.flushed_le, h.wires, fun _ => ⟨?_, chunk - 10, 0, ?_, ?_⟩,
      of_open rfl, h.flight⟩
    · simp [LogView.live, hlive]
    · simp [LogView.live, hlive, pendingBytes]
    · simp only [pendingBytes, length_nil]
      omega

/-- Zeros written from the preallocated length on. -/
theorem writeBehind (hopen : v.fileOpen = true) (k : ℕ) :
    LogInv fl f { v with segment := some (writeAt (v.segment.getD []) v.prealloc (zeros k)) } := by
  obtain ⟨hdur, n, beyond, hseg, hpre⟩ := h.opened hopen
  refine { h with
      opened := fun _ => ⟨hdur, n, k + (beyond - k), ?_, hpre⟩,
      closed := of_open hopen,
      flight := ?_ }
  · have hlen : (walSegmentMagic ++ encodedRecords v.live ++ pendingBytes fl ++ zeros n).length = v.prealloc := by
      simp only [length_append, length_walSegmentMagic, length_zeros, hpre, hdur]
    simp only [hseg, Option.getD_some]
    rw [← hlen, writeAt_append, length_zeros, drop_zeros, append_assoc _ (zeros k), ← zeros_add]
    rfl
  · cases fl with
    | none => exact h.flight
    | some p =>
      have hj : JobInv p v := h.flight
      exact { hj with }

/-- The preallocated extent grows by zeros. -/
theorem extend (hopen : v.fileOpen = true) {upTo : ℕ} (hle : v.prealloc ≤ upTo) : LogInv fl f { v with
      segment := some (writeAt (v.segment.getD []) v.prealloc (zeros (upTo - v.prealloc))),
      prealloc := upTo } := by
  obtain ⟨hdur, n, beyond, hseg, hpre⟩ := h.opened hopen
  refine { h with
    opened := fun _ => ⟨hdur, n + (upTo - v.prealloc), beyond - (upTo - v.prealloc), ?_, ?_⟩,
    closed := of_open hopen, flight := ?_ }
  · have hlen : (walSegmentMagic ++ encodedRecords v.live ++ pendingBytes fl ++ zeros n).length = v.prealloc := by
      simp only [length_append, length_walSegmentMagic, length_zeros, hpre, hdur]
    simp only [hseg, Option.getD_some, zeros_add]
    rw [← hlen, writeAt_append, length_zeros, drop_zeros, ← append_assoc _ (zeros n)]
    rfl
  · show upTo = v.durable + (pendingBytes fl).length + (n + (upTo - v.prealloc))
    omega
  · cases fl with
    | none => exact h.flight
    | some p =>
      have hj : JobInv p v := h.flight
      exact { hj with fits := le_trans hj.fits hle }

end

/-- A group is handed to a job: its owners leave the list, nothing is written yet. -/
theorem handoff (h : LogInv none f v) (hopen : v.fileOpen = true) (job : SerialFlushJob)
    (hoff : job.offset = v.durable) (hlt : v.flushed < job.targetRecords)
    (hle : job.targetRecords ≤ v.records.length)
    (hbytes : job.group.bytes = encodedRecords (recordRange v.records v.flushed job.targetRecords))
    (hwire : job.group.wireBytes = job.group.bytes.length)
    (hfits : v.durable + job.group.wireBytes ≤ v.prealloc) :
    LogInv (some ⟨job, 0, false⟩) f { v with
      wires := v.wires.dropWhile fun w => w.recordIndex < job.targetRecords, ioInFlight := true } := by
  obtain ⟨hdur, n, beyond, hseg, hpre⟩ := h.opened hopen
  refine ⟨h.flushed_eq, h.base_le, h.flushed_le, h.wires.dropWhile _,
    fun _ => ⟨hdur, n, beyond, ?_, ?_⟩, of_open hopen, ?_⟩
  · rw [hseg]
    simp [pendingBytes, LogView.live]
  · rw [hpre]
    simp [pendingBytes]
  · exact ⟨rfl, hopen, hoff, hlt, hle, hbytes, hwire, hfits, Nat.zero_le _, fun hs => by cases hs⟩

section

variable {p : FlushProgress} (h : LogInv (some p) f v)
include h

/-- One successful `pwritev` of the next bytes of the group. -/
theorem jobWrite {k : ℕ} (hk : p.written + k ≤ p.job.group.wireBytes) (hs : p.synced = false) :
    LogInv (some { p with written := p.written + k }) f { v with
      segment := some (writeAt (v.segment.getD []) (p.job.offset + p.written)
        ((p.job.group.bytes.drop p.written).take k)) } := by
  have hj : JobInv p v := h.flight
  obtain ⟨hdur, n, beyond, hseg, hpre⟩ := h.opened hj.fileOpen
  have hwl := hj.wireBytes_eq
  have hpend : (p.job.group.bytes.take p.written).length = p.written := by
    rw [length_take]
    omega
  have hchunk : ((p.job.group.bytes.drop p.written).take k).length = k := by
    rw [length_take, length_drop]
    omega
  have hzeros : k ≤ n := by
    have hfits := hj.fits
    simp only [pendingBytes, hpend] at hpre
    omega
  refine { h with
    wires := h.wires,
    opened := fun _ => ⟨hdur, n - k, beyond, ?_, ?_⟩,
    closed := of_open hj.fileOpen,
    flight := ⟨hj.inFlight, hj.fileOpen, hj.offset_eq, hj.flushed_lt, hj.target_le, hj.bytes_eq,
      hj.wireBytes_eq, hj.fits, hk, fun hc => absurd (hs.symm.trans hc) (by simp)⟩ }
  · have hlen : (walSegmentMagic ++ encodedRecords v.live ++ p.job.group.bytes.take p.written).length =
        p.job.offset + p.written := by
      simp only [length_append, length_walSegmentMagic, hpend, hj.offset_eq, hdur]
    have hsplit : p.job.group.bytes.take (p.written + k) =
        p.job.group.bytes.take p.written ++ (p.job.group.bytes.drop p.written).take k := take_add
    have hz : (zeros n ++ zeros beyond).drop k = zeros (n - k) ++ zeros beyond := by
      rw [drop_append_of_le_length (by simpa using hzeros), drop_zeros]
    simp only [hseg, Option.getD_some, pendingBytes]
    rw [← hlen, append_assoc _ (zeros n), writeAt_append, hchunk, hz, hsplit]
    simp only [append_assoc]
    rfl
  · simp only [pendingBytes, hpend] at hpre
    have hnew : (p.job.group.bytes.take (p.written + k)).length = p.written + k := by
      rw [length_take]
      omega
    simp only [pendingBytes, hnew]
    omega

theorem jobSync (hw : p.written = p.job.group.wireBytes) : LogInv (some { p with synced := true }) f v := by
  have hj : JobInv p v := h.flight
  exact { h with
    wires := h.wires, opened := fun ho => ⟨(h.opened ho).1, (h.opened ho).2⟩,
    flight := ({ hj with written_eq := fun _ => hw } : JobInv { p with synced := true } v) }

/-- A written and synced group moves the watermark and the durable bytes behind it. -/
theorem commit (hs : p.synced = true) : LogInv none p.job.targetRecords { v with
      durable := p.job.offset + p.job.group.wireBytes, flushed := p.job.targetRecords,
      ioInFlight := false } := by
  have hj : JobInv p v := h.flight
  obtain ⟨hdur, n, beyond, hseg, hpre⟩ := h.opened hj.fileOpen
  have hpend : pendingBytes (some p) = p.job.group.bytes := by
    rw [pendingBytes, hj.written_eq hs, hj.wireBytes_eq, take_length]
  have hlive : recordRange v.records v.base p.job.targetRecords =
      v.live ++ recordRange v.records v.flushed p.job.targetRecords :=
    recordRange_append h.base_le (le_of_lt hj.flushed_lt) hj.target_le
  have henc : encodedRecords (recordRange v.records v.base p.job.targetRecords) =
      encodedRecords v.live ++ p.job.group.bytes := by
    rw [hlive, encodedRecords_append, hj.bytes_eq]
  have hw := hj.wireBytes_eq
  refine ⟨rfl, le_trans h.base_le (le_of_lt hj.flushed_lt), hj.target_le, h.wires,
    fun _ => ⟨?_, n, beyond, ?_, ?_⟩, of_open hj.fileOpen, rfl⟩
  · show p.job.offset + p.job.group.wireBytes =
      10 + (encodedRecords (recordRange v.records v.base p.job.targetRecords)).length
    rw [henc, length_append, hj.offset_eq]
    omega
  · show v.segment = some (walSegmentMagic ++
      encodedRecords (recordRange v.records v.base p.job.targetRecords) ++ [] ++ zeros n ++ zeros beyond)
    rw [hseg, hpend, henc, append_nil, append_assoc walSegmentMagic]
  · simp only [hpend] at hpre
    simp only [pendingBytes, length_nil, hj.offset_eq]
    omega

end

/-- The live segment is rewritten from a later base. -/
theorem rewrite (h : LogInv none f v) (base upTo : ℕ) (hb : base ≤ v.flushed)
    (hup : 10 + (encodedRecords (recordRange v.records base v.flushed)).length ≤ upTo) :
    LogInv none f { v with
      base := base, fileOpen := true,
      durable := 10 + (encodedRecords (recordRange v.records base v.flushed)).length,
      prealloc := upTo,
      segment := some (walSegmentMagic ++ encodedRecords (recordRange v.records base v.flushed) ++
        zeros (upTo - (10 + (encodedRecords (recordRange v.records base v.flushed)).length))) } := by
  refine ⟨h.flushed_eq, hb, h.flushed_le, h.wires,
    fun _ => ⟨rfl, upTo - (10 + (encodedRecords (recordRange v.records base v.flushed)).length), 0, ?_, ?_⟩,
    of_open rfl, h.flight⟩
  · simp [LogView.live, pendingBytes]
  · simp only [pendingBytes, length_nil]
    omega

end LogInv

end ThunderboltDb.Wal
