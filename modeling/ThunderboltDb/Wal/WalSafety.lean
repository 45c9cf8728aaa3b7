import ThunderboltDb.Wal.WalInvariant

/-!
# WAL-before-visibility for the serial WAL

The representation invariant holds in every state that a run of the WAL system reaches without an I/O
error poisoning the core, and the durable watermark only ever moves when a job commits whose write and
`fdatasync` both succeeded (`walSystem_representation`).

Two things bound the statement. A segment file does not exist before the first flush or reservation:
until then no byte is durable and the file holds none of the records. And a caller that truncates the
unflushed tail must not cut into the group in flight: the comment in `truncate` says that its callers
only cut what they appended in the same critical section, the code does not test it.
`truncate_into_group_overruns` is a run that breaks the contract.
-/

namespace ThunderboltDb.Wal

open Lib WalSystem

variable {ι : Type} {s s' : WalSystem ι} {fl : Option FlushProgress}

/-! ### The invariant -/

/-- The invariant of a system state. -/
def SysInv (s : WalSystem ι) : Prop := LogInv s.flight s.wal.core.flushedRecords s.wal.view

theorem LogInv.sysInv {f : ℕ} (h : LogInv s.flight f s.wal.view) : SysInv s := by
  have hf : s.wal.core.flushedRecords = f := h.flushed_eq
  rw [SysInv, hf]
  exact h

theorem SysInv.log (h : SysInv s) (hfl : s.flight = fl) : LogInv fl s.wal.core.flushedRecords s.wal.view := by
  rwa [SysInv, hfl] at h

theorem SysInv.job {p : FlushProgress} (h : SysInv s) (hfl : s.flight = some p) : JobInv p s.wal.view :=
  (h.log hfl).flight

instance (w : WalState ι) : Decidable (Poisoned w) := inferInstanceAs (Decidable (_ ∨ _))

/-! ### Initial states -/

theorem sysInv_recovered (env : WalEnv ι) (ownerId : ℕ) (path : String) (records : List WalRecord)
    (recovery : WalSegmentRecovery) (identity : Option ι) (disk : WalDisk ι)
    (hrec : recoverWalSegment path ⟨disk.segment, disk.tail⟩ = .ok recovery)
    (hsuffix : recovery.records <:+ records) :
    SysInv ⟨withRecoveredDurableSegment env ownerId path records recovery identity disk, none, []⟩ := by
  have hlive : recordRange records (records.length - recovery.records.length) records.length =
      recovery.records := by
    rw [recordRange, List.take_length]
    exact (List.suffix_iff_eq_drop.mp hsuffix).symm
  have hwires : WiresInv records records.length [] := ⟨List.Pairwise.nil, by simp, by simp, by simp⟩
  rcases recoverWalSegment_sound hrec with ⟨hvalid, hnil⟩ | ⟨rest, hseg, hvalid, -⟩
  · refine ⟨rfl, ?_, le_rfl, hwires, fun ho => ?_, fun _ => ⟨hvalid, ?_, ?_⟩, rfl⟩
    · simp [withRecoveredDurableSegment, WalState.view]
    · simp [withRecoveredDurableSegment, WalState.view, hvalid] at ho
    · simp [withRecoveredDurableSegment, WalState.view, hvalid]
    · simp [withRecoveredDurableSegment, WalState.view, hnil]
  · have hpos : 0 < recovery.validBytes := by omega
    have htake : disk.bytes.take recovery.validBytes = walSegmentMagic ++ encodedRecords recovery.records := by
      rw [WalDisk.bytes, show disk.segment = _ from hseg, Option.getD_some]
      exact List.take_left' (by rw [List.length_append, length_walSegmentMagic, hvalid])
    refine ⟨rfl, ?_, le_rfl, hwires, fun _ => ⟨?_, ?_⟩, fun hc => ?_, rfl⟩
    · simp [withRecoveredDurableSegment, WalState.view]
    · show recovery.validBytes = 10 + (encodedRecords (recordRange records
        (records.length - recovery.records.length) records.length)).length
      rw [hlive, hvalid]
    · generalize hto : max (max recovery.validBytes env.walPreallocChunkBytes)
        (recovery.validBytes + env.walPreallocChunkBytes / 2) = preallocTo
      refine ⟨preallocTo - recovery.validBytes, 0, ?_, ?_⟩
      · have hfill := writeAt_append (walSegmentMagic ++ encodedRecords recovery.records) []
          (zeros (preallocTo - recovery.validBytes))
        rw [List.append_nil, List.drop_nil, List.append_nil, List.length_append,
          length_walSegmentMagic, ← hvalid] at hfill
        simp only [withRecoveredDurableSegment, WalState.view, LogView.live, hpos, decide_true, if_true,
          hlive, pendingBytes, List.append_nil, zeros_zero, zeroFillExtend, htake, hto, hfill]
      · simp only [withRecoveredDurableSegment, WalState.view, hpos, decide_true, if_true, pendingBytes,
          List.length_nil, hto]
        omega
    · simp [withRecoveredDurableSegment, WalState.view, hpos] at hc

theorem sysInv_of_init (env : WalEnv ι) (h : WalInit env s) : SysInv s := by
  cases h with
  | fresh ownerId path identity disk =>
    refine ⟨rfl, le_rfl, le_rfl, ⟨List.Pairwise.nil, ?_, ?_, ?_⟩, fun ho => ?_, fun _ => ⟨rfl, rfl, rfl⟩,
      rfl⟩
    · exact fun _ hw => absurd hw (List.not_mem_nil)
    · exact fun _ hw => absurd hw (List.not_mem_nil)
    · exact fun _ hw => absurd hw (List.not_mem_nil)
    · cases ho
  | recovered ownerId path records recovery identity disk hrec hsuffix =>
    exact sysInv_recovered env ownerId path records recovery identity disk hrec hsuffix

/-! ### One step -/

/-- A commit of a written and synced job. -/
def CommitsSynced (s : WalSystem ι) (a : WalAction ι) : Prop :=
  a = .jobCommit ∧ ∃ p, s.flight = some p ∧ p.synced = true ∧ p.written = p.job.group.wireBytes

/-- What a step may leave: a poisoned core, or the invariant with the watermark where it was, unless
the step is the commit of a synced job. -/
def StepOutcome (s : WalSystem ι) (a : WalAction ι) (s' : WalSystem ι) : Prop :=
  Poisoned s'.wal ∨
    (SysInv s' ∧ (s'.wal.core.flushedRecords = s.wal.core.flushedRecords ∨ CommitsSynced s a))

variable {a : WalAction ι} {α : Type} {P : WalState ι → Prop} {E : CallFailure → WalState ι → Prop}
  {k : α → WalSystem ι → WalSystem ι} {Q : α → WalState ι → Prop}

theorem StepOutcome.keep (h : LogInv s'.flight s.wal.core.flushedRecords s'.wal.view) : StepOutcome s a s' :=
  .inr ⟨h.sysInv, .inl h.flushed_eq⟩

/-- The length a truncation cuts the log to. -/
def WalAction.cut : WalAction ι → Option ℕ
  | .truncate _ len => some len
  | _ => none

/-- A truncation cuts at or behind everything handed to a job. -/
def SparesFlight (s : WalSystem ι) (a : WalAction ι) : Prop :=
  ∀ len ∈ a.cut, frontier s.flight s.wal.core.flushedRecords ≤ len

theorem call_cases {m : WalM ι α} (h : Triple P m Q E) (hs : P s.wal) (hcall : s.call m k = some s') :
    (∃ a w, Q a w ∧ s' = k a { s with wal := w }) ∨ (∃ e w, E (.error e) w ∧ s' = { s with wal := w }) := by
  have hm := h s.wal hs
  rw [call] at hcall
  cases hres : m s.wal with
  | ok a w =>
    rw [hres] at hcall hm
    exact .inl ⟨a, w, hm, (Option.some.inj hcall).symm⟩
  | error e w =>
    rw [hres] at hcall hm
    cases e with
    | error e => exact .inr ⟨_, w, hm, (Option.some.inj hcall).symm⟩
    | panic message | blocked => cases hcall

/-- A call that keeps the invariant and changes nothing else. -/
theorem stepOutcome_of_keeps {m : WalM ι α} (hk : ∀ x s, (k x s).wal = s.wal ∧ (k x s).flight = s.flight)
    (h : Keeps s.flight s.wal.core.flushedRecords m) (hs : SysInv s)
    (hcall : s.call m k = some s') : StepOutcome s a s' := by
  rcases call_cases h hs hcall with ⟨x, w, hw, rfl⟩ | ⟨e, w, hw, rfl⟩
  · refine .keep ?_
    rw [(hk x _).1, (hk x _).2]
    exact hw
  · exact .keep hw

variable {i : ℕ} {m : ReservationM ι Unit}

/-- A call on a reservation, by what its two ways of returning leave. -/
theorem callReservation_cases {P : WalState ι × WalTypedExactAppendReservation ι → Prop}
    {Q : WalTypedExactAppendReservation ι → Unit → WalState ι × WalTypedExactAppendReservation ι → Prop}
    {E : WalTypedExactAppendReservation ι → CallFailure → WalState ι × WalTypedExactAppendReservation ι →
      Prop}
    (h : ∀ r, Triple (fun t => t = (s.wal, r) ∧ P t) m (Q r) (E r))
    (hs : ∀ r ∈ s.reservations, P (s.wal, r)) (hcall : s.callReservation i m = some s') :
    ∃ r ∈ s.reservations, ∃ w r', s' = { s with wal := w, reservations := s.reservations.set i r' } ∧
      (Q r () (w, r') ∨ ∃ e, E r (.error e) (w, r')) := by
  rw [callReservation] at hcall
  cases hr : s.reservations[i]? with
  | none => rw [hr] at hcall; cases hcall
  | some r =>
    rw [hr] at hcall
    dsimp only at hcall
    have hmem : r ∈ s.reservations := List.mem_of_getElem? hr
    have hm := h r (s.wal, r) ⟨rfl, hs r hmem⟩
    cases hres : m (s.wal, r) with
    | ok x t =>
      rw [hres] at hcall hm
      exact ⟨r, hmem, t.1, t.2, (Option.some.inj hcall).symm, .inl hm⟩
    | error e t =>
      rw [hres] at hcall hm
      cases e with
      | error e => exact ⟨r, hmem, t.1, t.2, (Option.some.inj hcall).symm, .inr ⟨e, hm⟩⟩
      | panic message | blocked => cases hcall

theorem stepOutcome_of_reservation (h : Triple (fun t => LogInv s.flight s.wal.core.flushedRecords t.1.view) m
      (fun _ t => LogInv s.flight s.wal.core.flushedRecords t.1.view)
      (fun _ t => LogInv s.flight s.wal.core.flushedRecords t.1.view))
    (hs : SysInv s) (hcall : s.callReservation i m = some s') : StepOutcome s a s' := by
  obtain ⟨r, -, w, r', rfl, hw | ⟨e, hw⟩⟩ := callReservation_cases
    (fun _ => h.conseq (fun _ ht => ht.2) (fun _ _ ht => ht) fun _ _ ht => ht) (fun _ _ => hs) hcall
  · exact .keep hw
  · exact .keep hw

/-- A call that ends the job, by what its two ways of returning leave. -/
theorem endJob_cases {m : WalM ι α} (h : Triple P m Q E) (hs : P s.wal) (hcall : s.endJob m = some s') :
    s'.flight = none ∧ ((∃ a, Q a s'.wal) ∨ ∃ e, E (.error e) s'.wal) := by
  rw [endJob, Option.map_eq_some_iff] at hcall
  obtain ⟨s₁, hs₁, rfl⟩ := hcall
  refine ⟨rfl, ?_⟩
  rcases call_cases h hs hs₁ with ⟨a, w, hw, rfl⟩ | ⟨e, w, hw, rfl⟩
  · exact .inl ⟨a, hw⟩
  · exact .inr ⟨e, hw⟩

theorem poisoned_of_endJob {m : WalM ι α} (h : Triple (fun _ => True) m (fun _ _ => False) (fun _ w => Poisoned w))
    (hstep : s.endJob m = some s') : Poisoned s'.wal := by
  obtain ⟨-, ⟨_, hw⟩ | ⟨_, hw⟩⟩ := endJob_cases h trivial hstep
  · exact hw.elim
  · exact hw

section

variable [DecidableEq ι] (env : WalEnv ι) (io : SegmentIo)

theorem stepOutcome_beginGroupFlush (hs : SysInv s) (hstep : s.step env (.beginGroupFlush io) = some s') :
    StepOutcome s (.beginGroupFlush io) s' := by
  rw [step] at hstep
  obtain ⟨wal, flight, reservations⟩ := s
  cases flight with
  | none =>
    rcases call_cases (triple_beginGroupFlush env io) hs hstep with ⟨r, w, hw, rfl⟩ | ⟨e, w, hw, rfl⟩
    · cases r <;> exact .keep hw
    · exact .keep hw
  | some p =>
    have hkeep : ∀ w : WalState ι, w.exactView = wal.exactView →
        LogInv (some p) wal.core.flushedRecords w.view := by
      intro w h
      rw [show w.view = wal.view from congrArg ExactView.log h]
      exact hs
    rcases call_cases (triple_beginGroupFlush_inFlight env io (hs.log rfl)) rfl hstep with
      ⟨r, w, ⟨hr, hw⟩, rfl⟩ | ⟨e, w, hw, rfl⟩
    · cases r with
      | job job => exact absurd rfl (hr job)
      | clean n | busy => exact .keep (hkeep w hw)
    · exact .keep (hkeep w hw)

theorem stepOutcome_jobWrite (n : ℕ) (hs : SysInv s)
    (hstep : s.step env (.jobWrite n) = some s') : StepOutcome s (.jobWrite n) s' := by
  obtain ⟨wal, _ | p, reservations⟩ := s
  · cases hstep
  · obtain ⟨hok, heq⟩ := Option.ite_none_right_eq_some.mp hstep
    obtain rfl := Option.some.inj heq
    exact .keep (LogInv.jobWrite hs hok.2.2 hok.1)

theorem stepOutcome_jobSync (hs : SysInv s)
    (hstep : s.step env .jobSync = some s') : StepOutcome s .jobSync s' := by
  obtain ⟨wal, _ | p, reservations⟩ := s
  · cases hstep
  · obtain ⟨hok, heq⟩ := Option.ite_none_right_eq_some.mp hstep
    obtain rfl := Option.some.inj heq
    exact .keep (LogInv.jobSync hs hok.2)

theorem stepOutcome_jobCommit (hs : SysInv s)
    (hstep : s.step env .jobCommit = some s') : StepOutcome s .jobCommit s' := by
  obtain ⟨wal, _ | p, reservations⟩ := s
  · cases hstep
  · obtain ⟨hsync, hstep⟩ := Option.ite_none_right_eq_some.mp hstep
    have hj := hs.job rfl
    obtain ⟨hnone, ⟨n, hw⟩ | ⟨e, hw⟩⟩ := endJob_cases (triple_commit_ok hsync) hs hstep
    · exact .inr ⟨LogInv.sysInv (hnone ▸ hw), .inr ⟨rfl, p, rfl, hsync, hj.written_eq hsync⟩⟩
    · exact hw.elim

theorem poisoned_of_jobFail (stage : DurabilityStage) (raw : Option ℤ)
    (hstep : s.step env (.jobFail stage raw) = some s') : Poisoned s'.wal := by
  obtain ⟨wal, _ | p, reservations⟩ := s
  · cases hstep
  · obtain ⟨-, hstep⟩ := Option.ite_none_right_eq_some.mp hstep
    exact poisoned_of_endJob (triple_commit_error _ _ _ _) hstep

theorem poisoned_of_jobAbandon (hstep : s.step env .jobAbandon = some s') : Poisoned s'.wal := by
  obtain ⟨wal, _ | p, reservations⟩ := s
  · cases hstep
  · obtain ⟨-, hstep⟩ := Option.ite_none_right_eq_some.mp hstep
    exact poisoned_of_endJob (triple_abandon _ _ _) hstep

theorem stepOutcome_truncate (len : ℕ) (hs : SysInv s)
    (hspare : SparesFlight s (.truncate io len)) (hstep : s.step env (.truncate io len) = some s') :
    StepOutcome s (.truncate io len) s' := by
  rw [step] at hstep
  rcases call_cases (triple_truncate io) ⟨hs, hspare len rfl⟩ hstep with ⟨_, w, hw, rfl⟩ | ⟨_, w, hw, rfl⟩
  · exact .keep hw
  · exact .keep hw

theorem stepOutcome_truncateDurableSegmentPrefix (base : ℕ)
    (hs : SysInv s) (hstep : s.step env (.truncateDurableSegmentPrefix io base) = some s') :
    StepOutcome s (.truncateDurableSegmentPrefix io base) s' := by
  rw [step] at hstep
  obtain ⟨wal, flight, reservations⟩ := s
  cases flight with
  | none =>
    rcases call_cases (triple_truncateDurableSegmentPrefix env io base) hs hstep with
      ⟨_, w, hw, rfl⟩ | ⟨_, w, hw | hw, rfl⟩
    · exact .keep hw
    · exact .keep hw
    · exact .inl hw
  | some p =>
    -- the rotation waits for the job in flight, so it is not a step
    have hj := hs.job rfl
    have hio : wal.core.ioInFlight = true := hj.inFlight
    have hblocked : truncateDurableSegmentPrefix env io base wal = .error .blocked wal := by
      unfold truncateDurableSegmentPrefix
      simp only [bind, EStateM.bind, get, getThe, MonadStateOf.get, EStateM.get, hio, if_true]
      rfl
    rw [call, hblocked] at hstep
    cases hstep

omit [DecidableEq ι] in
/-- A step on the `i`-th reservation needs one. -/
theorem reservation_of_step {k : WalTypedExactAppendReservation ι → Option (WalSystem ι)}
    (h : (match s.reservations[i]? with | none => none | some r => k r) = some s') :
    ∃ r ∈ s.reservations, k r = some s' := by
  cases hr : s.reservations[i]? with
  | none => rw [hr] at h; cases h
  | some r => exact ⟨r, List.mem_of_getElem? hr, by rwa [hr] at h⟩

theorem stepOutcome_claim (i : ℕ) (hs : SysInv s)
    (hstep : s.step env (.claim i) = some s') : StepOutcome s (.claim i) s' := by
  obtain ⟨r, -, hstep⟩ := reservation_of_step hstep
  obtain ⟨s₁, hs₁, hdrop⟩ := Option.bind_eq_some_iff.mp hstep
  obtain ⟨w, hw, rfl⟩ : ∃ w, LogInv s.flight s.wal.core.flushedRecords w.view ∧ s₁ = { s with wal := w } := by
    rcases call_cases (keeps_claimTypedExactAppend r) hs hs₁ with ⟨_, w, hw, rfl⟩ | ⟨_, w, hw, rfl⟩ <;>
      exact ⟨w, hw, rfl⟩
  obtain rfl := Option.some.inj hdrop
  exact .keep hw

theorem stepOutcome_dropReservation (i : ℕ) (hs : SysInv s)
    (hstep : s.step env (.dropReservation i) = some s') : StepOutcome s (.dropReservation i) s' := by
  obtain ⟨r, -, hstep⟩ := reservation_of_step hstep
  obtain rfl := Option.some.inj hstep
  exact .keep hs

/-- **One step.**  Every call and every I/O step keeps the invariant or poisons the core, and only the
commit of a synced job moves the watermark. -/
theorem stepOutcome_of_step (a : WalAction ι) (hs : SysInv s)
    (hspare : SparesFlight s a) (hstep : s.step env a = some s') : StepOutcome s a s' := by
  cases a with
  | append r =>
    exact stepOutcome_of_keeps (fun _ _ => ⟨rfl, rfl⟩) (keeps_append r) hs hstep
  | appendCanonical prepared =>
    exact stepOutcome_of_keeps (fun _ _ => ⟨rfl, rfl⟩) (keeps_appendCanonical prepared) hs hstep
  | reserve io prepared =>
    rw [step] at hstep
    refine stepOutcome_of_keeps ?_ (keeps_reserveTypedExactAppend env io prepared) hs hstep
    exact fun _ _ => ⟨rfl, rfl⟩
  | tentative i => exact stepOutcome_of_reservation triple_appendTypedExactTentative hs hstep
  | rollback i => exact stepOutcome_of_reservation triple_rollbackTypedExactAppend hs hstep
  | claim i => exact stepOutcome_claim env i hs hstep
  | dropReservation i => exact stepOutcome_dropReservation env i hs hstep
  | beginGroupFlush io => exact stepOutcome_beginGroupFlush env io hs hstep
  | jobWrite n => exact stepOutcome_jobWrite env n hs hstep
  | jobSync => exact stepOutcome_jobSync env hs hstep
  | jobCommit => exact stepOutcome_jobCommit env hs hstep
  | jobFail stage raw => exact .inl (poisoned_of_jobFail env stage raw hstep)
  | jobAbandon => exact .inl (poisoned_of_jobAbandon env hstep)
  | truncate io len => exact stepOutcome_truncate env io len hs hspare hstep
  | truncateDurableSegmentPrefix io base =>
    exact stepOutcome_truncateDurableSegmentPrefix env io base hs hstep
  | failNextFlush =>
    rw [step] at hstep
    refine stepOutcome_of_keeps ?_ ?_ hs hstep
    · exact fun _ _ => ⟨rfl, rfl⟩
    · exact keeps_of_frames (.modify fun _ => rfl)

/-! ### Runs -/

/-- A run without poisoning in which truncations spare the group in flight. -/
def Unpoisoned (s : WalSystem ι) (a : WalAction ι) : Prop := ¬ Poisoned s.wal ∧ SparesFlight s a

instance (s : WalSystem ι) (a : WalAction ι) : Decidable (Unpoisoned s a) :=
  inferInstanceAs (Decidable (¬ Poisoned s.wal ∧ ∀ len ∈ a.cut, _ ≤ len))

theorem sysInv_of_reachable (h : (walSystem env).ReachableVia Unpoisoned s) (hp : ¬ Poisoned s.wal) : SysInv s := by
  have hinv : Poisoned s.wal ∨ SysInv s := by
    refine h.invariant (P := fun s => Poisoned s.wal ∨ SysInv s) (fun s hs => .inr (sysInv_of_init env hs)) ?_
    intro s a s' hs hok hstep
    rcases hs with hs | hs
    · exact absurd hs hok.1
    · rcases stepOutcome_of_step env a hs hok.2 hstep with hpois | ⟨hs', -⟩
      · exact .inl hpois
      · exact .inr hs'
  exact hinv.resolve_left hp

/-- The first durable bytes of an open segment, and the zeros behind them when no job is in flight. -/
theorem LogInv.file_bytes {f : ℕ} {v : LogView} (h : LogInv fl f v) (ho : v.fileOpen = true) :
    ∃ bytes, v.segment = some bytes ∧
      bytes.take v.durable = walSegmentMagic ++ encodedRecords (recordRange v.records v.base v.flushed) ∧
      (fl = none → (bytes.take v.prealloc).drop v.durable = zeros (v.prealloc - v.durable)) := by
  obtain ⟨hdur, n, beyond, hseg, hpre⟩ := h.opened ho
  refine ⟨_, hseg, ?_, ?_⟩
  · rw [List.append_assoc, List.append_assoc]
    exact List.take_left' (by rw [List.length_append, length_walSegmentMagic, hdur])
  · rintro rfl
    have hn : v.prealloc - v.durable = n := by
      simp only [pendingBytes, List.length_nil] at hpre
      omega
    have hlen : (walSegmentMagic ++ encodedRecords v.live).length = v.durable := by
      rw [List.length_append, length_walSegmentMagic, hdur]
    simp only [pendingBytes, List.append_nil]
    rw [hn, List.take_left' (by rw [List.length_append, hlen, length_zeros, hpre]; simp [pendingBytes]),
      List.drop_left' hlen]

/-- **Representation and WAL-before-visibility.**  In every state that a run without poisoning
reaches, the counters are ordered; an open segment starts with the magic and the flushed records
behind the base, and is zero from there to the preallocated length when no job is in flight; a segment
that is not created yet holds no durable byte and none of the records; and a step that raises the
watermark is the commit of a job whose bytes were all written and then synced. -/
theorem walSystem_representation (s : WalSystem ι)
    (hreach : (walSystem env).ReachableVia Unpoisoned s) (hpois : ¬ Poisoned s.wal) :
    s.wal.core.flushedRecords ≤ s.wal.buffer.records.length ∧
    s.wal.core.segmentBaseRecords ≤ s.wal.core.flushedRecords ∧
    (s.wal.core.fileOpen = true → ∃ bytes, s.wal.disk.segment = some bytes ∧
      bytes.take s.wal.core.durableBytes = walSegmentMagic ++ encodedRecords
        (recordRange s.wal.buffer.records s.wal.core.segmentBaseRecords s.wal.core.flushedRecords) ∧
      (s.flight = none → (bytes.take s.wal.core.preallocBytes).drop s.wal.core.durableBytes =
        zeros (s.wal.core.preallocBytes - s.wal.core.durableBytes))) ∧
    (s.wal.core.fileOpen = false → s.wal.core.durableBytes = 0 ∧
      recordRange s.wal.buffer.records s.wal.core.segmentBaseRecords s.wal.core.flushedRecords = []) ∧
    (∀ a s', Unpoisoned s a → s.step env a = some s' → ¬ Poisoned s'.wal →
      s.wal.core.flushedRecords < s'.wal.core.flushedRecords → CommitsSynced s a) := by
  have hinv := sysInv_of_reachable env hreach hpois
  refine ⟨hinv.flushed_le, hinv.base_le, fun ho => hinv.file_bytes ho, fun hc => ?_, ?_⟩
  · obtain ⟨hdur, -, hbase⟩ := hinv.closed hc
    refine ⟨hdur, ?_⟩
    rw [show s.wal.core.segmentBaseRecords = s.wal.core.flushedRecords from hbase]
    exact recordRange_self _ _
  · intro a s' hok hstep hpois' hlt
    rcases stepOutcome_of_step env a hinv hok.2 hstep with hp | ⟨-, heq | hcommit⟩
    · exact absurd hp hpois'
    · omega
    · exact hcommit

end

/-- A log whose payloads carry no identity. -/
def plainEnv : WalEnv Unit := ⟨fun _ => .ok none, 1024 * 1024, le_rfl⟩

def freshSystem : WalSystem Unit :=
  ⟨⟨.withDurableSegment 0 none, .fresh "wal.segment", ⟨none, none, .ok none⟩⟩, none, []⟩

theorem walInit_freshSystem : (walSystem plainEnv).init freshSystem := .fresh 0 "wal.segment" none _

/-- One record appended and flushed: the segment starts with the magic and that record. -/
theorem walSystem_representation_flushed :
    ∃ s : WalSystem Unit, s.wal.core.flushedRecords = 1 ∧ ∃ bytes, s.wal.disk.segment = some bytes ∧
      bytes.take s.wal.core.durableBytes = walSegmentMagic ++ encodedRecords
        (recordRange s.wal.buffer.records s.wal.core.segmentBaseRecords s.wal.core.flushedRecords) := by
  obtain ⟨s, hreach, hs⟩ := TransitionSystem.exists_reachable_of_runVia Unpoisoned
    [.append ⟨7, [1, 2, 3], by decide⟩, .beginGroupFlush {}, .jobWrite 27, .jobSync, .jobCommit]
    walInit_freshSystem
    (fun s => s.wal.core.flushedRecords = 1 ∧ s.wal.core.fileOpen = true ∧ ¬ Poisoned s.wal)
    (by decide +kernel)
  obtain ⟨hflushed, hopen, hpois⟩ := of_decide_eq_true hs
  obtain ⟨-, -, hfile, -, -⟩ := walSystem_representation plainEnv s hreach hpois
  obtain ⟨bytes, hseg, htake, -⟩ := hfile hopen
  exact ⟨s, hflushed, bytes, hseg, htake⟩

/-- A truncation cuts no flushed record. -/
def CutsUnflushed (s : WalSystem ι) (a : WalAction ι) : Prop :=
  ∀ len ∈ a.cut, s.wal.core.flushedRecords ≤ len

instance (s : WalSystem ι) (a : WalAction ι) : Decidable (CutsUnflushed s a) :=
  inferInstanceAs (Decidable (∀ len ∈ a.cut, _ ≤ len))

/-- Cutting only unflushed records is not enough: a job formed before the cut still commits its target,
and the watermark overruns the log. And before the segment is created its first `durableBytes` bytes
are not the magic. -/
theorem truncate_into_group_overruns :
    (∃ s, (walSystem plainEnv).ReachableVia (fun s a => ¬ Poisoned s.wal ∧ CutsUnflushed s a) s ∧
      ¬ Poisoned s.wal ∧ s.wal.buffer.records.length < s.wal.core.flushedRecords) ∧
    (∃ s, (walSystem plainEnv).ReachableVia Unpoisoned s ∧ ¬ Poisoned s.wal ∧
      (s.wal.disk.segment.getD []).take s.wal.core.durableBytes ≠ walSegmentMagic ++ encodedRecords
        (recordRange s.wal.buffer.records s.wal.core.segmentBaseRecords s.wal.core.flushedRecords)) := by
  constructor
  · obtain ⟨s, hreach, hs⟩ := TransitionSystem.exists_reachable_of_runVia
      (fun s a => ¬ Poisoned s.wal ∧ CutsUnflushed s a)
      [.append ⟨7, [1, 2, 3], by decide⟩, .beginGroupFlush {}, .truncate {} 0, .jobWrite 27, .jobSync, .jobCommit]
      walInit_freshSystem
      (fun s => ¬ Poisoned s.wal ∧ s.wal.buffer.records.length < s.wal.core.flushedRecords)
      (by decide +kernel)
    exact ⟨s, hreach, of_decide_eq_true hs⟩
  · exact ⟨freshSystem, .of_init walInit_freshSystem, by decide, by decide⟩

end ThunderboltDb.Wal
