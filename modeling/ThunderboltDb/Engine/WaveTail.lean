import ThunderboltDb.Engine.Publication
import ThunderboltDb.Lib.Transition

/-!
# Wave tails: durability, publication, acknowledgement

A sequenced wave leaves a tail: its operations are applied and their WAL records appended, nothing is
visible yet. Whichever thread claims the tail waits until the group-flush watermark covers its last
record, reports its commit indices to the publication join, waits until the readers' watermark covers
its last index and only then sets the outcomes. Tails run side by side and finish in any order.
Serialized commits claim the commit lock after every tail has finished, flush inline and publish
themselves. A retried transaction is answered from the status table once its index is visible.

* `publication_exact_and_acks_covered` — `committed_seq` is exactly the contiguous reported prefix, it
  never decreases, and every acknowledged operation is covered by a durable watermark and visible.

Commit indices stay below `u64::MAX`. A flush of the WAL appears by what it returns: the watermark of a
clean log, of a completed job, or of the last store when a job is still in flight.
-/

namespace ThunderboltDb.Engine.WaveTail

open Lib Option List

variable {rows : List ℕ} {t : Tail} {committed : List Committed}

/-- One committed operation: its commit index, the WAL position that covers its record, its result. -/
structure Committed where
  commitSeq : ℕ
  walPosition : ℕ
  rows : ℕ
  deriving DecidableEq

open Committed

/-- How far `finish_wave_tail` got. -/
inductive TailPc where
  | sequenced
  | durable
  | published
  | covered (acked : ℕ)
  | finished
  | failed
  deriving DecidableEq

/-- `CommitWaveTail`. -/
structure Tail where
  committed : List Committed
  pc : TailPc

def Tail.lastPosition (t : Tail) : ℕ := (t.committed.getLast?.map walPosition).getD 0

def Tail.lastCommittedSeq (t : Tail) : ℕ := (t.committed.getLast?.map commitSeq).getD 0

/-- How far the elected flusher got in `wait_group_durable`. -/
inductive FlusherPc where
  | elected
  | running (target : ℕ)
  | returned (flushedRecords : ℕ)
  deriving DecidableEq

structure Flusher where
  tail : ℕ
  pc : FlusherPc

structure SerialCommit where
  committed : List Committed
  flushed : Bool

structure State where
  publication : Publication
  nextIndex : ℕ
  walLen : ℕ
  walFlushed : ℕ
  durableRecords : ℕ
  flusher : Option Flusher
  flushFailed : Bool
  wedged : Bool
  tails : List Tail
  serial : Option SerialCommit
  statuses : List Committed
  outcomes : List Committed
  /-- every index that was reported -/
  reported : Finset ℕ
  /-- every watermark that a successful flush returned -/
  watermarks : List ℕ

/-- What `begin_group_flush` returned. -/
inductive BeginOutcome where
  | clean
  | job (target : ℕ)
  | busy
  | error
  deriving DecidableEq

inductive Action where
  | sequenceWave (rows : List ℕ)
  | appendRecord
  | electFlusher (i : ℕ)
  | beginGroupFlush (outcome : BeginOutcome)
  | jobCommit (ok : Bool)
  | storeWatermark
  | tailDurable (i : ℕ)
  | tailPublish (i : ℕ)
  | tailCover (i : ℕ)
  | tailAck (i : ℕ)
  | tailFail (i : ℕ)
  | repeatReport (indices : List ℕ)
  | retry (k : ℕ)
  | serialAppend (rows : List ℕ)
  | serialFlush (ok : Bool)
  | serialPublish
  | serialAbort
  | wedge

variable (s : State)

/-- The next commit indices, each with the next WAL record. -/
def State.allocate (rows : List ℕ) : List Committed :=
  rows.mapIdx fun k r => ⟨s.nextIndex + k, s.walLen + k + 1, r⟩

def State.setTail (i : ℕ) (t : Tail) (pc : TailPc) : State :=
  { s with tails := s.tails.set i { t with pc := pc } }

/-- The flusher's error path: the failure sticks, its tail fails and the commit path is wedged. -/
def State.failFlush (f : Flusher) : State :=
  { s with
    flusher := none
    flushFailed := true
    wedged := true
    tails := s.tails.modify f.tail fun t => { t with pc := .failed } }

/-- A report to the publication join. An error wedges the commit path. -/
def State.report (indices : List ℕ) : Except EngineError ℕ × State :=
  match publishReadyIndices indices s.publication with
  | .ok visible p => (.ok visible,
      { s with publication := p, reported := s.reported ∪ indices.toFinset })
  | .error e p => (.error e, { s with publication := p, wedged := true })

def State.beginGroupFlush (f : Flusher) : BeginOutcome → Option State
  | .clean =>
    if s.walFlushed = s.walLen then
      some { s with flusher := some { f with pc := .returned s.walFlushed }
                    watermarks := s.watermarks ++ [s.walFlushed] }
    else none
  | .job target =>
    if s.walFlushed < target ∧ target ≤ s.walLen then
      some { s with flusher := some { f with pc := .running target } }
    else none
  | .busy => some { s with flusher := some { f with pc := .returned s.durableRecords } }
  | .error => some (s.failFlush f)

def State.jobCommit (f : Flusher) (target : ℕ) (ok : Bool) : State :=
  if ok then
    { s with walFlushed := target, watermarks := s.watermarks ++ [target]
             flusher := some { f with pc := .returned target } }
  else s.failFlush f

/-- The publication step of `finish_wave_tail`: a poisoned commit path publishes nothing. -/
def State.tailPublish (i : ℕ) (t : Tail) : State :=
  if s.wedged then s.setTail i t .failed
  else
    match s.report (t.committed.map commitSeq) with
    | (.ok _, s') => s'.setTail i t .published
    | (.error _, s') => s'.setTail i t .failed

/-- The outcome loop of `finish_wave_tail`: one acknowledgement, or its end. -/
def State.tailAck (i : ℕ) (t : Tail) (acked : ℕ) : State :=
  match t.committed[acked]? with
  | some c => { s.setTail i t (.covered (acked + 1)) with outcomes := s.outcomes ++ [c] }
  | none => s.setTail i t .finished

/-- `publish_ready_indices` and `require_publication_coverage` of a serialized commit, and its answer. -/
def State.serialPublish (c : SerialCommit) : State :=
  match s.report (c.committed.map commitSeq) with
  | (.ok visible, s') =>
    if visible < (c.committed.getLast?.map commitSeq).getD 0 then
      { s' with serial := none, wedged := true }
    else { s' with serial := none, outcomes := s'.outcomes ++ c.committed }
  | (.error _, s') => { s' with serial := none }

/-- The commit lock is free for a wave. -/
def State.unlocked : Bool := s.serial.isNone

/-- Every tail has finished, cleanly or not. -/
def State.quiescent : Bool := s.tails.all fun t => t.pc = .finished ∨ t.pc = .failed

def State.step : Action → Option State
  | .sequenceWave rows =>
    if rows ≠ [] ∧ s.unlocked ∧ s.nextIndex + rows.length ≤ u64Max then
      some { s with
        nextIndex := s.nextIndex + rows.length
        walLen := s.walLen + rows.length
        tails := s.tails ++ [⟨s.allocate rows, .sequenced⟩]
        statuses := s.statuses ++ s.allocate rows }
    else none
  | .appendRecord => if s.unlocked then some { s with walLen := s.walLen + 1 } else none
  | .electFlusher i =>
    s.tails[i]?.bind fun t =>
      if t.pc = .sequenced ∧ s.durableRecords < t.lastPosition ∧ s.flusher.isNone ∧
          s.flushFailed = false then
        some { s with flusher := some ⟨i, .elected⟩ }
      else none
  | .beginGroupFlush outcome =>
    s.flusher.bind fun f =>
      if f.pc = .elected ∧ s.unlocked then s.beginGroupFlush f outcome else none
  | .jobCommit ok =>
    s.flusher.bind fun f =>
      match f.pc with
      | .running target => some (s.jobCommit f target ok)
      | _ => none
  | .storeWatermark =>
    s.flusher.bind fun f =>
      match f.pc with
      | .returned flushedRecords => some { s with durableRecords := flushedRecords, flusher := none }
      | _ => none
  | .tailDurable i =>
    s.tails[i]?.bind fun t =>
      -- a flusher first finishes its round
      if t.pc = .sequenced ∧ t.lastPosition ≤ s.durableRecords ∧ s.flusher.all (fun f => f.tail ≠ i) then
        some (s.setTail i t .durable)
      else none
  | .tailPublish i =>
    s.tails[i]?.bind fun t => if t.pc = .durable then some (s.tailPublish i t) else none
  | .tailCover i =>
    s.tails[i]?.bind fun t =>
      if t.pc = .published ∧ t.lastCommittedSeq ≤ s.publication.committedSeq then
        some (s.setTail i t (.covered 0))
      else none
  | .tailAck i =>
    s.tails[i]?.bind fun t =>
      match t.pc with
      | .covered acked => some (s.tailAck i t acked)
      | _ => none
  | .tailFail i =>
    s.tails[i]?.bind fun t =>
      if t.pc ≠ .finished ∧ t.pc ≠ .failed ∧ s.flusher.all (fun f => f.tail ≠ i) then
        some { s.setTail i t .failed with wedged := true }
      else none
  | .repeatReport indices =>
    if indices.all (fun i => i ∈ s.reported) then some (s.report indices).2 else none
  | .retry k =>
    s.statuses[k]?.bind fun c =>
      if s.unlocked ∧ c.commitSeq ≤ s.publication.committedSeq then
        some { s with outcomes := s.outcomes ++ [c] }
      else none
  | .serialAppend rows =>
    if rows ≠ [] ∧ s.unlocked ∧ s.quiescent ∧ s.wedged = false ∧
        s.nextIndex + rows.length ≤ u64Max then
      some { s with
        nextIndex := s.nextIndex + rows.length
        walLen := s.walLen + rows.length
        serial := some ⟨s.allocate rows, false⟩ }
    else none
  | .serialFlush ok =>
    match s.serial with
    | some ⟨committed, false⟩ =>
      if ok then
        some { s with
          walFlushed := s.walLen
          watermarks := s.watermarks ++ [s.walLen]
          statuses := s.statuses ++ committed
          serial := some ⟨committed, true⟩ }
      else
        -- the proposal and the appended records are rolled back
        some { s with
          nextIndex := s.nextIndex - committed.length
          walLen := s.walLen - committed.length
          serial := none }
    | _ => none
  | .serialPublish =>
    match s.serial with
    | some ⟨committed, true⟩ => some (s.serialPublish ⟨committed, true⟩)
    | _ => none
  | .serialAbort =>
    match s.serial with
    | some ⟨_, true⟩ => some { s with serial := none, wedged := true }
    | _ => none
  | .wedge => some { s with wedged := true }

/-- An engine whose snapshot or replay covers the indices up to `b` and the WAL records up to
`recovered`; the recovered prefix counts as the first watermark. -/
def State.initial (b recovered : ℕ) (statuses : List Committed) : State where
  publication := .snapshot b
  nextIndex := b + 1
  walLen := recovered
  walFlushed := recovered
  durableRecords := 0
  flusher := none
  flushFailed := false
  wedged := false
  tails := []
  serial := none
  statuses := statuses
  outcomes := []
  reported := ∅
  watermarks := [recovered]

/-- Wave tails over the boundary `b`. -/
def waveTails (b : ℕ) : TransitionSystem State Action where
  init s := b < u64Max ∧ ∃ recovered statuses, s = .initial b recovered statuses ∧
    ∀ c ∈ statuses, c.commitSeq ≤ b ∧ c.walPosition ≤ recovered
  step := State.step

/-! ### Allocation -/

variable {s : State} {c : Committed} {i : ℕ}

theorem allocate_mem (hc : c ∈ s.allocate rows) :
    s.nextIndex ≤ c.commitSeq ∧ c.commitSeq < s.nextIndex + rows.length ∧
      c.walPosition + s.nextIndex = s.walLen + c.commitSeq + 1 := by
  obtain ⟨k, hk, rfl⟩ := mem_mapIdx.mp hc
  exact ⟨by simp, by simpa using hk, by simp; omega⟩

theorem allocate_seqs (hlo : s.nextIndex ≤ i)
    (hhi : i < s.nextIndex + rows.length) : i ∈ (s.allocate rows).map commitSeq := by
  have hk : i - s.nextIndex < rows.length := by omega
  refine mem_map.mpr ⟨⟨s.nextIndex + (i - s.nextIndex), s.walLen + (i - s.nextIndex) + 1,
    rows[i - s.nextIndex]⟩, mem_mapIdx.mpr ⟨i - s.nextIndex, hk, rfl⟩, ?_⟩
  show s.nextIndex + (i - s.nextIndex) = i
  omega

theorem allocate_last (hrows : rows ≠ []) : ∃ c, (s.allocate rows).getLast? = some c ∧ c ∈ s.allocate rows ∧
      c.commitSeq + 1 = s.nextIndex + rows.length := by
  have hpos : 0 < rows.length := length_pos_iff.mpr hrows
  have hlast : rows.length - 1 < rows.length := by omega
  let c : Committed := ⟨s.nextIndex + (rows.length - 1), s.walLen + (rows.length - 1) + 1, rows[rows.length - 1]⟩
  refine ⟨c, ?_, mem_mapIdx.mpr ⟨rows.length - 1, hlast, rfl⟩, ?_⟩
  · rw [getLast?_eq_getElem?, State.allocate, length_mapIdx, getElem?_mapIdx,
      getElem?_eq_getElem hlast]
    rfl
  · show s.nextIndex + (rows.length - 1) + 1 = s.nextIndex + rows.length
    omega

/-! ### The invariant -/

/-- What a tail's stage promises. -/
def TailStage (s : State) (t : Tail) : Prop :=
  match t.pc with
  | .sequenced | .finished => True
  | .failed => s.wedged = true
  | .durable | .published => t.lastPosition ≤ s.walFlushed
  | .covered _ =>
      t.lastPosition ≤ s.walFlushed ∧ t.lastCommittedSeq ≤ s.publication.committedSeq

structure TailOk (b : ℕ) (s : State) (t : Tail) : Prop where
  known : ∀ c ∈ t.committed, c ∈ s.statuses ∧ b < c.commitSeq
  bounded : ∀ c ∈ t.committed, c.walPosition ≤ t.lastPosition ∧ c.commitSeq ≤ t.lastCommittedSeq
  stage : TailStage s t

/-- The flusher works for a tail that still waits, and what it returns covers the last store. -/
structure FlusherOk (s : State) (f : Flusher) : Prop where
  waiting : ∃ t, s.tails[f.tail]? = some t ∧ t.pc = .sequenced
  running : ∀ target, f.pc = .running target → s.walFlushed < target ∧ target ≤ s.walLen
  returned : ∀ w, f.pc = .returned w → s.durableRecords ≤ w ∧ w ≤ s.walFlushed

/-- A serialized commit owns the last indices and records; nobody else is at work. -/
structure SerialOk (b : ℕ) (s : State) (c : SerialCommit) : Prop where
  floor : b + c.committed.length < s.nextIndex
  fits : c.committed.length ≤ s.walLen
  owned : ∀ x ∈ c.committed, s.nextIndex ≤ x.commitSeq + c.committed.length ∧
    x.commitSeq < s.nextIndex ∧ x.walPosition + s.nextIndex = s.walLen + x.commitSeq + 1
  last : ∃ x, c.committed.getLast? = some x ∧ x.commitSeq + 1 = s.nextIndex
  below : ∀ i ∈ s.reported, i + c.committed.length < s.nextIndex
  quiescent : s.quiescent = true
  idle : s.flusher = none
  unflushed : c.flushed = false → s.walFlushed + c.committed.length ≤ s.walLen ∧
    ∀ x ∈ s.statuses, x.commitSeq + c.committed.length < s.nextIndex
  flushed : c.flushed = true → s.walFlushed = s.walLen ∧ ∀ x ∈ c.committed, x ∈ s.statuses

/-- An index that is not reported yet still belongs to somebody who will report it. -/
def Accounted (s : State) (i : ℕ) : Prop :=
  i ∈ s.reported ∨ s.wedged = true ∨
    (∃ t ∈ s.tails, (t.pc = .sequenced ∨ t.pc = .durable) ∧ i ∈ t.committed.map commitSeq) ∨
    ∃ c ∈ s.serial, i ∈ c.committed.map commitSeq

structure Inv (b : ℕ) (s : State) : Prop where
  published : Published b s.reported s.publication
  floor : b < s.nextIndex
  domain : s.nextIndex ≤ u64Max
  reported : ∀ i ∈ s.reported, b < i ∧ i < s.nextIndex
  accounted : ∀ i, b < i → i < s.nextIndex → Accounted s i
  wal : s.walFlushed ≤ s.walLen
  durable : s.durableRecords ≤ s.walFlushed
  mark : s.walFlushed ∈ s.watermarks
  flusher : ∀ f ∈ s.flusher, FlusherOk s f
  indexed : ∀ c ∈ s.statuses, c.commitSeq < s.nextIndex
  stored : ∀ c ∈ s.statuses, c.commitSeq ≤ b ∨ c.commitSeq ∈ s.reported →
    c.walPosition ≤ s.walFlushed
  unique : ∀ c ∈ s.statuses, ∀ c' ∈ s.statuses, b < c.commitSeq → c.commitSeq = c'.commitSeq →
    c.walPosition = c'.walPosition
  tails : ∀ t ∈ s.tails, TailOk b s t
  serial : ∀ c ∈ s.serial, SerialOk b s c
  outcomes : ∀ c ∈ s.outcomes,
    c.commitSeq ≤ s.publication.committedSeq ∧ c.walPosition ≤ s.walFlushed

/-- A step keeps the invariant and never moves the readers' watermark back. -/
def Progress (b : ℕ) (s s' : State) : Prop :=
  Inv b s' ∧ s.publication.committedSeq ≤ s'.publication.committedSeq

/-- Everything a tail relies on only grows. -/
structure Grows (s s' : State) : Prop where
  flushed : s.walFlushed ≤ s'.walFlushed
  visible : s.publication.committedSeq ≤ s'.publication.committedSeq
  statuses : ∀ c ∈ s.statuses, c ∈ s'.statuses
  wedged : s.wedged = true → s'.wedged = true

variable {s' : State} {b : ℕ}

theorem TailStage.mono (h : TailStage s t) (hg : Grows s s') : TailStage s' t := by
  have hflushed := hg.flushed
  have hvisible := hg.visible
  unfold TailStage at h ⊢
  cases hpc : t.pc with
  | sequenced | finished => trivial
  | failed =>
    rw [hpc] at h
    exact hg.wedged h
  | durable | published =>
    rw [hpc] at h
    exact le_trans h hflushed
  | covered acked =>
    rw [hpc] at h
    exact ⟨le_trans h.1 hflushed, le_trans h.2 hvisible⟩

theorem TailOk.mono (h : TailOk b s t) (hg : Grows s s') : TailOk b s' t :=
  ⟨fun c hc => ⟨hg.statuses c (h.known c hc).1, (h.known c hc).2⟩, h.bounded, h.stage.mono hg⟩

namespace Inv

variable {b : ℕ} {s : State} {indices : List ℕ} {p : Publication}

section

variable (h : Inv b s)
include h

/-- While a tail is at work, no serialized commit holds the commit lock. -/
theorem serial_none (ht : s.tails[i]? = some t) (hfin : t.pc ≠ .finished := by simp [*])
    (hfail : t.pc ≠ .failed := by simp [*]) : s.serial = none := by
  by_contra hsome
  obtain ⟨c, hc⟩ := ne_none_iff_exists'.mp hsome
  have hquiet := (h.serial c hc).quiescent
  rw [State.quiescent, List.all_eq_true] at hquiet
  have := hquiet t (List.mem_of_getElem? ht)
  simp [hfin, hfail] at this

theorem tails_grow (hg : Grows s s') : ∀ t ∈ s.tails, TailOk b s' t :=
  fun t ht => (h.tails t ht).mono hg

theorem tails_keep (hsame : (s'.walFlushed, s'.publication, s'.statuses, s'.wedged)
      = (s.walFlushed, s.publication, s.statuses, s.wedged)) : ∀ t ∈ s.tails, TailOk b s' t := by
  obtain ⟨hflushed, hvisible, hstatuses, hwedged⟩ := by simpa only [Prod.mk.injEq] using hsame
  exact h.tails_grow ⟨hflushed.ge, (congrArg _ hvisible).ge, fun _ hc => hstatuses ▸ hc, hwedged.trans⟩

/-- One tail moves to its next stage. -/
theorem setTail {pc : TailPc} (ht : s.tails[i]? = some t)
    (hserial : s.serial = none) (hflusher : ∀ f ∈ s.flusher, f.tail ≠ i)
    (hstage : TailStage s { t with pc := pc })
    (hacc : t.pc = .sequenced ∨ t.pc = .durable → (pc = .sequenced ∨ pc = .durable) ∨
      ∀ j ∈ t.committed.map commitSeq, j ∈ s.reported ∨ s.wedged = true) :
    Inv b (s.setTail i t pc) := by
  have hlt : i < s.tails.length := (List.getElem?_eq_some_iff.mp ht).1
  have hself : (s.tails.set i { t with pc := pc })[i]? = some { t with pc := pc } := List.getElem?_set_self hlt
  have hother : ∀ j, j ≠ i → (s.tails.set i { t with pc := pc })[j]? = s.tails[j]? :=
    fun j hj => List.getElem?_set_ne (Ne.symm hj)
  refine { h with accounted := ?_, flusher := ?_, tails := ?_, serial := by simp [State.setTail, hserial] }
  · intro j hb hj
    rcases h.accounted j hb hj with hrep | hw | ⟨t', ht', hpc', hmem⟩ | hser
    · exact .inl hrep
    · exact .inr (.inl hw)
    · obtain ⟨k, hk⟩ := List.mem_iff_getElem?.mp ht'
      by_cases hki : k = i
      · have heq : t' = t := by
          rw [hki, ht] at hk
          exact (some.inj hk).symm
        rw [heq] at hmem hpc'
        rcases hacc hpc' with hpc | hdone
        · exact .inr (.inr (.inl ⟨{ t with pc := pc }, List.mem_of_getElem? hself, hpc, hmem⟩))
        · rcases hdone j hmem with hrep | hw
          · exact .inl hrep
          · exact .inr (.inl hw)
      · refine .inr (.inr (.inl ⟨t', List.mem_of_getElem? (i := k) ?_, hpc', hmem⟩))
        exact (hother k hki).trans hk
    · exact .inr (.inr (.inr hser))
  · intro f hf
    obtain ⟨⟨t', ht', hpc'⟩, hrun, hret⟩ := h.flusher f hf
    exact ⟨⟨t', (hother f.tail (hflusher f hf)).trans ht', hpc'⟩, hrun, hret⟩
  · intro t' ht'
    rcases List.mem_or_eq_of_mem_set ht' with hmem | rfl
    · exact (h.tails t' hmem).mono ⟨le_rfl, le_rfl, fun _ hc => hc, id⟩
    · have hok := h.tails t (List.mem_of_getElem? ht)
      exact ⟨hok.known, hok.bounded, hstage⟩

/-- A report of indices in use whose records are durable. -/
theorem report_ok (hidx : ∀ i ∈ indices, b < i ∧ i < s.nextIndex) : ∃ p, s.report indices = (.ok p.committedSeq,
        { s with publication := p, reported := s.reported ∪ indices.toFinset }) ∧
      Published b (s.reported ∪ indices.toFinset) p ∧
      s.publication.committedSeq ≤ p.committedSeq := by
  have hdom : ∀ i ∈ indices, Publishable i := by
    intro i hi
    have := hidx i hi
    have := h.domain
    exact ⟨by omega, by omega⟩
  obtain ⟨p, hrun, hpub, hle⟩ := publishReadyIndices_spec h.published hdom
  exact ⟨p, by rw [State.report, hrun], hpub, hle⟩

/-- The join after a report. A serialized commit that is done has reported its own indices. -/
theorem setPublication {serial : Option SerialCommit} (hidx : ∀ i ∈ indices, b < i ∧ i < s.nextIndex)
    (hstored : ∀ c ∈ s.statuses, c.commitSeq ∈ indices → c.walPosition ≤ s.walFlushed)
    (hserial : ∀ c ∈ serial, c ∈ s.serial ∧ ∀ i ∈ indices, i + c.committed.length < s.nextIndex)
    (hdone : ∀ c ∈ s.serial, c ∈ serial ∨ ∀ i ∈ c.committed.map commitSeq, i ∈ indices)
    (hpub : Published b (s.reported ∪ indices.toFinset) p)
    (hle : s.publication.committedSeq ≤ p.committedSeq) :
    Inv b { s with publication := p, serial := serial, reported := s.reported ∪ indices.toFinset } := by
  have hmem : ∀ i, i ∈ s.reported ∪ indices.toFinset ↔ i ∈ s.reported ∨ i ∈ indices := by
    intro i
    rw [Finset.mem_union, List.mem_toFinset]
  refine { h with
      published := hpub, reported := ?_, accounted := ?_, stored := ?_,
      flusher := fun f hf => { h.flusher f hf with }, tails := h.tails_grow ⟨le_rfl, hle, fun _ hc => hc, id⟩,
      serial := fun c hc => ?_, outcomes := fun c hc => ?_ }
  · intro i hi
    rcases (hmem i).mp hi with hi | hi
    · exact h.reported i hi
    · exact hidx i hi
  · intro i hb hi
    rcases h.accounted i hb hi with hrep | hw | hex | ⟨c, hc, hown⟩
    · exact .inl ((hmem i).mpr (.inl hrep))
    · exact .inr (.inl hw)
    · exact .inr (.inr (.inl hex))
    · rcases hdone c hc with hc | hall
      · exact .inr (.inr (.inr ⟨c, hc, hown⟩))
      · exact .inl ((hmem i).mpr (.inr (hall i hown)))
  · intro c hc hcov
    rcases hcov with hcov | hcov
    · exact h.stored c hc (.inl hcov)
    · rcases (hmem _).mp hcov with hrep | hnew
      · exact h.stored c hc (.inr hrep)
      · exact hstored c hc hnew
  · obtain ⟨hc, hbelow⟩ := hserial c hc
    have hok := h.serial c hc
    refine { hok with below := fun i hi => ?_ }
    rcases (hmem i).mp hi with hi | hi
    · exact hok.below i hi
    · exact hbelow i hi
  · exact ⟨le_trans (h.outcomes c hc).1 hle, (h.outcomes c hc).2⟩

theorem flusher_ne (ht : s.tails[i]? = some t) (hpc : t.pc ≠ .sequenced) : ∀ f ∈ s.flusher, f.tail ≠ i := by
  intro f hf heq
  obtain ⟨t', ht', hpc'⟩ := (h.flusher f hf).waiting
  rw [heq, ht] at ht'
  exact hpc (some.inj ht' ▸ hpc')

theorem wedge : Inv b { s with wedged := true } := by
  refine { h with
      accounted := fun i _ _ => .inr (.inl rfl),
      flusher := fun f hf => { h.flusher f hf with },
      tails := h.tails_grow ⟨le_rfl, le_rfl, fun _ hc => hc, fun _ => rfl⟩,
      serial := fun c hc => { h.serial c hc with } }

theorem addOutcomes {cs : List Committed}
    (hcs : ∀ c ∈ cs, c.commitSeq ≤ s.publication.committedSeq ∧ c.walPosition ≤ s.walFlushed) :
    Inv b { s with outcomes := s.outcomes ++ cs } := by
  refine { h with
      flusher := fun f hf => { h.flusher f hf with },
      tails := h.tails_keep rfl,
      serial := fun c hc => { h.serial c hc with }, outcomes := fun x hx => ?_ }
  rcases mem_append.mp hx with hx | hx
  · exact h.outcomes x hx
  · exact hcs x hx

end

/-! #### The flusher -/

section

variable (h : Inv b s)
include h

variable {f : Flusher}

theorem serial_none_of_flusher (hf : f ∈ s.flusher) : s.serial = none := by
  obtain ⟨t, ht, hpc⟩ := (h.flusher f hf).waiting
  exact h.serial_none ht

theorem setFlusher (hserial : s.serial = none) (hok : FlusherOk s f) : Inv b { s with flusher := some f } := by
  refine { h with
      flusher := fun f' hf' => ?_,
      tails := h.tails_keep rfl,
      serial := by simp [hserial] }
  cases hf'
  exact ⟨hok.waiting, hok.running, hok.returned⟩

theorem failFlush (hf : f ∈ s.flusher) : Progress b s (s.failFlush f) := by
  obtain ⟨t, ht, hpc⟩ := (h.flusher f hf).waiting
  have hserial := h.serial_none_of_flusher hf
  -- the error path is the tail's failure in the state without the flusher
  let s₁ : State := { s with flusher := none, flushFailed := true, wedged := true }
  have h₁ : Inv b s₁ := by
    refine { h with
        accounted := fun i _ _ => .inr (.inl rfl), flusher := fun f' hf' => (by cases hf'),
        tails := h.wedge.tails_keep rfl,
        serial := by simp [show s₁.serial = none from hserial] }
  have hmodify : s.failFlush f = s₁.setTail f.tail t .failed := by
    have hset : s.tails.modify f.tail (fun t => { t with pc := .failed }) =
        s.tails.set f.tail { t with pc := .failed } := by
      rw [modify_eq_set_getElem?, ht]
      rfl
    rw [State.failFlush, hset]
    rfl
  rw [hmodify]
  exact ⟨h₁.setTail ht hserial (fun f' hf' => by cases hf') rfl fun _ => .inr fun _ _ => .inr rfl, le_rfl⟩

theorem beginGroupFlush (hf : f ∈ s.flusher) {outcome : BeginOutcome}
    (hstep : s.beginGroupFlush f outcome = some s') : Progress b s s' := by
  have hserial := h.serial_none_of_flusher hf
  have hwait := (h.flusher f hf).waiting
  cases outcome with
  | clean =>
    rw [State.beginGroupFlush] at hstep
    split at hstep
    · cases hstep
      have hok : FlusherOk s { f with pc := .returned s.walFlushed } := by
        refine ⟨hwait, fun _ hpc => (by cases hpc), fun w hpc => ?_⟩
        cases hpc
        exact ⟨h.durable, le_rfl⟩
      have h₁ := h.setFlusher hserial hok
      refine ⟨?_, le_rfl⟩
      exact { h₁ with
        mark := mem_append_left _ h.mark
        flusher := fun f' hf' => { h₁.flusher f' hf' with }
        tails := h.tails_keep rfl
        serial := fun c hc => { h₁.serial c hc with } }
    · cases hstep
  | job target =>
    rw [State.beginGroupFlush] at hstep
    split at hstep
    · rename_i hbounds
      cases hstep
      refine ⟨h.setFlusher hserial ⟨hwait, fun w hpc => ?_, fun _ hpc => (by cases hpc)⟩, le_rfl⟩
      cases hpc
      exact hbounds
    · cases hstep
  | busy =>
    cases hstep
    refine ⟨h.setFlusher hserial ⟨hwait, fun _ hpc => (by cases hpc), fun w hpc => ?_⟩, le_rfl⟩
    cases hpc
    exact ⟨le_rfl, h.durable⟩
  | error =>
    cases hstep
    exact h.failFlush hf

theorem jobCommit {target : ℕ} (hf : ⟨i, .running target⟩ ∈ s.flusher) (ok : Bool) :
    Progress b s (s.jobCommit ⟨i, .running target⟩ target ok) := by
  cases ok with
  | false => exact h.failFlush hf
  | true =>
    have hserial := h.serial_none_of_flusher hf
    obtain ⟨hlow, hhigh⟩ := (h.flusher _ hf).running target rfl
    have hle : s.walFlushed ≤ target := Nat.le_of_lt hlow
    refine ⟨?_, le_rfl⟩
    refine { h with
        wal := hhigh, durable := le_trans h.durable hle,
        mark := mem_append_right _ (mem_singleton_self _),
        flusher := fun f' hf' => ?_,
        stored := fun c hc hcov => le_trans (h.stored c hc hcov) hle,
        tails := h.tails_grow ⟨hle, le_rfl, fun _ hc => hc, id⟩, serial := by simp [State.jobCommit, hserial],
        outcomes := fun c hc => ⟨(h.outcomes c hc).1, le_trans (h.outcomes c hc).2 hle⟩ }
    cases hf'
    refine ⟨(h.flusher _ hf).waiting, fun _ hpc => (by cases hpc), fun w hpc => ?_⟩
    cases hpc
    exact ⟨le_trans h.durable hle, le_rfl⟩

theorem storeWatermark {w : ℕ} (hf : ⟨i, .returned w⟩ ∈ s.flusher) :
    Inv b { s with durableRecords := w, flusher := none } := by
  obtain ⟨_, hhigh⟩ := (h.flusher _ hf).returned w rfl
  refine { h with
      durable := hhigh, flusher := fun f' hf' => (by cases hf'),
      tails := h.tails_keep rfl,
      serial := by simp [h.serial_none_of_flusher hf] }

end

/-! #### Tails -/

theorem appendRecord (h : Inv b s) (hserial : s.serial = none) : Inv b { s with walLen := s.walLen + 1 } := by
  refine { h with
      wal := Nat.le_succ_of_le h.wal, flusher := fun f hf => ?_,
      tails := h.tails_keep rfl,
      serial := by simp [hserial] }
  have hok := h.flusher f hf
  refine { hok with running := fun target hpc => ?_ }
  have hrun := hok.running target hpc
  exact ⟨hrun.1, Nat.le_succ_of_le hrun.2⟩

/-- The operations of a wave are within the bounds of its last one. -/
theorem tailOk_allocate (hfloor : b < s.nextIndex) (hrows : rows ≠ [])
    (hsub : ∀ c ∈ s.allocate rows, c ∈ s'.statuses) :
    TailOk b s' ⟨s.allocate rows, .sequenced⟩ := by
  obtain ⟨last, hlast, hmem, hseq⟩ := allocate_last (s := s) hrows
  have hpos : (⟨s.allocate rows, .sequenced⟩ : Tail).lastPosition = last.walPosition := by
    simp only [Tail.lastPosition, hlast, map_some, getD_some]
  have hidx : (⟨s.allocate rows, .sequenced⟩ : Tail).lastCommittedSeq = last.commitSeq := by
    simp only [Tail.lastCommittedSeq, hlast, map_some, getD_some]
  have hfull := allocate_mem hmem
  refine ⟨fun c hc => ⟨hsub c hc, ?_⟩, fun c hc => ?_, trivial⟩
  · exact lt_of_lt_of_le hfloor (allocate_mem hc).1
  · rw [hpos, hidx]
    have := allocate_mem hc
    omega

section

variable (h : Inv b s)
include h

theorem sequenceWave (hrows : rows ≠ []) (hserial : s.serial = none) (hdom : s.nextIndex + rows.length ≤ u64Max) :
    Inv b { s with
      nextIndex := s.nextIndex + rows.length
      walLen := s.walLen + rows.length
      tails := s.tails ++ [⟨s.allocate rows, .sequenced⟩]
      statuses := s.statuses ++ s.allocate rows } := by
  have hfloor := h.floor
  refine { h with
      floor := Nat.lt_add_right _ h.floor, domain := hdom, reported := ?_,
      accounted := ?_, wal := Nat.le_add_right_of_le h.wal, flusher := ?_, indexed := ?_,
      stored := ?_, unique := ?_, tails := ?_, serial := by simp [hserial] }
  · intro i hi
    exact ⟨(h.reported i hi).1, Nat.lt_add_right _ (h.reported i hi).2⟩
  · intro i hb hi
    by_cases hold : i < s.nextIndex
    · refine (h.accounted i hb hold).imp_right (.imp_right (.imp_left fun ⟨t, ht, hpc, hmem⟩ => ?_))
      exact ⟨t, List.mem_append_left _ ht, hpc, hmem⟩
    · refine .inr (.inr (.inl ⟨⟨s.allocate rows, .sequenced⟩,
        List.mem_append_right _ (List.mem_singleton_self _), .inl rfl, ?_⟩))
      exact allocate_seqs (Nat.le_of_not_lt hold) hi
  · intro f hf
    obtain ⟨⟨t, ht, hpc⟩, hrun, hret⟩ := h.flusher f hf
    refine ⟨⟨t, ?_, hpc⟩, fun target hp => ?_, hret⟩
    · show (s.tails ++ _)[f.tail]? = some t
      rw [List.getElem?_append_left (List.getElem?_eq_some_iff.mp ht).1, ht]
    · exact ⟨(hrun target hp).1, Nat.le_add_right_of_le (hrun target hp).2⟩
  · intro c hc
    rcases List.mem_append.mp hc with hc | hc
    · exact Nat.lt_add_right _ (h.indexed c hc)
    · exact (allocate_mem hc).2.1
  · intro c hc hcov
    rcases List.mem_append.mp hc with hc | hc
    · exact h.stored c hc hcov
    · -- a fresh index is above the boundary and has not been reported
      have hnew := (allocate_mem hc).1
      rcases hcov with hcov | hcov
      · omega
      · have := (h.reported _ hcov).2
        omega
  · intro c hc c' hc' hb heq
    rcases List.mem_append.mp hc with hc | hc <;> rcases List.mem_append.mp hc' with hc' | hc'
    · exact h.unique c hc c' hc' hb heq
    · have := h.indexed c hc
      have := (allocate_mem hc').1
      omega
    · have := h.indexed c' hc'
      have := (allocate_mem hc).1
      omega
    · have := (allocate_mem hc).2.2
      have := (allocate_mem hc').2.2
      omega
  · intro t ht
    rcases List.mem_append.mp ht with ht | ht
    · exact (h.tails t ht).mono ⟨le_rfl, le_rfl, fun _ hc => List.mem_append_left _ hc, id⟩
    · rw [List.mem_singleton.mp ht]
      exact tailOk_allocate h.floor hrows fun c hc => List.mem_append_right _ hc

theorem tailPublish (ht : s.tails[i]? = some t) (hpc : t.pc = .durable) : Progress b s (s.tailPublish i t) := by
  have hserial := h.serial_none ht
  have hflusher := h.flusher_ne ht (by simp [hpc])
  have hok := h.tails t (mem_of_getElem? ht)
  have hlast : t.lastPosition ≤ s.walFlushed := by
    have hstage := hok.stage
    rw [TailStage, hpc] at hstage
    exact hstage
  rw [State.tailPublish]
  by_cases hw : s.wedged = true
  · rw [if_pos hw]
    exact ⟨h.setTail ht hserial hflusher hw (fun _ => .inr fun _ _ => .inr hw), le_rfl⟩
  · rw [if_neg hw]
    have hidx : ∀ j ∈ t.committed.map commitSeq, b < j ∧ j < s.nextIndex := by
      intro j hj
      obtain ⟨c, hc, rfl⟩ := mem_map.mp hj
      exact ⟨(hok.known c hc).2, h.indexed c (hok.known c hc).1⟩
    obtain ⟨p, hrun, hpub, hle⟩ := h.report_ok hidx
    have hstored : ∀ c ∈ s.statuses, c.commitSeq ∈ t.committed.map commitSeq →
        c.walPosition ≤ s.walFlushed := by
      intro c hc hmem
      obtain ⟨c', hc', heq⟩ := mem_map.mp hmem
      obtain ⟨hknown, hb⟩ := hok.known c' hc'
      rw [← h.unique c' hknown c hc hb heq]
      exact le_trans (hok.bounded c' hc').1 hlast
    have h₁ := h.setPublication hidx hstored (by simp [hserial]) (fun _ hc => .inl hc) hpub hle
    rw [hrun]
    refine ⟨h₁.setTail ht hserial hflusher hlast (fun _ => .inr fun j hj => .inl ?_), hle⟩
    exact Finset.mem_union_right _ (mem_toFinset.mpr hj)

theorem tailAck {acked : ℕ} (ht : s.tails[i]? = some t)
    (hpc : t.pc = .covered acked) : Progress b s (s.tailAck i t acked) := by
  have hserial := h.serial_none ht
  have hflusher := h.flusher_ne ht (by simp [hpc])
  have hok := h.tails t (mem_of_getElem? ht)
  have hcover : t.lastPosition ≤ s.walFlushed ∧ t.lastCommittedSeq ≤ s.publication.committedSeq := by
    have hstage := hok.stage
    rw [TailStage, hpc] at hstage
    exact hstage
  have hactive : ¬ (t.pc = .sequenced ∨ t.pc = .durable) := by simp [hpc]
  rw [State.tailAck]
  cases hc : t.committed[acked]? with
  | some c =>
    have hmem := hok.bounded c (mem_of_getElem? hc)
    have h₁ : Inv b (s.setTail i t (.covered (acked + 1))) :=
      h.setTail ht hserial hflusher hcover fun hp => absurd hp hactive
    refine ⟨h₁.addOutcomes fun x hx => ?_, le_rfl⟩
    rw [mem_singleton.mp hx]
    exact ⟨le_trans hmem.2 hcover.2, le_trans hmem.1 hcover.1⟩
  | none => exact ⟨h.setTail ht hserial hflusher trivial fun hp => absurd hp hactive, le_rfl⟩

theorem tailFail (ht : s.tails[i]? = some t)
    (hfin : t.pc ≠ .finished) (hfail : t.pc ≠ .failed) (hflusher : ∀ f ∈ s.flusher, f.tail ≠ i) :
    Inv b { s.setTail i t .failed with wedged := true } :=
  h.wedge.setTail ht (h.serial_none ht hfin hfail) hflusher rfl fun _ => .inr fun _ _ => .inr rfl

theorem repeatReport (hmem : ∀ i ∈ indices, i ∈ s.reported) : Progress b s (s.report indices).2 := by
  have hidx : ∀ i ∈ indices, b < i ∧ i < s.nextIndex := fun i hi => h.reported i (hmem i hi)
  obtain ⟨p, hrun, hpub, hle⟩ := h.report_ok hidx
  rw [hrun]
  refine ⟨h.setPublication hidx (fun c hc hi => ?_) (fun c hc => ⟨hc, fun i hi => ?_⟩) (fun _ hc => .inl hc)
    hpub hle, hle⟩
  · exact h.stored c hc (.inr (hmem _ hi))
  · exact (h.serial c hc).below i (hmem i hi)

theorem retry (hc : c ∈ s.statuses) (hvis : c.commitSeq ≤ s.publication.committedSeq) :
    Inv b { s with outcomes := s.outcomes ++ [c] } := by
  -- a visible index lies under the boundary or was reported
  have hmark := h.published.watermark
  have hcov := h.published.joined.mem_of_lt (i := c.commitSeq) (by omega)
  refine h.addOutcomes fun x hx => ?_
  rw [mem_singleton.mp hx]
  exact ⟨hvis, h.stored c hc hcov⟩

end

/-! #### Serialized commits -/

section

variable (h : Inv b s)
include h

theorem flusher_none (hquiet : s.quiescent = true) : s.flusher = none := by
  cases hf : s.flusher with
  | none => rfl
  | some f =>
    obtain ⟨t, ht, hpc⟩ := (h.flusher f hf).waiting
    rw [State.quiescent, List.all_eq_true] at hquiet
    have := hquiet t (List.mem_of_getElem? ht)
    simp [hpc] at this

theorem serialAppend (hrows : rows ≠ []) (hserial : s.serial = none)
    (hquiet : s.quiescent = true) (hdom : s.nextIndex + rows.length ≤ u64Max) :
    Inv b { s with
      nextIndex := s.nextIndex + rows.length
      walLen := s.walLen + rows.length
      serial := some ⟨s.allocate rows, false⟩ } := by
  have hidle := h.flusher_none hquiet
  have hlen : (s.allocate rows).length = rows.length := length_mapIdx
  refine { h with
      floor := Nat.lt_add_right _ h.floor, domain := hdom, reported := ?_,
      accounted := ?_, wal := Nat.le_add_right_of_le h.wal, flusher := by simp [hidle],
      indexed := ?_, tails := h.tails_keep rfl, serial := ?_ }
  · intro i hi
    exact ⟨(h.reported i hi).1, Nat.lt_add_right _ (h.reported i hi).2⟩
  · intro i hb hi
    by_cases hold : i < s.nextIndex
    · refine (h.accounted i hb hold).imp_right (.imp_right (.imp_right fun hown => ?_))
      simp [hserial] at hown
    · exact .inr (.inr (.inr ⟨_, rfl, allocate_seqs (Nat.le_of_not_lt hold) hi⟩))
  · intro c hc
    exact Nat.lt_add_right _ (h.indexed c hc)
  · intro c hc
    cases hc
    obtain ⟨last, hlast, _, hseq⟩ := allocate_last (s := s) hrows
    have hfloor := h.floor
    have hwal := h.wal
    exact
      { floor := by show b + (s.allocate rows).length < s.nextIndex + rows.length; omega
        fits := by show (s.allocate rows).length ≤ s.walLen + rows.length; omega
        owned := fun x hx => by
          have := allocate_mem hx
          show s.nextIndex + rows.length ≤ x.commitSeq + (s.allocate rows).length ∧
            x.commitSeq < s.nextIndex + rows.length ∧
            x.walPosition + (s.nextIndex + rows.length) = s.walLen + rows.length + x.commitSeq + 1
          omega
        last := ⟨last, hlast, hseq⟩
        below := fun i hi => by
          have := (h.reported i hi).2
          show i + (s.allocate rows).length < s.nextIndex + rows.length
          omega
        quiescent := hquiet
        idle := hidle
        unflushed := fun _ => by
          refine ⟨?_, fun x hx => ?_⟩
          · show s.walFlushed + (s.allocate rows).length ≤ s.walLen + rows.length
            omega
          · have := h.indexed x hx
            show x.commitSeq + (s.allocate rows).length < s.nextIndex + rows.length
            omega
        flushed := fun hc => by cases hc }

theorem serialFlush (hserial : s.serial = some ⟨committed, false⟩) :
    Inv b { s with
      walFlushed := s.walLen
      watermarks := s.watermarks ++ [s.walLen]
      statuses := s.statuses ++ committed
      serial := some ⟨committed, true⟩ } := by
  have hok := h.serial _ hserial
  obtain ⟨_, hfresh⟩ := hok.unflushed rfl
  have hfresh : ∀ x ∈ s.statuses, x.commitSeq + committed.length < s.nextIndex := hfresh
  have howned : ∀ x ∈ committed, s.nextIndex ≤ x.commitSeq + committed.length ∧
      x.commitSeq < s.nextIndex ∧ x.walPosition + s.nextIndex = s.walLen + x.commitSeq + 1 := hok.owned
  refine { h with
      accounted := ?_, wal := le_rfl, durable := le_trans h.durable h.wal,
      mark := mem_append_right _ (mem_singleton_self _),
      flusher := by simp [show s.flusher = none from hok.idle],
      indexed := ?_, stored := ?_, unique := ?_,
      tails := h.tails_grow ⟨h.wal, le_rfl, fun _ hc => mem_append_left _ hc, id⟩, serial := ?_,
      outcomes := fun c hc => ⟨(h.outcomes c hc).1, le_trans (h.outcomes c hc).2 h.wal⟩ }
  · intro i hb hi
    refine (h.accounted i hb hi).imp_right (.imp_right (.imp_right fun ⟨c, hc, hmem⟩ => ?_))
    rw [hserial] at hc
    cases hc
    exact ⟨_, rfl, hmem⟩
  · intro c hc
    rcases mem_append.mp hc with hc | hc
    · exact h.indexed c hc
    · exact (howned c hc).2.1
  · intro c hc hcov
    rcases mem_append.mp hc with hc | hc
    · exact le_trans (h.stored c hc hcov) h.wal
    · have := howned c hc
      show c.walPosition ≤ s.walLen
      omega
  · intro c hc c' hc' hb heq
    rcases mem_append.mp hc with hc | hc <;> rcases mem_append.mp hc' with hc' | hc'
    · exact h.unique c hc c' hc' hb heq
    · have := hfresh c hc
      have := howned c' hc'
      omega
    · have := hfresh c' hc'
      have := howned c hc
      omega
    · have := howned c hc
      have := howned c' hc'
      omega
  · intro c hc
    cases hc
    exact { hok with
      unflushed := fun hc => by cases hc
      flushed := fun _ => ⟨rfl, fun x hx => mem_append_right _ hx⟩ }

theorem serialRollback (hserial : s.serial = some ⟨committed, false⟩) :
    Inv b { s with
      nextIndex := s.nextIndex - committed.length
      walLen := s.walLen - committed.length
      serial := none } := by
  have hok := h.serial _ hserial
  obtain ⟨hwal, hfresh⟩ := hok.unflushed rfl
  have hfloor : b + committed.length < s.nextIndex := hok.floor
  refine { h with
      floor := Nat.lt_sub_of_add_lt hfloor,
      domain := le_trans (Nat.sub_le _ _) h.domain, reported := ?_, accounted := ?_,
      wal := Nat.le_sub_of_add_le hwal,
      flusher := by simp [show s.flusher = none from hok.idle],
      indexed := fun c hc => Nat.lt_sub_of_add_lt (hfresh c hc),
      tails := h.tails_keep rfl, serial := fun c hc => by cases hc }
  · intro i hi
    exact ⟨(h.reported i hi).1, Nat.lt_sub_of_add_lt (hok.below i hi)⟩
  · intro i hb hi
    have hi : i < s.nextIndex - committed.length := hi
    refine (h.accounted i hb (by omega)).imp_right (.imp_right (.imp_right fun ⟨c, hc, hmem⟩ => ?_))
    -- the serialized commit's own indices are given back
    rw [hserial] at hc
    cases hc
    obtain ⟨x, hx, rfl⟩ := mem_map.mp hmem
    have hlow : s.nextIndex ≤ x.commitSeq + committed.length := (hok.owned x hx).1
    omega

section

variable (hserial : s.serial = some ⟨committed, true⟩)
include hserial

/-- The serialized commit's indices are above the boundary, and its records are durable. -/
theorem serial_durable : (∀ i ∈ committed.map commitSeq, b < i ∧ i < s.nextIndex) ∧
    ∀ x ∈ committed, x ∈ s.statuses ∧ x.walPosition ≤ s.walFlushed := by
  have hok := h.serial _ hserial
  obtain ⟨hflushed, hmem⟩ := hok.flushed rfl
  have hfloor : b + committed.length < s.nextIndex := hok.floor
  refine ⟨fun i hi => ?_, fun x hx => ?_⟩
  · obtain ⟨x, hx, rfl⟩ := mem_map.mp hi
    have hown : s.nextIndex ≤ x.commitSeq + committed.length ∧ x.commitSeq < s.nextIndex ∧ _ := hok.owned x hx
    omega
  · have hown := (hok.owned x hx).2
    exact ⟨hmem x hx, by omega⟩

/-- The report of a serialized commit, in the state it leaves. -/
theorem serialReport (hpub : Published b (s.reported ∪ (committed.map Committed.commitSeq).toFinset) p)
    (hle : s.publication.committedSeq ≤ p.committedSeq) :
    Inv b { s with publication := p, serial := none,
                   reported := s.reported ∪ (committed.map Committed.commitSeq).toFinset } := by
  obtain ⟨hidx, hdur⟩ := h.serial_durable hserial
  refine h.setPublication hidx ?_ (fun c hc => by cases hc) (fun c hc => ?_) hpub hle
  · intro c hc hnew
    obtain ⟨x, hx, heq⟩ := mem_map.mp hnew
    have hb := (hidx x.commitSeq (mem_map.mpr ⟨x, hx, rfl⟩)).1
    rw [← h.unique x (hdur x hx).1 c hc hb heq]
    exact (hdur x hx).2
  · rw [hserial] at hc
    cases hc
    exact .inr fun _ hi => hi

theorem serialPublish : Progress b s (s.serialPublish ⟨committed, true⟩) := by
  obtain ⟨hidx, hdur⟩ := h.serial_durable hserial
  obtain ⟨p, hrun, hpub, hle⟩ := h.report_ok hidx
  have h₁ := h.serialReport hserial hpub hle
  simp only [State.serialPublish, hrun]
  split
  · exact ⟨h₁.wedge, hle⟩
  · rename_i hcover
    refine ⟨h₁.addOutcomes fun c hc => ⟨?_, (hdur c hc).2⟩, hle⟩
    obtain ⟨last, hlast, hseq⟩ := (h.serial _ hserial).last
    rw [hlast, map_some, getD_some] at hcover
    have hlt := (hidx c.commitSeq (mem_map.mpr ⟨c, hc, rfl⟩)).2
    show c.commitSeq ≤ p.committedSeq
    omega

end

theorem serialAbort : Inv b { s with serial := none, wedged := true } := by
  exact { h with
    accounted := fun i _ _ => .inr (.inl rfl)
    flusher := fun f hf => { h.flusher f hf with }
    tails := h.wedge.tails_keep rfl
    serial := fun c hc => by cases hc }

end

end Inv

/-! ### Steps and runs -/

theorem inv_of_init (h : (waveTails b).init s) : Inv b s := by
  obtain ⟨hb, recovered, statuses, rfl, hold⟩ := h
  exact
    { published := .snapshot hb
      floor := Nat.lt_succ_self b
      domain := hb
      reported := fun i hi => by cases hi
      accounted := fun i hlo hhi => absurd hhi (by show ¬ i < b + 1; omega)
      wal := le_rfl
      durable := Nat.zero_le _
      mark := mem_singleton_self _
      flusher := fun f hf => by cases hf
      indexed := fun c hc => Nat.lt_succ_of_le (hold c hc).1
      stored := fun c hc _ => (hold c hc).2
      unique := fun c hc c' _ hlo _ => absurd hlo (Nat.not_lt.mpr (hold c hc).1)
      tails := fun t ht => by cases ht
      serial := fun c hc => by cases hc
      outcomes := fun c hc => by cases hc }

theorem State.serial_none_of_unlocked (h : s.unlocked = true) : s.serial = none := isNone_iff_eq_none.mp h

/-- **One step** keeps the invariant and the watermark. -/
theorem progress_step {a : Action} (h : Inv b s) (hstep : s.step a = some s') : Progress b s s' := by
  cases a with
  | sequenceWave rows =>
    obtain ⟨⟨hrows, hlock, hdom⟩, rfl⟩ := ite_some_none_eq_some.mp hstep
    exact ⟨h.sequenceWave hrows (State.serial_none_of_unlocked hlock) hdom, le_rfl⟩
  | appendRecord =>
    obtain ⟨hlock, rfl⟩ := ite_some_none_eq_some.mp hstep
    exact ⟨h.appendRecord (State.serial_none_of_unlocked hlock), le_rfl⟩
  | electFlusher i =>
    obtain ⟨t, ht, hcond⟩ := bind_eq_some_iff.mp hstep
    obtain ⟨⟨hpc, _⟩, rfl⟩ := ite_some_none_eq_some.mp hcond
    have hserial := h.serial_none ht
    have hok : FlusherOk s ⟨i, .elected⟩ :=
      ⟨⟨t, ht, hpc⟩, fun _ hp => (by cases hp), fun _ hp => (by cases hp)⟩
    exact ⟨h.setFlusher hserial hok, le_rfl⟩
  | beginGroupFlush outcome =>
    obtain ⟨f, hf, hcond⟩ := bind_eq_some_iff.mp hstep
    obtain ⟨_, hs⟩ := ite_none_right_eq_some.mp hcond
    exact h.beginGroupFlush hf hs
  | jobCommit ok =>
    obtain ⟨⟨i, pc⟩, hf, hcond⟩ := bind_eq_some_iff.mp hstep
    cases pc with
    | running target =>
      cases hcond
      exact h.jobCommit hf ok
    | elected | returned => cases hcond
  | storeWatermark =>
    obtain ⟨⟨i, pc⟩, hf, hcond⟩ := bind_eq_some_iff.mp hstep
    cases pc with
    | returned w =>
      cases hcond
      exact ⟨h.storeWatermark hf, le_rfl⟩
    | elected | running => cases hcond
  | tailDurable i =>
    obtain ⟨t, ht, hcond⟩ := bind_eq_some_iff.mp hstep
    obtain ⟨⟨hpc, hlast, hflusher⟩, rfl⟩ := ite_some_none_eq_some.mp hcond
    have hserial := h.serial_none ht
    have hne : ∀ f ∈ s.flusher, f.tail ≠ i := by
      intro f hf
      have hf : s.flusher = some f := hf
      simpa [hf] using hflusher
    exact ⟨h.setTail ht hserial hne (le_trans hlast h.durable) fun _ => .inl (.inr rfl), le_rfl⟩
  | tailPublish i =>
    obtain ⟨t, ht, hcond⟩ := bind_eq_some_iff.mp hstep
    obtain ⟨hpc, rfl⟩ := ite_some_none_eq_some.mp hcond
    exact h.tailPublish ht hpc
  | tailCover i =>
    obtain ⟨t, ht, hcond⟩ := bind_eq_some_iff.mp hstep
    obtain ⟨⟨hpc, hseq⟩, rfl⟩ := ite_some_none_eq_some.mp hcond
    have hserial := h.serial_none ht
    have hstage := (h.tails t (mem_of_getElem? ht)).stage
    rw [TailStage, hpc] at hstage
    refine ⟨h.setTail ht hserial (h.flusher_ne ht (by simp [hpc])) ⟨hstage, hseq⟩ fun hp => ?_, le_rfl⟩
    simp [hpc] at hp
  | tailAck i =>
    obtain ⟨t, ht, hcond⟩ := bind_eq_some_iff.mp hstep
    split at hcond
    · rename_i acked hpc
      cases hcond
      exact h.tailAck ht hpc
    · cases hcond
  | tailFail i =>
    obtain ⟨t, ht, hcond⟩ := bind_eq_some_iff.mp hstep
    obtain ⟨⟨hfin, hfail, hflusher⟩, rfl⟩ := ite_some_none_eq_some.mp hcond
    have hne : ∀ f ∈ s.flusher, f.tail ≠ i := by
      intro f hf
      have hf : s.flusher = some f := hf
      simpa [hf] using hflusher
    exact ⟨h.tailFail ht hfin hfail hne, le_rfl⟩
  | repeatReport indices =>
    obtain ⟨hall, rfl⟩ := ite_some_none_eq_some.mp hstep
    exact h.repeatReport fun i hi => by simpa using all_eq_true.mp hall i hi
  | retry k =>
    obtain ⟨c, hc, hcond⟩ := bind_eq_some_iff.mp hstep
    obtain ⟨⟨_, hvis⟩, rfl⟩ := ite_some_none_eq_some.mp hcond
    exact ⟨h.retry (mem_of_getElem? hc) hvis, le_rfl⟩
  | serialAppend rows =>
    obtain ⟨⟨hrows, hlock, hquiet, _, hdom⟩, rfl⟩ := ite_some_none_eq_some.mp hstep
    exact ⟨h.serialAppend hrows (State.serial_none_of_unlocked hlock) hquiet hdom, le_rfl⟩
  | serialFlush ok =>
    rw [State.step] at hstep
    split at hstep
    · rename_i committed hserial
      cases ok with
      | true =>
        cases hstep
        exact ⟨h.serialFlush hserial, le_rfl⟩
      | false =>
        cases hstep
        exact ⟨h.serialRollback hserial, le_rfl⟩
    · cases hstep
  | serialPublish =>
    rw [State.step] at hstep
    split at hstep
    · rename_i committed hserial
      cases hstep
      exact h.serialPublish hserial
    · cases hstep
  | serialAbort =>
    rw [State.step] at hstep
    split at hstep
    · cases hstep
      exact ⟨h.serialAbort, le_rfl⟩
    · cases hstep
  | wedge =>
    cases hstep
    exact ⟨h.wedge, le_rfl⟩

theorem inv_of_reachable (h : (waveTails b).Reachable s) : Inv b s :=
  h.invariant (P := Inv b) (fun _ hinit => inv_of_init hinit)
    fun _ _ _ hinv _ hstep => (progress_step hinv hstep).1

/-- **Publication is the contiguous completed prefix, and acknowledgements imply it.**  In every reachable
state the readers' watermark is the greatest `n` such that every index above the boundary up to `n` was
reported, no step moves it back, and every acknowledged operation has a commit index at or below it and
a WAL position that a flush's watermark covers. The last part holds right after each outcome is set. -/
theorem publication_exact_and_acks_covered {b : ℕ} {s : State} (h : (waveTails b).Reachable s) :
    IsGreatest {n | b ≤ n ∧ ∀ i, b < i → i ≤ n → i ∈ s.reported} s.publication.committedSeq ∧
    (∀ a s', s.step a = some s' → s.publication.committedSeq ≤ s'.publication.committedSeq) ∧
    ∀ c ∈ s.outcomes, c.commitSeq ≤ s.publication.committedSeq ∧
      ∃ w ∈ s.watermarks, c.walPosition ≤ w := by
  have hinv := inv_of_reachable h
  refine ⟨?_, fun a s' hstep => (progress_step hinv hstep).2, fun c hc => ?_⟩
  · have hgreatest := hinv.published.joined.isGreatest
    rw [← hinv.published.watermark, Nat.add_sub_cancel] at hgreatest
    exact hgreatest
  · exact ⟨(hinv.outcomes c hc).1, s.walFlushed, hinv.mark, (hinv.outcomes c hc).2⟩

/-- Two waves whose tails finish out of order over the boundary `3`, one group flush for both, a repeated
report and a serialized commit after them. -/
theorem publication_exact_out_of_order :
    ∃ s, (waveTails 3).Reachable s ∧ s.outcomes.map commitSeq = [6, 4, 5, 7] ∧
      IsGreatest {n | 3 ≤ n ∧ ∀ i, 3 < i → i ≤ n → i ∈ s.reported} s.publication.committedSeq := by
  have hinit : (waveTails 3).init (.initial 3 2 [⟨3, 2, 1⟩]) := ⟨by decide, 2, [⟨3, 2, 1⟩], rfl, by decide⟩
  obtain ⟨s, hs, hp⟩ := TransitionSystem.exists_reachable_of_runVia (fun _ _ => True)
    [.sequenceWave [1, 1], .sequenceWave [8], .electFlusher 0, .beginGroupFlush (.job 5),
      .jobCommit true, .storeWatermark, .tailDurable 1, .tailPublish 1, .tailDurable 0, .tailPublish 0,
      .tailCover 1, .tailAck 1, .tailCover 0, .tailAck 0, .tailAck 0, .tailAck 0, .tailAck 1,
      .repeatReport [5, 6], .serialAppend [2], .serialFlush true, .serialPublish]
    hinit (fun s => s.outcomes.map commitSeq = [6, 4, 5, 7]) (by decide +kernel)
  exact ⟨s, hs, of_decide_eq_true hp, (publication_exact_and_acks_covered hs).1⟩

end ThunderboltDb.Engine.WaveTail
