import ThunderboltDb.Lib.Transition

/-!
# The commit wave: queue, sequencer, tails and quiescing claimants

Clients enqueue items and wait for their outcomes. One of them is promoted to sequencer: it drains a
wave from the queue, sequences it under the commit lock, runs the auto-checkpoint probe on every 256th
wave, passes the capacity gate, hands the wave's tail to `pending_tails` and steps down once its own item
is done. Tails are claimed and finished by whoever probes the deque; a thread that waits for publication
coverage helps with further tails on its own stack. Checkpoint rotation and serialized commits claim the
commit state after every applied tail has finished. A tail whose durability wait fails wedges the commit
path: its thread drains the queue and `pending_tails`, fails what it took, and takes the sequencer role
from whoever has it.

* `State.step` — one step of one thread; `commitWave` — the transition system.

A critical section of the queue mutex that holds no atomic load is one step. A tail is covered once every
earlier tail is published, which is the publication join's result for waves. Intent lanes are off, so
`wait_publication_tail_quiescence` returns at once. `WAVE_STATS` is shared by every engine of the process
and starts anywhere. An in-memory log has `0` segment bytes. `wait_group_durable` fails with a durability
fault; an error of another kind panics the flusher, whose thread then ends, and is not modelled.
-/

namespace ThunderboltDb.Engine.CommitWave

open Lib

/-- The environment's settings: `GPU_DB_COMMIT_WAVE_MAX`, `GPU_DB_WAVE_TAIL_PIPELINE_DEPTH` (less one) and
`GPU_DB_WAL_CHECKPOINT_BYTES`. -/
structure Config where
  commitWaveMax : ℕ
  commitWaveMax_pos : 0 < commitWaveMax
  maxOutstanding : ℕ
  checkpointBytes : ℕ

/-- `CommitWaveTail`: the items that reached the commit point. Tails are numbered in apply order. -/
structure Tail where
  id : ℕ
  items : List ℕ
  deriving DecidableEq

/-- Where `fail_all_pending_commit_work` and its sibling for durability faults stand. -/
inductive Drain where
  | lockQueue
  /-- about to fail the items of the queue -/
  | strand (items : List ℕ)
  | takeTails
  | dropTails (tails : List Tail)
  /-- about to add the dropped tails to `tails_finished` -/
  | countTails (tails : List Tail)
  | wake
  deriving DecidableEq

/-- Where `finish_wave_tail` stands. -/
inductive Phase where
  /-- in `wait_group_durable` -/
  | durable
  | publish
  /-- in `wait_until_publication_covers` -/
  | cover
  /-- about to lock the commit state for `mark_published_through` -/
  | mark
  | ack
  /-- about to drop the tail, which fails its items -/
  | drop
  /-- in the drain of the failed commit path, which runs before and after the drop -/
  | failing (dropped : Bool) (stage : Drain)
  /-- about to increment `tails_finished` -/
  | bump
  | notify
  deriving DecidableEq

structure Frame where
  tail : Tail
  phase : Phase
  deriving DecidableEq

/-- Who called `commit_state_after_wave_quiescence`: a client's own claim, the probe of a sequencer that
stepped down on an empty queue, or the probe of every 256th wave. -/
inductive Caller where
  | client
  | stepDown (own : Option ℕ)
  | periodic (own : Option ℕ) (tail : Option Tail)
  deriving DecidableEq

/-- Where `commit_state_after_wave_quiescence` stands. -/
inductive Claim where
  | loadApplied
  | loadFinished (applied : ℕ)
  | lockQueue
  | checkWedged
  | reloadApplied
  | reloadFinished (applied : ℕ)
  | enterWait
  | parked
  | lockCommit
  | recheckApplied
  | recheckFinished (applied : ℕ)
  | claimed
  deriving DecidableEq

/-- Where `wait_wave_tail_capacity` stands. -/
inductive Gate where
  | loadHanded
  | loadFinished (handed : ℕ)
  | tryFinish
  | lockQueue
  | checkWedged
  | reloadFinished
  | reloadHanded (finished : ℕ)
  | enterWait
  | parked
  deriving DecidableEq

/-- Where a thread stands below the tails it is finishing. `own` is the item the thread waits for;
`drive_commit_wave` sequences with a sentinel. -/
inductive Pc where
  | idle
  | pump (own : ℕ)
  | await (own : ℕ)
  | parked (own : ℕ)
  | drain (own : Option ℕ)
  | lockCommit (own : Option ℕ) (batch : List ℕ)
  | sequence (own : Option ℕ) (batch : List ℕ)
  | release (own : Option ℕ) (tail : Option Tail)
  | count (own : Option ℕ) (tail : Option Tail)
  | probe (own : Option ℕ) (tail : Option Tail)
  | claim (caller : Caller) (stage : Claim)
  | gate (own : Option ℕ) (tail : Tail) (stage : Gate)
  | hand (own : Option ℕ) (tail : Tail)
  | abandon (own : Option ℕ) (tail : Tail)
  | countHanded (own : Option ℕ)
  | wake (own : Option ℕ)
  | checkOwn (own : Option ℕ)
  | stepDown (own : Option ℕ)
  | notify (own : Option ℕ)
  | drainTails (own : Option ℕ)
  | idleProbe (own : Option ℕ)
  deriving DecidableEq

structure Thread where
  pc : Pc
  frames : List Frame
  deriving DecidableEq

/-- Where a tail is; a record of the run that no step reads. -/
inductive Place where
  | unborn
  | held (t : ℕ)
  | pending
  | finished
  deriving DecidableEq

structure State where
  items : List ℕ
  nextItem : ℕ
  /-- the items whose outcome is set -/
  resolved : Finset ℕ
  /-- the thread that set `sequencer_active` -/
  sequencer : Option ℕ
  /-- `commit_path_wedged` -/
  wedged : Bool
  /-- the sticky failure in the queue -/
  queueWedged : Bool
  queueLock : Option ℕ
  commitLock : Option ℕ
  pendingTails : List Tail
  tailsHanded : ℕ
  tailsApplied : ℕ
  tailsFinished : ℕ
  published : Finset ℕ
  waves : ℕ
  segmentBytes : ℕ
  threads : ℕ → Thread
  place : ℕ → Place

inductive Action where
  /-- `enqueue_commit_wave_item` -/
  | enqueue (t : ℕ)
  /-- the promotion of `drive_commit_wave` -/
  | drive (t : ℕ)
  /-- the promotion of the waiter loop -/
  | promote (t : ℕ)
  | park (t : ℕ)
  | spuriousWake (t : ℕ)
  /-- a client calls `commit_state_after_wave_quiescence` -/
  | enter (t : ℕ)
  /-- the next step of a thread that is finishing no tail -/
  | run (t : ℕ)
  /-- a wave is settled under the commit lock: `committed` reached the commit point, the rest aborted -/
  | settle (t : ℕ) (committed : List ℕ)
  /-- a claimant ends its work under the commit lock -/
  | endClaim (t : ℕ) (segmentBytes : ℕ)
  /-- `try_finish_pending_wave_tail` takes the front tail -/
  | claimTail (t : ℕ)
  /-- the next step of `finish_wave_tail` -/
  | finish (t : ℕ)
  /-- `wait_group_durable` succeeds -/
  | flush (t : ℕ) (grown : ℕ)
  /-- `wait_group_durable` fails -/
  | fail (t : ℕ)
  deriving DecidableEq

namespace State

variable (s : State)

def pc (t : ℕ) : Pc := (s.threads t).pc

def frames (t : ℕ) : List Frame := (s.threads t).frames

def setThread (t : ℕ) (th : Thread) : State :=
  { s with threads := Function.update s.threads t th }

def setPc (t : ℕ) (pc : Pc) : State := s.setThread t ⟨pc, s.frames t⟩

def setFrames (t : ℕ) (frames : List Frame) : State := s.setThread t ⟨s.pc t, frames⟩

def resolve (items : List ℕ) : State :=
  { s with resolved := s.resolved ∪ items.toFinset }

def setPlace (tails : List Tail) (p : Place) : State :=
  { s with place := fun k => if k ∈ tails.map Tail.id then p else s.place k }

end State

/-- The item a sequencer returns to. -/
def afterRun : Option ℕ → Pc
  | none => .idle
  | some own => .await own

def afterProbe (own : Option ℕ) : Option Tail → Pc
  | none => .wake own
  | some tail => .gate own tail .loadHanded

def Caller.resume : Caller → Pc
  | .client => .idle
  | .stepDown own => .notify own
  | .periodic own tail => afterProbe own tail

/-- A parked thread leaves the condition variable. -/
def wakePc : Pc → Pc
  | .parked own => .await own
  | .claim caller .parked => .claim caller .loadApplied
  | .gate own tail .parked => .gate own tail .loadHanded
  | pc => pc

variable (s : State) (c : Config)

def State.notifyAll : State :=
  { s with threads := fun u => ⟨wakePc (s.pc u), s.frames u⟩ }

/-- `try_finish_pending_wave_tail` may come back without a tail. -/
def State.noTail : Bool :=
  s.pendingTails = [] ∨ s.tailsHanded ≤ s.tailsFinished ∨ s.wedged

/-- The readers' watermark covers the tail. -/
def State.covered (tail : Tail) : Bool := decide (∀ k < tail.id, k ∈ s.published)

/-- `maybe_auto_checkpoint_wal` finds the live segment above its bound. -/
def Config.exceeded (s : State) : Bool :=
  c.checkpointBytes ≠ 0 ∧ c.checkpointBytes < s.segmentBytes

/-- `commit_state_after_wave_quiescence`. -/
def State.claim (s : State) (t : ℕ) (caller : Caller) : Claim → Option State
  | .loadApplied => some (s.setPc t (.claim caller (.loadFinished s.tailsApplied)))
  | .loadFinished applied =>
    some (s.setPc t (.claim caller (if applied = s.tailsFinished then .lockCommit else .lockQueue)))
  | .lockQueue =>
    if s.queueLock = none then
      some { s.setPc t (.claim caller .checkWedged) with queueLock := some t }
    else none
  | .checkWedged =>
    if s.queueWedged then some { s.setPc t caller.resume with queueLock := none }
    else some (s.setPc t (.claim caller .reloadApplied))
  | .reloadApplied => some (s.setPc t (.claim caller (.reloadFinished s.tailsApplied)))
  | .reloadFinished applied =>
    if applied = s.tailsFinished then
      some { s.setPc t (.claim caller .lockCommit) with queueLock := none }
    else some (s.setPc t (.claim caller .enterWait))
  | .enterWait => some { s.setPc t (.claim caller .parked) with queueLock := none }
  | .parked => none
  | .lockCommit =>
    if s.commitLock = none then
      some { s.setPc t (.claim caller .recheckApplied) with commitLock := some t }
    else none
  | .recheckApplied => some (s.setPc t (.claim caller (.recheckFinished s.tailsApplied)))
  | .recheckFinished applied =>
    if s.wedged then some { s.setPc t caller.resume with commitLock := none }
    else if applied = s.tailsFinished then some (s.setPc t (.claim caller .claimed))
    else some { s.setPc t (.claim caller .loadApplied) with commitLock := none }
  | .claimed => none

/-- `wait_wave_tail_capacity`. -/
def State.gate (c : Config) (s : State) (t : ℕ) (own : Option ℕ) (tail : Tail) : Gate → Option State
  | .loadHanded => some (s.setPc t (.gate own tail (.loadFinished s.tailsHanded)))
  | .loadFinished handed =>
    some (s.setPc t
      (if handed - s.tailsFinished ≤ c.maxOutstanding then .hand own tail else .gate own tail .tryFinish))
  | .tryFinish => if s.noTail then some (s.setPc t (.gate own tail .lockQueue)) else none
  | .lockQueue =>
    if s.queueLock = none then
      some { s.setPc t (.gate own tail .checkWedged) with queueLock := some t }
    else none
  | .checkWedged =>
    if s.queueWedged then some { s.setPc t (.hand own tail) with queueLock := none }
    else some (s.setPc t (.gate own tail .reloadFinished))
  | .reloadFinished => some (s.setPc t (.gate own tail (.reloadHanded s.tailsFinished)))
  | .reloadHanded finished =>
    if s.tailsHanded - finished ≤ c.maxOutstanding then
      some { s.setPc t (.hand own tail) with queueLock := none }
    else some (s.setPc t (.gate own tail .enterWait))
  | .enterWait => some { s.setPc t (.gate own tail .parked) with queueLock := none }
  | .parked => none

/-- The next step of a thread that is finishing no tail, from where it stands. -/
def State.run (s : State) (t : ℕ) : Pc → Option State
  | .idle | .parked _ | .sequence _ _ => none
  | .pump own =>
    if s.queueLock = none then
      if s.sequencer = none then some { s.setPc t (.drain (some own)) with sequencer := some t }
      else some (s.setPc t (.await own))
    else none
  | .await own => if own ∈ s.resolved then some (s.setPc t .idle) else none
  | .drain own =>
    if s.queueLock = none then
      if s.items = [] then some { s.setPc t (.drainTails own) with sequencer := none }
      else some { s.setPc t (.lockCommit own (s.items.take c.commitWaveMax)) with
                  items := s.items.drop c.commitWaveMax }
    else none
  | .lockCommit own batch =>
    -- a poisoned commit path fails the wave
    if s.wedged then some ((s.setPc t (.stepDown own)).resolve batch)
    else if s.commitLock = none then
      some { s.setPc t (.sequence own batch) with commitLock := some t }
    else none
  | .release own tail => some { s.setPc t (.count own tail) with commitLock := none }
  | .count own tail =>
    some { s.setPc t (if s.waves % 256 = 255 then .probe own tail else afterProbe own tail) with
           waves := s.waves + 1 }
  | .probe own tail =>
    if s.commitLock = none then
      some (s.setPc t
        (if c.exceeded s then .claim (.periodic own tail) .loadApplied else afterProbe own tail))
    else none
  | .claim caller stage => s.claim t caller stage
  | .gate own tail stage => s.gate c t own tail stage
  | .hand own tail =>
    if s.wedged then some (s.setPc t (.abandon own tail))
    else some { (s.setPc t (.countHanded own)).setPlace [tail] .pending with
                pendingTails := s.pendingTails ++ [tail] }
  | .abandon own tail =>
    -- a poisoned path drops the tail, which fails its items
    some { ((s.setPc t (.stepDown own)).resolve tail.items).setPlace [tail] .finished with
           tailsFinished := s.tailsFinished + 1 }
  | .countHanded own => some { s.setPc t (.wake own) with tailsHanded := s.tailsHanded + 1 }
  | .wake own => if s.queueLock = none then some (s.notifyAll.setPc t (.checkOwn own)) else none
  | .checkOwn own =>
    some (s.setPc t (if own.any (fun i => i ∈ s.resolved) then .stepDown own else .drain own))
  | .stepDown own =>
    if s.queueLock = none then some { s.setPc t (.notify own) with sequencer := none } else none
  | .notify own => some (s.notifyAll.setPc t (afterRun own))
  | .drainTails own => if s.noTail then some (s.setPc t (.idleProbe own)) else none
  | .idleProbe own =>
    if s.commitLock = none then
      some (s.setPc t (if c.exceeded s then .claim (.stepDown own) .loadApplied else .notify own))
    else none

/-- The wave under the commit lock. -/
def State.settle (t : ℕ) (own : Option ℕ) (batch committed : List ℕ) : State :=
  if s.wedged ∨ committed = [] then (s.setPc t (.release own none)).resolve batch
  else
    let tail : Tail := ⟨s.tailsApplied, committed⟩
    { ((s.setPc t (.release own (some tail))).resolve (batch.filter (· ∉ committed))).setPlace
        [tail] (.held t) with
      tailsApplied := s.tailsApplied + 1 }

/-- The error path of `finish_wave_tail`: the commit path is wedged and its pending work drained. -/
def State.failTail (t : ℕ) (tail : Tail) (rest : List Frame) : State :=
  { s.setFrames t (⟨tail, .failing false .lockQueue⟩ :: rest) with wedged := true }

/-- `fail_all_pending_commit_work`, called while the thread finishes a tail. -/
def State.drain (t : ℕ) (tail : Tail) (rest : List Frame) (dropped : Bool) : Drain → Option State
  | .lockQueue =>
    if s.queueLock = none then
      -- whoever sequences loses the role without stepping down
      some { s.setFrames t (⟨tail, .failing dropped (.strand s.items)⟩ :: rest) with
             queueWedged := true, sequencer := none, items := [] }
    else none
  | .strand items => some ((s.setFrames t (⟨tail, .failing dropped .takeTails⟩ :: rest)).resolve items)
  | .takeTails =>
    some { (s.setFrames t (⟨tail, .failing dropped (.dropTails s.pendingTails)⟩ :: rest)).setPlace
             s.pendingTails (.held t) with
           pendingTails := [] }
  | .dropTails tails =>
    some ((s.setFrames t (⟨tail, .failing dropped (.countTails tails)⟩ :: rest)).resolve
      (tails.flatMap Tail.items))
  | .countTails tails =>
    some { (s.setFrames t (⟨tail, .failing dropped .wake⟩ :: rest)).setPlace tails .finished with
           tailsFinished := s.tailsFinished + tails.length }
  | .wake => some (s.notifyAll.setFrames t (⟨tail, if dropped then .bump else .drop⟩ :: rest))

/-- `finish_wave_tail` after the durability wait. -/
def State.finish (t : ℕ) : Option State :=
  match s.frames t with
  | [] => none
  | ⟨tail, phase⟩ :: rest =>
    match phase with
    | .durable => none
    | .publish =>
      if s.wedged then some (s.setFrames t (⟨tail, .drop⟩ :: rest))
      else some { s.setFrames t (⟨tail, .cover⟩ :: rest) with published := insert tail.id s.published }
    | .cover =>
      if s.covered tail then some (s.setFrames t (⟨tail, .mark⟩ :: rest))
      else if s.wedged ∨ s.queueWedged then some (s.failTail t tail rest)
      else none
    | .mark => if s.commitLock = none then some (s.setFrames t (⟨tail, .ack⟩ :: rest)) else none
    | .ack => some ((s.setFrames t (⟨tail, .bump⟩ :: rest)).resolve tail.items)
    | .drop =>
      some ((s.setFrames t (⟨tail, .failing true .lockQueue⟩ :: rest)).resolve tail.items)
    | .failing dropped stage => s.drain t tail rest dropped stage
    | .bump =>
      some { (s.setFrames t (⟨tail, .notify⟩ :: rest)).setPlace [tail] .finished with
             tailsFinished := s.tailsFinished + 1 }
    | .notify => if s.queueLock = none then some (s.notifyAll.setFrames t rest) else none

/-- The call sites of `try_finish_pending_wave_tail`. -/
def Thread.mayClaim (th : Thread) : Bool :=
  match th.frames with
  | f :: _ => f.phase = .cover
  | [] =>
    match th.pc with
    | .idle | .await _ | .drainTails _ | .gate _ _ .tryFinish => true
    | _ => false

/-- The capacity gate starts over after it finished a tail. -/
def afterClaim : Pc → Pc
  | .gate own tail .tryFinish => .gate own tail .loadHanded
  | pc => pc

def State.step (s : State) : Action → Option State
  | .enqueue t =>
    if s.threads t = ⟨.idle, []⟩ ∧ s.queueLock = none ∧ s.wedged = false ∧ s.queueWedged = false then
      some { s.setPc t (.pump s.nextItem) with items := s.items ++ [s.nextItem], nextItem := s.nextItem + 1 }
    else none
  | .drive t =>
    if s.threads t = ⟨.idle, []⟩ ∧ s.queueLock = none ∧ s.wedged = false ∧ s.queueWedged = false ∧
        s.sequencer = none ∧ s.items ≠ [] then
      some { s.setPc t (.drain none) with sequencer := some t }
    else none
  | .promote t =>
    match s.threads t with
    | ⟨.await own, []⟩ =>
      if s.queueLock = none ∧ s.sequencer = none ∧ s.items ≠ [] then
        some { s.setPc t (.drain (some own)) with sequencer := some t }
      else none
    | _ => none
  | .park t =>
    match s.threads t with
    | ⟨.await own, []⟩ =>
      if s.queueLock = none ∧ s.sequencer ≠ none ∧ own ∉ s.resolved then some (s.setPc t (.parked own))
      else none
    | _ => none
  | .spuriousWake t => some (s.setPc t (wakePc (s.pc t)))
  | .enter t =>
    if s.threads t = ⟨.idle, []⟩ then some (s.setPc t (.claim .client .loadApplied)) else none
  | .run t => if s.frames t = [] then s.run c t (s.pc t) else none
  | .settle t committed =>
    match s.pc t with
    | .sequence own batch => if committed ⊆ batch then some (s.settle t own batch committed) else none
    | _ => none
  | .endClaim t segmentBytes =>
    match s.pc t with
    | .claim caller .claimed =>
      some { s.setPc t caller.resume with commitLock := none, segmentBytes := segmentBytes }
    | _ => none
  | .claimTail t =>
    match s.pendingTails with
    | tail :: rest =>
      if (s.threads t).mayClaim ∧ s.wedged = false then
        some { (s.setThread t ⟨afterClaim (s.pc t), ⟨tail, .durable⟩ :: s.frames t⟩).setPlace
                 [tail] (.held t) with
               pendingTails := rest }
      else none
    | [] => none
  | .finish t => s.finish t
  | .flush t grown =>
    match s.frames t with
    | ⟨tail, .durable⟩ :: rest =>
      if s.commitLock = none then
        some { s.setFrames t (⟨tail, .publish⟩ :: rest) with segmentBytes := s.segmentBytes + grown }
      else none
    | _ => none
  | .fail t =>
    match s.frames t with
    | ⟨tail, .durable⟩ :: rest => some (s.failTail t tail rest)
    | _ => none

/-- A new engine in a process that has sequenced `waves` waves and whose live segment has
`segmentBytes` bytes. -/
def State.initial (waves segmentBytes : ℕ) : State where
  items := []
  nextItem := 0
  resolved := ∅
  sequencer := none
  wedged := false
  queueWedged := false
  queueLock := none
  commitLock := none
  pendingTails := []
  tailsHanded := 0
  tailsApplied := 0
  tailsFinished := 0
  published := ∅
  waves := waves
  segmentBytes := segmentBytes
  threads := fun _ => ⟨.idle, []⟩
  place := fun _ => .unborn

def commitWave : TransitionSystem State Action where
  init s := ∃ waves segmentBytes, s = .initial waves segmentBytes
  step := State.step c

end ThunderboltDb.Engine.CommitWave
