import ThunderboltDb.Lib.Memory
import ThunderboltDb.Lib.Transition
import ThunderboltDb.WriteConveyor.FrameLog

/-!
# The appender and the fence lanes as threads

One appender and any set of fence lanes share the staging arena, the slot ring, the file and a handful of
atomics. Every step is one atomic load or store, one compare-exchange, one lock operation or one `pwrite`
completion, in the order the code performs them; the copies into the staging arena are steps too.

The appender's publication is a straight-line program: `internalOps` for `publish_internal`, `copyOps` and
`headerOps` for `stage_sealed_scatter`, then the release store of `published_frames`. A lane runs
`fence_lane_loop_fixed` and in it `fence_frame_fixed`.

`groups` is the history of published groups. A cell of `file` is `none` until a `pwrite` of this life of
the segment has stored to it. Statistics, timestamps and parking are left out; a lane that would spin or
park polls again.
-/

namespace ThunderboltDb.WriteConveyor

open Lib

structure FrameSlot where
  frameId : ℕ
  offset : ℕ
  paddedLen : ℕ
  endSeq : ℕ
  fenced : Bool

def FrameSlot.empty : FrameSlot := ⟨2 ^ 64 - 1, 0, 0, 0, false⟩

def ringIndex (frameId : ℕ) : ℕ := frameId % frameSlots

/-! ### The appender's program -/

/-- A store of the appender: to staging or to one field of a slot. -/
inductive AppenderOp where
  | stage (offset : ℕ) (bytes : Bytes)
  | storeFenced (frameId : ℕ)
  | storeFrameId (frameId : ℕ)
  | storeOffset (frameId offset : ℕ)
  | storePaddedLen (frameId paddedLen : ℕ)
  | storeEndSeq (frameId endSeq : ℕ)

def slotStores (f : PlacedFrame) : List AppenderOp :=
  [.storeFenced f.frameId, .storeFrameId f.frameId, .storeOffset f.frameId f.offset,
    .storePaddedLen f.frameId f.paddedLen, .storeEndSeq f.frameId f.endSeq]

/-- The staging loop of `publish_internal`. -/
def internalOps (frames : List PlacedFrame) : List AppenderOp :=
  frames.flatMap fun f =>
    [.stage f.offset f.header.bytes, .stage (f.offset + frameHeaderBytes) f.payload,
      .stage (f.offset + frameHeaderBytes + f.payload.length) f.pad] ++ slotStores f

/-- The first loop of `stage_sealed_scatter`: a failed copy, always the last one, ends it before its
padding. -/
def copyOps : ℕ → List Bytes → Bool → List AppenderOp
  | _, [], _ => []
  | offset, chunk :: rest, ok =>
    .stage (offset + frameHeaderBytes) chunk ::
      if rest = [] ∧ ok = false then []
      else
        .stage (offset + frameHeaderBytes + chunk.length)
          (List.replicate (paddedFrameBytes chunk.length - (frameHeaderBytes + chunk.length)) 0) ::
          copyOps (offset + paddedFrameBytes chunk.length) rest ok

/-- Its second loop. -/
def headerOps (frames : List PlacedFrame) : List AppenderOp :=
  frames.flatMap fun f => .stage f.offset f.header.bytes :: slotStores f

/-! ### States -/

inductive PublishCall where
  | frame (payload : Bytes) (firstSeq : UInt64) (seqCount : UInt32)
  | batch (chunks : List Bytes) (firstSeq : UInt64) (seqCount : UInt32)
  | scatter (source : FuaScatterSource) (plan : FuaScatterPlan) (firstSeq : UInt64) (seqCount : UInt32)

def PublishCall.firstSeq : PublishCall → UInt64
  | .frame _ firstSeq _ => firstSeq
  | .batch _ firstSeq _ => firstSeq
  | .scatter _ _ firstSeq _ => firstSeq

/-- Where the appender stands. -/
inductive AppenderPc where
  | idle
  /-- in `publish_scatter`, about to load `durable_frames` -/
  | reserve (source : FuaScatterSource) (plan : FuaScatterPlan) (firstSeq : UInt64) (seqCount : UInt32)
  /-- in `publish_scatter`, about to load `fence_failed` for its reservation -/
  | verify (reservation : FuaScatterReservation) (source : FuaScatterSource) (firstSeq : UInt64)
      (seqCount : UInt32)
  /-- the stores still to do; then the group is released, or none if a source copy fails -/
  | staging (ops : List AppenderOp) (group : Option PlacedGroup)
  /-- `finish` was called -/
  | finished

/-- Where a fence lane stands. -/
inductive LanePc where
  /-- about to read the fixed fault -/
  | checkFault
  | loadCursor
  | loadPublished (claimed : ℕ)
  /-- about to compare-exchange `fence_cursor` -/
  | claim (claimed : ℕ)
  | checkFinished
  | loadFrameId (frameId : ℕ)
  | loadOffset (frameId : ℕ)
  | loadPaddedLen (frameId offset : ℕ)
  /-- in the write loop -/
  | pwrite (frameId offset paddedLen written : ℕ)
  | storeFenced (frameId : ℕ)
  | countFence
  | lockFrontier
  /-- holds the frontier, about to load `published_frames` -/
  | scanPublished (advanced : ℕ)
  | scanFenced (advanced : ℕ)
  /-- the scan ended -/
  | storeFrontier (advanced : ℕ)
  | storeDurableFrames (advanced : ℕ)
  | loadEndSeq (advanced : ℕ)
  | loadDurableSeq (endSeq : ℕ)
  | storeDurableSeq (endSeq priorEnd : ℕ)
  | unlockFrontier
  | installFault
  | storeFenceFailed
  | storeFinished
  | failed
  | exited
  deriving DecidableEq

structure FenceState (τ : Type) where
  slots : ℕ → FrameSlot
  staging : Memory UInt8
  /-- the data region of the file -/
  file : Memory (Option UInt8)
  publishedFrames : ℕ
  fenceCursor : ℕ
  durableFrontier : ℕ
  durableFrames : ℕ
  durableSeq : ℕ
  fencesCompleted : ℕ
  frontierLock : Option τ
  publishingFinished : Bool
  fenceFailed : Bool
  fixedFault : Bool
  cursor : AppenderCursor
  appender : AppenderPc
  lane : τ → LanePc
  groups : List PlacedGroup

inductive FenceAction (τ : Type) where
  /-- the appender is called -/
  | publish (call : PublishCall)
  /-- its next step inside the call -/
  | appender
  | finish
  /-- the next step of a lane -/
  | lane (l : τ)
  /-- a `pwrite` of the lane returns `n` -/
  | pwriteReturns (l : τ) (n : ℕ)
  /-- a `pwrite` of the lane returns `EINTR` -/
  | pwriteInterrupted (l : τ)
  /-- a `pwrite` of the lane fails -/
  | pwriteFails (l : τ)

namespace FenceState

variable {τ : Type}

/-- All frames published so far, in frame-id order. -/
def frames (s : FenceState τ) : List PlacedFrame := s.groups.flatMap PlacedGroup.frames

variable (s : FenceState τ)

def slot (frameId : ℕ) : FrameSlot := s.slots (ringIndex frameId)

def modifySlot (slots : ℕ → FrameSlot) (frameId : ℕ) (change : FrameSlot → FrameSlot) :
    ℕ → FrameSlot :=
  Function.update slots (ringIndex frameId) (change (slots (ringIndex frameId)))

/-! ### Appender steps -/

/-- The effect of one store on the ring and on staging. -/
def runOp : AppenderOp → (ℕ → FrameSlot) × Memory UInt8 → (ℕ → FrameSlot) × Memory UInt8
  | .stage offset bytes, m => (m.1, m.2.write offset bytes)
  | .storeFenced f, m => (modifySlot m.1 f fun slot => { slot with fenced := false }, m.2)
  | .storeFrameId f, m => (modifySlot m.1 f fun slot => { slot with frameId := f }, m.2)
  | .storeOffset f offset, m => (modifySlot m.1 f fun slot => { slot with offset := offset }, m.2)
  | .storePaddedLen f len, m => (modifySlot m.1 f fun slot => { slot with paddedLen := len }, m.2)
  | .storeEndSeq f endSeq, m => (modifySlot m.1 f fun slot => { slot with endSeq := endSeq }, m.2)

section

variable (crc : UInt32 → Bytes → UInt32) (log : FrameLogGeometry)

/-- Enter a call. `publish_frame` and `publish_batch` load `durable_frames` once and are then refused or
start staging; `publish_scatter` loads `fence_failed` first. -/
def publish (s : FenceState τ) : PublishCall → FenceState τ
  | .frame payload firstSeq seqCount =>
    match publishFrame crc log s.cursor s.durableFrames payload firstSeq seqCount with
    | .ok g => { s with appender := .staging (internalOps g.frames) (some g) }
    | .error _ => s
  | .batch chunks firstSeq seqCount =>
    match publishBatch crc log s.cursor s.durableFrames chunks firstSeq seqCount with
    | .ok g => { s with appender := .staging (internalOps g.frames) (some g) }
    | .error _ => s
  | .scatter source plan firstSeq seqCount =>
    match validateScatterInput log s.cursor source plan firstSeq seqCount with
    | .ok _ => if s.fenceFailed then s else { s with appender := .reserve source plan firstSeq seqCount }
    | .error _ => s

/-- The release store of `published_frames`, with the appender's own cursors. -/
def release (g : PlacedGroup) : FenceState τ :=
  { s with
    publishedFrames := s.cursor.nextFrame + g.frames.length
    cursor := ⟨s.cursor.nextFrame + g.frames.length, s.cursor.nextOffset + paddedTotal g.frames⟩
    appender := .idle
    groups := s.groups ++ [g] }

/-- The stores of a scatter and the group they publish. -/
def scatterProgram (reservation : FuaScatterReservation) (source : FuaScatterSource) (firstSeq : UInt64)
    (seqCount : UInt32) : List AppenderOp × Option PlacedGroup :=
  let copied := copyChunks source 0 reservation.plan.chunks
  let copies := copyOps reservation.firstOffset copied.1 copied.2
  match stageSealedScatter crc log reservation source firstSeq seqCount with
  | .ok g => (copies ++ headerOps g.frames, some g)
  | .error _ => (copies, none)

def appenderStep (s : FenceState τ) : Option (FenceState τ) :=
  match s.appender with
  | .reserve source plan firstSeq seqCount =>
    match reserveScatter log s.cursor s.durableFrames plan with
    | .ok reservation => some { s with appender := .verify reservation source firstSeq seqCount }
    | .error _ => some { s with appender := .idle }
  | .verify reservation source firstSeq seqCount =>
    if s.fenceFailed then some { s with appender := .idle }
    else
      match verifyScatterReservation log s.cursor reservation with
      | .ok _ =>
        let program := scatterProgram crc log reservation source firstSeq seqCount
        some { s with appender := .staging program.1 program.2 }
      | .error _ => some { s with appender := .idle }
  | .staging (op :: ops) group =>
    let m := runOp op (s.slots, s.staging)
    some { s with slots := m.1, staging := m.2, appender := .staging ops group }
  | .staging [] (some g) => some (s.release g)
  | .staging [] none => some { s with appender := .idle }
  | _ => none

end

/-! ### Lane steps -/

section

variable [DecidableEq τ]

def setLane (l : τ) (pc : LanePc) : FenceState τ :=
  { s with lane := Function.update s.lane l pc }

def laneStep (log : FrameLogGeometry) (s : FenceState τ) (l : τ) : Option (FenceState τ) :=
  match s.lane l with
  | .checkFault => some (s.setLane l (if s.fixedFault then .failed else .loadCursor))
  | .loadCursor => some (s.setLane l (.loadPublished s.fenceCursor))
  | .loadPublished claimed =>
    some (s.setLane l (if claimed < s.publishedFrames then .claim claimed else .checkFinished))
  | .claim claimed =>
    if s.fenceCursor = claimed then
      some { s.setLane l (.loadFrameId claimed) with fenceCursor := claimed + 1 }
    else some (s.setLane l .checkFault)
  | .checkFinished => some (s.setLane l (if s.publishingFinished then .exited else .checkFault))
  | .loadFrameId f =>
    some (s.setLane l (if (s.slot f).frameId = f then .loadOffset f else .installFault))
  | .loadOffset f => some (s.setLane l (.loadPaddedLen f (s.slot f).offset))
  | .loadPaddedLen f offset =>
    let paddedLen := (s.slot f).paddedLen
    if paddedLen < frameHeaderBytes ∨ log.capacity < offset + paddedLen then
      some (s.setLane l .installFault)
    else some (s.setLane l (.pwrite f offset paddedLen 0))
  | .pwrite f _ paddedLen written =>
    -- the loop condition
    if written < paddedLen then none else some (s.setLane l (.storeFenced f))
  | .storeFenced f =>
    some { s.setLane l .countFence with
      slots := modifySlot s.slots f fun slot => { slot with fenced := true } }
  | .countFence => some { s.setLane l .lockFrontier with fencesCompleted := s.fencesCompleted + 1 }
  | .lockFrontier =>
    if s.frontierLock = none then
      some { s.setLane l (.scanPublished s.durableFrontier) with frontierLock := some l }
    else none
  | .scanPublished advanced =>
    some (s.setLane l (if advanced < s.publishedFrames then .scanFenced advanced
      else .storeFrontier advanced))
  | .scanFenced advanced =>
    some (s.setLane l (if (s.slot advanced).fenced then .scanPublished (advanced + 1)
      else .storeFrontier advanced))
  | .storeFrontier advanced =>
    if advanced = s.durableFrontier then some (s.setLane l .unlockFrontier)
    else some { s.setLane l (.storeDurableFrames advanced) with durableFrontier := advanced }
  | .storeDurableFrames advanced =>
    some { s.setLane l (.loadEndSeq advanced) with durableFrames := advanced }
  | .loadEndSeq advanced => some (s.setLane l (.loadDurableSeq (s.slot (advanced - 1)).endSeq))
  | .loadDurableSeq endSeq => some (s.setLane l (.storeDurableSeq endSeq s.durableSeq))
  | .storeDurableSeq endSeq priorEnd =>
    some { s.setLane l .unlockFrontier with durableSeq := max priorEnd endSeq }
  | .unlockFrontier => some { s.setLane l .checkFault with frontierLock := none }
  | .installFault => some { s.setLane l .storeFenceFailed with fixedFault := true }
  | .storeFenceFailed => some { s.setLane l .storeFinished with fenceFailed := true }
  | .storeFinished => some { s.setLane l .failed with publishingFinished := true }
  | .failed | .exited => none

/-- A `pwrite` of the lane's frame returns `n`: the next `n` staged bytes are in the file. -/
def pwriteReturns (l : τ) (n : ℕ) : Option (FenceState τ) :=
  match s.lane l with
  | .pwrite f offset paddedLen written =>
    if written < paddedLen then
      -- a return of zero or of more than was asked for is a fault
      if n = 0 ∨ paddedLen - written < n then some (s.setLane l .installFault)
      else some { s.setLane l (.pwrite f offset paddedLen (written + n)) with
        file := s.file.write (offset + written) ((s.staging.read (offset + written) n).map some) }
    else none
  | _ => none

def pwriteInterrupted (l : τ) : Option (FenceState τ) :=
  match s.lane l with
  | .pwrite _ _ paddedLen written => if written < paddedLen then some s else none
  | _ => none

def pwriteFails (l : τ) : Option (FenceState τ) :=
  match s.lane l with
  | .pwrite _ _ paddedLen written =>
    if written < paddedLen then some (s.setLane l .installFault) else none
  | _ => none

def step (crc : UInt32 → Bytes → UInt32) (log : FrameLogGeometry) (s : FenceState τ) :
    FenceAction τ → Option (FenceState τ)
  | .publish call =>
    match s.appender with
    | .idle => some (s.publish crc log call)
    | _ => none
  | .appender => s.appenderStep crc log
  | .finish =>
    match s.appender with
    | .idle => some { s with appender := .finished, publishingFinished := true }
    | _ => none
  | .lane l => s.laneStep log l
  | .pwriteReturns l n => s.pwriteReturns l n
  | .pwriteInterrupted l => s.pwriteInterrupted l
  | .pwriteFails l => s.pwriteFails l

end

end FenceState

/-- A newly opened log, whatever its staging arena holds. -/
def FenceState.Opened {τ : Type} (s : FenceState τ) : Prop :=
  s.slots = (fun _ => .empty) ∧ s.file = (fun _ => none) ∧ s.publishedFrames = 0 ∧ s.fenceCursor = 0 ∧
    s.durableFrontier = 0 ∧ s.durableFrames = 0 ∧ s.durableSeq = 0 ∧ s.fencesCompleted = 0 ∧
    s.frontierLock = none ∧ s.publishingFinished = false ∧ s.fenceFailed = false ∧
    s.fixedFault = false ∧ s.cursor = ⟨0, 0⟩ ∧ s.appender = .idle ∧ (∀ l, s.lane l = .checkFault) ∧
    s.groups = []

/-- The frame log as a transition system. -/
def fenceSystem (τ : Type) [DecidableEq τ] (crc : UInt32 → Bytes → UInt32)
    (log : FrameLogGeometry) : TransitionSystem (FenceState τ) (FenceAction τ) where
  init := FenceState.Opened
  step := FenceState.step crc log

end ThunderboltDb.WriteConveyor
