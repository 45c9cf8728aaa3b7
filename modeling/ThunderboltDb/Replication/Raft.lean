import ThunderboltDb.Lib.Transition
import ThunderboltDb.Types

/-!
# The Raft replicator

`RaftReplicator` and its operations: role changes, elections, log replication, acknowledgement counting,
snapshots and recovery. An operation that fails may have changed the node before it fails, so
`appendEntriesFromLeader` returns the node beside its result.

Terms and indices are `u64`; they are natural numbers here, and only the increment of the term wraps as
it does in a release build. Payloads are byte strings. The duration of `wait_committed`, the status
snapshots and the wire format are left out.
-/

namespace ThunderboltDb.Replication

open Lib

inductive Role where
  | leader
  | follower
  | candidate
  deriving DecidableEq, Repr

structure LogEntry where
  term : ℕ
  index : ℕ
  payload : List UInt8
  deriving DecidableEq, Repr

structure SnapshotMeta where
  lastIncludedIndex : ℕ
  lastIncludedTerm : ℕ
  snapshotId : ℕ
  deriving DecidableEq, Repr

structure RecoveryState where
  term : ℕ
  snapshot : SnapshotMeta
  committedEntries : List LogEntry
  appliedIndex : ℕ
  deriving DecidableEq, Repr

structure RequestVoteRequest where
  candidateTerm : ℕ
  candidateId : ℕ
  lastLogIndex : ℕ
  lastLogTerm : ℕ
  deriving DecidableEq, Repr

structure RequestVoteResponse where
  granted : Bool
  voterTerm : ℕ
  error : Option String
  deriving DecidableEq, Repr

structure AppendEntriesRequest where
  leaderTerm : ℕ
  prevLogIndex : ℕ
  prevLogTerm : ℕ
  entries : List LogEntry
  leaderCommit : ℕ
  deriving DecidableEq, Repr

/-- `RaftReplicator`. `ackCounts` is the map from an index to the voters that acknowledged it. -/
structure RaftReplicator where
  term : ℕ
  nextIndex : ℕ
  commitIndex : ℕ
  appliedIndex : ℕ
  appliedTerm : ℕ
  role : Role
  entries : List LogEntry
  snapshotId : ℕ
  compactedIndex : ℕ
  compactedTerm : ℕ
  voters : ℕ
  quorum : ℕ
  votedFor : Option ℕ
  ackCounts : ℕ → Option (Finset ℕ)

/-! ### Recovery states -/

namespace RecoveryState

variable (r : RecoveryState)

def commitIndex : ℕ :=
  (r.committedEntries.getLast?.map LogEntry.index).getD r.snapshot.lastIncludedIndex

def nextIndex : ℕ := r.commitIndex + 1

/-- The loop of `validate` over the entries, with the texts of `RecoveryInvariantError`. -/
def validateEntries (term : ℕ) : ℕ → List LogEntry → Except String Unit
  | _, [] => .ok ()
  | expected, entry :: rest =>
    if entry.index ≠ expected then
      .error s!"recovery entries must be contiguous from {expected} but saw {entry.index}"
    else if term < entry.term then
      .error s!"recovery entry term {entry.term} exceeds local term {term} at index {entry.index}"
    else validateEntries term (expected + 1) rest

def validate : Except String Unit :=
  if r.appliedIndex < r.snapshot.lastIncludedIndex then
    .error s!"applied_index {r.appliedIndex} is behind snapshot boundary {r.snapshot.lastIncludedIndex}"
  else do
    validateEntries r.term (r.snapshot.lastIncludedIndex + 1) r.committedEntries
    if r.commitIndex < r.appliedIndex then
      .error s!"applied_index {r.appliedIndex} exceeds commit boundary {r.commitIndex}"
    else .ok ()

end RecoveryState

namespace RaftReplicator

/-! ### Construction and recovery -/

/-- `RaftReplicator::new`; the source asserts `1 ≤ voters`. -/
def new (voters : ℕ) : RaftReplicator where
  term := 1
  nextIndex := 1
  commitIndex := 0
  appliedIndex := 0
  appliedTerm := 0
  role := .follower
  entries := []
  snapshotId := 0
  compactedIndex := 0
  compactedTerm := 0
  voters := voters
  quorum := voters / 2 + 1
  votedFor := none
  ackCounts := fun _ => none

variable (n : RaftReplicator)

def snapshotMeta : SnapshotMeta := ⟨n.appliedIndex, n.appliedTerm, n.snapshotId⟩

def recoveryState : RecoveryState where
  term := n.term
  snapshot := n.snapshotMeta
  committedEntries := n.entries.filter fun entry =>
    n.snapshotMeta.lastIncludedIndex < entry.index ∧ entry.index ≤ n.commitIndex
  appliedIndex := n.appliedIndex

/-- The term of the last applied entry of a recovery state. -/
def recoveredAppliedTerm (recovery : RecoveryState) : Except EngineError ℕ :=
  if recovery.appliedIndex = recovery.snapshot.lastIncludedIndex then
    .ok recovery.snapshot.lastIncludedTerm
  else
    match recovery.committedEntries.find? (·.index = recovery.appliedIndex) with
    | some entry => .ok entry.term
    | none => .error (.applyFailed s!"missing applied entry {recovery.appliedIndex} in recovery state")

def resumeAsFollower (voters : ℕ) (recovery : RecoveryState) : Except EngineError RaftReplicator :=
  match recovery.validate with
  | .error message => .error (.applyFailed message)
  | .ok () =>
    match recoveredAppliedTerm recovery with
    | .error error => .error error
    | .ok appliedTerm =>
      .ok { new voters with
            term := max recovery.term recovery.snapshot.lastIncludedTerm
            commitIndex := recovery.commitIndex
            appliedIndex := recovery.appliedIndex
            appliedTerm := appliedTerm
            snapshotId := recovery.snapshot.snapshotId
            compactedIndex := recovery.snapshot.lastIncludedIndex
            compactedTerm := recovery.snapshot.lastIncludedTerm
            entries := recovery.committedEntries
            nextIndex := recovery.nextIndex }

/-! ### Roles and elections -/

/-- The common body of `become_follower`, `become_leader` and `become_candidate`. -/
def become (role : Role) (term : ℕ) : RaftReplicator :=
  { n with
    term := max n.term term
    role := role
    votedFor := if n.term < max n.term term then none else n.votedFor
    entries := n.entries.filter (·.index ≤ n.commitIndex)
    nextIndex := n.commitIndex + 1
    ackCounts := fun _ => none }

variable (term : ℕ)

def becomeFollower : RaftReplicator := n.become .follower term

def becomeLeader : RaftReplicator := n.become .leader term

def becomeCandidate : RaftReplicator := n.become .candidate term

def lastLogPosition : ℕ × ℕ :=
  match n.entries.getLast? with
  | some entry => (entry.index, entry.term)
  | none => (n.compactedIndex, n.compactedTerm)

/-- `start_candidate_election`; the source asserts that the id is not `0`. -/
def startCandidateElection (candidateId : ℕ) : RequestVoteRequest × RaftReplicator :=
  let started : RaftReplicator :=
    { n with
      term := (n.term + 1) % UInt64.size
      role := .candidate
      votedFor := some candidateId
      ackCounts := fun _ => none }
  (⟨started.term, candidateId, started.lastLogPosition.1, started.lastLogPosition.2⟩, started)

def candidateLogIsUpToDate (candidateLastIndex candidateLastTerm : ℕ) : Bool :=
  n.lastLogPosition.2 < candidateLastTerm ∨
    (candidateLastTerm = n.lastLogPosition.2 ∧ n.lastLogPosition.1 ≤ candidateLastIndex)

/-- The node that has seen the term of a vote request. -/
def observeCandidate : RaftReplicator :=
  if n.term < term then
    { n with term := term, role := .follower, votedFor := none, ackCounts := fun _ => none }
  else n

/-- The end of `request_vote_from_candidate`, once no other candidate has the vote. -/
def grantIfUpToDate (voter : RaftReplicator) (request : RequestVoteRequest) :
    RequestVoteResponse × RaftReplicator :=
  if voter.candidateLogIsUpToDate request.lastLogIndex request.lastLogTerm then
    (⟨true, voter.term, none⟩, { voter with votedFor := some request.candidateId, role := .follower })
  else
    let position := voter.lastLogPosition
    (⟨false, voter.term,
      some s!"candidate log is behind voter log at index {position.1} term {position.2}"⟩, voter)

def requestVoteFromCandidate (request : RequestVoteRequest) :
    RequestVoteResponse × RaftReplicator :=
  if request.candidateTerm < n.term then
    (⟨false, n.term, some s!"stale candidate term {request.candidateTerm} (local term {n.term})"⟩, n)
  else
    let voter := n.observeCandidate request.candidateTerm
    match voter.votedFor with
    | some votedFor =>
      if votedFor ≠ request.candidateId then
        (⟨false, voter.term, some s!"already voted for candidate {votedFor} in term {voter.term}"⟩, voter)
      else voter.grantIfUpToDate request
    | none => voter.grantIfUpToDate request

/-! ### Log replication -/

variable (index : ℕ) (snapshot : SnapshotMeta)

def termAt : Option ℕ :=
  if index = 0 then some 0
  else if index = n.compactedIndex then some n.compactedTerm
  else if index < n.compactedIndex then none
  else
    match n.entries.find? (·.index = index) with
    | some entry => some entry.term
    | none => if index = n.appliedIndex then some n.appliedTerm else none

/-- `entries.last().map(|e| e.index).unwrap_or(commit_index)`. -/
def tailIndex : ℕ := (n.entries.getLast?.map LogEntry.index).getD n.commitIndex

/-- `next_index = tail_index + 1`. -/
def resetNext : RaftReplicator := { n with nextIndex := n.tailIndex + 1 }

def dropFrom : RaftReplicator :=
  { n with
    entries := n.entries.filter (·.index < index)
    ackCounts := fun i => if i < index then n.ackCounts i else none }

def truncateUncommittedFrom : RaftReplicator :=
  if index ≤ n.commitIndex then n else (n.dropFrom index).resetNext

/-- The checks of `append_entries_from_leader` at `prev_log_index`. -/
def checkPrev (prevLogIndex prevLogTerm : ℕ) : Except EngineError Unit :=
  if prevLogIndex < n.compactedIndex then
    .error (.proposalFailed
      s!"prev_log_index={prevLogIndex} is behind compacted boundary {n.compactedIndex}")
  else if prevLogIndex = 0 then .ok ()
  else
    match n.termAt prevLogIndex with
    | none => .error (.proposalFailed s!"missing prev_log_index={prevLogIndex} for append")
    | some localPrevTerm =>
      if localPrevTerm ≠ prevLogTerm then
        .error (.proposalFailed
          s!"prev_log_term mismatch at index {prevLogIndex}: local={localPrevTerm}, remote={prevLogTerm}")
      else .ok ()

/-- The loop that checks the request's entries. -/
def checkEntries (leaderTerm first : ℕ) : ℕ → List LogEntry → Except EngineError Unit
  | _, [] => .ok ()
  | expected, entry :: rest =>
    if leaderTerm < entry.term then
      .error (.proposalFailed
        s!"entry term {entry.term} exceeds leader term {leaderTerm} at index {entry.index}")
    else if entry.index ≠ expected then
      .error (.proposalFailed s!"append entries must be contiguous from {first} but saw {entry.index}")
    else checkEntries leaderTerm first (expected + 1) rest

/-- `entries.push` of an index that is not there yet. -/
def pushMissing (incoming : LogEntry) : RaftReplicator :=
  if n.entries.all (·.index ≠ incoming.index) then { n with entries := n.entries ++ [incoming] } else n

/-- One round of the loop that merges the request's entries. -/
def mergeEntry (incoming : LogEntry) : Except EngineError RaftReplicator :=
  match n.entries.find? (·.index = incoming.index) with
  | none => .ok (n.pushMissing incoming)
  | some existing =>
    if existing.term = incoming.term then
      if existing.payload ≠ incoming.payload then
        .error (.proposalFailed s!"payload mismatch at index {incoming.index} term {incoming.term}")
      else .ok n
    else if incoming.index ≤ n.commitIndex then
      .error (.proposalFailed s!"refusing to overwrite committed index {incoming.index}")
    else .ok ((n.truncateUncommittedFrom incoming.index).pushMissing incoming)

/-- The loop that merges the request's entries; an error leaves what was merged before it. -/
def mergeEntries : RaftReplicator → List LogEntry → Except EngineError Unit × RaftReplicator
  | n, [] => (.ok (), n)
  | n, incoming :: rest =>
    match n.mergeEntry incoming with
    | .error error => (.error error, n)
    | .ok merged => merged.mergeEntries rest

/-- The end of `append_entries_from_leader`. -/
def commitThrough (leaderCommit : ℕ) : RaftReplicator :=
  let sorted : RaftReplicator := { n with entries := n.entries.insertionSort fun a b => a.index ≤ b.index }
  let lastLocalIndex := sorted.tailIndex
  { sorted with
    commitIndex := max sorted.commitIndex (min leaderCommit lastLocalIndex)
    nextIndex := lastLocalIndex + 1 }

/-- The node that follows the sender of an `AppendEntries` request. -/
def followLeader (leaderTerm : ℕ) : RaftReplicator :=
  if n.role ≠ .follower ∨ n.term < leaderTerm then n.becomeFollower leaderTerm
  else { n with term := leaderTerm, role := .follower }

def appendEntriesFromLeader (request : AppendEntriesRequest) :
    Except EngineError Unit × RaftReplicator :=
  if n.role = .leader then
    (.error (.proposalFailed "leader cannot accept follower append path"), n)
  else if request.leaderTerm < n.term then
    (.error (.proposalFailed s!"stale leader term {request.leaderTerm} (local term {n.term})"), n)
  else
    let follower := n.followLeader request.leaderTerm
    match follower.checkPrev request.prevLogIndex request.prevLogTerm with
    | .error error => (.error error, follower)
    | .ok () =>
      match checkEntries request.leaderTerm (request.prevLogIndex + 1) (request.prevLogIndex + 1)
          request.entries with
      | .error error => (.error error, follower)
      | .ok () =>
        match follower.mergeEntries request.entries with
        | (.error error, merged) => (.error error, merged)
        | (.ok (), merged) => (.ok (), merged.commitThrough request.leaderCommit)

def propose (payload : List UInt8) : Except EngineError ℕ × RaftReplicator :=
  if n.role ≠ .leader then (.error .notLeader, n)
  else if n.nextIndex = UInt64.size - 1 then
    (.error (.proposalFailed "commit sequence space exhausted"), n)
  else
    (.ok n.nextIndex,
      { n with
        nextIndex := n.nextIndex + 1
        entries := n.entries ++ [⟨n.term, n.nextIndex, payload⟩]
        ackCounts := Function.update n.ackCounts n.nextIndex (some {0})
        commitIndex := if n.quorum = 1 then n.nextIndex else n.commitIndex })

/-- The loop of `register_follower_ack`. -/
def advanceCommit (n : RaftReplicator) : ℕ → ℕ → ℕ
  | 0, commit => commit
  | fuel + 1, commit =>
    if commit + 1 < n.nextIndex then
      match n.ackCounts (commit + 1) with
      | none => commit
      | some acks => if n.quorum ≤ acks.card then n.advanceCommit fuel (commit + 1) else commit
    else commit

/-- The end of `register_follower_ack`: the loop, and the counts it keeps. -/
def commitAcked : RaftReplicator :=
  let commit := n.advanceCommit n.nextIndex n.commitIndex
  { n with
    commitIndex := commit
    ackCounts := fun i => if commit < i then n.ackCounts i else none }

def registerFollowerAck (index followerId : ℕ) : RaftReplicator :=
  if n.role ≠ .leader ∨ index = 0 ∨ n.nextIndex ≤ index ∨ followerId = 0 then n
  else
    match n.ackCounts index with
    | none => n
    | some acks =>
      { n with ackCounts := Function.update n.ackCounts index (some (insert followerId acks)) }.commitAcked

/-! ### Snapshots -/

def markApplied : RaftReplicator :=
  let bounded := min index n.commitIndex
  if bounded ≤ n.appliedIndex then n
  else
    { n with
      appliedIndex := bounded
      appliedTerm := ((n.entries.find? (·.index = bounded)).map LogEntry.term).getD n.appliedTerm }

def exportSnapshotMeta : SnapshotMeta × RaftReplicator :=
  let exported : RaftReplicator := { n with snapshotId := n.snapshotId + 1 }
  (exported.snapshotMeta, exported)

/-- `retains_existing_suffix` of `install_snapshot`. -/
def retainsExistingSuffix : Bool :=
  (snapshot.lastIncludedIndex = n.appliedIndex ∧ snapshot.lastIncludedTerm = n.appliedTerm) ∨
    n.termAt snapshot.lastIncludedIndex = some snapshot.lastIncludedTerm

/-- The body of `install_snapshot` for a snapshot that is not refused. -/
def adoptSnapshot : RaftReplicator :=
  { n with
    term := max n.term snapshot.lastIncludedTerm
    commitIndex := max n.commitIndex snapshot.lastIncludedIndex
    compactedIndex := max n.compactedIndex snapshot.lastIncludedIndex
    compactedTerm :=
      if n.compactedIndex < snapshot.lastIncludedIndex then snapshot.lastIncludedTerm else n.compactedTerm
    appliedIndex := max n.appliedIndex snapshot.lastIncludedIndex
    appliedTerm :=
      if n.appliedIndex < snapshot.lastIncludedIndex then snapshot.lastIncludedTerm else n.appliedTerm
    snapshotId := snapshot.snapshotId
    entries := n.entries.filter fun entry =>
      snapshot.lastIncludedIndex < entry.index ∧
        (n.retainsExistingSuffix snapshot ∨ entry.index ≤ max n.commitIndex snapshot.lastIncludedIndex)
    ackCounts := fun i =>
      if n.retainsExistingSuffix snapshot ∧ snapshot.lastIncludedIndex < i then n.ackCounts i else none }

def installSnapshot : RaftReplicator :=
  let current := n.snapshotMeta
  let advancesFrontier := current.lastIncludedIndex < snapshot.lastIncludedIndex
  let sameFrontierSameTerm := snapshot.lastIncludedIndex = current.lastIncludedIndex ∧
    snapshot.lastIncludedTerm = current.lastIncludedTerm
  let regressesTerm := advancesFrontier ∧ snapshot.lastIncludedTerm < current.lastIncludedTerm
  if regressesTerm ∨ (¬ advancesFrontier ∧ ¬ sameFrontierSameTerm) then n
  else (n.adoptSnapshot snapshot).resetNext

end RaftReplicator

/-! ### One node under any sequence of operations -/

/-- The operations that change a node. `restart` goes through `recovery_state` and
`resume_as_follower` with the same voters. -/
inductive NodeAction where
  | becomeFollower (term : ℕ)
  | becomeLeader (term : ℕ)
  | becomeCandidate (term : ℕ)
  | startCandidateElection (candidateId : ℕ)
  | requestVote (request : RequestVoteRequest)
  | appendEntries (request : AppendEntriesRequest)
  | propose (payload : List UInt8)
  | registerFollowerAck (index followerId : ℕ)
  | truncateUncommittedFrom (index : ℕ)
  | markApplied (index : ℕ)
  | exportSnapshotMeta
  | installSnapshot (snapshot : SnapshotMeta)
  | restart
  deriving DecidableEq

namespace RaftReplicator

def step (n : RaftReplicator) : NodeAction → Option RaftReplicator
  | .becomeFollower term => some (n.becomeFollower term)
  | .becomeLeader term => some (n.becomeLeader term)
  | .becomeCandidate term => some (n.becomeCandidate term)
  | .startCandidateElection candidateId =>
    if 0 < candidateId then some (n.startCandidateElection candidateId).2 else none
  | .requestVote request => some (n.requestVoteFromCandidate request).2
  | .appendEntries request => some (n.appendEntriesFromLeader request).2
  | .propose payload => some (n.propose payload).2
  | .registerFollowerAck index followerId => some (n.registerFollowerAck index followerId)
  | .truncateUncommittedFrom index => some (n.truncateUncommittedFrom index)
  | .markApplied index => some (n.markApplied index)
  | .exportSnapshotMeta => some n.exportSnapshotMeta.2
  | .installSnapshot snapshot => some (n.installSnapshot snapshot)
  | .restart => (resumeAsFollower n.voters n.recoveryState).toOption

end RaftReplicator

/-- A node starts new or from a recovery state. -/
def raftNode : TransitionSystem RaftReplicator NodeAction where
  init n := ∃ voters, 0 < voters ∧
    (n = .new voters ∨ ∃ recovery, RaftReplicator.resumeAsFollower voters recovery = .ok n)
  step := RaftReplicator.step

end ThunderboltDb.Replication
