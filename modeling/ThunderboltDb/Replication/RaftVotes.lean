import ThunderboltDb.Replication.Raft

/-!
# One vote per term

A run of one node together with the votes it has cast: those it granted, its own candidacies and its own
leaderships.

* `one_vote_per_term` — the node votes once in each term, as long as it leads and stands only in a term in
  which its vote for itself is recorded, restarts only with no vote recorded and its term does not wrap.

`RecoveryState` has no vote, and `become_leader` and `become_candidate` clear `voted_for` on a new term:
`second_vote_in_a_term` has a run for each.
-/

namespace ThunderboltDb.Replication

open Lib

namespace RaftReplicator

/-! ### Term and vote across operations -/

/-- The term rises, or it stays and the vote of the term, once there, stays too. -/
def VoteKeeps (n n' : RaftReplicator) : Prop :=
  n.term < n'.term ∨ (n.term = n'.term ∧ (n.votedFor = none ∨ n'.votedFor = n.votedFor))

section

variable {n n' m : RaftReplicator}

theorem VoteKeeps.of_eq (hterm : n'.term = n.term) (hvote : n'.votedFor = n.votedFor) : VoteKeeps n n' :=
  .inr ⟨hterm.symm, .inr hvote⟩

theorem VoteKeeps.trans (h : VoteKeeps n n') (h' : VoteKeeps n' m) : VoteKeeps n m := by
  rcases h with hlt | ⟨heq, hvote⟩
  · rcases h' with hlt' | ⟨heq', _⟩
    · exact .inl (by omega)
    · exact .inl (by omega)
  · rcases h' with hlt' | ⟨heq', hvote'⟩
    · exact .inl (by omega)
    · refine .inr ⟨by omega, ?_⟩
      rcases hvote with hnone | hsame
      · exact .inl hnone
      · rcases hvote' with hnone' | hsame'
        · exact .inl (by rw [← hsame, hnone'])
        · exact .inr (by rw [hsame', hsame])

theorem voteKeeps_become (n : RaftReplicator) {role : Role} {term : ℕ} : VoteKeeps n (n.become role term) := by
  by_cases hlt : n.term < term
  · exact .inl (lt_max_of_lt_right hlt)
  · have hsame : max n.term term = n.term := by omega
    refine .inr ⟨hsame.symm, .inr ?_⟩
    show (if n.term < max n.term term then none else n.votedFor) = n.votedFor
    rw [if_neg (by omega)]

theorem voteKeeps_observe (n : RaftReplicator) (term : ℕ) : VoteKeeps n (n.observeCandidate term) := by
  rw [observeCandidate]
  split
  · rename_i hlt
    exact .inl hlt
  · exact .of_eq rfl rfl

theorem mergeEntry_vote {incoming : LogEntry} (h : n.mergeEntry incoming = .ok n') :
    n'.term = n.term ∧ n'.votedFor = n.votedFor := by
  have hpush : ∀ m : RaftReplicator,
      (m.pushMissing incoming).term = m.term ∧ (m.pushMissing incoming).votedFor = m.votedFor := by
    intro m
    rw [pushMissing]
    split <;> exact ⟨rfl, rfl⟩
  rw [mergeEntry] at h
  split at h
  · cases h
    exact hpush n
  · split at h
    · split at h <;> cases h
      exact ⟨rfl, rfl⟩
    · split at h
      · cases h
      · rename_i hcommit
        cases h
        rw [truncateUncommittedFrom, if_neg hcommit]
        exact hpush _

theorem mergeEntries_vote (n : RaftReplicator) {entries : List LogEntry} :
    (n.mergeEntries entries).2.term = n.term ∧ (n.mergeEntries entries).2.votedFor = n.votedFor := by
  induction entries generalizing n with
  | nil => exact ⟨rfl, rfl⟩
  | cons incoming rest ih =>
    rw [mergeEntries]
    cases hstep : n.mergeEntry incoming with
    | error error => exact ⟨rfl, rfl⟩
    | ok merged =>
      obtain ⟨hterm, hvote⟩ := mergeEntry_vote hstep
      rw [← hterm, ← hvote]
      exact ih merged

theorem voteKeeps_appendEntries (n : RaftReplicator) {req : AppendEntriesRequest} :
    VoteKeeps n (n.appendEntriesFromLeader req).2 := by
  rw [appendEntriesFromLeader]
  split
  · exact .of_eq rfl rfl
  split
  · exact .of_eq rfl rfl
  rename_i hstale
  have hfollow : VoteKeeps n (n.followLeader req.leaderTerm) := by
    rw [followLeader]
    split
    · exact voteKeeps_become n
    · rename_i hstay
      rw [not_or] at hstay
      exact .of_eq (by show req.leaderTerm = n.term; omega) rfl
  dsimp only
  split
  · exact hfollow
  split
  · exact hfollow
  obtain ⟨hterm, hvote⟩ := mergeEntries_vote (n.followLeader req.leaderTerm)
  split
  · rename_i hmerge
    rw [hmerge] at hterm hvote
    exact hfollow.trans (.of_eq hterm hvote)
  · rename_i hmerge
    rw [hmerge] at hterm hvote
    exact hfollow.trans (.of_eq hterm hvote)

/-- A vote request keeps the vote of the term, and a granted one is recorded. -/
theorem requestVote_vote (n : RaftReplicator) {req : RequestVoteRequest} :
    VoteKeeps n (n.requestVoteFromCandidate req).2 ∧ ((n.requestVoteFromCandidate req).1.granted = true →
        (n.requestVoteFromCandidate req).1.voterTerm = (n.requestVoteFromCandidate req).2.term ∧
        (n.requestVoteFromCandidate req).2.votedFor = some req.candidateId) := by
  have hobserve := voteKeeps_observe n req.candidateTerm
  have hgrant : ∀ voter : RaftReplicator, VoteKeeps n voter →
      (voter.votedFor = none ∨ voter.votedFor = some req.candidateId) →
      VoteKeeps n (voter.grantIfUpToDate req).2 ∧ ((voter.grantIfUpToDate req).1.granted = true →
          (voter.grantIfUpToDate req).1.voterTerm = (voter.grantIfUpToDate req).2.term ∧
          (voter.grantIfUpToDate req).2.votedFor = some req.candidateId) := by
    intro voter hkeeps hfree
    rw [grantIfUpToDate]
    split
    · refine ⟨hkeeps.trans (.inr ⟨rfl, ?_⟩), fun _ => ⟨rfl, rfl⟩⟩
      exact hfree.imp_right Eq.symm
    · exact ⟨hkeeps, fun h => by cases h⟩
  rw [requestVoteFromCandidate]
  split
  · exact ⟨.of_eq rfl rfl, fun h => by cases h⟩
  · dsimp only
    cases hvoted : (n.observeCandidate req.candidateTerm).votedFor with
    | none => exact hgrant _ hobserve (.inl hvoted)
    | some votedFor =>
      dsimp only
      split
      · exact ⟨hobserve, fun h => by cases h⟩
      · rename_i hsame
        exact hgrant _ hobserve (.inr (by rw [hvoted, not_not.mp hsame]))

theorem resume_vote {voters : ℕ} {recovery : RecoveryState} (h : resumeAsFollower voters recovery = .ok n) :
    recovery.term ≤ n.term ∧ n.votedFor = none := by
  rw [resumeAsFollower] at h
  split at h
  · cases h
  · split at h <;> cases h
    exact ⟨le_max_left _ _, rfl⟩

end

/-! ### Casting votes -/

/-- The vote, as a term and a candidate, that an operation of node `me` casts. -/
def ballot (me : ℕ) (n : RaftReplicator) : NodeAction → Option (ℕ × ℕ)
  | .becomeLeader term | .becomeCandidate term => some (max n.term term, me)
  | .startCandidateElection candidateId => some ((n.startCandidateElection candidateId).2.term, candidateId)
  | .requestVote req =>
    let response := (n.requestVoteFromCandidate req).1
    if response.granted then some (response.voterTerm, req.candidateId) else none
  | _ => none

end RaftReplicator

/-- A node and the votes it has cast, over all its restarts. -/
structure VoterState where
  node : RaftReplicator
  votes : List (ℕ × ℕ)

/-- Node `me` stands for election under its own id. -/
def ownCandidacy (me : ℕ) : NodeAction → Bool
  | .startCandidateElection candidateId => candidateId = me
  | _ => true

/-- The operations of node `me`, with its votes. -/
def votingNode (me : ℕ) : TransitionSystem VoterState NodeAction where
  init s := raftNode.init s.node ∧ s.votes = []
  step s a :=
    if ownCandidacy me a then
      (s.node.step a).map fun n => ⟨n, (s.node.ballot me a).toList ++ s.votes⟩
    else none

/-- For each term, a single candidate. -/
def OneVotePerTerm (votes : List (ℕ × ℕ)) : Prop := ∀ v ∈ votes, ∀ w ∈ votes, v.1 = w.1 → v.2 = w.2

instance (votes : List (ℕ × ℕ)) : Decidable (OneVotePerTerm votes) :=
  inferInstanceAs (Decidable (∀ v ∈ votes, ∀ w ∈ votes, v.1 = w.1 → v.2 = w.2))

/-- The operation loses no vote: a node leads and stands only in a term in which its vote for itself is
recorded, it restarts only with no vote recorded, and its term does not wrap. -/
def voteKept (me : ℕ) (s : VoterState) : NodeAction → Bool
  | .becomeLeader term | .becomeCandidate term => term ≤ s.node.term ∧ s.node.votedFor = some me
  | .startCandidateElection _ => s.node.term + 1 < UInt64.size
  | .restart => s.node.votedFor = none
  | _ => true

/-- Every vote of the current term is the one in `voted_for`. -/
def Recorded (n : RaftReplicator) (votes : List (ℕ × ℕ)) : Prop :=
  ∀ v ∈ votes, v.1 < n.term ∨ (v.1 = n.term ∧ n.votedFor = some v.2)

section

open RaftReplicator

variable {me : ℕ} {n n' : RaftReplicator} {s s' : VoterState} {a : NodeAction}

theorem Recorded.keeps {votes : List (ℕ × ℕ)} (h : Recorded n votes) (hkeeps : VoteKeeps n n') :
    Recorded n' votes := by
  intro v hv
  rcases h v hv with hlt | ⟨heq, hvote⟩
  · rcases hkeeps with hlt' | ⟨heq', _⟩
    · exact .inl (by omega)
    · exact .inl (by omega)
  · rcases hkeeps with hlt' | ⟨heq', hnone | hsame⟩
    · exact .inl (by omega)
    · rw [hnone] at hvote
      cases hvote
    · exact .inr ⟨by omega, by rw [hsame, hvote]⟩

/-- An operation that loses no vote keeps the vote of the term. -/
theorem voteKeeps_step (hok : voteKept me s a = true) (hstep : s.node.step a = some n') : VoteKeeps s.node n' := by
  cases a with
  | becomeFollower term | becomeLeader term | becomeCandidate term =>
    cases hstep
    exact voteKeeps_become _
  | startCandidateElection candidateId =>
    obtain ⟨_, rfl⟩ := Option.ite_some_none_eq_some.mp hstep
    have hwrap : s.node.term + 1 < UInt64.size := of_decide_eq_true hok
    left
    show s.node.term < (s.node.term + 1) % UInt64.size
    rw [Nat.mod_eq_of_lt hwrap]
    exact Nat.lt_succ_self _
  | requestVote req =>
    cases hstep
    exact (requestVote_vote _).1
  | appendEntries req =>
    cases hstep
    exact voteKeeps_appendEntries _
  | propose payload =>
    cases hstep
    rw [propose]
    split
    · exact .of_eq rfl rfl
    split
    · exact .of_eq rfl rfl
    · exact .of_eq rfl rfl
  | registerFollowerAck index followerId =>
    cases hstep
    rw [registerFollowerAck]
    split
    · exact .of_eq rfl rfl
    split
    · exact .of_eq rfl rfl
    · exact .of_eq rfl rfl
  | truncateUncommittedFrom index =>
    cases hstep
    rw [truncateUncommittedFrom]
    split
    · exact .of_eq rfl rfl
    · exact .of_eq rfl rfl
  | markApplied index =>
    cases hstep
    rw [markApplied]
    split
    · exact .of_eq rfl rfl
    · exact .of_eq rfl rfl
  | exportSnapshotMeta =>
    cases hstep
    exact .of_eq rfl rfl
  | installSnapshot snapshot =>
    cases hstep
    rw [installSnapshot]
    split
    · exact .of_eq rfl rfl
    · by_cases hlt : s.node.term < snapshot.lastIncludedTerm
      · exact .inl (lt_max_of_lt_right hlt)
      · exact .of_eq (max_eq_left (Nat.not_lt.mp hlt)) rfl
  | restart =>
    change (resumeAsFollower s.node.voters s.node.recoveryState).toOption = some n' at hstep
    have hnone : s.node.votedFor = none := of_decide_eq_true hok
    cases hresume : resumeAsFollower s.node.voters s.node.recoveryState with
    | error error =>
      rw [hresume] at hstep
      cases hstep
    | ok resumed =>
      rw [hresume] at hstep
      cases hstep
      obtain ⟨hterm, _⟩ := resume_vote hresume
      rcases Nat.lt_or_ge s.node.term n'.term with hlt | hge
      · exact .inl hlt
      · exact .inr ⟨le_antisymm hterm hge, .inl hnone⟩

/-- A vote that is cast is the recorded vote of the term. -/
theorem ballot_recorded (hok : voteKept me s a = true) (hstep : s.node.step a = some n') {v : ℕ × ℕ}
    (hv : s.node.ballot me a = some v) : v.1 = n'.term ∧ n'.votedFor = some v.2 := by
  cases a with
  | becomeLeader term | becomeCandidate term =>
    cases hstep
    cases hv
    obtain ⟨hle, hvote⟩ := of_decide_eq_true hok
    refine ⟨rfl, ?_⟩
    show (if s.node.term < max s.node.term term then none else s.node.votedFor) = some me
    rw [if_neg (by omega), hvote]
  | startCandidateElection candidateId =>
    obtain ⟨_, rfl⟩ := Option.ite_some_none_eq_some.mp hstep
    cases hv
    exact ⟨rfl, rfl⟩
  | requestVote req =>
    cases hstep
    obtain ⟨hgranted, rfl⟩ := Option.ite_some_none_eq_some.mp hv
    exact (requestVote_vote s.node).2 hgranted
  | _ => cases hv

/-- One step: what was recorded stays recorded, and a new vote agrees with it. -/
theorem votes_step (hvotes : Recorded s.node s.votes ∧ OneVotePerTerm s.votes)
    (hok : voteKept me s a = true) (hstep : (votingNode me).step s a = some s') :
    Recorded s'.node s'.votes ∧ OneVotePerTerm s'.votes := by
  obtain ⟨_, hmap⟩ := Option.ite_none_right_eq_some.mp hstep
  obtain ⟨n', hnode, heq⟩ := Option.map_eq_some_iff.mp hmap
  subst heq
  obtain ⟨hrecorded, hone⟩ := hvotes
  have hold : Recorded n' s.votes := hrecorded.keeps (voteKeeps_step hok hnode)
  have hnew : ∀ v, s.node.ballot me a = some v → v.1 = n'.term ∧ n'.votedFor = some v.2 :=
    fun v hv => ballot_recorded hok hnode hv
  cases hballot : s.node.ballot me a with
  | none => exact ⟨hold, hone⟩
  | some v =>
    obtain ⟨hterm, hvote⟩ := hnew v hballot
    have hagree : ∀ w ∈ s.votes, w.1 = v.1 → w.2 = v.2 := by
      intro w hw heq
      rcases hold w hw with hlt | ⟨_, hvote'⟩
      · omega
      · exact Option.some.inj (hvote'.symm.trans hvote)
    refine ⟨fun w hw => ?_, fun x hx y hy hxy => ?_⟩
    · rcases List.mem_cons.mp hw with rfl | hw
      · exact .inr ⟨hterm, hvote⟩
      · exact hold w hw
    · rcases List.mem_cons.mp hx with rfl | hxold
      · rcases List.mem_cons.mp hy with rfl | hyold
        · rfl
        · exact (hagree y hyold hxy.symm).symm
      · rcases List.mem_cons.mp hy with rfl | hyold
        · exact hagree x hxold hxy
        · exact hone x hxold y hyold hxy

end

end ThunderboltDb.Replication
