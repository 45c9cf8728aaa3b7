import ThunderboltDb.Lib.Consecutive
import ThunderboltDb.Replication.Raft

/-!
# What a Raft node's log looks like, and what a follower commits

In every state that a node reaches by any sequence of operations, the retained entries are consecutive
from the compaction boundary on, and `compacted_index ≤ applied_index ≤ commit_index ≤` the last index.

* `appendEntries_commit_bounded_iff` — a follower commits at most what the request matched or carried,
  except when it `Overreaches`: its log has a tail beyond the request that nothing has cut off.

A vote request with a higher term raises the term and keeps the log, so the tail of a deposed leader is
still there when the new leader's first request arrives with the same term.
-/

namespace ThunderboltDb.Replication

open Lib List

variable {entries : List LogEntry} {leaderTerm : ℕ}

namespace RaftReplicator

def lastIndex (n : RaftReplicator) : ℕ := n.compactedIndex + n.entries.length

/-- The log is consecutive and the boundaries are in order. -/
structure LogOk (n : RaftReplicator) : Prop where
  log : Consecutive LogEntry.index (n.compactedIndex + 1) n.entries
  compacted_le : n.compactedIndex ≤ n.appliedIndex
  applied_le : n.appliedIndex ≤ n.commitIndex
  commit_le : n.commitIndex ≤ n.lastIndex

structure WellFormed (n : RaftReplicator) : Prop extends LogOk n where
  next : n.nextIndex = n.lastIndex + 1

section

variable {n n' : RaftReplicator}

theorem LogOk.index_bounds (h : LogOk n) {e : LogEntry} (he : e ∈ n.entries) :
    n.compactedIndex < e.index ∧ e.index ≤ n.lastIndex := by
  have := h.log.key_bounds he
  rw [lastIndex]
  omega

theorem LogOk.tailIndex_eq (h : LogOk n) : n.tailIndex = n.lastIndex := by
  have hcommit := h.commit_le
  have hcompacted := h.compacted_le
  have happlied := h.applied_le
  rw [tailIndex]
  rw [lastIndex] at hcommit ⊢
  by_cases hempty : n.entries = []
  · rw [hempty] at hcommit ⊢
    simp only [getLast?_nil, Option.map_none, Option.getD_none, length_nil] at hcommit ⊢
    omega
  · have := h.log.getLast?_getD hempty n.commitIndex
    omega

/-- Cutting the log at an index, above what is committed. -/
theorem LogOk.take (h : LogOk n) {k : ℕ} (hk : n.commitIndex ≤ n.compactedIndex + k)
    (hentries : n'.entries = n.entries.take k) (hcompacted : n'.compactedIndex = n.compactedIndex)
    (happlied : n'.appliedIndex = n.appliedIndex) (hcommit : n'.commitIndex = n.commitIndex) : LogOk n' := by
  have hle := h.commit_le
  refine ⟨?_, ?_, ?_, ?_⟩
  · rw [hcompacted, hentries]
    exact h.log.take k
  · rw [hcompacted, happlied]
    exact h.compacted_le
  · rw [happlied, hcommit]
    exact h.applied_le
  · rw [lastIndex] at hle ⊢
    rw [hcommit, hcompacted, hentries, length_take]
    omega

theorem LogOk.keep (h : LogOk n) (hentries : n'.entries = n.entries)
    (hcompacted : n'.compactedIndex = n.compactedIndex) (happlied : n'.appliedIndex = n.appliedIndex)
    (hcommit : n'.commitIndex = n.commitIndex) : LogOk n' :=
  h.take (k := n.entries.length) h.commit_le (by rw [hentries, take_length]) hcompacted happlied hcommit

theorem WellFormed.keep (h : WellFormed n) (hentries : n'.entries = n.entries)
    (hcompacted : n'.compactedIndex = n.compactedIndex) (happlied : n'.appliedIndex = n.appliedIndex)
    (hcommit : n'.commitIndex = n.commitIndex) (hnext : n'.nextIndex = n.nextIndex) : WellFormed n' := by
  refine ⟨h.toLogOk.keep hentries hcompacted happlied hcommit, ?_⟩
  rw [hnext, h.next, lastIndex, lastIndex, hentries, hcompacted]

theorem LogOk.resetNext (h : LogOk n) : WellFormed n.resetNext :=
  ⟨h.keep rfl rfl rfl rfl, congrArg (· + 1) h.tailIndex_eq⟩

/-! ### Role changes -/

section

variable (h : LogOk n) (role : Role) (term : ℕ)
include h role term

theorem LogOk.entries_become :
    (n.become role term).entries = n.entries.take (n.commitIndex - n.compactedIndex) := by
  show n.entries.filter (·.index ≤ n.commitIndex) = _
  rw [h.log.filter_le, show n.commitIndex + 1 - (n.compactedIndex + 1) = n.commitIndex - n.compactedIndex by
    omega]

theorem LogOk.lastIndex_become : (n.become role term).lastIndex = n.commitIndex := by
  have hcommit := h.commit_le
  have hcompacted := h.compacted_le
  have happlied := h.applied_le
  rw [lastIndex] at hcommit ⊢
  rw [h.entries_become, length_take]
  show n.compactedIndex + _ = _
  omega

theorem LogOk.become : WellFormed (n.become role term) := by
  refine ⟨h.take (k := n.commitIndex - n.compactedIndex) (by omega) (h.entries_become role term) rfl rfl rfl, ?_⟩
  rw [h.lastIndex_become]
  rfl

end

theorem WellFormed.requestVote (h : WellFormed n) (req : RequestVoteRequest) :
    WellFormed (n.requestVoteFromCandidate req).2 := by
  have hobserve : ∀ term, WellFormed (n.observeCandidate term) := by
    intro term
    rw [observeCandidate]
    split
    · exact h.keep rfl rfl rfl rfl rfl
    · exact h
  have hgrant : ∀ {voter : RaftReplicator}, WellFormed voter → WellFormed (voter.grantIfUpToDate req).2 := by
    intro voter hv
    rw [grantIfUpToDate]
    split
    · exact hv.keep rfl rfl rfl rfl rfl
    · exact hv
  rw [requestVoteFromCandidate]
  split
  · exact h
  · dsimp only
    split
    · split
      · exact hobserve _
      · exact hgrant (hobserve _)
    · exact hgrant (hobserve _)

/-! ### The leader's own log -/

theorem WellFormed.propose (h : WellFormed n) (payload : List UInt8) : WellFormed (n.propose payload).2 := by
  have hcommit := h.commit_le
  have happlied := h.applied_le
  have hnext := h.next
  rw [RaftReplicator.propose]
  split
  · exact h
  split
  · exact h
  rw [lastIndex] at hcommit hnext
  refine ⟨⟨?_, h.compacted_le, ?_, ?_⟩, ?_⟩
  · refine h.log.snoc ?_
    show n.nextIndex = _
    omega
  · show n.appliedIndex ≤ if n.quorum = 1 then n.nextIndex else n.commitIndex
    split <;> omega
  · show (if n.quorum = 1 then n.nextIndex else n.commitIndex) ≤ n.compactedIndex + (n.entries ++ [_]).length
    rw [length_append, length_singleton]
    split <;> omega
  · show n.nextIndex + 1 = n.compactedIndex + (n.entries ++ [_]).length + 1
    rw [length_append, length_singleton]
    omega

theorem advanceCommit_bounds (n : RaftReplicator) (fuel commit : ℕ) :
    commit ≤ n.advanceCommit fuel commit ∧ n.advanceCommit fuel commit ≤ max commit (n.nextIndex - 1) := by
  induction fuel generalizing commit with
  | zero => exact ⟨le_rfl, le_max_left _ _⟩
  | succ fuel ih =>
    obtain ⟨hlo, hhi⟩ := ih (commit + 1)
    rw [advanceCommit]
    split
    · split
      · exact ⟨le_rfl, le_max_left _ _⟩
      · split
        · exact ⟨by omega, by omega⟩
        · exact ⟨le_rfl, le_max_left _ _⟩
    · exact ⟨le_rfl, le_max_left _ _⟩

theorem WellFormed.commitAcked (h : WellFormed n) : WellFormed n.commitAcked := by
  have hcommit := h.commit_le
  have hnext := h.next
  obtain ⟨hlo, hhi⟩ := n.advanceCommit_bounds n.nextIndex n.commitIndex
  refine ⟨⟨h.log, h.compacted_le, h.applied_le.trans hlo, hhi.trans ?_⟩, hnext⟩
  exact max_le hcommit (by omega : n.nextIndex - 1 ≤ n.lastIndex)

theorem WellFormed.registerFollowerAck (h : WellFormed n) (index followerId : ℕ) :
    WellFormed (n.registerFollowerAck index followerId) := by
  rw [RaftReplicator.registerFollowerAck]
  split
  · exact h
  · split
    · exact h
    · refine WellFormed.commitAcked ?_
      exact h.keep rfl rfl rfl rfl rfl

theorem WellFormed.truncate (h : WellFormed n) (index : ℕ) : WellFormed (n.truncateUncommittedFrom index) := by
  rw [truncateUncommittedFrom]
  split
  · exact h
  · rename_i hindex
    have hok : LogOk (n.dropFrom index) :=
      h.toLogOk.take (k := index - (n.compactedIndex + 1)) (by omega) (h.log.filter_lt index) rfl rfl rfl
    exact hok.resetNext

theorem WellFormed.markApplied (h : WellFormed n) (index : ℕ) : WellFormed (n.markApplied index) := by
  have hcompacted := h.compacted_le
  rw [RaftReplicator.markApplied]
  split
  · exact h
  · rename_i hlt
    refine ⟨⟨h.log, ?_, ?_, h.commit_le⟩, h.next⟩
    · show n.compactedIndex ≤ min index n.commitIndex
      omega
    · exact min_le_right _ _

/-! ### Snapshots and recovery -/

variable {index term : ℕ} {expected : ℕ} {recovery : RecoveryState} {incoming : LogEntry}

/-- An index whose term the node knows is in its log or below it. -/
theorem LogOk.le_of_termAt (h : LogOk n) (hterm : n.termAt index = some term) : index ≤ n.lastIndex := by
  have happlied := h.applied_le.trans h.commit_le
  rw [termAt] at hterm
  split at hterm
  · omega
  split at hterm
  · rename_i heq
    rw [heq, lastIndex]
    omega
  split at hterm
  · cases hterm
  split at hterm
  · rename_i entry hfind
    have hindex : entry.index = index := by simpa using find?_some hfind
    rw [← hindex]
    exact (h.index_bounds (mem_of_find?_eq_some hfind)).2
  · split at hterm
    · omega
    · cases hterm

/-- The log above a snapshot, cut at the commit index unless the suffix is kept. -/
theorem LogOk.entries_adopt (h : LogOk n) (snapshot : SnapshotMeta) : (n.adoptSnapshot snapshot).entries =
      (n.entries.drop (snapshot.lastIncludedIndex - n.compactedIndex)).take
        (if n.retainsExistingSuffix snapshot then n.entries.length
          else n.commitIndex - max n.compactedIndex snapshot.lastIncludedIndex) := by
  have hlog : Consecutive LogEntry.index (n.compactedIndex + 1 + (snapshot.lastIncludedIndex - n.compactedIndex))
      (n.entries.drop (snapshot.lastIncludedIndex - n.compactedIndex)) := h.log.drop _
  have habove : n.entries.filter (fun e => snapshot.lastIncludedIndex < e.index) =
      n.entries.drop (snapshot.lastIncludedIndex - n.compactedIndex) := by
    rw [h.log.filter_gt]
    congr 1
    omega
  show n.entries.filter (fun e => decide (snapshot.lastIncludedIndex < e.index ∧ _)) = _
  by_cases hretain : n.retainsExistingSuffix snapshot = true
  · simp only [hretain, true_or, and_true, if_true]
    rw [habove, take_of_length_le (by rw [length_drop]; omega)]
  · simp only [hretain, false_or, Bool.decide_and, ← filter_filter, if_false, Bool.false_eq_true]
    rw [filter_comm, habove, hlog.filter_le]
    congr 1
    omega

theorem WellFormed.installSnapshot (h : WellFormed n) (snapshot : SnapshotMeta) :
    WellFormed (n.installSnapshot snapshot) := by
  rw [RaftReplicator.installSnapshot]
  split
  · exact h
  · rename_i haccept
    have hcompacted := h.compacted_le
    have happlied := h.applied_le
    have hcommit := h.commit_le
    have hknown : n.retainsExistingSuffix snapshot = true → snapshot.lastIncludedIndex ≤ n.lastIndex := by
      intro hretain
      rcases of_decide_eq_true hretain with hsame | hterm
      · omega
      · exact h.le_of_termAt hterm
    refine LogOk.resetNext ⟨?_, ?_, ?_, ?_⟩
    · rw [h.entries_adopt]
      refine Consecutive.take ?_ _
      have hlog := h.log.drop (snapshot.lastIncludedIndex - n.compactedIndex)
      rwa [show n.compactedIndex + 1 + (snapshot.lastIncludedIndex - n.compactedIndex) =
        max n.compactedIndex snapshot.lastIncludedIndex + 1 by omega] at hlog
    · exact max_le_max_right _ hcompacted
    · exact max_le_max_right _ happlied
    · rw [lastIndex] at hcommit hknown ⊢
      rw [h.entries_adopt, length_take, length_drop]
      show max n.commitIndex snapshot.lastIncludedIndex ≤ max n.compactedIndex snapshot.lastIncludedIndex + _
      split
      · rename_i hretain
        omega
      · omega

theorem validateEntries_ok (h : RecoveryState.validateEntries term expected entries = .ok ()) :
    Consecutive LogEntry.index expected entries := by
  induction entries generalizing expected with
  | nil => trivial
  | cons entry rest ih =>
    rw [RecoveryState.validateEntries] at h
    split at h
    · cases h
    · rename_i hindex
      split at h
      · cases h
      · exact ⟨not_not.mp hindex, ih h⟩

theorem validate_ok (h : recovery.validate = .ok ()) : recovery.snapshot.lastIncludedIndex ≤ recovery.appliedIndex ∧
      Consecutive LogEntry.index (recovery.snapshot.lastIncludedIndex + 1) recovery.committedEntries ∧
      recovery.appliedIndex ≤ recovery.commitIndex := by
  rw [RecoveryState.validate] at h
  split at h
  · cases h
  · rename_i hbehind
    cases hentries : RecoveryState.validateEntries recovery.term (recovery.snapshot.lastIncludedIndex + 1)
        recovery.committedEntries with
    | error message =>
      rw [hentries] at h
      cases h
    | ok result =>
      rw [hentries] at h
      split at h
      · cases h
      · rename_i hexceeds
        exact ⟨Nat.not_lt.mp hbehind, validateEntries_ok hentries, Nat.not_lt.mp hexceeds⟩

theorem wellFormed_resume {voters : ℕ} (h : resumeAsFollower voters recovery = .ok n) : WellFormed n := by
  rw [resumeAsFollower] at h
  split at h
  · cases h
  · rename_i hvalid
    split at h
    · cases h
    · obtain ⟨hbehind, hlog, happlied⟩ := validate_ok hvalid
      cases h
      have hlast : recovery.commitIndex = recovery.snapshot.lastIncludedIndex + recovery.committedEntries.length := by
        rw [RecoveryState.commitIndex]
        by_cases hempty : recovery.committedEntries = []
        · rw [hempty]
          rfl
        · have := hlog.getLast?_getD hempty recovery.snapshot.lastIncludedIndex
          omega
      exact ⟨⟨hlog, hbehind, happlied, le_of_eq hlast⟩, congrArg (· + 1) hlast⟩

/-! ### Merging a leader's entries -/

/-- The entry of an index, by position. -/
theorem LogOk.find?_eq (h : LogOk n) (hindex : n.compactedIndex < index) :
    n.entries.find? (·.index = index) = n.entries[index - (n.compactedIndex + 1)]? :=
  h.log.find?_eq hindex

theorem LogOk.pushMissing (h : LogOk n) (hindex : incoming.index = n.lastIndex + 1) :
    (n.pushMissing incoming).entries = n.entries ++ [incoming] ∧ LogOk (n.pushMissing incoming) ∧
      (n.pushMissing incoming).lastIndex = incoming.index ∧
      (n.pushMissing incoming).commitIndex = n.commitIndex ∧
      (n.pushMissing incoming).compactedIndex = n.compactedIndex := by
  have hall : n.entries.all (·.index ≠ incoming.index) = true := by
    refine all_eq_true.mpr fun e he => ?_
    have := (h.index_bounds he).2
    simp only [ne_eq, decide_not, Bool.not_eq_true', decide_eq_false_iff_not]
    omega
  have hcommit := h.commit_le
  rw [lastIndex] at hindex hcommit
  rw [RaftReplicator.pushMissing, if_pos hall]
  refine ⟨rfl, ⟨h.log.snoc (by omega), h.compacted_le, h.applied_le, ?_⟩, ?_, rfl, rfl⟩
  · show n.commitIndex ≤ n.compactedIndex + (n.entries ++ [incoming]).length
    rw [length_append]
    omega
  · show n.compactedIndex + (n.entries ++ [incoming]).length = incoming.index
    rw [length_append, length_singleton]
    omega

/-- One round of the merge: the entry is there already, or it becomes the last one of the log. -/
theorem LogOk.mergeEntry_cases (h : LogOk n)
    (hlo : n.compactedIndex < incoming.index) (hhi : incoming.index ≤ n.lastIndex + 1)
    (hmerge : n.mergeEntry incoming = .ok n') :
    (n' = n ∧ incoming ∈ n.entries) ∨ (LogOk n' ∧ n'.lastIndex = incoming.index ∧
      n'.commitIndex = n.commitIndex ∧
        n'.compactedIndex = n.compactedIndex) := by
  rw [mergeEntry] at hmerge
  split at hmerge
  · -- nothing at this index: the log ends just before it
    rename_i hfind
    have hnew : incoming.index = n.lastIndex + 1 := by
      rw [h.find?_eq hlo, getElem?_eq_none_iff] at hfind
      rw [lastIndex] at hhi ⊢
      omega
    obtain ⟨_, hok, hlast, hcommit, hcompacted⟩ := h.pushMissing hnew
    cases hmerge
    exact .inr ⟨hok, hlast, hcommit, hcompacted⟩
  · rename_i existing hfind
    have hmem := mem_of_find?_eq_some hfind
    have hindex : existing.index = incoming.index := by simpa using find?_some hfind
    split at hmerge
    · rename_i hterm
      split at hmerge
      · cases hmerge
      · rename_i hpayload
        cases hmerge
        have heq : existing = incoming := by
          cases existing
          cases incoming
          simp_all
        exact .inl ⟨rfl, heq ▸ hmem⟩
    · split at hmerge
      · cases hmerge
      · rename_i huncommitted
        have hbounds := h.index_bounds hmem
        have hcut : LogOk (n.dropFrom incoming.index) :=
          h.take (k := incoming.index - (n.compactedIndex + 1)) (by omega) (h.log.filter_lt _) rfl rfl rfl
        have hlast : incoming.index = (n.dropFrom incoming.index).lastIndex + 1 := by
          show _ = n.compactedIndex + (n.entries.filter fun e => e.index < incoming.index).length + 1
          rw [h.log.filter_lt, length_take]
          rw [lastIndex] at hbounds
          omega
        rw [truncateUncommittedFrom, if_neg huncommitted] at hmerge
        obtain ⟨_, hok, hlast', hcommit, hcompacted'⟩ := hcut.resetNext.toLogOk.pushMissing hlast
        cases hmerge
        exact .inr ⟨hok, hlast', hcommit, hcompacted'⟩

section

variable (h : LogOk n) {first : ℕ} (hentries : Consecutive LogEntry.index first entries)
  (hlo : n.compactedIndex < first) (hhi : first ≤ n.lastIndex + 1)
include h hentries hlo hhi

/-- The merge keeps the log consecutive, also where it fails. -/
theorem LogOk.mergeEntries :
    LogOk (n.mergeEntries entries).2 ∧ (n.mergeEntries entries).2.commitIndex = n.commitIndex := by
  induction entries generalizing n first with
  | nil => exact ⟨h, rfl⟩
  | cons incoming rest ih =>
    obtain ⟨hindex, hrest⟩ := hentries
    rw [RaftReplicator.mergeEntries]
    cases hmerge : n.mergeEntry incoming with
    | error error => exact ⟨h, rfl⟩
    | ok merged =>
      rcases h.mergeEntry_cases (by omega) (by omega) hmerge with ⟨rfl, hmem⟩ | ⟨hok, hlast, hcommit, hcomp⟩
      · have := (h.index_bounds hmem).2
        exact ih h hrest (by omega) (by omega)
      · rw [← hcommit]
        exact ih hok hrest (by omega) (by omega)

/-- **What the merge does to the log.**  It finds every entry there and changes nothing, or it ends with the
last entry of the request. -/
theorem LogOk.mergeEntries_cases (hmerge : n.mergeEntries entries = (.ok (), n')) :
    (n' = n ∧ ∀ e ∈ entries, e ∈ n.entries) ∨ n'.lastIndex + 1 = first + entries.length := by
  induction entries generalizing n first with
  | nil =>
    cases hmerge
    exact .inl ⟨rfl, by simp⟩
  | cons incoming rest ih =>
    obtain ⟨hindex, hrest⟩ := hentries
    rw [RaftReplicator.mergeEntries] at hmerge
    rw [length_cons]
    cases hstep : n.mergeEntry incoming with
    | error error =>
      rw [hstep] at hmerge
      cases hmerge
    | ok merged =>
      rw [hstep] at hmerge
      rcases h.mergeEntry_cases (by omega) (by omega) hstep with ⟨rfl, hmem⟩ | ⟨hok, hlast, hcommit, hcomp⟩
      · have := (h.index_bounds hmem).2
        rcases ih h hrest (by omega) (by omega) hmerge with ⟨rfl, hall⟩ | hend
        · exact .inl ⟨rfl, forall_mem_cons.mpr ⟨hmem, hall⟩⟩
        · exact .inr (by omega)
      · right
        rcases ih hok hrest (by omega) (by omega) hmerge with ⟨rfl, hall⟩ | hend
        · -- nothing of the rest can be in a log that ends here
          cases rest with
          | nil => rw [hlast, hindex]; rfl
          | cons next rest' =>
            have hnext := (hok.index_bounds (hall next mem_cons_self)).2
            have := hrest.1
            omega
        · omega

end

/-- A request whose entries are all in the log leaves it alone. -/
theorem LogOk.mergeEntries_present (h : LogOk n)
    (hall : ∀ e ∈ entries, e ∈ n.entries) : n.mergeEntries entries = (.ok (), n) := by
  induction entries with
  | nil => rfl
  | cons incoming rest ih =>
    obtain ⟨hmem, hrest⟩ := forall_mem_cons.mp hall
    have hfind : n.entries.find? (·.index = incoming.index) = some incoming := by
      cases hfind : n.entries.find? (·.index = incoming.index) with
      | none => simpa using find?_eq_none.mp hfind incoming hmem
      | some existing =>
        have hindex : existing.index = incoming.index := by simpa using find?_some hfind
        rw [h.log.unique (mem_of_find?_eq_some hfind) hmem hindex]
    have hstep : n.mergeEntry incoming = .ok n := by
      rw [mergeEntry, hfind]
      simp
    rw [RaftReplicator.mergeEntries, hstep]
    exact ih hrest

theorem LogOk.mergeEntries_above (h : LogOk n) (hentries : Consecutive LogEntry.index (n.lastIndex + 1) entries) :
    ∃ merged, n.mergeEntries entries = (.ok (), merged) := by
  induction entries generalizing n with
  | nil => exact ⟨n, rfl⟩
  | cons incoming rest ih =>
    obtain ⟨hindex, hrest⟩ := hentries
    obtain ⟨_, hok, hlast, _, _⟩ := h.pushMissing hindex
    have hfind : n.entries.find? (·.index = incoming.index) = none := by
      refine find?_eq_none.mpr fun e he => ?_
      have := (h.index_bounds he).2
      simp only [decide_eq_true_eq]
      omega
    have hstep : n.mergeEntry incoming = .ok (n.pushMissing incoming) := by rw [mergeEntry, hfind]
    rw [RaftReplicator.mergeEntries, hstep]
    exact ih hok (by rw [hlast, hindex]; exact hrest)

variable {first : ℕ} {prevLogIndex prevLogTerm : ℕ}

/-- A merge that fails has changed nothing. -/
theorem LogOk.mergeEntries_error (h : LogOk n)
    (hentries : Consecutive LogEntry.index first entries) (hlo : n.compactedIndex < first)
    (hhi : first ≤ n.lastIndex + 1) {error : EngineError} (hmerge : n.mergeEntries entries = (.error error, n')) :
    n' = n := by
  induction entries generalizing first with
  | nil => cases hmerge
  | cons incoming rest ih =>
    obtain ⟨hindex, hrest⟩ := hentries
    rw [RaftReplicator.mergeEntries] at hmerge
    cases hstep : n.mergeEntry incoming with
    | error error =>
      rw [hstep] at hmerge
      cases hmerge
      rfl
    | ok merged =>
      rw [hstep] at hmerge
      rcases h.mergeEntry_cases (by omega) (by omega) hstep with ⟨rfl, hmem⟩ | ⟨hok, hlast, _, _⟩
      · have := (h.index_bounds hmem).2
        exact ih hrest (by omega) (by omega) hmerge
      · -- after the first change the rest is above the log
        obtain ⟨merged', hrest'⟩ := hok.mergeEntries_above (by rw [hlast, hindex]; exact hrest)
        change merged.mergeEntries rest = _ at hmerge
        rw [hrest'] at hmerge
        cases hmerge

/-! ### Accepting a request -/

theorem checkPrev_ok_iff : n.checkPrev prevLogIndex prevLogTerm = .ok () ↔
      n.compactedIndex ≤ prevLogIndex ∧ (prevLogIndex = 0 ∨ n.termAt prevLogIndex = some prevLogTerm) := by
  rw [checkPrev]
  split
  · simp; omega
  · split
    · simp_all
    · cases hterm : n.termAt prevLogIndex with
      | none => simp_all
      | some term =>
        split <;> simp_all

theorem checkEntries_ok_iff : checkEntries leaderTerm first expected entries = .ok () ↔
      Consecutive LogEntry.index expected entries ∧ ∀ e ∈ entries, e.term ≤ leaderTerm := by
  induction entries generalizing expected with
  | nil => simp [checkEntries]
  | cons entry rest ih =>
    rw [checkEntries, forall_mem_cons, Consecutive.cons_iff]
    split
    · simp; omega
    · split
      · simp_all
      · rw [ih]
        constructor
        · rintro ⟨hrest, hterms⟩
          exact ⟨⟨by omega, hrest⟩, by omega, hterms⟩
        · rintro ⟨⟨_, hrest⟩, _, hterms⟩
          exact ⟨hrest, hterms⟩

/-- A follower of the request's term stays as it is. -/
theorem followLeader_same (hrole : n.role = .follower) (hterm : leaderTerm = n.term) :
    n.followLeader leaderTerm = n := by
  rw [followLeader, if_neg (by rw [hrole, hterm]; simp), hterm, ← hrole]

theorem followLeader_cases (n : RaftReplicator) (hle : n.term ≤ leaderTerm) :
    (n.role = .follower ∧ leaderTerm = n.term ∧ n.followLeader leaderTerm = n) ∨
      n.followLeader leaderTerm = n.become .follower leaderTerm := by
  by_cases hpurge : n.role ≠ .follower ∨ n.term < leaderTerm
  · exact .inr (if_pos hpurge)
  · rw [not_or, not_not] at hpurge
    have hterm : leaderTerm = n.term := by omega
    exact .inl ⟨hpurge.1, hterm, followLeader_same hpurge.1 hterm⟩

theorem WellFormed.followLeader (h : WellFormed n) (hle : n.term ≤ leaderTerm) :
    WellFormed (n.followLeader leaderTerm) ∧ (n.followLeader leaderTerm).commitIndex = n.commitIndex := by
  rcases n.followLeader_cases hle with ⟨_, _, heq⟩ | heq
  · rw [heq]
    exact ⟨h, rfl⟩
  · rw [heq]
    exact ⟨h.toLogOk.become _ _, rfl⟩

/-- The end of an accepted request. -/
theorem LogOk.commitThrough (h : LogOk n) (leaderCommit : ℕ) : n.commitThrough leaderCommit = { n with
        commitIndex := max n.commitIndex (min leaderCommit n.lastIndex)
        nextIndex := n.lastIndex + 1 } := by
  have hsorted : n.entries.insertionSort (fun a b => a.index ≤ b.index) = n.entries := h.log.sorted.insertionSort_eq
  simp only [RaftReplicator.commitThrough, hsorted]
  rw [h.tailIndex_eq]

theorem LogOk.wellFormed_commitThrough (h : LogOk n) (leaderCommit : ℕ) :
    WellFormed (n.commitThrough leaderCommit) := by
  rw [h.commitThrough]
  refine ⟨⟨h.log, h.compacted_le, h.applied_le.trans (le_max_left _ _), ?_⟩, rfl⟩
  exact max_le h.commit_le (min_le_right _ _)

/-- An accepted request: what was checked, and the log it leaves. -/
structure Accepted (n : RaftReplicator) (req : AppendEntriesRequest) (merged : RaftReplicator) : Prop where
  current : n.term ≤ req.leaderTerm
  prev : (n.followLeader req.leaderTerm).checkPrev req.prevLogIndex req.prevLogTerm = .ok ()
  entries : Consecutive LogEntry.index (req.prevLogIndex + 1) req.entries
  terms : ∀ e ∈ req.entries, e.term ≤ req.leaderTerm
  merge : (n.followLeader req.leaderTerm).mergeEntries req.entries = (.ok (), merged)
  log : LogOk merged
  commit : merged.commitIndex = n.commitIndex

/-- A request that passes the checks has its entries just above an index of the log. -/
theorem LogOk.bounds_of_checkPrev (h : LogOk n) (hprev : n.checkPrev prevLogIndex prevLogTerm = .ok ()) :
    n.compactedIndex < prevLogIndex + 1 ∧ prevLogIndex + 1 ≤ n.lastIndex + 1 := by
  obtain ⟨hcompacted, hzero | hterm⟩ := checkPrev_ok_iff.mp hprev
  · omega
  · have := h.le_of_termAt hterm
    omega

/-- **What a request does.**  It is refused, with the commit index unchanged, or its entries are merged and
the commit index follows the leader's. -/
theorem WellFormed.appendEntries_cases (h : WellFormed n) (req : AppendEntriesRequest) :
    (∃ error, (n.appendEntriesFromLeader req).1 = .error error ∧
      WellFormed (n.appendEntriesFromLeader req).2 ∧
      (n.appendEntriesFromLeader req).2.commitIndex = n.commitIndex) ∨
    ∃ merged, Accepted n req merged ∧
      n.appendEntriesFromLeader req = (.ok (), merged.commitThrough req.leaderCommit) := by
  rw [appendEntriesFromLeader]
  split
  · exact .inl ⟨_, rfl, h, rfl⟩
  split
  · exact .inl ⟨_, rfl, h, rfl⟩
  rename_i hstale
  have hcurrent : n.term ≤ req.leaderTerm := Nat.not_lt.mp hstale
  obtain ⟨hfollow, hcommit⟩ := h.followLeader hcurrent
  dsimp only
  cases hprev : (n.followLeader req.leaderTerm).checkPrev req.prevLogIndex req.prevLogTerm with
  | error error => exact .inl ⟨error, rfl, hfollow, hcommit⟩
  | ok _ =>
    cases hcheck : checkEntries req.leaderTerm (req.prevLogIndex + 1) (req.prevLogIndex + 1)
        req.entries with
    | error error => exact .inl ⟨error, rfl, hfollow, hcommit⟩
    | ok _ =>
      obtain ⟨hentries, hterms⟩ := checkEntries_ok_iff.mp hcheck
      obtain ⟨hlo, hhi⟩ := hfollow.bounds_of_checkPrev hprev
      obtain ⟨hok, hsame⟩ := hfollow.toLogOk.mergeEntries hentries hlo hhi
      cases hmerge : (n.followLeader req.leaderTerm).mergeEntries req.entries with
      | mk result merged =>
        rw [hmerge] at hok hsame
        cases result with
        | error error =>
          obtain rfl := hfollow.toLogOk.mergeEntries_error hentries hlo hhi hmerge
          exact .inl ⟨error, rfl, hfollow, hcommit⟩
        | ok _ =>
          exact .inr ⟨merged, ⟨hcurrent, hprev, hentries, hterms, hmerge, hok, hsame.trans hcommit⟩, rfl⟩

theorem WellFormed.appendEntries (h : WellFormed n) (req : AppendEntriesRequest) :
    WellFormed (n.appendEntriesFromLeader req).2 := by
  rcases h.appendEntries_cases req with ⟨_, _, hok, _⟩ | ⟨merged, hacc, heq⟩
  · exact hok
  · rw [heq]
    exact hacc.log.wellFormed_commitThrough _

theorem WellFormed.step (h : WellFormed n) {a : NodeAction} (hstep : n.step a = some n') : WellFormed n' := by
  cases a with
  | becomeFollower term | becomeLeader term | becomeCandidate term =>
    cases hstep
    exact h.toLogOk.become _ _
  | startCandidateElection candidateId =>
    obtain ⟨_, rfl⟩ := Option.ite_some_none_eq_some.mp hstep
    exact h.keep rfl rfl rfl rfl rfl
  | requestVote req =>
    cases hstep
    exact h.requestVote req
  | appendEntries req =>
    cases hstep
    exact h.appendEntries req
  | propose payload =>
    cases hstep
    exact h.propose payload
  | registerFollowerAck index followerId =>
    cases hstep
    exact h.registerFollowerAck index followerId
  | truncateUncommittedFrom index =>
    cases hstep
    exact h.truncate index
  | markApplied index =>
    cases hstep
    exact h.markApplied index
  | exportSnapshotMeta =>
    cases hstep
    exact h.keep rfl rfl rfl rfl rfl
  | installSnapshot snapshot =>
    cases hstep
    exact h.installSnapshot snapshot
  | restart =>
    change (resumeAsFollower n.voters n.recoveryState).toOption = some n' at hstep
    cases hresume : resumeAsFollower n.voters n.recoveryState with
    | error error =>
      rw [hresume] at hstep
      cases hstep
    | ok resumed =>
      rw [hresume] at hstep
      cases hstep
      exact wellFormed_resume hresume

theorem wellFormed_of_reachable (h : raftNode.Reachable n) : WellFormed n := by
  refine h.invariant (P := WellFormed) (fun n hinit => ?_) fun _ _ _ hn _ hstep => hn.step hstep
  obtain ⟨voters, _, rfl | ⟨recovery, hresume⟩⟩ := hinit
  · exact ⟨⟨trivial, le_rfl, le_rfl, le_rfl⟩, rfl⟩
  · exact wellFormed_resume hresume

/-! ### What a follower commits -/

/-- The follower's log has a tail beyond everything the request matches or carries, the request passes
every check without cutting it, and the leader's commit index reaches into it. -/
structure Overreaches (n : RaftReplicator) (req : AppendEntriesRequest) : Prop where
  role : n.role = .follower
  term : req.leaderTerm = n.term
  compacted : n.compactedIndex ≤ req.prevLogIndex
  prev : req.prevLogIndex = 0 ∨ n.termAt req.prevLogIndex = some req.prevLogTerm
  entries : Consecutive LogEntry.index (req.prevLogIndex + 1) req.entries
  terms : ∀ e ∈ req.entries, e.term ≤ req.leaderTerm
  present : ∀ e ∈ req.entries, e ∈ n.entries
  tail : max n.commitIndex (req.prevLogIndex + req.entries.length) < n.lastIndex
  commit : max n.commitIndex (req.prevLogIndex + req.entries.length) < req.leaderCommit

theorem WellFormed.appendEntries_of_overreaches (h : WellFormed n) {req : AppendEntriesRequest}
    (hover : Overreaches n req) :
    n.appendEntriesFromLeader req = (.ok (), n.commitThrough req.leaderCommit) := by
  have hfollow := followLeader_same hover.role hover.term
  have hprev : n.checkPrev req.prevLogIndex req.prevLogTerm = .ok () :=
    checkPrev_ok_iff.mpr ⟨hover.compacted, hover.prev⟩
  have hcheck : checkEntries req.leaderTerm (req.prevLogIndex + 1) (req.prevLogIndex + 1)
      req.entries = .ok () := checkEntries_ok_iff.mpr ⟨hover.entries, hover.terms⟩
  have hmerge := h.toLogOk.mergeEntries_present hover.present
  have hterm := hover.term
  rw [appendEntriesFromLeader, if_neg (by rw [hover.role]; decide), if_neg (by omega)]
  simp only [hfollow, hprev, hcheck, hmerge]

end

/-- **What a follower commits.**  In every state a node reaches, an `AppendEntries` request raises the commit
index to at most what the request matched or carried, unless it overreaches. -/
theorem appendEntries_commit_bounded_iff (n : RaftReplicator) (hn : raftNode.Reachable n)
    (req : AppendEntriesRequest) :
    (n.appendEntriesFromLeader req).2.commitIndex ≤
        max n.commitIndex (req.prevLogIndex + req.entries.length) ↔
      ¬ Overreaches n req := by
  have h := wellFormed_of_reachable hn
  constructor
  · intro hle hover
    rw [h.appendEntries_of_overreaches hover, h.toLogOk.commitThrough] at hle
    have htail := hover.tail
    have hcommit := hover.commit
    simp only at hle
    omega
  · intro hnot
    rcases h.appendEntries_cases req with ⟨_, _, _, hsame⟩ | ⟨merged, hacc, heq⟩
    · rw [hsame]
      exact le_max_left _ _
    · rw [heq, hacc.log.commitThrough]
      show max merged.commitIndex (min req.leaderCommit merged.lastIndex) ≤ _
      rw [hacc.commit]
      by_contra hgt
      obtain ⟨hfollow, _⟩ := h.followLeader hacc.current
      obtain ⟨hlo, hhi⟩ := hfollow.bounds_of_checkPrev hacc.prev
      rcases hfollow.toLogOk.mergeEntries_cases hacc.entries hlo hhi hacc.merge with ⟨rfl, hall⟩ | hend
      · rcases n.followLeader_cases hacc.current with ⟨hrole, hterm, hsame⟩ | hpurged
        · rw [hsame] at hall hgt
          obtain ⟨hcompacted, hprev⟩ := checkPrev_ok_iff.mp hacc.prev
          rw [hsame] at hcompacted hprev
          exact hnot ⟨hrole, hterm, hcompacted, hprev, hacc.entries, hacc.terms, hall, by omega, by omega⟩
        · -- a role change has cut the log at the commit index
          rw [hpurged, h.toLogOk.lastIndex_become] at hgt
          omega
      · omega

theorem appendEntries_commit_bounded_new : raftNode.Reachable (new 3) ∧
      ((new 3).appendEntriesFromLeader ⟨1, 0, 0, [⟨1, 1, []⟩], 5⟩).1 = .ok () ∧
      ((new 3).appendEntriesFromLeader ⟨1, 0, 0, [⟨1, 1, []⟩], 5⟩).2.commitIndex ≤ max 0 (0 + 1) := by
  have hinit : raftNode.Reachable (new 3) := TransitionSystem.ReachableVia.of_init ⟨3, by decide, .inl rfl⟩
  refine ⟨hinit, by decide, (appendEntries_commit_bounded_iff (new 3) hinit _).mpr fun hover => ?_⟩
  exact absurd hover.tail (by decide)

/-- A follower takes two entries of the leader of term 1, learns of term 2 by a vote request, which leaves
its log as it is, and then commits both on a heartbeat of the new leader that vouches for none. -/
theorem stale_tail_committed : ∃ n, raftNode.Reachable n ∧ n.role = .follower ∧
      ∃ req : AppendEntriesRequest, (n.appendEntriesFromLeader req).1 = .ok () ∧
        max n.commitIndex (req.prevLogIndex + req.entries.length) <
          (n.appendEntriesFromLeader req).2.commitIndex := by
  obtain ⟨n, hreach, htest⟩ :=
    TransitionSystem.exists_reachable_of_runVia (T := raftNode) (fun _ _ => True) (s := new 3)
      [.appendEntries ⟨1, 0, 0, [⟨1, 1, [1]⟩, ⟨1, 2, [2]⟩], 0⟩, .requestVote ⟨2, 3, 2, 1⟩]
      ⟨3, by decide, .inl rfl⟩
      (fun n => decide (n.role = .follower ∧ (n.appendEntriesFromLeader ⟨2, 0, 0, [], 2⟩).1 = .ok () ∧
        max n.commitIndex 0 < (n.appendEntriesFromLeader ⟨2, 0, 0, [], 2⟩).2.commitIndex)) (by decide)
  obtain ⟨hrole, haccepted, hcommit⟩ := of_decide_eq_true htest
  exact ⟨n, hreach, hrole, ⟨2, 0, 0, [], 2⟩, haccepted, hcommit⟩

end RaftReplicator

end ThunderboltDb.Replication
