import ThunderboltDb.Engine.CommitWaveSteps

/-!
# The commit wave never blocks on itself, while its periodic probe rotates nothing

The sequencer runs the auto-checkpoint probe of every 256th wave between applying the wave and handing its
tail over. A rotation that starts there waits for the sequencer's own tail. `ProbeSafe` excludes it; then

* `commitWave_never_blocks_on_itself` — whoever waits for quiescence waits only for tails that are in
  `pending_tails` or held by a thread that does not wait itself, and, without a failure, every enqueued
  item can still receive its outcome;
* `rotation_waits_for_its_own_tail` — the run without it.

For the second part, `work` measures what is left to do; `advances` shows that some thread can always
take the next step of the work. Another thread may call `drive_commit_wave`, or a checkpoint, at any
time: a thread that is not busy yet takes those steps.
-/

namespace ThunderboltDb.Engine.CommitWave

open Lib Function List State Claim

variable {a : Action} {pc pc' : Pc} {own : Option ℕ}

/-- The step starts with the periodic probe within the bound. -/
def SafeStep (c : Config) (s : State) (_ : Action) : Prop := ProbeSafe c s

/-- A safe step without an I/O failure. -/
def CalmStep (c : Config) (s : State) (a : Action) : Prop := ProbeSafe c s ∧ a.failure = false

/-- The thread is in `wait_wave_tail_quiescence`. -/
def Pc.waitsForQuiescence : Pc → Bool
  | .claim _ .loadApplied | .claim _ (.loadFinished _) | .claim _ .lockQueue | .claim _ .checkWedged
  | .claim _ .reloadApplied | .claim _ (.reloadFinished _) | .claim _ .enterWait
  | .claim _ .parked => true
  | _ => false

section

variable {c : Config} {s s' : State} {t n : ℕ} {calm : Prop}

theorem inv_of_safe (h : (commitWave c).ReachableVia (SafeStep c) s) : Inv c False s :=
  h.invariant (P := Inv c False) (fun _ hinit => inv_of_init hinit)
    fun _ _ _ hs hok hstep => inv_step hs hok False.elim hstep

theorem inv_of_calmStep (h : Inv c True s) (hok : CalmStep c s a)
    (hstep : (commitWave c).step s a = some s') : Inv c True s' :=
  inv_step h hok.1 (fun _ => hok.2) hstep

theorem inv_of_calm (h : (commitWave c).ReachableVia (CalmStep c) s) : Inv c True s :=
  h.invariant (P := Inv c True) (fun _ hinit => inv_of_init hinit)
    fun _ _ _ hs hok hstep => inv_of_calmStep hs hok hstep

theorem claiming_of_waits (h : pc.waitsForQuiescence = true) : pc.claiming = true := by
  cases pc with
  | claim caller stage => rfl
  | _ => cases h

/-- A thread that waits for quiescence holds no tail. -/
theorem holding_of_claiming (h : Inv c calm s) (ht : (s.pc t).claiming = true) : (s.threads t).holding = [] := by
  have hfr : s.frames t = [] := by
    refine (h.busy t).resolve_right fun hhelp => ?_
    rw [claiming_of_helping hhelp] at ht
    cases ht
  show (⟨s.pc t, s.frames t⟩ : Thread).holding = []
  rw [holding_empty (h.quiet t ht), hfr]
  rfl

/-- Whoever waits for quiescence waits for others, who do not wait. -/
theorem open_tail_elsewhere (h : Inv c calm s) (ht : (s.pc t).waitsForQuiescence = true)
    {k : ℕ} (hk : k < s.tailsApplied) (hopen : s.place k ≠ .finished) :
    k ∈ s.pendingTails.map Tail.id ∨
      ∃ u, u ≠ t ∧ k ∈ (s.threads u).holding ∧ (s.pc u).waitsForQuiescence = false := by
  rcases h.placed.open_cases hk hopen with hpend | ⟨u, hu⟩
  · exact .inl hpend
  · refine .inr ⟨u, ?_, hu, ?_⟩
    · rintro rfl
      rw [holding_of_claiming h (claiming_of_waits ht)] at hu
      cases hu
    · by_contra hwaits
      rw [holding_of_claiming h (claiming_of_waits (by simpa using hwaits))] at hu
      cases hu

/-! ### What is left to do -/

/-- A sequencer's claim: through the loads to the commit lock, with the way back from the condition
variable above them. -/
def Claim.rank : Claim → ℕ
  | .claimed => 0
  | .recheckFinished _ => 1
  | .recheckApplied => 2
  | .lockCommit => 3
  | .loadFinished _ => 4
  | .loadApplied => 5
  | .parked => 6
  | .enterWait => 7
  | .reloadFinished _ => 8
  | .reloadApplied => 9
  | .checkWedged => 10
  | .lockQueue => 11

/-- Another thread's claim only matters while it holds a lock. -/
def Claim.lockRank : Claim → ℕ
  | .checkWedged => 4
  | .reloadApplied => 3
  | .reloadFinished _ => 2
  | .enterWait => 1
  | .recheckApplied => 3
  | .recheckFinished _ => 2
  | .claimed => 1
  | _ => 0

def Gate.rank : Gate → ℕ
  | .loadFinished _ => 0
  | .loadHanded => 1
  | .parked => 2
  | .enterWait => 3
  | .reloadHanded _ => 4
  | .reloadFinished => 5
  | .checkWedged => 6
  | .lockQueue => 7
  | .tryFinish => 8

/-- How far a thread is from the end of the wave it sequences. -/
def Pc.rank : Pc → ℕ
  | .lockCommit _ _ => 150
  | .sequence _ _ => 149
  | .release _ _ => 148
  | .count _ _ => 147
  | .probe _ _ => 146
  | .claim (.periodic _ _) stage => 130 + stage.rank
  | .claim _ stage => stage.lockRank
  | .gate _ _ stage => 110 + stage.rank
  | .hand _ _ => 105
  | .countHanded _ => 80
  | .wake _ => 79
  | .checkOwn _ => 78
  | .stepDown _ => 70
  | .drain _ => 50
  | _ => 0

def Phase.rank : Phase → ℕ
  | .durable => 17
  | .publish => 16
  | .cover => 15
  | .mark => 14
  | .ack => 13
  | .bump => 12
  | .notify => 11
  | .drop | .failing _ _ => 0

def Thread.rank (th : Thread) : ℕ := th.pc.rank + (th.frames.map fun f => f.phase.rank).sum

/-- The queue has items and nobody sequences. -/
def State.unledRank (s : State) : ℕ := if s.sequencer = none ∧ s.items ≠ [] then 60 else 0

/-- What is left to do, of the first `n` threads. -/
def State.work (n : ℕ) (s : State) : ℕ :=
  (∑ t ∈ Finset.range n, (s.threads t).rank) + 20 * s.pendingTails.length + 300 * s.items.length +
    s.unledRank

/-- The threads from `n` on have nothing to do. -/
def Idle (n : ℕ) (s : State) : Prop := ∀ t, n ≤ t → s.threads t = ⟨.idle, []⟩

theorem rank_wakePc : (wakePc pc).rank ≤ pc.rank := by
  rcases wakePc_cases pc with h | ⟨own, rfl, h⟩ | ⟨caller, rfl, h⟩ | ⟨own, tail, rfl, h⟩
  · rw [h.1]
  · rw [h]
    rfl
  · rw [h]
    cases caller <;> simp [Pc.rank, rank, lockRank]
  · rw [h]
    simp [Pc.rank, Gate.rank]

theorem sum_rank_update (f : ℕ → Thread) {t n : ℕ} (ht : t < n) (th : Thread) :
    (∑ u ∈ Finset.range n, (update f t th u).rank) + (f t).rank =
      (∑ u ∈ Finset.range n, (f u).rank) + th.rank := by
  have hmem : t ∈ Finset.range n := Finset.mem_range.mpr ht
  have hrest : ∑ u ∈ (Finset.range n).erase t, (update f t th u).rank =
      ∑ u ∈ (Finset.range n).erase t, (f u).rank := by
    refine Finset.sum_congr rfl fun u hu => ?_
    rw [update_of_ne (Finset.ne_of_mem_erase hu)]
  rw [← Finset.add_sum_erase _ _ hmem, ← Finset.add_sum_erase _ (fun u => (f u).rank) hmem, hrest, update_self]
  omega

/-- A thread that is not busy yet weighs nothing. -/
theorem work_succ (h : Idle n s) : s.work (n + 1) = s.work n := by
  have hzero : (s.threads n).rank = 0 := by
    rw [h n le_rfl]
    rfl
  rw [work, work, Finset.sum_range_succ, hzero, Nat.add_zero]

variable {th : Thread}

theorem idle_update (h : Idle n s) (ht : t < n)
    (hth : s'.threads = update s.threads t th) : Idle n s' := by
  intro u hu
  rw [hth, update_of_ne (by omega)]
  exact h u hu

theorem idle_notifyAll (h : Idle n s) : Idle n s.notifyAll := by
  intro u hu
  show (⟨wakePc (s.threads u).pc, (s.threads u).frames⟩ : Thread) = _
  rw [h u hu]
  rfl

theorem work_notifyAll : s.notifyAll.work n ≤ s.work n := by
  have hsum : ∑ t ∈ Finset.range n, (s.notifyAll.threads t).rank ≤ ∑ t ∈ Finset.range n, (s.threads t).rank :=
    Finset.sum_le_sum fun t _ => Nat.add_le_add_right (rank_wakePc) _
  have hunled : s.notifyAll.unledRank = s.unledRank := rfl
  rw [work, work, hunled]
  show _ + 20 * s.pendingTails.length + 300 * s.items.length + _ ≤ _
  omega

/-- One thread's step, in terms of its own rank and of the queues. -/
theorem work_update (ht : t < n) (hth : s'.threads = update s.threads t th) :
    s'.work n + (s.threads t).rank + 20 * s.pendingTails.length + 300 * s.items.length + s.unledRank =
      s.work n + th.rank + 20 * s'.pendingTails.length + 300 * s'.items.length + s'.unledRank := by
  have hsum := sum_rank_update s.threads ht th
  rw [← hth] at hsum
  rw [work, work]
  omega

/-! ### Steps that do some of the work -/

/-- A calm run does some of the work, with the first `n` threads. -/
def Advances (c : Config) (n : ℕ) (s : State) : Prop :=
  ∃ s', (commitWave c).RunVia (CalmStep c) s s' ∧ ProbeSafe c s' ∧ Idle n s' ∧ s'.work n < s.work n ∧
    s'.nextItem = s.nextItem

section

variable (hsafe : ProbeSafe c s) (hfail : a.failure = false) (hstep : s.step c a = some s')
include hsafe hfail hstep

theorem run_of_step : (commitWave c).RunVia (CalmStep c) s s' :=
  Relation.ReflTransGen.single ⟨a, ⟨hsafe, hfail⟩, hstep⟩

theorem advances_of_step (hsafe' : ProbeSafe c s') (hidle : Idle n s')
    (hlt : s'.work n < s.work n) (hnext : s'.nextItem = s.nextItem) : Advances c n s :=
  ⟨s', run_of_step hsafe hfail hstep, hsafe', hidle, hlt, hnext⟩

end

theorem sequencing_of_probed {waves : ℕ} (h : pc.probed waves = true) : pc.sequencing = true := by
  cases pc with
  | lockCommit | sequence | release | count | probe => rfl
  | _ => cases h

/-- Only the program points matter to `ProbeSafe`. -/
theorem probeSafe_of_pc (h : ∀ u, (s.pc u).probed s.waves = false) : ProbeSafe c s := by
  intro u hprobed
  rw [h u] at hprobed
  cases hprobed

/-- A rotated segment is within every bound. -/
theorem probeSafe_of_empty (h : s.segmentBytes = 0) : ProbeSafe c s := by
  intro u _
  simp [Config.exceeded, h]

/-- What the other threads can see of the queues stays. -/
structure SameQueues (s s' : State) : Prop where
  pendingTails : s'.pendingTails = s.pendingTails
  items : s'.items = s.items
  nextItem : s'.nextItem = s.nextItem
  sequencer : s'.sequencer = s.sequencer
  waves : s'.waves = s.waves

/-- A thread's move that does not bring it into the guarded stretch. -/
theorem probeSafe_update (h : ProbeSafe c s) {frames : List Frame}
    (hth : s'.threads = update s.threads t ⟨pc', frames⟩)
    (hself : pc'.probed s.waves = true → (s.pc t).probed s.waves = true)
    (hwaves : s'.waves = s.waves := by rfl)
    (hsegment : s'.segmentBytes = s.segmentBytes := by rfl) : ProbeSafe c s' := by
  intro u hprobed
  have hexceeded : c.exceeded s' = c.exceeded s := by
    rw [Config.exceeded, Config.exceeded, hsegment]
  rw [hexceeded]
  rw [pc_of_threads hth, hwaves] at hprobed
  by_cases hut : u = t
  · rw [hut, update_self] at hprobed
    exact h t (hself hprobed)
  · rw [update_of_ne hut] at hprobed
    exact h u hprobed

theorem rank_thread (frames : List Frame) :
    (⟨pc, frames⟩ : Thread).rank = pc.rank + (frames.map fun f => f.phase.rank).sum :=
  rfl

theorem rank_of_pc (hpc : s.pc t = pc) :
    (s.threads t).rank = pc.rank + ((s.frames t).map fun f => f.phase.rank).sum := by
  rw [← hpc]
  rfl

theorem lt_of_busy (h : Idle n s) (hbusy : s.threads t ≠ ⟨.idle, []⟩) : t < n :=
  Nat.not_le.mp fun hle => hbusy (h t hle)

theorem busy_of_pc (hpc : s.pc t = pc) (hne : pc ≠ .idle) : s.threads t ≠ ⟨.idle, []⟩ := by
  intro heq
  exact hne (by rw [← hpc, State.pc, heq])

/-- One thread goes on to a point of lower rank. -/
theorem advances_move (hsafe : ProbeSafe c s) (hidle : Idle n s) (hpc : s.pc t = pc) (hstep : s.step c a = some s')
    (hth : s'.threads = update s.threads t ⟨pc', s.frames t⟩) (hsafe' : ProbeSafe c s')
    (hrank : pc'.rank < pc.rank := by simp [Pc.rank]) (hfail : a.failure = false := by rfl)
    (hsame : SameQueues s s' := by exact ⟨rfl, rfl, rfl, rfl, rfl⟩) : Advances c n s := by
  have hne : pc ≠ .idle := by
    rintro rfl
    exact absurd hrank (Nat.not_lt_zero _)
  have ht : t < n := lt_of_busy hidle (busy_of_pc hpc hne)
  refine advances_of_step hsafe hfail hstep hsafe' (idle_update hidle ht hth) ?_ hsame.nextItem
  have hwork := work_update ht hth
  have hunled : s'.unledRank = s.unledRank := by
    rw [unledRank, unledRank, hsame.sequencer, hsame.items]
  rw [hsame.pendingTails, hsame.items, hunled, rank_of_pc hpc, rank_thread] at hwork
  omega

/-- A thread that is not at a call site of `try_finish_pending_wave_tail` is finishing no tail. -/
theorem Inv.frames_nil (h : Inv c calm s) (hpc : s.pc t = pc) (hhelp : pc.helping = false) : s.frames t = [] := by
  refine (h.busy t).resolve_right fun hh => ?_
  rw [hpc, hhelp] at hh
  cases hh

/-- A thread runs on to a point of lower rank outside the guarded stretch, or further in it. -/
theorem advances_run (hsafe : ProbeSafe c s) (hidle : Idle n s) (hpc : s.pc t = pc)
    (hfr : s.frames t = []) (hrun : s.run c t pc = some s')
    (hth : s'.threads = update s.threads t ⟨pc', s.frames t⟩)
    (hprobed : pc'.probed s.waves = true → pc.probed s.waves = true)
    (hrank : pc'.rank < pc.rank := by simp [Pc.rank])
    (hsame : SameQueues s s' := by exact ⟨rfl, rfl, rfl, rfl, rfl⟩)
    (hsegment : s'.segmentBytes = s.segmentBytes := by rfl) : Advances c n s := by
  have hstep : s.step c (.run t) = some s' := by rw [step, if_pos hfr, hpc, hrun]
  exact advances_move hsafe hidle hpc hstep hth
    (probeSafe_update hsafe hth (by rw [hpc]; exact hprobed) hsame.waves hsegment) hrank rfl hsame

variable {stage stage' : Claim} {tail : Tail}

theorem claim_rank_lt (caller : Caller) (hr : stage'.rank < stage.rank) (hl : stage'.lockRank < stage.lockRank) :
    (Pc.claim caller stage').rank < (Pc.claim caller stage).rank := by
  cases caller <;> simp only [Pc.rank] <;> omega

theorem advances_claim (h : Inv c True s) (hsafe : ProbeSafe c s) (hidle : Idle n s) {caller : Caller}
    (hpc : s.pc t = .claim caller stage)
    (hstep : s.claim t caller stage = some s')
    (hth : s'.threads = update s.threads t ⟨.claim caller stage', s.frames t⟩)
    (hrank : (Pc.claim caller stage').rank < (Pc.claim caller stage).rank := by
      solve
        | simp [Pc.rank, rank]
        | exact claim_rank_lt _ (by simp [rank]) (by simp [lockRank]))
    (hsame : SameQueues s s' := by exact ⟨rfl, rfl, rfl, rfl, rfl⟩)
    (hsegment : s'.segmentBytes = s.segmentBytes := by rfl) : Advances c n s :=
  advances_run hsafe hidle hpc (h.frames_nil hpc rfl) hstep hth (fun hp => by cases hp) hrank hsame hsegment

theorem advances_gate (hsafe : ProbeSafe c s) (hidle : Idle n s)
    {stage : Gate} (hpc : s.pc t = .gate own tail stage)
    (hfr : s.frames t = []) (hstep : s.gate c t own tail stage = some s')
    (hth : s'.threads = update s.threads t ⟨pc', s.frames t⟩)
    (hrank : pc'.rank < 110 + stage.rank := by simp [Pc.rank, Gate.rank])
    (hprobed : pc'.probed s.waves = false := by rfl)
    (hsame : SameQueues s s' := by exact ⟨rfl, rfl, rfl, rfl, rfl⟩)
    (hsegment : s'.segmentBytes = s.segmentBytes := by rfl) : Advances c n s :=
  advances_run hsafe hidle hpc hfr hstep hth (fun hp => by rw [hprobed] at hp; cases hp) hrank hsame
    hsegment

section

variable (h : Inv c True s) (hsafe : ProbeSafe c s) (hidle : Idle n s)
include h hsafe hidle

/-- The holder of the queue mutex can go on, and its steps need no other lock. -/
theorem advances_queue (hlock : s.queueLock = some t) : Advances c n s := by
  have hholds := (h.queue t).mpr hlock
  have hheal : ¬ s.queueWedged = true := Bool.eq_false_iff.mp (h.healthy trivial).2
  cases hpc : s.pc t with
  | claim caller stage =>
    rw [hpc] at hholds
    cases stage with
    | checkWedged =>
      exact advances_claim h hsafe hidle hpc (if_neg hheal) rfl
    | reloadApplied =>
      exact advances_claim h hsafe hidle hpc rfl rfl
    | reloadFinished applied =>
      by_cases heq : applied = s.tailsFinished
      · exact advances_claim h hsafe hidle hpc (if_pos heq) rfl
      · exact advances_claim h hsafe hidle hpc (if_neg heq) rfl
    | enterWait =>
      exact advances_claim h hsafe hidle hpc rfl rfl
    | _ => cases hholds
  | gate own tail stage =>
    rw [hpc] at hholds
    have hfr : s.frames t = [] := by
      refine h.frames_nil hpc ?_
      cases stage <;> first | rfl | cases hholds
    cases stage with
    | checkWedged =>
      exact advances_gate hsafe hidle hpc hfr (if_neg hheal) rfl
    | reloadFinished | enterWait =>
      exact advances_gate hsafe hidle hpc hfr rfl rfl
    | reloadHanded finished =>
      by_cases hpass : s.tailsHanded - finished ≤ c.maxOutstanding
      · exact advances_gate hsafe hidle hpc hfr (if_pos hpass) rfl
      · exact advances_gate hsafe hidle hpc hfr (if_neg hpass) rfl
    | _ => cases hholds
  | _ =>
    rw [hpc] at hholds
    cases hholds

/-- The holder of the commit lock can go on to its release. -/
theorem advances_commit (hlock : s.commitLock = some t) : Advances c n s := by
  have hholds := (h.commit t).mpr hlock
  have hheal : ¬ s.wedged = true := Bool.eq_false_iff.mp (h.healthy trivial).1
  cases hpc : s.pc t with
  | sequence own batch =>
    have hstep : s.step c (.settle t batch) = some (s.settle t own batch batch) := by
      simp only [step, hpc, if_pos (List.Subset.refl batch)]
    rw [settle] at hstep
    by_cases hempty : s.wedged ∨ batch = []
    · rw [if_pos hempty] at hstep
      exact advances_move hsafe hidle hpc hstep rfl (probeSafe_update hsafe rfl fun hp => by cases hp)
    · rw [if_neg hempty] at hstep
      exact advances_move hsafe hidle hpc hstep rfl (probeSafe_update hsafe rfl fun hp => by rw [hpc]; exact hp)
  | release own tail =>
    exact advances_run hsafe hidle hpc (h.frames_nil hpc rfl) rfl rfl (by cases tail <;> exact id)
  | claim caller stage =>
    rw [hpc] at hholds
    cases stage with
    | recheckApplied =>
      exact advances_claim h hsafe hidle hpc rfl rfl
    | recheckFinished applied =>
      by_cases heq : applied = s.tailsFinished
      · exact advances_claim h hsafe hidle hpc ((if_neg hheal).trans (if_pos heq)) rfl
      · -- the counters differ again: never in the sequencer's own claim
        refine advances_claim h hsafe hidle hpc ((if_neg hheal).trans (if_neg heq)) rfl ?_
        cases caller with
        | periodic own tail =>
          have hstage := h.stage trivial t ((h.owned trivial t).mp (by rw [hpc]; rfl))
          rw [hpc] at hstage
          exact absurd (hstage.1.trans hstage.2) heq
        | client | stepDown own => simp [Pc.rank, lockRank]
    | claimed =>
      have hstep : s.step c (.endClaim t 0) =
          some { s.setPc t caller.resume with commitLock := none, segmentBytes := 0 } := by
        simp only [step, hpc]
      refine advances_move hsafe hidle hpc hstep rfl (probeSafe_of_empty rfl) ?_
      cases caller with
      | periodic own tail => cases tail <;> simp [Caller.resume, afterProbe, Pc.rank, rank, Gate.rank]
      | client => decide
      | stepDown own => simp [Caller.resume, Pc.rank, lockRank]
    | _ => cases hholds
  | _ =>
    rw [hpc] at hholds
    cases hholds

/-- The sequencer, with a wave in its hands, gets to the end of the size check. -/
theorem advances_window (hcommit : s.commitLock = none)
    (hwindow : (∃ own batch, s.pc t = .lockCommit own batch) ∨ (∃ own tail, s.pc t = .count own tail) ∨
      ∃ own tail, s.pc t = .probe own tail) : Advances c n s := by
  have hheal : ¬ s.wedged = true := Bool.eq_false_iff.mp (h.healthy trivial).1
  rcases hwindow with ⟨own, batch, hpc⟩ | ⟨own, tail, hpc⟩ | ⟨own, tail, hpc⟩
  · exact advances_run hsafe hidle hpc (h.frames_nil hpc rfl) ((if_neg hheal).trans (if_pos hcommit)) rfl id
  · have hfr := h.frames_nil hpc rfl
    have ht : t < n := lt_of_busy hidle (busy_of_pc hpc (by simp))
    let pc' : Pc := if s.waves % 256 = 255 then .probe own tail else afterProbe own tail
    let s₁ : State := { s.setPc t pc' with waves := s.waves + 1 }
    have hstep : s.step c (.run t) = some s₁ := by rw [step, if_pos hfr, hpc]; rfl
    have hth : s₁.threads = update s.threads t ⟨pc', s.frames t⟩ := rfl
    refine advances_of_step hsafe rfl hstep ?_ (idle_update hidle ht hth) ?_ rfl
    · intro u hprobed
      have hseq : (s.pc t).sequencing = true := by rw [hpc]; rfl
      refine hsafe t ?_
      rw [pc_of_threads hth] at hprobed
      by_cases hut : u = t
      · rw [hut, update_self] at hprobed
        rw [hpc]
        by_cases hlast : s.waves % 256 = 255
        · cases tail with
          | none => simp [pc', hlast, Pc.probed] at hprobed
          | some tail => simp [Pc.probed, hlast]
        · cases tail <;> simp [pc', hlast, afterProbe, Pc.probed] at hprobed
      · rw [update_of_ne hut] at hprobed
        exact (h.no_other trivial hseq hut (sequencing_of_probed hprobed)).elim
    · have hwork := work_update ht hth
      have hrank : pc'.rank < 147 := by
        simp only [pc']
        split
        · simp [Pc.rank]
        · cases tail <;> simp [afterProbe, Pc.rank, Gate.rank]
      have hqueues : s₁.pendingTails = s.pendingTails ∧ s₁.items = s.items ∧ s₁.unledRank = s.unledRank :=
        ⟨rfl, rfl, rfl⟩
      rw [rank_of_pc hpc, rank_thread, hqueues.1, hqueues.2.1, hqueues.2.2] at hwork
      simp only [Pc.rank] at hwork hrank
      omega
  · refine advances_run hsafe hidle hpc (h.frames_nil hpc rfl) (if_pos hcommit) rfl (fun hp => ?_) ?_
    · split at hp
      · cases hp
      · cases tail <;> cases hp
    · by_cases hexceeded : c.exceeded s = true
      · rw [if_pos hexceeded]
        simp [Pc.rank, rank]
      · rw [if_neg hexceeded]
        cases tail <;> simp [afterProbe, Pc.rank, Gate.rank]

end

/-! ### Finishing tails -/

/-- Tails are finished outside the stretch between a periodic wave's drain and its size check. -/
def Unguarded (s : State) : Prop := ∀ u, (s.pc u).probed s.waves = false

variable {rest : List Frame} {lock : Option ℕ}

/-- A thread takes the next step of the tail it is finishing. -/
theorem advances_top (hsafe : Unguarded s) (hidle : Idle n s) {phase phase' : Phase}
    (hfr : s.frames t = ⟨tail, phase⟩ :: rest) (hstep : s.step c a = some s')
    (hth : s'.threads = update s.threads t ⟨s.pc t, ⟨tail, phase'⟩ :: rest⟩)
    (hrank : phase'.rank < phase.rank := by decide) (hfail : a.failure = false := by rfl)
    (hsame : SameQueues s s' := by exact ⟨rfl, rfl, rfl, rfl, rfl⟩) : Advances c n s := by
  have ht : t < n := by
    refine lt_of_busy hidle fun heq => ?_
    rw [frames, heq] at hfr
    cases hfr
  refine advances_of_step (probeSafe_of_pc hsafe) hfail hstep (probeSafe_of_pc ?_)
    (idle_update hidle ht hth) ?_ hsame.nextItem
  · rw [pc_of_threads hth, update_eq_self, hsame.waves]
    exact hsafe
  · have hwork := work_update ht hth
    have hunled : s'.unledRank = s.unledRank := by
      rw [unledRank, unledRank, hsame.sequencer, hsame.items]
    rw [hsame.pendingTails, hsame.items, hunled, rank_of_pc rfl, rank_thread, hfr] at hwork
    simp only [map_cons, sum_cons] at hwork
    omega

theorem probed_wakePc (waves : ℕ) : (wakePc pc).probed waves = pc.probed waves :=
  apply_wakePc (fun _ => rfl) (fun _ => rfl) (fun _ _ => rfl) pc

/-- A thread goes on after it has woken the others. -/
theorem advances_notifyAll (hsafe : ProbeSafe c s) (hidle : Idle n s) (ht : t < n) (hstep : s.step c a = some s')
    (hth : s'.threads = update s.notifyAll.threads t th)
    (hpc : wakePc (s.pc t) = s.pc t) (hrank : th.rank < (s.threads t).rank)
    (hself : th.pc.probed s.waves = true → (s.pc t).probed s.waves = true)
    (hfail : a.failure = false := by rfl) (hsame : SameQueues s s' := by exact ⟨rfl, rfl, rfl, rfl, rfl⟩)
    (hsegment : s'.segmentBytes = s.segmentBytes := by rfl) : Advances c n s := by
  have hsafe' : ProbeSafe c s.notifyAll := fun u hprobed => hsafe u ((probed_wakePc _).symm.trans hprobed)
  refine advances_of_step hsafe hfail hstep
    (probeSafe_update hsafe' hth (fun hp => (probed_wakePc _).trans (hself hp)) hsame.waves hsegment)
    (idle_update (s := s.notifyAll) (idle_notifyAll hidle) ht hth) ?_ hsame.nextItem
  · have hwork := work_update (s := s.notifyAll) ht hth
    have hle : s.notifyAll.work n ≤ s.work n := work_notifyAll
    have hunled : s'.unledRank = s.notifyAll.unledRank := by
      rw [unledRank, unledRank, hsame.sequencer, hsame.items]
      rfl
    have hqueues : s.notifyAll.pendingTails = s.pendingTails ∧ s.notifyAll.items = s.items := ⟨rfl, rfl⟩
    have hself : s.notifyAll.threads t = s.threads t := by
      show (⟨wakePc (s.pc t), s.frames t⟩ : Thread) = _
      rw [hpc]
      rfl
    rw [hsame.pendingTails, hsame.items, hunled, hqueues.1, hqueues.2, hself] at hwork
    omega

theorem wakePc_of_helping (h : pc.helping = true) : wakePc pc = pc := by
  rcases wakePc_cases pc with h' | ⟨own, rfl, _⟩ | ⟨caller, rfl, _⟩ | ⟨own, tail, rfl, _⟩
  · exact h'.1
  all_goals cases h

/-- The tail on top of a thread's stack can go on unless it waits for coverage. -/
theorem advances_frame (h : Inv c True s) (hsafe : Unguarded s) (hidle : Idle n s)
    (hqueue : s.queueLock = none) (hcommit : s.commitLock = none) {f : Frame}
    (hfr : s.frames t = f :: rest) (hready : f.phase = .cover → s.covered f.tail = true) :
    Advances c n s := by
  have hheal : ¬ s.wedged = true := Bool.eq_false_iff.mp (h.healthy trivial).1
  obtain ⟨tail, phase⟩ := f
  have hfinish : ∀ s', s.finish t = some s' → s.step c (.finish t) = some s' := fun _ hs => hs
  rw [finish, hfr] at hfinish
  cases phase with
  | durable =>
    have hstep : s.step c (.flush t 1) =
        some { s.setFrames t (⟨tail, .publish⟩ :: rest) with segmentBytes := s.segmentBytes + 1 } := by
      rw [step, hfr]
      exact if_pos hcommit
    exact advances_top hsafe hidle hfr hstep rfl
  | publish =>
    exact advances_top hsafe hidle hfr (hfinish _ (if_neg hheal)) rfl
  | cover =>
    exact advances_top hsafe hidle hfr (hfinish _ (if_pos (hready rfl))) rfl
  | mark =>
    exact advances_top hsafe hidle hfr (hfinish _ (if_pos hcommit)) rfl
  | ack | bump =>
    exact advances_top hsafe hidle hfr (hfinish _ rfl) rfl
  | notify =>
    have hhelping : (s.pc t).helping = true := (h.busy t).resolve_left (by rw [hfr]; exact cons_ne_nil _ _)
    have hpc := wakePc_of_helping hhelping
    have ht : t < n := by
      refine lt_of_busy hidle fun heq => ?_
      rw [frames, heq] at hfr
      cases hfr
    refine advances_notifyAll (probeSafe_of_pc hsafe) hidle ht (hfinish _ (if_pos hqueue)) rfl hpc ?_ fun hp => ?_
    · rw [rank_of_pc rfl, rank_thread, hfr, map_cons, sum_cons]
      show (wakePc (s.pc t)).rank + _ < _
      rw [hpc]
      simp only [Phase.rank]
      omega
    · exact (probed_wakePc s.waves).symm.trans hp
  | drop | failing => exact absurd trivial (h.not_calm_of_failed hfr rfl)

theorem idle_succ (h : Idle n s) : Idle (n + 1) s := fun t ht => h t (by omega)

/-- A thread that is not busy yet takes a step. -/
theorem advances_fresh (hsafe : ProbeSafe c s) (hidle : Idle n s)
    (hfail : a.failure = false) (hstep : s.step c a = some s')
    (hth : s'.threads = update s.threads n th) (hnext : s'.nextItem = s.nextItem)
    (hsafe' : ProbeSafe c s')
    (hrank : th.rank + 20 * s'.pendingTails.length + 300 * s'.items.length + s'.unledRank <
      20 * s.pendingTails.length + 300 * s.items.length + s.unledRank) : Advances c (n + 1) s := by
  have hn : n < n + 1 := Nat.lt_succ_self n
  refine advances_of_step hsafe hfail hstep hsafe' (idle_update (idle_succ hidle) hn hth) ?_ hnext
  have hwork := work_update hn hth
  omega

/-- Somebody comes to finish the front tail of `pending_tails`. -/
theorem advances_pending (h : Inv c True s) (hsafe : Unguarded s) (hidle : Idle n s)
    (hpend : s.pendingTails ≠ []) : Advances c (n + 1) s := by
  obtain ⟨tail, rest, htails⟩ := exists_cons_of_ne_nil hpend
  have hfresh : s.threads n = ⟨.idle, []⟩ := hidle n le_rfl
  have hpc : s.pc n = .idle := by rw [pc, hfresh]
  have hfr : s.frames n = [] := by rw [frames, hfresh]
  let s₁ : State :=
    { (s.setThread n ⟨.idle, [⟨tail, .durable⟩]⟩).setPlace [tail] (.held n) with pendingTails := rest }
  have hstep : s.step c (.claimTail n) = some s₁ := by
    rw [step, htails]
    dsimp only
    rw [if_pos ⟨by rw [hfresh]; rfl, (h.healthy trivial).1⟩, hpc, hfr]
    rfl
  have hth : s₁.threads = update s.threads n ⟨.idle, [⟨tail, .durable⟩]⟩ := rfl
  refine advances_fresh (probeSafe_of_pc hsafe) hidle rfl hstep hth rfl (probeSafe_of_pc ?_) ?_
  · rw [pc_of_threads hth, ← hpc, update_eq_self]
    exact hsafe
  · have hrank : (⟨.idle, [⟨tail, .durable⟩]⟩ : Thread).rank = 17 := rfl
    have hafter : s₁.pendingTails = rest ∧ s₁.items = s.items ∧ s₁.unledRank = s.unledRank :=
      ⟨rfl, rfl, rfl⟩
    rw [hrank, hafter.1, hafter.2.1, hafter.2.2, htails, length_cons]
    omega

theorem eq_of_mem_holding {f : Frame} {k : ℕ} (hclean : f.phase.failed = false) (hk : k ∈ f.holding) :
    k = f.tail.id := by
  obtain ⟨tail, phase⟩ := f
  cases phase with
  | drop | failing => cases hclean
  | notify => cases hk
  | _ => exact mem_singleton.mp hk

/-- A tail waits for coverage only while an earlier one is in `pending_tails` or on top of a stack, not
published yet. -/
theorem cover_blocked (h : Inv c True s)
    (hfr : s.frames t = ⟨tail, .cover⟩ :: rest) (hcover : s.covered tail = false) :
    s.pendingTails ≠ [] ∨ ∃ u f rest', s.frames u = f :: rest' ∧ f.phase.reported = false := by
  have hheld : s.place tail.id = .held t := by
    rw [h.placed.mem_holding]
    show tail.id ∈ (⟨s.pc t, s.frames t⟩ : Thread).holding
    rw [hfr]
    simp [Thread.holding, Frame.holding]
  have happlied : tail.id < s.tailsApplied := h.placed.applied_of_place (by rw [hheld]; simp)
  obtain ⟨k, hk, hkpub⟩ : ∃ k < tail.id, k ∉ s.published := by
    simpa [covered] using hcover
  have hkopen : s.place k ≠ .finished := fun hfin => hkpub (h.published trivial k hfin)
  rcases h.placed.open_cases (hk.trans happlied) hkopen with hkpending | ⟨u, hu⟩
  · left
    intro hnil
    rw [hnil] at hkpending
    cases hkpending
  · right
    rcases mem_append.mp hu with hhand | hstack
    · obtain ⟨tail', htail', hid⟩ := mem_map.mp hhand
      have := h.fresh trivial u tail' (Option.mem_toList.mp htail')
      omega
    · obtain ⟨f, (hfu : f ∈ s.frames u), hin⟩ := mem_flatMap.mp hstack
      have hrept := h.reported trivial u f hfu
      have hid : k = f.tail.id := eq_of_mem_holding hrept.1 hin
      have hphase : f.phase.reported = false := by
        by_contra hrep
        rw [Bool.not_eq_false] at hrep
        exact hkpub (hid ▸ hrept.2 hrep)
      cases hcons : s.frames u with
      | nil =>
        rw [hcons] at hfu
        cases hfu
      | cons top rest' =>
        rw [hcons] at hfu
        rcases mem_cons.mp hfu with rfl | hlow
        · exact ⟨u, f, rest', hcons, hphase⟩
        · have hcov := h.stack u f (by rw [hcons]; exact hlow)
          rw [hcov] at hphase
          cases hphase

/-- While a thread is finishing a tail, some thread can go on. -/
theorem advances_tails (h : Inv c True s) (hsafe : Unguarded s) (hidle : Idle n s)
    (hqueue : s.queueLock = none) (hcommit : s.commitLock = none) (hfr : s.frames t ≠ []) :
    Advances c (n + 1) s := by
  obtain ⟨⟨tail, phase⟩, rest, htop⟩ := exists_cons_of_ne_nil hfr
  by_cases hready : phase = .cover → s.covered tail = true
  · exact advances_frame h hsafe (idle_succ hidle) hqueue hcommit htop hready
  · rw [Classical.not_imp, Bool.not_eq_true] at hready
    obtain ⟨rfl, hcover⟩ := hready
    rcases cover_blocked h htop hcover with hpend | ⟨u, f, rest', hu, hphase⟩
    · exact advances_pending h hsafe hidle hpend
    · refine advances_frame h hsafe (idle_succ hidle) hqueue hcommit hu fun hcov => ?_
      rw [hcov] at hphase
      cases hphase

/-! ### A checkpoint between two waves -/

/-- The state in which the otherwise idle thread `n` stands at `pc`. -/
def State.visit (s : State) (n : ℕ) (pc : Pc) (commitLock : Option ℕ) : State :=
  { s with threads := update s.threads n ⟨pc, []⟩, commitLock := commitLock }

theorem visit_idle (hfresh : s.threads n = ⟨.idle, []⟩) (hcommit : s.commitLock = none) :
    s.visit n .idle none = s := by
  rw [visit, ← hfresh, update_eq_self, ← hcommit]

theorem visit_threads : (s.visit n pc lock).threads n = ⟨pc, []⟩ := update_self ..

theorem visit_setPc : (s.visit n pc lock).setPc n pc' = s.visit n pc' lock := by
  rw [setPc, frames, visit_threads]
  simp only [visit, setThread, update_idem]

theorem visit_run {lock' : Option ℕ} (hrun : (s.visit n pc lock).run c n pc = some (s.visit n pc' lock')) :
    (s.visit n pc lock).step c (.run n) = some (s.visit n pc' lock') := by
  rw [State.step, State.frames, State.pc, visit_threads]
  exact hrun

theorem visit_safe (hsafe : Unguarded s) (hpc : ∀ waves, pc.probed waves = false) :
    ProbeSafe c (s.visit n pc lock) := by
  have hth : (s.visit n pc lock).threads = update s.threads n ⟨pc, []⟩ := rfl
  refine probeSafe_of_pc fun u => ?_
  rw [pc_of_threads hth]
  by_cases hun : u = n
  · rw [hun, update_self]
    exact hpc _
  · rw [update_of_ne hun]
    exact hsafe u

/-- With every tail finished, a client's checkpoint rotates the live segment. -/
theorem rotates (hsafe : Unguarded s) (hfresh : s.threads n = ⟨.idle, []⟩) (hwedged : s.wedged = false)
    (hcommit : s.commitLock = none) (hquiet : s.tailsApplied = s.tailsFinished) :
    (commitWave c).RunVia (CalmStep c) s { s with segmentBytes := 0 } := by
  have hheal : ¬ s.wedged = true := Bool.eq_false_iff.mp hwedged
  have hgo : ∀ {stage stage' : Claim} {lock lock' : Option ℕ},
      (s.visit n (.claim .client stage) lock).claim n .client stage =
        some (s.visit n (.claim .client stage') lock') →
      (commitWave c).RunVia (CalmStep c) (s.visit n (.claim .client stage) lock)
        (s.visit n (.claim .client stage') lock') :=
    fun hstep => run_of_step (visit_safe hsafe fun _ => rfl) rfl (visit_run hstep)
  have henter : (commitWave c).RunVia (CalmStep c) s (s.visit n (.claim .client .loadApplied) none) := by
    refine run_of_step (a := .enter n) (probeSafe_of_pc hsafe) rfl ?_
    have hidle : (s.visit n .idle none).setPc n (.claim .client .loadApplied) =
        s.visit n (.claim .client .loadApplied) none := visit_setPc
    rw [step, if_pos hfresh, ← hidle, visit_idle hfresh hcommit]
  have hload : (commitWave c).RunVia (CalmStep c) (s.visit n (.claim .client .loadApplied) none)
      (s.visit n (.claim .client (.loadFinished s.tailsApplied)) none) :=
    hgo (by rw [claim, visit_setPc]; rfl)
  have hpass : (commitWave c).RunVia (CalmStep c) (s.visit n (.claim .client (.loadFinished s.tailsApplied)) none)
      (s.visit n (.claim .client .lockCommit) none) :=
    hgo (by rw [claim, if_pos (show s.tailsApplied = (s.visit n _ _).tailsFinished from hquiet), visit_setPc])
  have hlock : (commitWave c).RunVia (CalmStep c) (s.visit n (.claim .client .lockCommit) none)
      (s.visit n (.claim .client .recheckApplied) (some n)) :=
    hgo (by rw [claim, if_pos (show (s.visit n _ none).commitLock = none from rfl), visit_setPc]; rfl)
  have hreload : (commitWave c).RunVia (CalmStep c) (s.visit n (.claim .client .recheckApplied) (some n))
      (s.visit n (.claim .client (.recheckFinished s.tailsApplied)) (some n)) :=
    hgo (by rw [claim, visit_setPc]; rfl)
  have hclaim : (commitWave c).RunVia (CalmStep c)
      (s.visit n (.claim .client (.recheckFinished s.tailsApplied)) (some n))
      (s.visit n (.claim .client .claimed) (some n)) :=
    hgo ((if_neg hheal).trans ((if_pos hquiet).trans (by rw [visit_setPc])))
  have hend : (commitWave c).RunVia (CalmStep c) (s.visit n (.claim .client .claimed) (some n))
      { s with segmentBytes := 0 } := by
    refine run_of_step (a := .endClaim n 0) (visit_safe hsafe fun _ => rfl) rfl ?_
    rw [step, pc, visit_threads]
    dsimp only
    rw [visit_setPc]
    exact congrArg (fun s : State => some { s with segmentBytes := 0 }) (visit_idle hfresh hcommit)
  exact ((((((henter.trans hload).trans hpass).trans hlock).trans hreload).trans hclaim).trans hend)

/-! ### The sequencer between two tails -/

/-- Every lock is free and no tail waits or is being finished. -/
structure Drained (s : State) : Prop where
  queueLock : s.queueLock = none
  commitLock : s.commitLock = none
  frames : ∀ t, s.frames t = []
  pendingTails : s.pendingTails = []

theorem Drained.not_wakeable (hd : Drained s) : ¬ s.wakeable := by
  rintro ⟨u, f, hf, _⟩
  rw [hd.frames u] at hf
  cases hf

section

variable (h : Inv c True s)
include h

/-- A tail that has not finished is in the sequencer's hands. -/
theorem Drained.open_in_hand (hd : Drained s) {k : ℕ} (hk : k < s.tailsApplied)
    (hopen : s.place k ≠ .finished) : ∃ u tail, (s.pc u).inHand = some tail ∧ tail.id = k := by
  rcases h.placed.open_cases hk hopen with hpend | ⟨u, hu⟩
  · rw [hd.pendingTails] at hpend
    cases hpend
  · change k ∈ (⟨s.pc u, s.frames u⟩ : Thread).holding at hu
    rw [hd.frames u] at hu
    simp only [Thread.holding, flatMap_nil, append_nil, mem_map, Option.mem_toList] at hu
    obtain ⟨tail, htail, hid⟩ := hu
    exact ⟨u, tail, htail, hid⟩

/-- With empty hands every applied tail has finished. -/
theorem Drained.quiet (hd : Drained s) (hhand : ∀ u, (s.pc u).inHand = none) :
    s.tailsApplied = s.tailsFinished := by
  refine (h.placed.finished_eq fun k hk => ?_).symm
  by_contra hopen
  obtain ⟨u, tail, htail, _⟩ := hd.open_in_hand h hk hopen
  rw [hhand u] at htail
  cases htail

/-- With one tail in hand every tail handed over has finished. -/
theorem Drained.handed_le (hd : Drained s) (hseq : (s.pc t).sequencing = true) (hhand : (s.pc t).inHand = some tail)
    (hcount : (s.pc t).uncounted = 1) : s.tailsHanded ≤ s.tailsFinished := by
  have hcounted := h.counted trivial
  rw [uncounted_of_owner (h.owned trivial) hseq, hcount] at hcounted
  have hsub : (Finset.range s.tailsApplied).erase tail.id ⊆ s.finishedTails := by
    intro k hk
    obtain ⟨hne, hk⟩ := Finset.mem_erase.mp hk
    refine Finset.mem_filter.mpr ⟨hk, ?_⟩
    by_contra hopen
    obtain ⟨u, tail', htail', hid⟩ := hd.open_in_hand h (Finset.mem_range.mp hk) hopen
    obtain rfl : u = t := (h.owned trivial).unique (sequencing_of_inHand htail') hseq
    rw [hhand] at htail'
    exact hne (by rw [← hid, Option.some.inj htail'])
  have hcard := Finset.card_le_card hsub
  have herase := Finset.pred_card_le_card_erase (s := Finset.range s.tailsApplied) (a := tail.id)
  rw [Finset.card_range] at herase
  rw [← h.placed.count] at hcard
  omega

/-- The sequencer's rotation with empty hands gets the commit lock. -/
theorem advances_periodic (hsafe : ProbeSafe c s) (hidle : Idle n s) (hd : Drained s)
    {tail : Option Tail} (hpc : s.pc t = .claim (.periodic own tail) stage) :
    Advances c n s := by
  have hseq : (s.pc t).sequencing = true := by rw [hpc]; rfl
  have hstage := h.stage trivial t ((h.owned trivial t).mp hseq)
  have hquiet : s.tailsApplied = s.tailsFinished := by
    refine hd.quiet h fun u => ?_
    cases hhand : (s.pc u).inHand with
    | none => rfl
    | some tail' =>
      obtain rfl : u = t := (h.owned trivial).unique (sequencing_of_inHand hhand) hseq
      rw [h.quiet u (by rw [hpc]; rfl)] at hhand
      cases hhand
  rw [hpc] at hstage
  cases stage with
  | loadApplied =>
    exact advances_claim h hsafe hidle hpc rfl rfl
  | loadFinished applied =>
    refine advances_claim h hsafe hidle hpc rfl rfl ?_
    rw [if_pos (hstage.trans hquiet)]
    simp [Pc.rank, rank]
  | lockQueue =>
    exact advances_claim h hsafe hidle hpc (if_pos hd.queueLock) rfl
  | parked => exact absurd hstage (by simp [StageOk, hquiet, hd.not_wakeable])
  | lockCommit =>
    exact advances_claim h hsafe hidle hpc (if_pos hd.commitLock) rfl
  | checkWedged | reloadApplied | reloadFinished | enterWait =>
    have := (h.queue t).mp (by rw [hpc]; rfl)
    rw [hd.queueLock] at this
    cases this
  | recheckApplied | recheckFinished | claimed =>
    have := (h.commit t).mp (by rw [hpc]; rfl)
    rw [hd.commitLock] at this
    cases this

/-- The capacity gate opens once every tail handed over has finished. -/
theorem advances_capacity (hsafe : ProbeSafe c s) (hidle : Idle n s) (hd : Drained s)
    {stage : Gate} (hpc : s.pc t = .gate own tail stage) :
    Advances c n s := by
  have hseq : (s.pc t).sequencing = true := by rw [hpc]; rfl
  have hstage := h.stage trivial t ((h.owned trivial t).mp hseq)
  have hle : s.tailsHanded ≤ s.tailsFinished := hd.handed_le h hseq (by rw [hpc]; rfl) (by rw [hpc]; rfl)
  rw [hpc] at hstage
  cases stage with
  | loadHanded =>
    exact advances_gate hsafe hidle hpc (hd.frames t) rfl rfl
  | loadFinished handed =>
    have hpass : handed - s.tailsFinished ≤ c.maxOutstanding := by
      rw [show handed = s.tailsHanded from hstage]
      omega
    refine advances_gate hsafe hidle hpc (hd.frames t) rfl rfl ?_ ?_
    · rw [if_pos hpass]
      simp [Pc.rank, Gate.rank]
    · rw [if_pos hpass]
      rfl
  | tryFinish =>
    exact advances_gate hsafe hidle hpc (hd.frames t) (if_pos (by simp [noTail, hd.pendingTails])) rfl
  | lockQueue =>
    exact advances_gate hsafe hidle hpc (hd.frames t) (if_pos hd.queueLock) rfl
  | parked =>
    rcases hstage with hfull | hwake
    · omega
    · exact absurd hwake hd.not_wakeable
  | checkWedged | reloadFinished | reloadHanded | enterWait =>
    have := (h.queue t).mp (by rw [hpc]; rfl)
    rw [hd.queueLock] at this
    cases this

end

/-- The sequencer takes a step that changes a queue, or who sequences. -/
theorem advances_lead (hsafe : ProbeSafe c s) (hidle : Idle n s) (hpc : s.pc t = pc) (hne : pc ≠ .idle)
    (hfr : s.frames t = []) (hrun : s.run c t pc = some s')
    (hth : s'.threads = update s.threads t ⟨pc', s.frames t⟩)
    (hnext : s'.nextItem = s.nextItem) (hsafe' : ProbeSafe c s')
    (hrank : pc'.rank + 20 * s'.pendingTails.length + 300 * s'.items.length + s'.unledRank <
      pc.rank + 20 * s.pendingTails.length + 300 * s.items.length + s.unledRank) : Advances c n s := by
  have ht : t < n := lt_of_busy hidle (busy_of_pc hpc hne)
  have hstep : s.step c (.run t) = some s' := by rw [step, if_pos hfr, hpc, hrun]
  refine advances_of_step hsafe rfl hstep hsafe' (idle_update hidle ht hth) ?_ hnext
  have hwork := work_update ht hth
  rw [rank_of_pc hpc, rank_thread] at hwork
  omega

/-- A wave is drained from the queue while the segment is within the bound. -/
theorem advances_wave (hsafe : ProbeSafe c s) (hidle : Idle n s) (hseq : s.sequencer = some t)
    (hunguarded : Unguarded s) (hpc : s.pc t = .drain own) (hfr : s.frames t = [])
    (hqueue : s.queueLock = none) (hitems : s.items ≠ [])
    (hbound : s.waves % 256 = 255 → c.exceeded s = false) : Advances c n s := by
  refine advances_lead hsafe hidle hpc (by simp) hfr ((if_pos hqueue).trans (if_neg hitems)) rfl rfl ?_ ?_
  · intro u hprobed
    rw [pc_of_threads (s := s) rfl] at hprobed
    by_cases hut : u = t
    · rw [hut, update_self] at hprobed
      exact hbound (of_decide_eq_true hprobed)
    · rw [update_of_ne hut] at hprobed
      exact absurd hprobed (Bool.eq_false_iff.mp (hunguarded u))
  · have hpos := length_pos_iff.mpr hitems
    have hmax := c.commitWaveMax_pos
    simp only [unledRank, setPc, setThread, Pc.rank, hseq, length_drop, reduceCtorEq,
      false_and, if_false]
    omega

section

variable (h : Inv c True s)
include h

section

variable (hsafe : ProbeSafe c s) (hidle : Idle n s)
include hsafe hidle

/-- The sequencer at the head of its loop drains the next wave. Where a periodic wave would find the
segment above the bound, a checkpoint comes first. -/
theorem advances_drain (hd : Drained s) (hpc : s.pc t = .drain own) : Advances c (n + 1) s := by
  have hsequencing : (s.pc t).sequencing = true := by rw [hpc]; rfl
  have hseq : s.sequencer = some t := (h.owned trivial t).mp hsequencing
  have hunguarded : Unguarded s := by
    intro u
    by_contra hprobed
    rw [Bool.not_eq_false] at hprobed
    obtain rfl : u = t := (h.owned trivial).unique (sequencing_of_probed hprobed) hsequencing
    rw [hpc] at hprobed
    cases hprobed
  by_cases hempty : s.items = []
  · refine advances_lead hsafe (idle_succ hidle) hpc (by simp) (hd.frames t)
      ((if_pos hd.queueLock).trans (if_pos hempty)) rfl rfl (probeSafe_update hsafe rfl fun hp => by cases hp) ?_
    simp [unledRank, hempty, setPc, setThread, Pc.rank]
  by_cases hover : s.waves % 256 = 255 ∧ c.exceeded s = true
  · have hquiet : s.tailsApplied = s.tailsFinished := by
      refine hd.quiet h fun u => ?_
      cases hhand : (s.pc u).inHand with
      | none => rfl
      | some tail =>
        obtain rfl : u = t := (h.owned trivial).unique (sequencing_of_inHand hhand) hsequencing
        rw [hpc] at hhand
        cases hhand
    have hrotated := rotates (c := c) hunguarded (hidle n le_rfl) (h.healthy trivial).1 hd.commitLock hquiet
    obtain ⟨s', hrun, hrest⟩ := advances_wave (s := { s with segmentBytes := 0 }) (probeSafe_of_empty (c := c) rfl)
        (idle_succ hidle) hseq hunguarded hpc (hd.frames t) hd.queueLock hempty fun _ => by simp [Config.exceeded]
    exact ⟨s', hrotated.trans hrun, hrest⟩
  · refine advances_wave hsafe (idle_succ hidle) hseq hunguarded hpc (hd.frames t) hd.queueLock hempty
      fun hlast => ?_
    rw [not_and, Bool.not_eq_true] at hover
    exact hover hlast

/-- The sequencer can go on: it waits for nobody. -/
theorem advances_sequencer (hd : Drained s) (hseq : s.sequencer = some t) : Advances c (n + 1) s := by
  have hidle' := idle_succ hidle
  have hheal : ¬ s.wedged = true := Bool.eq_false_iff.mp (h.healthy trivial).1
  have hsequencing := (h.owned trivial t).mpr hseq
  have hfr := hd.frames t
  cases hpc : s.pc t with
  | drain own => exact advances_drain h hsafe hidle hd hpc
  | lockCommit own batch =>
    exact advances_window h hsafe hidle' hd.commitLock (.inl ⟨own, batch, hpc⟩)
  | count own tail =>
    exact advances_window h hsafe hidle' hd.commitLock (.inr (.inl ⟨own, tail, hpc⟩))
  | probe own tail =>
    exact advances_window h hsafe hidle' hd.commitLock (.inr (.inr ⟨own, tail, hpc⟩))
  | claim caller stage =>
    rw [hpc] at hsequencing
    cases caller with
    | periodic own tail => exact advances_periodic h hsafe hidle' hd hpc
    | client | stepDown own => cases hsequencing
  | gate own tail stage => exact advances_capacity h hsafe hidle' hd hpc
  | hand own tail =>
    refine advances_lead hsafe hidle' hpc (by simp) hfr (if_neg hheal) rfl rfl
      (probeSafe_update hsafe rfl fun hp => by cases hp) ?_
    simp only [unledRank, setPc, setThread, setPlace, Pc.rank, hseq,
      length_append, length_singleton, reduceCtorEq, false_and, if_false]
    omega
  | countHanded own =>
    exact advances_run hsafe hidle' hpc hfr rfl rfl fun hp => by cases hp
  | wake own =>
    have ht : t < n + 1 := lt_of_busy hidle' (busy_of_pc hpc (by simp))
    have hstep : s.step c (.run t) = some (s.notifyAll.setPc t (.checkOwn own)) := by
      rw [step, if_pos hfr, hpc]
      exact if_pos hd.queueLock
    refine advances_notifyAll hsafe hidle' ht hstep rfl (by rw [hpc]; rfl) ?_ fun hp => by cases hp
    rw [rank_of_pc hpc, rank_thread]
    exact Nat.add_lt_add_right (by simp [Pc.rank]) _
  | checkOwn own =>
    refine advances_run hsafe hidle' hpc hfr rfl rfl ?_ ?_
    · split <;> exact fun hp => by cases hp
    · split <;> simp [Pc.rank]
  | stepDown own =>
    refine advances_lead hsafe hidle' hpc (by simp) hfr (if_pos hd.queueLock) rfl rfl
      (probeSafe_update hsafe rfl fun hp => by cases hp) ?_
    simp only [unledRank, setPc, setThread, Pc.rank, hseq, reduceCtorEq, false_and, if_false]
    split <;> omega
  | abandon own tail =>
    have hstage := h.stage trivial t hseq
    rw [hpc] at hstage
    exact hstage.elim
  | sequence | release =>
    have := (h.commit t).mp (by rw [hpc]; rfl)
    rw [hd.commitLock] at this
    cases this
  | _ =>
    rw [hpc] at hsequencing
    cases hsequencing

/-- Somebody comes to drive the queue. -/
theorem advances_unled (hqueue : s.queueLock = none) (hseq : s.sequencer = none) (hitems : s.items ≠ []) :
    Advances c (n + 1) s := by
  have hfresh : s.threads n = ⟨.idle, []⟩ := hidle n le_rfl
  have hfr : s.frames n = [] := by rw [frames, hfresh]
  let s₁ : State := { s.setPc n (.drain none) with sequencer := some n }
  have hheal := h.healthy trivial
  have hstep : s.step c (.drive n) = some s₁ :=
    if_pos ⟨hfresh, hqueue, hheal.1, hheal.2, hseq, hitems⟩
  have hth : s₁.threads = update s.threads n ⟨.drain none, s.frames n⟩ := rfl
  refine advances_fresh hsafe hidle rfl hstep hth rfl
    (probeSafe_update hsafe hth fun hp => by cases hp) ?_
  have hafter : s₁.pendingTails = s.pendingTails ∧ s₁.items = s.items ∧ s₁.unledRank = 0 :=
    ⟨rfl, rfl, rfl⟩
  have hbefore : s.unledRank = 60 := if_pos ⟨hseq, hitems⟩
  have hrank : (⟨.drain none, []⟩ : Thread).rank = 50 := rfl
  rw [hafter.1, hafter.2.1, hafter.2.2, hbefore, hfr, hrank]
  omega

end

variable {i : ℕ}

/-- With nobody at work and the queue empty every item has its outcome. -/
theorem Drained.resolved (hd : Drained s) (hseq : s.sequencer = none)
    (hitems : s.items = []) (hi : i < s.nextItem) : i ∈ s.resolved := by
  have hnobody : ∀ u, (s.pc u).sequencing = false := by
    intro u
    by_contra hu
    have := (h.owned trivial u).mp (by simpa using hu)
    rw [hseq] at this
    cases this
  rcases h.items i hi with hres | hqueued | ⟨tail, htail, _⟩ | ⟨u, hu⟩
  · exact hres
  · rw [hitems] at hqueued
    cases hqueued
  · rw [hd.pendingTails] at htail
    cases htail
  · have hu' := hnobody u
    rcases carries_iff.mp hu with hbatch | ⟨tail, htail, _⟩ | ⟨f, hf, _⟩
    · change i ∈ (s.pc u).batch at hbatch
      cases hpc : s.pc u with
      | lockCommit | sequence =>
        rw [hpc] at hu'
        cases hu'
      | _ =>
        rw [hpc] at hbatch
        cases hbatch
    · have hone : (s.pc u).sequencing = true := sequencing_of_inHand htail
      rw [hone] at hu'
      cases hu'
    · change f ∈ s.frames u at hf
      rw [hd.frames u] at hf
      cases hf

/-- The sequencer in the guarded stretch, with the commit lock free. -/
theorem window_of_probed (hcommit : s.commitLock = none) (hprobed : (s.pc t).probed s.waves = true) :
    (∃ own batch, s.pc t = .lockCommit own batch) ∨ (∃ own tail, s.pc t = .count own tail) ∨
      ∃ own tail, s.pc t = .probe own tail := by
  have hfree : (s.pc t).holdsCommit = false := by
    by_contra hholds
    have := (h.commit t).mp (by simpa using hholds)
    rw [hcommit] at this
    cases this
  cases hpc : s.pc t with
  | lockCommit own batch => exact .inl ⟨own, batch, rfl⟩
  | count own tail => exact .inr (.inl ⟨own, tail, rfl⟩)
  | probe own tail => exact .inr (.inr ⟨own, tail, rfl⟩)
  | sequence | release =>
    rw [hpc] at hfree
    cases hfree
  | _ =>
    rw [hpc] at hprobed
    cases hprobed

/-- **Progress.**  While an item waits for its outcome, some of the work can be done. -/
theorem advances (hsafe : ProbeSafe c s) (hidle : Idle n s)
    (hi : i < s.nextItem) (hopen : i ∉ s.resolved) : Advances c (n + 1) s := by
  cases hqueue : s.queueLock with
  | some u => exact advances_queue h hsafe (idle_succ hidle) hqueue
  | none =>
  cases hcommit : s.commitLock with
  | some u => exact advances_commit h hsafe (idle_succ hidle) hcommit
  | none =>
  by_cases hguarded : ∃ u, (s.pc u).probed s.waves = true
  · obtain ⟨u, hprobed⟩ := hguarded
    exact advances_window h hsafe (idle_succ hidle) hcommit (window_of_probed h hcommit hprobed)
  have hunguarded : Unguarded s := by
    intro u
    by_contra hprobed
    exact hguarded ⟨u, by simpa using hprobed⟩
  by_cases hfr : ∃ u, s.frames u ≠ []
  · obtain ⟨u, hu⟩ := hfr
    exact advances_tails h hunguarded hidle hqueue hcommit hu
  by_cases hpend : s.pendingTails ≠ []
  · exact advances_pending h hunguarded hidle hpend
  have hd : Drained s := ⟨hqueue, hcommit, fun u => by_contra fun hu => hfr ⟨u, hu⟩, not_not.mp hpend⟩
  cases hseq : s.sequencer with
  | some u => exact advances_sequencer h hsafe hidle hd hseq
  | none =>
    by_cases hitems : s.items = []
    · exact absurd (hd.resolved h hseq hitems hi) hopen
    · exact advances_unled h hsafe hidle hqueue hseq hitems

/-- An item that was enqueued can receive its outcome: by induction on the work that is left. -/
theorem outcome_reachable (hsafe : ProbeSafe c s) (hidle : Idle n s)
    (hi : i < s.nextItem) : ∃ s', (commitWave c).RunVia (CalmStep c) s s' ∧ i ∈ s'.resolved := by
  induction hwork : s.work n using Nat.strong_induction_on generalizing s n with
  | _ w ih =>
    by_cases hopen : i ∈ s.resolved
    · exact ⟨s, Relation.ReflTransGen.refl, hopen⟩
    · obtain ⟨s₁, hrun, hsafe₁, hidle₁, hlt, hnext⟩ := advances h hsafe hidle hi hopen
      rw [work_succ hidle, hwork] at hlt
      have h₁ : Inv c True s₁ :=
        hrun.preserves (P := Inv c True) (fun _ _ _ hs hok hstep => inv_of_calmStep hs hok hstep) h
      obtain ⟨s', hrun', hres⟩ := ih _ hlt h₁ hsafe₁ hidle₁ (by rw [hnext]; exact hi) rfl
      exact ⟨s', Relation.ReflTransGen.trans hrun hrun', hres⟩

end

end

/-- **The commit wave never blocks on itself**, as long as no periodic wave meets a segment above the
checkpoint bound. In every state that such a run reaches, whoever waits for quiescence waits for tails
that are in `pending_tails` or held by another thread that does not wait; and if no I/O failed, every
item that was enqueued can still receive its outcome. -/
theorem commitWave_never_blocks_on_itself (c : Config) (s : State) :
    ((commitWave c).ReachableVia (SafeStep c) s → s.tailsFinished = s.finishedTails.card ∧
      ∀ t, (s.pc t).waitsForQuiescence = true → ∀ k < s.tailsApplied, k ∉ s.finishedTails →
        k ∈ s.pendingTails.map Tail.id ∨
          ∃ u, u ≠ t ∧ k ∈ (s.threads u).holding ∧ (s.pc u).waitsForQuiescence = false) ∧
    ((commitWave c).ReachableVia (CalmStep c) s → ProbeSafe c s →
      ∀ i < s.nextItem, ∃ s', (commitWave c).RunVia (CalmStep c) s s' ∧ i ∈ s'.resolved) := by
  constructor
  · intro hreach
    have h := inv_of_safe hreach
    refine ⟨h.placed.count, fun t ht k hk hopen => open_tail_elsewhere h ht hk fun hfin => ?_⟩
    exact hopen (Finset.mem_filter.mpr ⟨Finset.mem_range.mpr hk, hfin⟩)
  · intro hreach hsafe i hi
    have h := inv_of_calm hreach
    obtain ⟨n, hidle⟩ := h.support
    exact outcome_reachable h hsafe hidle hi

/-- Waves of one item. -/
def smallWaves (checkpointBytes : ℕ) : Config where
  commitWaveMax := 1
  commitWaveMax_pos := by decide
  maxOutstanding := 7
  checkpointBytes

/-- A segment within its bound makes every step without an I/O failure a calm one. -/
theorem calmStep_of_within {a : Action} (h : c.exceeded s = false ∧ a.failure = false) : CalmStep c s a :=
  ⟨fun _ _ => h.1, h.2⟩

/-- A client waits for quiescence while the sequencer hands over the tail of the 256th wave, which found
the segment within its bound. -/
theorem client_waits_for_handed_tail : ∃ s, (commitWave (smallWaves 64)).ReachableVia (CalmStep (smallWaves 64)) s ∧
      (s.pc 1).waitsForQuiescence = true ∧ 0 < s.tailsApplied ∧ 0 ∉ s.resolved ∧
      (0 ∈ s.pendingTails.map Tail.id ∨
        ∃ u, u ≠ 1 ∧ 0 ∈ (s.threads u).holding ∧ (s.pc u).waitsForQuiescence = false) ∧
      ∃ s', (commitWave (smallWaves 64)).RunVia (CalmStep (smallWaves 64)) s s' ∧ 0 ∈ s'.resolved := by
  obtain ⟨s, ⟨s₀, hinit, hrun⟩, htest⟩ :=
    TransitionSystem.exists_reachable_of_runVia (T := commitWave (smallWaves 64))
      (fun s a => (smallWaves 64).exceeded s = false ∧ a.failure = false)
      [.enqueue 0, .run 0, .run 0, .run 0, .settle 0 [0], .run 0, .run 0, .run 0, .run 0, .run 0, .run 0,
        .enter 1, .run 1, .run 1]
      ⟨255, 37, rfl⟩
      (fun s => decide ((s.pc 1).waitsForQuiescence = true ∧ 0 < s.tailsApplied ∧ 0 ∉ s.finishedTails ∧
        0 ∉ s.resolved ∧ 0 < s.nextItem ∧ (smallWaves 64).exceeded s = false)) (by decide)
  obtain ⟨hwaits, happlied, hopen, hunresolved, hnext, hwithin⟩ := of_decide_eq_true htest
  have hcalm := hrun.mono fun _ _ => calmStep_of_within
  obtain ⟨hsafety, hprogress⟩ := commitWave_never_blocks_on_itself (smallWaves 64) s
  have hsafe := hsafety ⟨s₀, hinit, hcalm.mono fun _ _ hok => hok.1⟩
  exact ⟨s, ⟨s₀, hinit, hcalm⟩, hwaits, happlied, hunresolved, hsafe.2 1 hwaits 0 happlied hopen,
    hprogress ⟨s₀, hinit, hcalm⟩ (fun _ _ => hwithin) 0 hnext⟩

/-- The 256th wave of the process, with the segment (its magic and one record of 27 bytes) above the bound:
the sequencer's own rotation waits for the tail that the sequencer has in its hands, and nobody else can
finish it. -/
theorem rotation_waits_for_its_own_tail : ∃ s, (commitWave (smallWaves 1)).Reachable s ∧
      s.pc 0 = .claim (.periodic (some 0) (some ⟨0, [0]⟩)) .parked ∧
      (s.pc 0).waitsForQuiescence = true ∧ 0 < s.tailsApplied ∧ 0 ∉ s.finishedTails ∧
      ¬ (0 ∈ s.pendingTails.map Tail.id ∨
        ∃ u, u ≠ 0 ∧ 0 ∈ (s.threads u).holding ∧ (s.pc u).waitsForQuiescence = false) := by
  have hrun : ∃ s, (commitWave (smallWaves 1)).runVia (fun _ _ => True) (.initial 255 37)
        [.enqueue 0, .run 0, .run 0, .run 0, .settle 0 [0], .run 0, .run 0, .run 0, .run 0, .run 0, .run 0,
          .run 0, .run 0, .run 0, .run 0] = some s ∧
      s.pc 0 = .claim (.periodic (some 0) (some ⟨0, [0]⟩)) .parked ∧ s.tailsApplied = 1 ∧
      s.place 0 = .held 0 ∧ s.pendingTails = [] ∧ ∀ u, s.threads (u + 1) = ⟨.idle, []⟩ :=
    ⟨_, rfl, rfl, rfl, rfl, rfl, fun _ => rfl⟩
  obtain ⟨s, hrun, hpc, happlied, hplace, hpend, hothers⟩ := hrun
  refine ⟨s, ⟨_, ⟨255, 37, rfl⟩, TransitionSystem.runVia_sound hrun⟩, hpc, by rw [hpc]; rfl, by omega, ?_,
    ?_⟩
  · intro hfinished
    rw [finishedTails, Finset.mem_filter, hplace] at hfinished
    cases hfinished.2
  · rintro (hin | ⟨u, hu, hholds, _⟩)
    · rw [hpend] at hin
      cases hin
    · obtain ⟨m, rfl⟩ := Nat.exists_eq_succ_of_ne_zero hu
      rw [hothers m] at hholds
      cases hholds

/-- **No item is lost**, also while and after a failure drains the commit path. -/
theorem no_item_lost (c : Config) (s : State) (h : (commitWave c).ReachableVia (SafeStep c) s) :
    (∀ i < s.nextItem, s.Located i) ∧
    ∀ t u, (s.queueWedged = false → (s.pc t).sequencing = true → (s.pc u).sequencing = true → t = u) ∧
      ((s.pc t).holdsCommit = true → (s.pc u).holdsCommit = true → t = u) ∧
      ∀ k ∈ (s.threads t).holding, k ∈ (s.threads u).holding → t = u := by
  have hinv := inv_of_safe h
  refine ⟨hinv.items, fun t u => ⟨fun hw => (hinv.sequencer hw).unique, hinv.commit.unique, fun k ht hu => ?_⟩⟩
  have hplace := (hinv.placed.mem_holding.mpr ht).symm.trans (hinv.placed.mem_holding.mpr hu)
  exact Place.held.inj hplace

/-- The tail of the first wave fails while a second item is queued: its thread has taken that item out of
the queue, and neither has its outcome yet. -/
theorem no_item_lost_failing : ∃ s, (commitWave (smallWaves 64)).ReachableVia (SafeStep (smallWaves 64)) s ∧
    s.queueWedged = true ∧ s.nextItem = 2 ∧ s.items = [] ∧ s.resolved = ∅ ∧ s.Located 0 ∧ s.Located 1 := by
  obtain ⟨s, ⟨s₀, hinit, hrun⟩, htest⟩ :=
    TransitionSystem.exists_reachable_of_runVia (T := commitWave (smallWaves 64))
      (fun s _ => (smallWaves 64).exceeded s = false)
      [.enqueue 0, .run 0, .run 0, .run 0, .settle 0 [0], .run 0, .run 0, .run 0, .run 0, .run 0,
        .enqueue 1, .claimTail 2, .fail 2, .finish 2]
      ⟨0, 37, rfl⟩
      (fun s => decide (s.queueWedged = true ∧ s.nextItem = 2 ∧ s.items = [] ∧ s.resolved = ∅)) (by decide)
  obtain ⟨hwedged, hnext, hitems, hresolved⟩ := of_decide_eq_true htest
  have hreach : (commitWave (smallWaves 64)).ReachableVia (SafeStep (smallWaves 64)) s :=
    ⟨s₀, hinit, hrun.mono fun _ _ hwithin _ _ => hwithin⟩
  have hloc := (no_item_lost (smallWaves 64) s hreach).1
  exact ⟨s, hreach, hwedged, hnext, hitems, hresolved, hloc 0 (by omega), hloc 1 (by omega)⟩

end ThunderboltDb.Engine.CommitWave
