import ThunderboltDb.Engine.CommitWaveInvariant

/-!
# The commit wave: every step keeps the invariant

One lemma for each kind of step: the stages of a claim and of the capacity gate, the steps that move a
tail (settling a wave, the handoff, claiming, finishing), the drain of a failed commit path, and the rest
of the sequencer's loop. `inv_step` puts them together.

`ProbeSafe` keeps the periodic probe from rotating while a tail is in hand. Without it a sequencer waits
for its own tail, and the invariant's `quiet` fails.
-/

namespace ThunderboltDb.Engine.CommitWave

open Lib Function List Option State

variable {caller : Caller} {stage : Claim} {pc : Pc} {own : Option ℕ} {tail : Tail} {rest : List Frame}

section

variable {c : Config} {calm : Prop} {s s' : State} {t : ℕ} {stage' : Claim} {pc' : Pc}

/-! ### Steps of a thread that finishes no tail -/

theorem sequencing_claim : (Pc.claim caller stage').sequencing = (Pc.claim caller stage).sequencing := by
  cases caller <;> rfl

theorem inHand_claim : (Pc.claim caller stage').inHand = (Pc.claim caller stage).inHand := by
  cases caller <;> rfl

theorem uncounted_claim : (Pc.claim caller stage').uncounted = (Pc.claim caller stage).uncounted := by
  cases caller <;> rfl

section

variable (h : Inv c calm s)
include h

section

variable (hpc : s.pc t = .claim caller stage) (hfr : s.frames t = [])
include hpc hfr

/-- A claimant goes on to its next stage. -/
theorem Inv.moveClaim {queueLock commitLock : Option ℕ}
    (hstage : calm → s.sequencer = some t → StageOk c s (.claim caller stage') := by exact fun _ _ => trivial)
    (hq : OwnerStep t (Pc.claim caller stage).holdsQueue (Pc.claim caller stage').holdsQueue s.queueLock
      queueLock := by exact .keep)
    (hc : OwnerStep t (Pc.claim caller stage).holdsCommit (Pc.claim caller stage').holdsCommit
      s.commitLock commitLock := by exact .keep) :
    Inv c calm { s.setPc t (.claim caller stage') with queueLock := queueLock
                                                       commitLock := commitLock } := by
  have hseq : (Pc.claim caller stage').sequencing = (Pc.claim caller stage).sequencing := sequencing_claim
  have hhand : (Pc.claim caller stage').inHand = (Pc.claim caller stage).inHand := inHand_claim
  have hquiet := h.quiet t (by rw [hpc]; rfl)
  rw [hpc, ← hhand] at hquiet
  refine h.moveKeep hpc hq hc ?_ (.inl hfr) (fun _ => hquiet) hhand uncounted_claim rfl
    fun hcalm hrole => hstage hcalm ?_
  · rw [hseq]
    exact .keep
  · rw [← h.owned hcalm t, hpc, ← hseq]
    exact hrole

/-- A claimant returns to its caller, from a stage that holds one of the locks. -/
theorem Inv.moveResume {queueLock commitLock : Option ℕ} {segmentBytes : ℕ}
    (hq : OwnerStep t (Pc.claim caller stage).holdsQueue false s.queueLock queueLock)
    (hc : OwnerStep t (Pc.claim caller stage).holdsCommit false s.commitLock commitLock) :
    Inv c calm { s.setPc t caller.resume with queueLock := queueLock, commitLock := commitLock,
                                              segmentBytes := segmentBytes } := by
  have hnone := h.quiet t (by rw [hpc]; rfl)
  rw [hpc] at hnone
  cases caller with
  | client =>
    exact h.moveKeep hpc hq hc .keep (.inl hfr) (fun _ => rfl) rfl rfl rfl
      fun _ hrole => by cases hrole
  | stepDown own =>
    exact h.moveKeep hpc hq hc .keep (.inl hfr) (fun _ => rfl) rfl rfl
      rfl fun _ hrole => by cases hrole
  | periodic own tail =>
    have htail : tail = none := hnone
    subst htail
    exact h.moveKeep hpc hq hc .keep (.inl hfr) (fun _ => rfl) rfl rfl rfl
      fun _ _ => trivial

/-- Every stage of a checkpoint claim. -/
theorem inv_claim (hstep : s.claim t caller stage = some s') : Inv c calm s' := by
  have hold : calm → s.sequencer = some t → StageOk c s (.claim caller stage) := by
    intro hcalm hrole
    rw [← hpc]
    exact h.stage hcalm t hrole
  cases stage with
  | loadApplied | reloadApplied =>
    cases hstep
    exact h.moveClaim hpc hfr fun _ _ => rfl
  | loadFinished applied =>
    cases hstep
    by_cases heq : applied = s.tailsFinished
    · rw [if_pos heq]
      refine h.moveClaim hpc hfr fun hcalm hrole => ?_
      have happlied : applied = s.tailsApplied := hold hcalm hrole
      show s.tailsApplied = s.tailsFinished
      omega
    · rw [if_neg heq]
      exact h.moveClaim hpc hfr
  | lockQueue =>
    obtain ⟨hfree, rfl⟩ := ite_some_none_eq_some.mp hstep
    exact h.moveClaim hpc hfr (fun _ _ => trivial) (.acquire hfree)
  | checkWedged =>
    rw [claim] at hstep
    split at hstep <;> cases hstep
    · exact h.moveResume hpc hfr .release .keep
    · exact h.moveClaim hpc hfr
  | reloadFinished applied =>
    rw [claim] at hstep
    split at hstep <;> rename_i heq <;> cases hstep
    · refine h.moveClaim hpc hfr (fun hcalm hrole => ?_) .release
      have happlied : applied = s.tailsApplied := hold hcalm hrole
      show s.tailsApplied = s.tailsFinished
      omega
    · refine h.moveClaim hpc hfr fun hcalm hrole => ?_
      have happlied : applied = s.tailsApplied := hold hcalm hrole
      exact .inl (by omega)
  | enterWait =>
    cases hstep
    exact h.moveClaim hpc hfr hold .release
  | parked | claimed => cases hstep
  | lockCommit =>
    obtain ⟨hfree, rfl⟩ := ite_some_none_eq_some.mp hstep
    exact h.moveClaim hpc hfr hold .keep (.acquire hfree)
  | recheckApplied =>
    cases hstep
    exact h.moveClaim hpc hfr fun hcalm hrole => ⟨rfl, hold hcalm hrole⟩
  | recheckFinished applied =>
    rw [claim] at hstep
    split at hstep
    · cases hstep
      exact h.moveResume hpc hfr .keep .release
    · split at hstep <;> cases hstep
      · exact h.moveClaim hpc hfr fun hcalm hrole => (hold hcalm hrole).2
      · exact h.moveClaim hpc hfr (fun _ _ => trivial) .keep .release

end

/-- A sequencer goes on to a point with the same tail in hand. -/
theorem Inv.moveSequencer (hpc : s.pc t = pc)
    (hfr : s.frames t = []) {queueLock commitLock : Option ℕ} {waves : ℕ}
    (hq : OwnerStep t pc.holdsQueue pc'.holdsQueue s.queueLock queueLock := by exact .keep)
    (hc : OwnerStep t pc.holdsCommit pc'.holdsCommit s.commitLock commitLock := by exact .keep)
    (hstage : calm → StageOk c s pc' := by exact fun _ => trivial)
    (hrole : pc.sequencing = true := by rfl) (hrole' : pc'.sequencing = true := by rfl)
    (hhand : pc'.inHand = pc.inHand := by rfl) (hcount : pc'.uncounted = pc.uncounted := by rfl)
    (hbatch : pc'.batch = pc.batch := by rfl) (hquiet : pc'.claiming = false := by rfl) :
    Inv c calm { s.setPc t pc' with queueLock := queueLock, commitLock := commitLock
                                    waves := waves } := by
  refine h.moveKeep hpc hq hc ?_ (.inl hfr) (fun hclaim => ?_) hhand hcount hbatch
    fun hcalm _ => hstage hcalm
  · rw [hrole, hrole']
    exact .keep
  · rw [hquiet] at hclaim
    cases hclaim

/-- Every stage of the capacity gate. -/
theorem inv_gate {stage : Gate} (hpc : s.pc t = .gate own tail stage) (hfr : s.frames t = [])
    (hstep : s.gate c t own tail stage = some s') : Inv c calm s' := by
  have hold : calm → StageOk c s (.gate own tail stage) := by
    intro hcalm
    have hstage := h.stage hcalm t ((h.owned hcalm t).mp (by rw [hpc]; rfl))
    rwa [hpc] at hstage
  cases stage with
  | loadHanded =>
    cases hstep
    exact h.moveSequencer hpc hfr .keep .keep fun _ => rfl
  | loadFinished handed =>
    cases hstep
    by_cases hpass : handed - s.tailsFinished ≤ c.maxOutstanding
    · rw [if_pos hpass]
      exact h.moveSequencer hpc hfr
    · rw [if_neg hpass]
      exact h.moveSequencer hpc hfr
  | tryFinish =>
    obtain ⟨_, rfl⟩ := ite_some_none_eq_some.mp hstep
    exact h.moveSequencer hpc hfr
  | lockQueue =>
    obtain ⟨hfree, rfl⟩ := ite_some_none_eq_some.mp hstep
    exact h.moveSequencer hpc hfr (.acquire hfree)
  | checkWedged =>
    rw [gate] at hstep
    split at hstep <;> cases hstep
    · exact h.moveSequencer hpc hfr .release
    · exact h.moveSequencer hpc hfr
  | reloadFinished =>
    cases hstep
    exact h.moveSequencer hpc hfr .keep .keep fun _ => .inl rfl
  | reloadHanded finished =>
    rw [gate] at hstep
    split at hstep <;> rename_i hpass <;> cases hstep
    · exact h.moveSequencer hpc hfr .release
    · refine h.moveSequencer hpc hfr .keep .keep fun hcalm => ?_
      -- a tail that finished since the load has its notification ahead
      rcases hold hcalm with heq | hwake
      · exact .inl (by omega)
      · exact .inr hwake
  | enterWait =>
    cases hstep
    exact h.moveSequencer hpc hfr .release .keep hold
  | parked => cases hstep

end

/-- While a sequencer works on a wave that the periodic probe ends, the segment is within the bound. -/
def ProbeSafe (c : Config) (s : State) : Prop :=
  ∀ t, (s.pc t).probed s.waves = true → c.exceeded s = false

/-! ### Steps that move a tail -/

variable {u : ℕ} {p : Place}

theorem Inv.no_other (h : Inv c calm s) (hcalm : calm) (ht : (s.pc t).sequencing = true) (hu : u ≠ t)
    (hrole : (s.pc u).sequencing = true) : False :=
  hu ((h.owned hcalm).unique hrole ht)

section

variable {th : Thread} (hth : s'.threads = update s.threads t th)
include hth

/-- A place whose tails another thread's step does not touch. -/
theorem idsAt_of_ne (hu : u ≠ t) : s'.idsAt (.held u) = s.idsAt (.held u) := by
  rw [idsAt, idsAt, hth, update_of_ne hu]

/-- A step that leaves `pending_tails` touches only the moving thread's tails. -/
theorem idsAt_elsewhere (hpend : s'.pendingTails = s.pendingTails) (hp : p ≠ .held t) :
    s'.idsAt p = s.idsAt p := by
  cases p with
  | held u => exact idsAt_of_ne hth fun hu => hp (by rw [hu])
  | pending => rw [idsAt, idsAt, hpend]
  | unborn | finished => rfl

theorem idsAt_self : s'.idsAt (.held t) = th.holding := by
  rw [idsAt, hth, update_self]

end

variable {frames : List Frame} {th : Thread}

theorem holding_inHand (h : pc.inHand = some tail) : (⟨pc, frames⟩ : Thread).holding =
      tail.id :: frames.flatMap Frame.holding := by
  rw [Thread.holding, h]
  rfl

theorem holding_empty (h : pc.inHand = none) :
    (⟨pc, frames⟩ : Thread).holding = frames.flatMap Frame.holding := by
  rw [Thread.holding, h]
  rfl

theorem Inv.place_inHand (h : Inv c calm s) (hhand : (s.pc t).inHand = some tail) : s.place tail.id = .held t := by
  refine h.placed.mem_holding.mpr ?_
  show tail.id ∈ (⟨s.pc t, s.frames t⟩ : Thread).holding
  rw [holding_inHand hhand]
  exact mem_cons_self

/-- The sequencer changes its tail or a counter: nobody else's stage depends on it. -/
theorem Inv.updateSequencer (h : Inv c calm s) (hpc : s.pc t = pc)
    (hfr : s.frames t = []) (hrole : pc.sequencing = true) (hrole' : pc'.sequencing = true)
    (hth : s'.threads = update s.threads t ⟨pc', s.frames t⟩) (hplaced : Placed s')
    (hq : OwnerStep t pc.holdsQueue pc'.holdsQueue s.queueLock s'.queueLock)
    (hc : OwnerStep t pc.holdsCommit pc'.holdsCommit s.commitLock s'.commitLock)
    (hseq : s'.sequencer = s.sequencer) (hclaim : pc'.claiming = false)
    (hfresh : ∀ tail ∈ pc'.inHand, tail.id + 1 = s'.tailsApplied)
    (hitems : ∀ i < s'.nextItem, s'.Located i)
    (hwedged : s'.wedged = s.wedged ∧ s'.queueWedged = s.queueWedged)
    (hcounted : calm → s.tailsHanded + pc.uncounted = s.tailsApplied →
      s'.tailsHanded + pc'.uncounted = s'.tailsApplied)
    (hstage : StageOk c s' pc') (hpub : s'.published = s.published)
    (hfin : calm → ∀ k, s'.place k = .finished → s.place k = .finished) : Inv c calm s' := by
  subst hpc
  have hs : OwnerStep t (s.pc t).sequencing pc'.sequencing s.sequencer s'.sequencer := by
    rw [hrole, hrole', hseq]
    exact .keep
  have hother : calm → ∀ u, u ≠ t → (s.pc u).sequencing = true → False := fun hcalm u hu =>
    h.no_other hcalm hrole hu
  have hself : s'.pc t = pc' := by rw [pc_of_threads hth, update_self]
  refine h.change hth hplaced hq hc (fun hq' => ⟨hwedged.2 ▸ hq', hs⟩) (.inl hfr) (fun hcl => ?_)
    hitems (h.stack t) ?_
    (fun hcalm => h.fresh_update hth hcalm hfresh fun ⟨u, hu, hr⟩ => (hother hcalm u hu hr).elim)
    (fun hcalm => ?_)
    (fun hcalm => h.stage_update hth hcalm hs (fun _ => hstage) fun u hu hr => (hother hcalm u hu hr).elim)
    (fun hcalm k hk => ?_) ?_ ?_
  · rw [show (⟨pc', s.frames t⟩ : Thread).pc.claiming = false from hclaim] at hcl
    cases hcl
  · rw [hwedged.1, hwedged.2]
    exact h.healthy
  · have hold := h.counted hcalm
    rw [uncounted_of_owner (h.owned hcalm) hrole] at hold
    rw [uncounted, hseq, (h.owned hcalm t).mp hrole]
    show s'.tailsHanded + (s'.pc t).uncounted = s'.tailsApplied
    rw [hself]
    exact hcounted hcalm hold
  · rw [hpub]
    exact h.published hcalm k (hfin hcalm k hk)
  · rw [hpub]
    exact fun hcalm => h.reported hcalm t
  · rw [hpub]

/-- A thread that finishes no tail lets go of its batch and of the tail in its hand. -/
theorem Inv.located_letGo (h : Inv c calm s) (hpc : s.pc t = pc) (hfr : s.frames t = [])
    (hth : s'.threads = update s.threads t th)
    (hqueue : s'.items = s.items ∧ s'.nextItem = s.nextItem)
    (hpend : ∀ tail ∈ s.pendingTails, tail ∈ s'.pendingTails) (hres : s.resolved ⊆ s'.resolved)
    (hbatch : ∀ i ∈ pc.batch, s'.Located i)
    (hhand : ∀ tail ∈ pc.inHand, ∀ i ∈ tail.items, s'.Located i) : ∀ i < s'.nextItem, s'.Located i := by
  intro i hi
  rw [hqueue.2] at hi
  refine (h.items i hi).update hth hres (fun tail htail => located_of_pending (hpend tail htail)) ?_
  rintro (hq | hc)
  · exact .inr (.inl (hqueue.1 ▸ hq))
  · have hthread : s.threads t = ⟨pc, []⟩ := by
      rw [← hpc, ← hfr]
      rfl
    rw [hthread] at hc
    rcases carries_iff.mp hc with hb | ⟨tail, htail, hin⟩ | ⟨f, hf, _⟩
    · exact hbatch i hb
    · exact hhand tail htail i hin
    · cases hf

/-- Tails that move elsewhere finish no tail. -/
theorem place_finished_of_move {place : ℕ → Place} {ks : List ℕ} {k : ℕ} (hp : p ≠ .finished)
    (hk : (if k ∈ ks then p else place k) = .finished) : place k = .finished := by
  by_cases hj : k ∈ ks
  · rw [if_pos hj] at hk
    exact absurd hk hp
  · rwa [if_neg hj] at hk

/-- The handoff: the tail goes to the back of `pending_tails`. -/
theorem inv_hand (h : Inv c calm s) (hpc : s.pc t = .hand own tail) (hfr : s.frames t = []) :
    Inv c calm { (s.setPc t (.countHanded own)).setPlace [tail] .pending with
                 pendingTails := s.pendingTails ++ [tail] } := by
  let s₁ : State := { (s.setPc t (.countHanded own)).setPlace [tail] .pending with
                      pendingTails := s.pendingTails ++ [tail] }
  have hth : s₁.threads = update s.threads t ⟨.countHanded own, s.frames t⟩ := rfl
  have hhand : (s.pc t).inHand = some tail := by rw [hpc]; rfl
  have hplaced : Placed s₁ := by
    refine h.placed.shift (forall_mem_singleton.mpr (h.place_inHand hhand)) rfl rfl (by simp) (fun _ => rfl) rfl
      rfl ?_ ?_ ?_
    · rw [idsAt_self hth, holding_empty rfl]
      show ((⟨s.pc t, s.frames t⟩ : Thread).holding).Perm _
      rw [holding_inHand hhand, singleton_append]
    · show ((s.pendingTails ++ [tail]).map Tail.id).Perm (tail.id :: s.pendingTails.map Tail.id)
      rw [map_append]
      exact perm_append_singleton _ _
    · intro q hq hne hne'
      cases q with
      | held u => exact idsAt_of_ne hth fun hu => hne (by rw [hu])
      | pending => exact absurd rfl hne'
      | unborn | finished => cases hq
  have hloc : ∀ i < s₁.nextItem, s₁.Located i := by
    refine h.located_letGo hpc hfr hth ⟨rfl, rfl⟩ (fun _ hm => mem_append_left _ hm)
      subset_rfl (fun _ hb => by cases hb) fun tail' htail' i hin => ?_
    cases htail'
    exact .inr (.inr (.inl ⟨tail, mem_append_right _ (mem_singleton_self _), hin⟩))
  refine h.updateSequencer hpc hfr rfl rfl hth hplaced .keep .keep rfl rfl
    (fun _ hin => by cases hin) hloc ⟨rfl, rfl⟩ (fun _ hcount => hcount) trivial rfl
    fun _ k => place_finished_of_move (by simp)

theorem inv_countHanded (h : Inv c calm s) (hpc : s.pc t = .countHanded own) (hfr : s.frames t = []) :
    Inv c calm { s.setPc t (.wake own) with tailsHanded := s.tailsHanded + 1 } := by
  let s₁ : State := { s.setPc t (.wake own) with tailsHanded := s.tailsHanded + 1 }
  have hth : s₁.threads = update s.threads t ⟨.wake own, s.frames t⟩ := rfl
  have hhold : (⟨.wake own, s.frames t⟩ : Thread).holding = (s.threads t).holding := by
    have hhand : (Pc.wake own).inHand = (s.pc t).inHand := by
      rw [hpc]
      rfl
    exact holding_of_inHand hhand
  refine h.updateSequencer hpc hfr rfl rfl hth
    (h.placed.keep rfl rfl rfl (idsAt_update hth rfl hhold)) .keep .keep rfl rfl
    (fun _ hin => by cases hin)
    (fun i hi => located_move s₁ hpc rfl rfl rfl subset_rfl (fun j hj => ?_) (h.items i hi))
    ⟨rfl, rfl⟩ (fun _ hcount => hcount) trivial rfl fun _ _ hk => hk
  rcases hj with hj | hj
  · exact .inr (.inl hj)
  · cases hj

/-- A tail that cannot be handed over is dropped and counted as finished. -/
theorem inv_abandon (h : Inv c calm s) (hpc : s.pc t = .abandon own tail) (hfr : s.frames t = []) :
    Inv c calm { ((s.setPc t (.stepDown own)).resolve tail.items).setPlace [tail] .finished with
                 tailsFinished := s.tailsFinished + 1 } := by
  let s₁ : State := { ((s.setPc t (.stepDown own)).resolve tail.items).setPlace [tail] .finished with
                      tailsFinished := s.tailsFinished + 1 }
  have hth : s₁.threads = update s.threads t ⟨.stepDown own, s.frames t⟩ := rfl
  have hhand : (s.pc t).inHand = some tail := by rw [hpc]; rfl
  -- without a failure no tail is dropped
  have hfail : ¬ calm := by
    intro hcalm
    have hstage := h.stage hcalm t ((h.owned hcalm t).mp (by rw [hpc]; rfl))
    rw [hpc] at hstage
    exact hstage
  have hplaced : Placed s₁ := by
    refine h.placed.retire (forall_mem_singleton.mpr (h.place_inHand hhand)) (fun _ => rfl) rfl rfl ?_ ?_
    · rw [idsAt_self hth, holding_empty rfl]
      show ((⟨s.pc t, s.frames t⟩ : Thread).holding).Perm _
      rw [holding_inHand hhand, singleton_append]
    · exact fun _ _ => idsAt_elsewhere hth rfl
  have hloc : ∀ i < s₁.nextItem, s₁.Located i := by
    refine h.located_letGo hpc hfr hth ⟨rfl, rfl⟩ (fun _ hm => hm) Finset.subset_union_left
      (fun _ hb => by cases hb) fun tail' htail' i hin => ?_
    cases htail'
    exact .inl (Finset.mem_union_right _ (mem_toFinset.mpr hin))
  exact h.updateSequencer hpc hfr rfl rfl hth hplaced .keep .keep rfl rfl
    (fun _ hin => by cases hin) hloc ⟨rfl, rfl⟩ (fun hcalm => absurd hcalm hfail) trivial rfl
    fun hcalm => absurd hcalm hfail

/-- The wave is settled: either nothing of it committed, or its tail is in the sequencer's hand. -/
theorem inv_settle (h : Inv c calm s) {batch committed : List ℕ}
    (hpc : s.pc t = .sequence own batch) (hfr : s.frames t = []) :
    Inv c calm (s.settle t own batch committed) := by
  rw [settle]
  by_cases hnone : s.wedged = true ∨ committed = []
  · rw [if_pos hnone]
    let s₁ : State := (s.setPc t (.release own none)).resolve batch
    show Inv c calm s₁
    refine h.move hpc rfl ⟨rfl, rfl, rfl, rfl, rfl, rfl, rfl, rfl⟩ .keep .keep .keep (.inl hfr)
      (fun hcl => by cases hcl) rfl rfl
      (fun i hi => located_move s₁ hpc rfl rfl rfl Finset.subset_union_left (fun j hj => ?_) (h.items i hi))
      fun _ _ => trivial
    rcases hj with hj | hj
    · exact .inr (.inl hj)
    · exact .inl (Finset.mem_union_right _ (mem_toFinset.mpr hj))
  · rw [if_neg hnone]
    let tail : Tail := ⟨s.tailsApplied, committed⟩
    let s₁ : State :=
      { ((s.setPc t (.release own (some tail))).resolve (batch.filter (· ∉ committed))).setPlace
          [tail] (.held t) with
        tailsApplied := s.tailsApplied + 1 }
    have hth : s₁.threads = update s.threads t ⟨.release own (some tail), s.frames t⟩ :=
      rfl
    have hhand : (s.pc t).inHand = none := by rw [hpc]; rfl
    have hplaced : Placed s₁ := by
      refine h.placed.birth (fun _ => rfl) rfl rfl ?_ ?_
      · rw [idsAt_self hth, holding_inHand rfl]
        show List.Perm _ (s.tailsApplied :: (⟨s.pc t, s.frames t⟩ : Thread).holding)
        rw [holding_empty hhand]
      · exact fun _ _ => idsAt_elsewhere hth rfl
    have hself : s₁.threads t = ⟨.release own (some tail), s.frames t⟩ := by
      rw [hth, update_self]
    have hloc : ∀ i < s₁.nextItem, s₁.Located i := by
      refine h.located_letGo hpc hfr hth ⟨rfl, rfl⟩ (fun _ hm => hm) Finset.subset_union_left
        (fun i hb => ?_) fun _ htail' => by cases htail'
      -- an item of the batch has committed or aborted
      by_cases hcom : i ∈ committed
      · refine .inr (.inr (.inr ⟨t, ?_⟩))
        rw [hself]
        exact carries_iff.mpr (.inr (.inl ⟨tail, rfl, hcom⟩))
      · refine .inl (Finset.mem_union_right _ (mem_toFinset.mpr ?_))
        exact mem_filter.mpr ⟨hb, by simpa using hcom⟩
    refine h.updateSequencer hpc hfr rfl rfl hth hplaced .keep .keep rfl rfl
      (fun tail' hin => ?_) hloc ⟨rfl, rfl⟩ (fun _ hcount => ?_) trivial rfl
      fun _ k => place_finished_of_move (by simp)
    · cases hin
      rfl
    · show s.tailsHanded + 1 = s.tailsApplied + 1
      have hcount : s.tailsHanded + 0 = s.tailsApplied := hcount
      omega

/-! ### Steps of `finish_wave_tail` -/

variable {f : Frame}

/-- A thread that is finishing a tail stands at a call site of `try_finish_pending_wave_tail`. -/
theorem Inv.helping_of_frames (h : Inv c calm s) (hfr : s.frames t = f :: rest) : (s.pc t).helping = true := by
  rcases h.busy t with hnil | hhelp
  · rw [hnil] at hfr
    cases hfr
  · exact hhelp

theorem claiming_of_helping (h : pc.helping = true) : pc.claiming = false := by
  cases pc with
  | claim caller stage => cases h
  | _ => rfl

theorem stageOk_of_helping (h : pc.helping = true) : StageOk c s pc := by
  cases pc with
  | gate own tail stage => cases stage <;> trivial
  | claim caller stage | abandon own tail => cases h
  | _ => trivial

theorem holding_cons (pc : Pc) (f : Frame) (rest : List Frame) :
    ((⟨pc, f :: rest⟩ : Thread).holding).Perm (f.holding ++ (⟨pc, rest⟩ : Thread).holding) := by
  simp only [Thread.holding, flatMap_cons]
  exact perm_append_comm_assoc _ _ _

/-- What the drain of a failed tail has taken comes on top. -/
theorem holding_taken (pc : Pc) (dropped : Bool) (tails : List Tail) {stage : Drain}
    (hstage : (⟨tail, .failing dropped stage⟩ : Frame).holding = [tail.id]) :
    ((⟨pc, ⟨tail, .failing dropped (.dropTails tails)⟩ :: rest⟩ : Thread).holding).Perm
      (tails.map Tail.id ++ (⟨pc, ⟨tail, .failing dropped stage⟩ :: rest⟩ : Thread).holding) := by
  simp only [Thread.holding, flatMap_cons, hstage]
  exact (Perm.append_left _ perm_middle.symm).trans (perm_append_comm_assoc _ _ _)

theorem holding_top (hfr : s.frames t = f :: rest) {g : Frame} (hhold : g.holding = f.holding) :
    (⟨s.pc t, g :: rest⟩ : Thread).holding = (s.threads t).holding := by
  show _ = (⟨s.pc t, s.frames t⟩ : Thread).holding
  rw [hfr]
  simp only [Thread.holding, flatMap_cons, hhold]

/-- Only the tails that a thread is finishing change: it stands at a call site, and stays there. -/
theorem Inv.reframe (h : Inv c calm s) (hhelp : (s.pc t).helping = true)
    (hth : s'.threads = update s.threads t ⟨s.pc t, frames⟩) (hplaced : Placed s')
    (hlocks : s'.queueLock = s.queueLock ∧ s'.commitLock = s.commitLock)
    (hrole : s'.queueWedged = false → s.queueWedged = false ∧ s'.sequencer = s.sequencer)
    (hitems : ∀ i < s'.nextItem, s'.Located i) (hstack : ∀ f ∈ frames.tail, f.phase = .cover)
    (hheal : calm → s'.wedged = false ∧ s'.queueWedged = false)
    (hcounters : calm → s'.tailsHanded = s.tailsHanded ∧ s'.tailsApplied = s.tailsApplied)
    (hstage : calm → ∀ u, (s.pc u).sequencing = true → StageOk c s (s.pc u) → StageOk c s' (s.pc u))
    (hpub : calm → ∀ k, s'.place k = .finished → k ∈ s'.published)
    (hrept : calm → ∀ f ∈ frames,
      f.phase.failed = false ∧ (f.phase.reported = true → f.tail.id ∈ s'.published))
    (hgrow : s.published ⊆ s'.published) : Inv c calm s' := by
  have hs : s'.queueWedged = false → s.queueWedged = false ∧
      OwnerStep t (s.pc t).sequencing (s.pc t).sequencing s.sequencer s'.sequencer := by
    intro hq
    refine ⟨(hrole hq).1, ?_⟩
    rw [(hrole hq).2]
    exact .keep
  have hpcs : s'.pc = s.pc := by
    rw [pc_of_threads hth]
    exact update_eq_self t s.pc
  refine h.change hth hplaced (by rw [hlocks.1]; exact .keep) (by rw [hlocks.2]; exact .keep) hs
    (.inr hhelp) (fun hcl => ?_) hitems hstack hheal
    (fun hcalm => h.fresh_update hth hcalm (fun tail hin => ?_) fun _ => (hcounters hcalm).2)
    (fun hcalm => ?_)
    (fun hcalm => h.stage_update hth hcalm (hs (hheal hcalm).2).2 (fun _ => stageOk_of_helping hhelp)
      fun u _ hu => hstage hcalm u hu (h.stage hcalm u ((h.owned hcalm u).mp hu))) hpub hrept hgrow
  · rw [claiming_of_helping hhelp] at hcl
    cases hcl
  · rw [(hcounters hcalm).2]
    exact h.fresh hcalm t tail hin
  · rw [uncounted_congr (hrole (hheal hcalm).2).2 hpcs, (hcounters hcalm).1, (hcounters hcalm).2]
    exact h.counted hcalm

/-- The item has its outcome, waits in a queue or is carried by one of the frames. -/
def State.LocatedIn (s : State) (frames : List Frame) (i : ℕ) : Prop :=
  i ∈ s.resolved ∨ i ∈ s.items ∨ (∃ tail ∈ s.pendingTails, i ∈ tail.items) ∨
    ∃ f ∈ frames, i ∈ f.carries

/-- An item moves between its outcome, the queues and the frames of the thread. -/
theorem Inv.located_reframe (h : Inv c calm s)
    (hth : s'.threads = update s.threads t ⟨s.pc t, frames⟩) (hnext : s'.nextItem = s.nextItem)
    (hmove : ∀ i, s.LocatedIn (s.frames t) i → s'.LocatedIn frames i) : ∀ i < s'.nextItem, s'.Located i := by
  intro i hi
  rw [hnext] at hi
  have hcarry : i ∈ (⟨s.pc t, frames⟩ : Thread).carries → s'.Located i := fun hc =>
    .inr (.inr (.inr ⟨t, by rw [hth, update_self]; exact hc⟩))
  have hin : s.LocatedIn (s.frames t) i → s'.Located i := by
    intro hold
    rcases hmove i hold with hr | hq | hp | hf
    · exact .inl hr
    · exact .inr (.inl hq)
    · exact .inr (.inr (.inl hp))
    · exact hcarry (carries_iff.mpr (.inr (.inr hf)))
  rcases h.items i hi with hr | hq | hp | ⟨u, hu⟩
  · exact hin (.inl hr)
  · exact hin (.inr (.inl hq))
  · exact hin (.inr (.inr (.inl hp)))
  · by_cases hut : u = t
    · rw [hut] at hu
      rcases carries_iff.mp hu with hb | hh | hf
      · exact hcarry (carries_iff.mpr (.inl hb))
      · exact hcarry (carries_iff.mpr (.inr (.inl hh)))
      · exact hin (.inr (.inr (.inr hf)))
    · exact .inr (.inr (.inr ⟨u, by rwa [hth, update_of_ne hut]⟩))

/-- The top frame passes its items on, and may take items and tails from the queues. -/
theorem locatedIn_top {f' : Frame} (hfr : s.frames t = f :: rest)
    (hitems : ∀ i ∈ s.items, i ∈ s'.items ∨ i ∈ f'.carries)
    (hpend : ∀ tail ∈ s.pendingTails, tail ∈ s'.pendingTails ∨ ∀ i ∈ tail.items, i ∈ f'.carries)
    (hres : s.resolved ⊆ s'.resolved)
    (hcarries : ∀ i ∈ f.carries, i ∈ s'.resolved ∨ i ∈ f'.carries) (i : ℕ) (hi : s.LocatedIn (s.frames t) i) : s'.LocatedIn (f' :: rest) i := by
  have htop : i ∈ f'.carries → s'.LocatedIn (f' :: rest) i := fun hin =>
    .inr (.inr (.inr ⟨f', mem_cons_self, hin⟩))
  rw [hfr] at hi
  rcases hi with hr | hq | ⟨tail, htail, hin⟩ | ⟨g, hg, hin⟩
  · exact .inl (hres hr)
  · exact (hitems i hq).elim (fun hq => .inr (.inl hq)) htop
  · exact (hpend tail htail).elim (fun htail => .inr (.inr (.inl ⟨tail, htail, hin⟩))) fun hall =>
      htop (hall i hin)
  · rcases mem_cons.mp hg with rfl | hg
    · exact (hcarries i hin).elim .inl htop
    · exact .inr (.inr (.inr ⟨g, mem_cons_of_mem _ hg, hin⟩))

theorem wakeable_update (hth : s'.threads = update s.threads t th)
    (hfr : ∀ f ∈ s.frames t, f.phase = .notify → f ∈ th.frames) : s.wakeable → s'.wakeable := by
  rintro ⟨u, f, hf, hnotify⟩
  refine ⟨u, f, ?_, hnotify⟩
  rw [frames_of_threads hth]
  by_cases hu : u = t
  · rw [hu] at hf
    rw [hu, update_self]
    exact hfr f hf hnotify
  · rwa [update_of_ne hu]

/-- Only the phase of the top frame changes, before the notification. -/
theorem Inv.phase (h : Inv c calm s) {phase phase' : Phase} {resolved published : Finset ℕ} {wedged : Bool}
    {segmentBytes : ℕ} (hfr : s.frames t = ⟨tail, phase⟩ :: rest)
    (hrept : calm → phase'.failed = false ∧ (phase'.reported = true → tail.id ∈ published))
    (hheal : calm → wedged = false ∧ s.queueWedged = false) (hres : s.resolved ⊆ resolved)
    (hcarries : ∀ i ∈ (⟨tail, phase⟩ : Frame).carries, i ∈ resolved ∨ i ∈ (⟨tail, phase'⟩ : Frame).carries)
    (hgrow : s.published ⊆ published)
    (hhold : (⟨tail, phase'⟩ : Frame).holding = (⟨tail, phase⟩ : Frame).holding) (hphase : phase ≠ .notify) :
    Inv c calm { s.setFrames t (⟨tail, phase'⟩ :: rest) with
                 resolved := resolved, published := published, wedged := wedged
                 segmentBytes := segmentBytes } := by
  let s₁ : State := { s.setFrames t (⟨tail, phase'⟩ :: rest) with
                      resolved := resolved, published := published, wedged := wedged
                      segmentBytes := segmentBytes }
  have hth : s₁.threads = update s.threads t ⟨s.pc t, ⟨tail, phase'⟩ :: rest⟩ := rfl
  have hwake : s.wakeable → s₁.wakeable := wakeable_update hth fun f hf hnotify => by
    rw [hfr] at hf
    rcases mem_cons.mp hf with rfl | hf
    · exact absurd hnotify hphase
    · exact mem_cons_of_mem _ hf
  have hstack := h.stack t
  rw [hfr] at hstack
  refine h.reframe (h.helping_of_frames hfr) hth
    (h.placed.keep rfl rfl rfl (idsAt_update hth rfl (holding_top hfr hhold))) ⟨rfl, rfl⟩
    (fun hq => ⟨hq, rfl⟩)
    (h.located_reframe hth rfl (locatedIn_top hfr (fun _ => .inl) (fun _ => .inl) hres hcarries)) hstack
    hheal (fun _ => ⟨rfl, rfl⟩) (fun _ _ _ hstage => hstage.congr rfl rfl rfl hwake)
    (fun hcalm k hk => hgrow (h.published hcalm k hk)) (fun hcalm f hf => ?_) hgrow
  rcases mem_cons.mp hf with rfl | hf
  · exact hrept hcalm
  · refine (h.reported hcalm t f (by rw [hfr]; exact mem_cons_of_mem _ hf)).imp_right fun hrep hphase => ?_
    exact hgrow (hrep hphase)

/-- The tail counts as finished; its notification is still ahead. -/
theorem inv_bump (h : Inv c calm s) (hfr : s.frames t = ⟨tail, .bump⟩ :: rest) :
    Inv c calm { (s.setFrames t (⟨tail, .notify⟩ :: rest)).setPlace [tail] .finished with
                 tailsFinished := s.tailsFinished + 1 } := by
  let s₁ : State := { (s.setFrames t (⟨tail, .notify⟩ :: rest)).setPlace [tail] .finished with
                      tailsFinished := s.tailsFinished + 1 }
  have hth : s₁.threads = update s.threads t ⟨s.pc t, ⟨tail, .notify⟩ :: rest⟩ := rfl
  have hhelp := h.helping_of_frames hfr
  have hthread : s.threads t = ⟨s.pc t, ⟨tail, .bump⟩ :: rest⟩ := by
    rw [← hfr]
    rfl
  have hperm := holding_cons (s.pc t) ⟨tail, .bump⟩ rest
  have hk : s.place tail.id = .held t := by
    refine h.placed.mem_holding.mpr ?_
    rw [hthread]
    exact hperm.mem_iff.mpr mem_cons_self
  have hplaced : Placed s₁ := by
    refine h.placed.retire (forall_mem_singleton.mpr hk) (fun _ => rfl) rfl rfl ?_ ?_
    · rw [idsAt_self hth]
      show ((s.threads t).holding).Perm _
      rw [hthread]
      exact hperm
    · exact fun _ _ => idsAt_elsewhere hth rfl
  have hwake : s₁.wakeable :=
    ⟨t, ⟨tail, .notify⟩, by rw [frames_of_threads hth, update_self]; exact mem_cons_self,
      rfl⟩
  have hlt : s.tailsFinished < s.tailsApplied :=
    h.placed.finished_lt (k := tail.id) (by rw [hk]; simp) (by rw [hk]; simp)
  have hloc : ∀ i < s₁.nextItem, s₁.Located i :=
    h.located_reframe hth rfl (locatedIn_top hfr (fun _ => .inl) (fun _ => .inl) subset_rfl fun _ hin => by cases hin)
  have hrept : calm → tail.id ∈ s.published := by
    intro hcalm
    exact (h.reported hcalm t ⟨tail, .bump⟩ (by rw [hfr]; exact mem_cons_self)).2 rfl
  have hstack := h.stack t
  rw [hfr] at hstack
  refine h.reframe hhelp hth hplaced ⟨rfl, rfl⟩ (fun hq => ⟨hq, rfl⟩) hloc hstack h.healthy
    (fun _ => ⟨rfl, rfl⟩) (fun hcalm u hu hstage => ?_) (fun hcalm k hk' => ?_) (fun hcalm f hf => ?_) subset_rfl
  · -- what the sequencer may no longer trust is covered by the notification
    generalize s.pc u = pc at hstage
    cases pc with
    | gate own tail' stage =>
      cases stage with
      | loadFinished handed => exact hstage
      | reloadHanded | enterWait | parked => exact .inr hwake
      | _ => trivial
    | claim caller stage =>
      cases stage with
      | loadFinished applied | reloadFinished applied => exact hstage
      | enterWait | parked => exact .inr hwake
      | lockCommit | recheckApplied | claimed =>
        have heq : s.tailsApplied = s.tailsFinished := hstage
        omega
      | recheckFinished applied =>
        have heq : s.tailsApplied = s.tailsFinished := hstage.2
        omega
      | _ => trivial
    | abandon own tail' => exact hstage
    | _ => trivial
  · by_cases hj : k = tail.id
    · rw [hj]
      exact hrept hcalm
    · rw [show s₁.place k = s.place k from if_neg (by simpa using hj)] at hk'
      exact h.published hcalm k hk'
  · rcases mem_cons.mp hf with rfl | hf
    · exact ⟨rfl, fun _ => hrept hcalm⟩
    · exact h.reported hcalm t f (by rw [hfr]; exact mem_cons_of_mem _ hf)

/-- A woken thread without the queue mutex does not count on another notification. -/
theorem StageOk.woken (h : StageOk c s pc) (hfree : pc.holdsQueue = false)
    (hhanded : s'.tailsHanded = s.tailsHanded) (happlied : s'.tailsApplied = s.tailsApplied)
    (hfin : s'.tailsFinished = s.tailsFinished) : StageOk c s' (wakePc pc) := by
  cases pc with
  | gate own tail stage =>
    cases stage <;> simp only [StageOk, wakePc, Pc.holdsQueue, hhanded] at h hfree ⊢ <;>
      first
        | exact h
        | cases hfree
  | claim caller stage =>
    cases stage <;> simp only [StageOk, wakePc, Pc.holdsQueue, happlied, hfin] at h hfree ⊢ <;>
      first
        | exact h
        | cases hfree
  | abandon own tail => exact h
  | _ => trivial

theorem inv_notifyTail (h : Inv c calm s)
    (hfr : s.frames t = ⟨tail, .notify⟩ :: rest) (hfree : s.queueLock = none) :
    Inv c calm (s.notifyAll.setFrames t rest) := by
  let s₁ : State := s.notifyAll.setFrames t rest
  have h₁ := h.notifyAll
  have hth : s₁.threads = update s.notifyAll.threads t ⟨wakePc (s.pc t), rest⟩ := rfl
  have hhelp := helping_wakePc (h.helping_of_frames hfr)
  have hstack := h.stack t
  rw [hfr] at hstack
  have hthread : s.notifyAll.threads t = ⟨wakePc (s.pc t), ⟨tail, .notify⟩ :: rest⟩ := by
    rw [← hfr]
    rfl
  have hhold : (⟨wakePc (s.pc t), rest⟩ : Thread).holding = (s.notifyAll.threads t).holding := by
    rw [hthread]
    rfl
  have hloc : ∀ i < s₁.nextItem, s₁.Located i := by
    refine h₁.located_reframe hth rfl fun i hi => ?_
    rw [show s.notifyAll.frames t = _ from hfr] at hi
    rcases hi with hr | hq | hp | ⟨f, hf, hin⟩
    · exact .inl hr
    · exact .inr (.inl hq)
    · exact .inr (.inr (.inl hp))
    · rcases mem_cons.mp hf with rfl | hf
      · cases hin
      · exact .inr (.inr (.inr ⟨f, hf, hin⟩))
  refine h₁.reframe hhelp hth (h₁.placed.keep rfl rfl rfl (idsAt_update hth rfl hhold))
    ⟨rfl, rfl⟩ (fun hq => ⟨hq, rfl⟩) hloc (fun f hf => hstack f (mem_of_mem_tail hf)) h.healthy
    (fun _ => ⟨rfl, rfl⟩) (fun hcalm u hu _ => ?_) h.published (fun hcalm f hf => ?_) subset_rfl
  · -- the queue mutex is free, so the sequencer is not between its loads and its wait
    have hrole : (s.pc u).sequencing = true := by
      rw [← sequencing_wakePc]
      exact hu
    have hnot : (s.pc u).holdsQueue = false := by
      by_contra hholds
      have := (h.queue u).mp (by simpa using hholds)
      rw [hfree] at this
      cases this
    exact (h.stage hcalm u ((h.owned hcalm u).mp hrole)).woken hnot rfl rfl rfl
  · exact h.reported hcalm t f (by rw [hfr]; exact mem_cons_of_mem _ hf)

/-! ### Claiming a tail -/

theorem mayClaim_cases (h : (⟨pc, frames⟩ : Thread).mayClaim = true) (hbusy : frames = [] ∨ pc.helping = true) :
    (∀ f ∈ frames, f ∈ frames.tail ∨ f.phase = .cover) ∧
    (afterClaim pc).helping = true ∧ (afterClaim pc).inHand = pc.inHand ∧
    (afterClaim pc).uncounted = pc.uncounted ∧
    (afterClaim pc).sequencing = pc.sequencing ∧ (afterClaim pc).batch = pc.batch ∧
    (pc.holdsQueue = false ∧ pc.holdsCommit = false) ∧
    (afterClaim pc).holdsQueue = false ∧ (afterClaim pc).holdsCommit = false := by
  cases frames with
  | nil =>
    refine ⟨fun _ hf => (by cases hf), ?_⟩
    cases pc with
    | idle | await | drainTails => exact ⟨rfl, rfl, rfl, rfl, rfl, ⟨rfl, rfl⟩, rfl, rfl⟩
    | gate own tail stage =>
      cases stage with
      | tryFinish => exact ⟨rfl, rfl, rfl, rfl, rfl, ⟨rfl, rfl⟩, rfl, rfl⟩
      | _ => cases h
    | _ => cases h
  | cons f rest =>
    have hhelp : pc.helping = true := hbusy.resolve_left (by simp)
    have hcover : f.phase = .cover := of_decide_eq_true h
    refine ⟨fun g hg => ?_, ?_⟩
    · rcases mem_cons.mp hg with rfl | hg
      · exact .inr hcover
      · exact .inl hg
    · cases pc with
      | idle | await | drainTails => exact ⟨rfl, rfl, rfl, rfl, rfl, ⟨rfl, rfl⟩, rfl, rfl⟩
      | gate own tail stage =>
        cases stage with
        | loadHanded => exact ⟨rfl, rfl, rfl, rfl, rfl, ⟨rfl, rfl⟩, rfl, rfl⟩
        | _ => cases hhelp
      | _ => cases hhelp

/-- A thread takes tails from the head of `pending_tails`. -/
theorem Placed.take {tails : List Tail} (h : Placed s) (hth : s'.threads = update s.threads t th)
    (hpend : s.pendingTails = tails ++ s'.pendingTails)
    (hplace : ∀ k, s'.place k = if k ∈ tails.map Tail.id then .held t else s.place k)
    (happlied : s'.tailsApplied = s.tailsApplied) (hfinished : s'.tailsFinished = s.tailsFinished)
    (hhold : th.holding.Perm (tails.map Tail.id ++ (s.threads t).holding)) : Placed s' := by
  have hids : s.pendingTails.map Tail.id = tails.map Tail.id ++ s'.pendingTails.map Tail.id := by
    rw [hpend, map_append]
  refine h.shift (p := .pending) (fun k hk => h.mem_pending.mpr ?_) rfl rfl (by simp) hplace happlied
    hfinished (.of_eq hids) ?_ fun q hq hne hne' => ?_
  · rw [hids]
    exact mem_append_left _ hk
  · rw [idsAt_self hth]
    exact hhold
  · cases q with
    | held u => exact idsAt_of_ne hth fun hu => hne' (by rw [hu])
    | pending => exact absurd rfl hne
    | unborn | finished => cases hq

/-- The claimer leaves for the place where it helps, and then has the tail on its stack. -/
theorem inv_claimTail (h : Inv c calm s) {rest : List Tail}
    (hpend : s.pendingTails = tail :: rest) (hmay : (s.threads t).mayClaim = true) :
    Inv c calm { (s.setThread t ⟨afterClaim (s.pc t), ⟨tail, .durable⟩ :: s.frames t⟩).setPlace
                   [tail] (.held t) with
                 pendingTails := rest } := by
  obtain ⟨hcover, hhelp, hhand, hunc, hrole, hbatch, hlocks, hlocks'⟩ :=
    @mayClaim_cases (s.pc t) (s.frames t) hmay (h.busy t)
  let s₀ : State := s.setPc t (afterClaim (s.pc t))
  let s₁ : State := { (s.setThread t ⟨afterClaim (s.pc t), ⟨tail, .durable⟩ :: s.frames t⟩).setPlace
                        [tail] (.held t) with pendingTails := rest }
  have h₀ : Inv c calm s₀ := by
    refine h.moveKeep rfl ?_ ?_ ?_ (.inr hhelp) (fun hcl => ?_) hhand hunc hbatch
      fun _ _ => stageOk_of_helping hhelp
    · rw [hlocks.1, hlocks'.1]
      exact .keep
    · rw [hlocks.2, hlocks'.2]
      exact .keep
    · rw [hrole]
      exact .keep
    · rw [claiming_of_helping hhelp] at hcl
      cases hcl
  have hself : s₀.threads t = ⟨afterClaim (s.pc t), s.frames t⟩ := update_self ..
  have hpc₀ : s₀.pc t = afterClaim (s.pc t) := congrArg Thread.pc hself
  have hfr₀ : s₀.frames t = s.frames t := by rw [State.frames, hself]
  have hth : s₁.threads = update s₀.threads t ⟨s₀.pc t, ⟨tail, .durable⟩ :: s.frames t⟩ := by
    rw [hpc₀]
    exact (update_idem ..).symm
  have hplaced : Placed s₁ := by
    refine h₀.placed.take hth (show s₀.pendingTails = [tail] ++ s₁.pendingTails from hpend) (fun _ => rfl)
      rfl rfl ?_
    rw [hself, hpc₀]
    exact holding_cons (afterClaim (s.pc t)) ⟨tail, .durable⟩ (s.frames t)
  refine h₀.reframe (by rw [hpc₀]; exact hhelp) hth hplaced ⟨rfl, rfl⟩ (fun hq => ⟨hq, rfl⟩)
    (h₀.located_reframe hth rfl fun i hi => ?_) (fun f hf => (hcover f hf).elim (h.stack t f) id) h₀.healthy
    (fun _ => ⟨rfl, rfl⟩) (fun _ u _ hstage => hstage.congr rfl rfl rfl (wakeable_update hth ?_))
    (fun hcalm k hk => h.published hcalm k (place_finished_of_move (by simp) hk)) (fun hcalm f hf => ?_)
    subset_rfl
  · rw [hfr₀] at hi
    rcases hi with hr | hq | ⟨tail', htail', hin⟩ | ⟨f, hf, hin⟩
    · exact .inl hr
    · exact .inr (.inl hq)
    · rw [show s₀.pendingTails = _ from hpend] at htail'
      rcases mem_cons.mp htail' with rfl | htail'
      · exact .inr (.inr (.inr ⟨_, mem_cons_self, hin⟩))
      · exact .inr (.inr (.inl ⟨tail', htail', hin⟩))
    · exact .inr (.inr (.inr ⟨f, mem_cons_of_mem _ hf, hin⟩))
  · rw [hfr₀]
    exact fun _ hf _ => mem_cons_of_mem _ hf
  · rcases mem_cons.mp hf with rfl | hf
    · exact ⟨rfl, fun hrep => by cases hrep⟩
    · exact h.reported hcalm t f hf

/-! ### Every step -/

section

variable (h : Inv c calm s)
include h

theorem Inv.not_calm (hwedged : s.wedged = true ∨ s.queueWedged = true) : ¬ calm := by
  intro hcalm
  rw [(h.healthy hcalm).1, (h.healthy hcalm).2] at hwedged
  rcases hwedged with hwedged | hwedged <;> cases hwedged

/-- Without a failure nobody fails a tail. -/
theorem Inv.not_calm_of_failed (hfr : s.frames t = f :: rest) (hfailed : f.phase.failed = true) : ¬ calm := by
  intro hcalm
  rw [(h.reported hcalm t f (by rw [hfr]; exact mem_cons_self)).1] at hfailed
  cases hfailed

/-- The drain of a failed tail moves tails or items; nothing else rests on what it changes. -/
theorem Inv.reframeFailed (hfail : ¬ calm) {f' : Frame} (hfr : s.frames t = f :: rest)
    (hth : s'.threads = update s.threads t ⟨s.pc t, f' :: rest⟩) (hplaced : Placed s')
    (hmove : ∀ i, s.LocatedIn (s.frames t) i → s'.LocatedIn (f' :: rest) i)
    (hrole : s'.queueWedged = false → s.queueWedged = false ∧ s'.sequencer = s.sequencer)
    (hlocks : s'.queueLock = s.queueLock ∧ s'.commitLock = s.commitLock)
    (hnext : s'.nextItem = s.nextItem) (hpub : s'.published = s.published) : Inv c calm s' := by
  have hstack := h.stack t
  rw [hfr] at hstack
  exact h.reframe (h.helping_of_frames hfr) hth hplaced hlocks hrole
    (h.located_reframe hth hnext hmove) hstack (fun hcalm => absurd hcalm hfail)
    (fun hcalm => absurd hcalm hfail) (fun hcalm => absurd hcalm hfail) (fun hcalm => absurd hcalm hfail)
    (fun hcalm => absurd hcalm hfail) hpub.ge

variable {dropped : Bool}

/-- The drain takes the queue's items, and the sequencer role from whoever has it. -/
theorem inv_strand (hfr : s.frames t = ⟨tail, .failing dropped .lockQueue⟩ :: rest) :
    Inv c calm { s.setFrames t (⟨tail, .failing dropped (.strand s.items)⟩ :: rest) with
                 queueWedged := true, sequencer := none, items := [] } := by
  refine h.reframeFailed (h.not_calm_of_failed hfr rfl) hfr rfl
    (h.placed.keep rfl rfl rfl (idsAt_update rfl rfl (holding_top hfr rfl)))
    (locatedIn_top hfr (fun _ hq => .inr (mem_append_right _ hq)) (fun _ => .inl) subset_rfl fun i hi =>
      .inr (mem_append_left _ ?_)) (fun hq => by cases hq) ⟨rfl, rfl⟩ rfl rfl
  simpa [Frame.carries, Drain.stranded] using hi

/-- The drain takes every pending tail. -/
theorem inv_takeTails (hfr : s.frames t = ⟨tail, .failing dropped .takeTails⟩ :: rest) :
    Inv c calm { (s.setFrames t (⟨tail, .failing dropped (.dropTails s.pendingTails)⟩ :: rest)).setPlace
                   s.pendingTails (.held t) with
                 pendingTails := [] } := by
  refine h.reframeFailed (h.not_calm_of_failed hfr rfl) hfr rfl
    (h.placed.take rfl (append_nil _).symm (fun _ => rfl) rfl rfl ?_)
    (locatedIn_top hfr (fun _ => .inl) (fun tail' htail' => .inr fun i hin => ?_) subset_rfl fun i hi =>
      .inr (mem_append_left _ ?_)) (fun hq => ⟨hq, rfl⟩) ⟨rfl, rfl⟩ rfl rfl
  · rw [← holding_top hfr (g := ⟨tail, .failing dropped .takeTails⟩) rfl]
    exact holding_taken (s.pc t) dropped s.pendingTails rfl
  · exact mem_append_right _ (mem_flatMap.mpr ⟨tail', htail', hin⟩)
  · simpa [Frame.carries, Drain.stranded] using hi

/-- The drain counts the tails it has dropped. -/
theorem inv_countTails {tails : List Tail}
    (hfr : s.frames t = ⟨tail, .failing dropped (.countTails tails)⟩ :: rest) :
    Inv c calm { (s.setFrames t (⟨tail, .failing dropped .wake⟩ :: rest)).setPlace tails .finished with
                 tailsFinished := s.tailsFinished + tails.length } := by
  let s₁ : State := { (s.setFrames t (⟨tail, .failing dropped .wake⟩ :: rest)).setPlace tails .finished with
                      tailsFinished := s.tailsFinished + tails.length }
  have hth : s₁.threads = update s.threads t
      ⟨s.pc t, ⟨tail, .failing dropped .wake⟩ :: rest⟩ := rfl
  have hperm : ((s.threads t).holding).Perm (tails.map Tail.id ++ s₁.idsAt (.held t)) := by
    rw [idsAt_self hth, ← holding_top hfr (g := ⟨tail, .failing dropped (.dropTails tails)⟩) rfl]
    exact holding_taken (s.pc t) dropped tails rfl
  have hplaced : Placed s₁ := by
    refine h.placed.retire (t := t) (fun k hk => ?_) (fun _ => rfl) rfl ?_ hperm
      fun _ _ => idsAt_elsewhere hth rfl
    · exact h.placed.mem_holding.mpr (hperm.mem_iff.mpr (mem_append_left _ hk))
    · rw [length_map]
  exact h.reframeFailed (h.not_calm_of_failed hfr rfl) hfr hth hplaced
    (locatedIn_top hfr (fun _ => .inl) (fun _ => .inl) subset_rfl fun _ => .inr) (fun hq => ⟨hq, rfl⟩)
    ⟨rfl, rfl⟩ rfl rfl

theorem inv_failing {stage : Drain} (hfr : s.frames t = ⟨tail, .failing dropped stage⟩ :: rest)
    (hstep : s.drain t tail rest dropped stage = some s') : Inv c calm s' := by
  have hfail := h.not_calm_of_failed hfr rfl
  cases stage with
  | lockQueue =>
    obtain ⟨_, rfl⟩ := ite_some_none_eq_some.mp hstep
    exact inv_strand h hfr
  | strand items | dropTails tails =>
    cases hstep
    refine h.phase hfr (fun hcalm => absurd hcalm hfail) h.healthy Finset.subset_union_left (fun i hi => ?_)
      subset_rfl rfl (by simp)
    rcases mem_append.mp hi with hi | hi
    · exact .inr (mem_append_left _ hi)
    · exact .inl (Finset.mem_union_right _ (List.mem_toFinset.mpr hi))
  | takeTails =>
    cases hstep
    exact inv_takeTails h hfr
  | countTails tails =>
    cases hstep
    exact inv_countTails h hfr
  | wake =>
    cases hstep
    have hfr' : s.notifyAll.frames t = ⟨tail, .failing dropped .wake⟩ :: rest := hfr
    cases dropped with
    | true =>
      exact h.notifyAll.phase hfr' (fun hcalm => absurd hcalm hfail) h.healthy subset_rfl (fun _ => .inr)
        subset_rfl rfl (by simp)
    | false =>
      refine h.notifyAll.phase hfr' (fun hcalm => absurd hcalm hfail) h.healthy subset_rfl
        (fun i hi => .inr ?_) subset_rfl rfl (by simp)
      simpa [Frame.carries, Drain.stranded] using hi

/-- A thread fails its tail; without a failure nobody does. -/
theorem inv_failTail {phase : Phase} (hfr : s.frames t = ⟨tail, phase⟩ :: rest) (hfail : ¬ calm)
    (hhold : (⟨tail, phase⟩ : Frame).holding = [tail.id])
    (hcarries : (⟨tail, phase⟩ : Frame).carries = tail.items)
    (hphase : phase ≠ .notify) : Inv c calm (s.failTail t tail rest) :=
  h.phase hfr (fun hcalm => absurd hcalm hfail) (fun hcalm => absurd hcalm hfail) subset_rfl
    (fun _ hi => .inr (mem_append_left _ (hcarries ▸ hi))) subset_rfl hhold.symm hphase

/-- Every phase of finishing a tail. -/
theorem inv_finish (hstep : s.finish t = some s') : Inv c calm s' := by
  rw [finish] at hstep
  cases hfr : s.frames t with
  | nil =>
    rw [hfr] at hstep
    cases hstep
  | cons f rest =>
    obtain ⟨tail, phase⟩ := f
    have hrept : calm → phase.reported = true → tail.id ∈ s.published := fun hcalm =>
      (h.reported hcalm t ⟨tail, phase⟩ (by rw [hfr]; exact mem_cons_self)).2
    rw [hfr] at hstep
    cases phase with
    | durable => cases hstep
    | publish =>
      dsimp only at hstep
      split at hstep <;> rename_i hwedged <;> cases hstep
      · exact h.phase hfr (fun hcalm => absurd hcalm (h.not_calm (.inl hwedged))) h.healthy subset_rfl
          (fun _ => .inr) subset_rfl rfl (by simp)
      · exact h.phase hfr (fun _ => ⟨rfl, fun _ => Finset.mem_insert_self _ _⟩) h.healthy subset_rfl
          (fun _ => .inr) (Finset.subset_insert _ _) rfl (by simp)
    | cover =>
      dsimp only at hstep
      split at hstep
      · cases hstep
        exact h.phase hfr (fun hcalm => ⟨rfl, fun _ => hrept hcalm rfl⟩) h.healthy subset_rfl
          (fun _ => .inr) subset_rfl rfl (by simp)
      · obtain ⟨hwedged, rfl⟩ := ite_some_none_eq_some.mp hstep
        exact inv_failTail h hfr (h.not_calm hwedged) rfl rfl (by simp)
    | mark =>
      obtain ⟨_, rfl⟩ := ite_some_none_eq_some.mp hstep
      exact h.phase hfr (fun hcalm => ⟨rfl, fun _ => hrept hcalm rfl⟩) h.healthy subset_rfl
        (fun _ => .inr) subset_rfl rfl (by simp)
    | ack =>
      cases hstep
      exact h.phase hfr (fun hcalm => ⟨rfl, fun _ => hrept hcalm rfl⟩) h.healthy
        Finset.subset_union_left (fun _ hi => .inl (Finset.mem_union_right _ (mem_toFinset.mpr hi)))
        subset_rfl rfl (by simp)
    | drop =>
      cases hstep
      exact h.phase hfr (fun hcalm => absurd hcalm (h.not_calm_of_failed hfr rfl)) h.healthy
        Finset.subset_union_left (fun _ hi => .inl (Finset.mem_union_right _ (mem_toFinset.mpr hi)))
        subset_rfl rfl (by simp)
    | failing dropped stage => exact inv_failing h hfr hstep
    | bump =>
      cases hstep
      exact inv_bump h hfr
    | notify =>
      obtain ⟨hfree, rfl⟩ := ite_some_none_eq_some.mp hstep
      exact inv_notifyTail h hfr hfree

/-- A thread outside the wave's sequencing goes on; it carries nothing. -/
theorem Inv.moveClient (hpc : s.pc t = pc) (hfr : s.frames t = [])
    (hlocks : pc.holdsQueue = false ∧ pc.holdsCommit = false ∧ pc.sequencing = false := by
      exact ⟨rfl, rfl, rfl⟩)
    (hlocks' : pc'.holdsQueue = false ∧ pc'.holdsCommit = false ∧ pc'.sequencing = false := by
      exact ⟨rfl, rfl, rfl⟩)
    (hbatch : pc'.batch = pc.batch := by rfl) : Inv c calm (s.setPc t pc') := by
  have hnone : ∀ {x : Pc}, x.sequencing = false → x.inHand = none := by
    intro x hx
    by_contra hne
    obtain ⟨tail, htail⟩ := ne_none_iff_exists'.mp hne
    rw [sequencing_of_inHand htail] at hx
    cases hx
  refine h.moveKeep hpc ?_ ?_ ?_ (.inl hfr) (fun _ => hnone hlocks'.2.2) ?_ ?_ hbatch
    fun _ hrole => ?_
  · rw [hlocks.1, hlocks'.1]
    exact .keep
  · rw [hlocks.2.1, hlocks'.2.1]
    exact .keep
  · rw [hlocks.2.2, hlocks'.2.2]
    exact .keep
  · rw [hnone hlocks.2.2, hnone hlocks'.2.2]
  · rw [uncounted_of_not_sequencing hlocks.2.2, uncounted_of_not_sequencing hlocks'.2.2]
  · rw [hlocks'.2.2] at hrole
    cases hrole

/-- The probe of the periodic check: with a tail in hand it finds the segment within the bound. -/
theorem inv_probe (hsafe : ProbeSafe c s) {tail : Option Tail}
    (hpc : s.pc t = .probe own tail) (hfr : s.frames t = []) :
    Inv c calm (s.setPc t
      (if c.exceeded s then .claim (.periodic own tail) .loadApplied else afterProbe own tail)) := by
  cases tail with
  | some tail =>
    rw [hsafe t (by rw [hpc]; rfl), if_neg (by simp)]
    exact h.moveSequencer hpc hfr
  | none =>
    split
    · exact h.moveKeep hpc .keep .keep .keep (.inl hfr) (fun _ => rfl) rfl rfl rfl
        fun _ _ => trivial
    · exact h.moveSequencer hpc hfr

theorem inv_drain (hpc : s.pc t = .drain own) (hfr : s.frames t = []) :
    Inv c calm { s.setPc t (.lockCommit own (s.items.take c.commitWaveMax)) with
                 items := s.items.drop c.commitWaveMax } := by
  let s₁ : State := { s.setPc t (.lockCommit own (s.items.take c.commitWaveMax)) with
                      items := s.items.drop c.commitWaveMax }
  show Inv c calm s₁
  refine h.move hpc rfl ⟨rfl, rfl, rfl, rfl, rfl, rfl, rfl, rfl⟩ .keep .keep .keep (.inl hfr)
    (fun hcl => by cases hcl) rfl rfl
    (fun i hi => located_move s₁ hpc rfl rfl rfl subset_rfl (fun j hj => ?_) (h.items i hi))
    fun _ _ => trivial
  rcases hj with hj | hj
  · rw [← take_append_drop c.commitWaveMax s.items] at hj
    rcases mem_append.mp hj with hj | hj
    · exact .inr (.inr hj)
    · exact .inr (.inl hj)
  · cases hj

theorem inv_failWave {batch : List ℕ} (hpc : s.pc t = .lockCommit own batch) (hfr : s.frames t = []) :
    Inv c calm ((s.setPc t (.stepDown own)).resolve batch) := by
  let s₁ : State := (s.setPc t (.stepDown own)).resolve batch
  show Inv c calm s₁
  refine h.move hpc rfl ⟨rfl, rfl, rfl, rfl, rfl, rfl, rfl, rfl⟩ .keep .keep .keep (.inl hfr)
    (fun hcl => by cases hcl) rfl rfl
    (fun i hi => located_move s₁ hpc rfl rfl rfl Finset.subset_union_left (fun j hj => ?_) (h.items i hi))
    fun _ _ => trivial
  rcases hj with hj | hj
  · exact .inr (.inl hj)
  · exact .inl (Finset.mem_union_right _ (mem_toFinset.mpr hj))

/-- The sequencer's loop and the waits around it. -/
theorem inv_run (hsafe : ProbeSafe c s) (hfr : s.frames t = [])
    (hstep : s.run c t (s.pc t) = some s') : Inv c calm s' := by
  generalize hpc : s.pc t = pc at hstep
  cases pc with
  | idle | parked | sequence =>
    cases hstep
  | pump own =>
    obtain ⟨_, hs⟩ := ite_none_right_eq_some.mp hstep
    split at hs <;> rename_i hfree <;> cases hs
    · exact h.moveKeep hpc .keep .keep (.acquire hfree) (.inl hfr) (fun hcl => by cases hcl) rfl rfl
        rfl fun _ _ => trivial
    · exact h.moveClient hpc hfr
  | await own | drainTails own =>
    obtain ⟨_, rfl⟩ := ite_some_none_eq_some.mp hstep
    exact h.moveClient hpc hfr
  | drain own =>
    obtain ⟨_, hs⟩ := ite_none_right_eq_some.mp hstep
    split at hs <;> cases hs
    · exact h.moveKeep hpc .keep .keep .release (.inl hfr) (fun hcl => by cases hcl) rfl rfl rfl
        fun _ hrole => by cases hrole
    · exact inv_drain h hpc hfr
  | lockCommit own batch =>
    rw [State.run] at hstep
    split at hstep
    · cases hstep
      exact inv_failWave h hpc hfr
    · obtain ⟨hfree, rfl⟩ := ite_some_none_eq_some.mp hstep
      exact h.moveSequencer hpc hfr .keep (.acquire hfree)
  | release own tail =>
    cases hstep
    exact h.moveSequencer hpc hfr .keep .release
  | count own tail =>
    cases hstep
    split
    · exact h.moveSequencer hpc hfr
    · cases tail with
      | none => exact h.moveSequencer hpc hfr
      | some tail =>
        exact h.moveSequencer hpc hfr
  | probe own tail =>
    obtain ⟨_, rfl⟩ := ite_some_none_eq_some.mp hstep
    exact inv_probe h hsafe hpc hfr
  | claim caller stage =>
    exact inv_claim h hpc hfr hstep
  | gate own tail stage =>
    exact inv_gate h hpc hfr hstep
  | hand own tail =>
    rw [State.run] at hstep
    split at hstep <;> rename_i hwedged <;> cases hstep
    · exact h.moveSequencer hpc hfr .keep .keep fun hcalm => absurd hcalm (h.not_calm (.inl hwedged))
    · exact inv_hand h hpc hfr
  | abandon own tail =>
    cases hstep
    exact inv_abandon h hpc hfr
  | countHanded own =>
    cases hstep
    exact inv_countHanded h hpc hfr
  | wake own =>
    obtain ⟨_, rfl⟩ := ite_some_none_eq_some.mp hstep
    have hpc' : s.notifyAll.pc t = .wake own := congrArg wakePc hpc
    exact h.notifyAll.moveSequencer hpc' hfr
  | checkOwn own =>
    cases hstep
    split
    · exact h.moveSequencer hpc hfr
    · exact h.moveSequencer hpc hfr
  | stepDown own =>
    obtain ⟨_, rfl⟩ := ite_some_none_eq_some.mp hstep
    exact h.moveKeep hpc .keep .keep .release (.inl hfr) (fun hcl => by cases hcl) rfl rfl rfl
      fun _ hrole => by cases hrole
  | notify own =>
    cases hstep
    have hpc' : s.notifyAll.pc t = .notify own := congrArg wakePc hpc
    cases own with
    | none | some own => exact h.notifyAll.moveClient hpc' hfr
  | idleProbe own =>
    obtain ⟨_, rfl⟩ := ite_some_none_eq_some.mp hstep
    split
    · exact h.moveClient hpc hfr
    · exact h.moveClient hpc hfr

end

theorem pc_frames_of_thread (h : s.threads t = ⟨pc, []⟩) : s.pc t = pc ∧ s.frames t = [] := by
  rw [State.pc, State.frames, h]
  exact ⟨rfl, rfl⟩

theorem inv_enqueue (h : Inv c calm s) (hidle : s.threads t = ⟨.idle, []⟩) :
    Inv c calm { s.setPc t (.pump s.nextItem) with items := s.items ++ [s.nextItem]
                                                   nextItem := s.nextItem + 1 } := by
  let s₁ : State := { s.setPc t (.pump s.nextItem) with items := s.items ++ [s.nextItem]
                                                        nextItem := s.nextItem + 1 }
  obtain ⟨hpc, hfr⟩ := pc_frames_of_thread hidle
  show Inv c calm s₁
  refine h.move hpc rfl ⟨rfl, rfl, rfl, rfl, rfl, rfl, rfl, rfl⟩ .keep .keep .keep (.inl hfr)
    (fun hcl => by cases hcl) rfl rfl (fun i hi => ?_) fun _ hrole => by cases hrole
  by_cases hnew : i = s.nextItem
  · exact .inr (.inl (mem_append_right _ (mem_singleton.mpr hnew)))
  · have hi : i < s.nextItem + 1 := hi
    refine located_move s₁ hpc rfl rfl rfl subset_rfl (fun j hj => ?_) (h.items i (by omega))
    rcases hj with hj | hj
    · exact .inr (.inl (mem_append_left _ hj))
    · cases hj

theorem inv_spuriousWake (h : Inv c calm s) : Inv c calm (s.setPc t (wakePc (s.pc t))) := by
  refine h.moveKeep rfl ?_ ?_ ?_ ((h.busy t).imp_right helping_wakePc) (fun hcl => ?_) ?_ ?_ ?_
    fun hcalm hrole => stageOk_wakePc (h.stage hcalm t ((h.owned hcalm t).mp ?_))
  · rw [holdsQueue_wakePc]
    exact .keep
  · rw [holdsCommit_wakePc]
    exact .keep
  · rw [sequencing_wakePc]
    exact .keep
  · rw [inHand_wakePc]
    exact h.quiet t (by rw [← claiming_wakePc]; exact hcl)
  · rw [inHand_wakePc]
  · rw [uncounted_wakePc]
  · rw [batch_wakePc]
  · rw [← sequencing_wakePc]
    exact hrole

/-- A failed durability wait. -/
def Action.failure : Action → Bool
  | .fail _ => true
  | _ => false

/-- **One step** keeps the invariant. -/
theorem inv_step {a : Action} (h : Inv c calm s) (hsafe : ProbeSafe c s) (hok : calm → a.failure = false)
    (hstep : s.step c a = some s') : Inv c calm s' := by
  cases a with
  | enqueue t =>
    obtain ⟨⟨hidle, _⟩, rfl⟩ := ite_some_none_eq_some.mp hstep
    exact inv_enqueue h hidle
  | drive t =>
    obtain ⟨⟨hidle, _, _, _, hfree, _⟩, rfl⟩ := ite_some_none_eq_some.mp hstep
    obtain ⟨hpc, hfr⟩ := pc_frames_of_thread hidle
    exact h.moveKeep hpc .keep .keep (.acquire hfree) (.inl hfr) (fun hcl => by cases hcl) rfl rfl rfl
      fun _ _ => trivial
  | promote t =>
    rw [step] at hstep
    split at hstep
    · rename_i own hat
      obtain ⟨⟨_, hfree, _⟩, rfl⟩ := ite_some_none_eq_some.mp hstep
      obtain ⟨hpc, hfr⟩ := pc_frames_of_thread hat
      exact h.moveKeep hpc .keep .keep (.acquire hfree) (.inl hfr) (fun hcl => by cases hcl) rfl rfl rfl
        fun _ _ => trivial
    · cases hstep
  | park t =>
    rw [step] at hstep
    split at hstep
    · rename_i own hat
      obtain ⟨_, rfl⟩ := ite_some_none_eq_some.mp hstep
      obtain ⟨hpc, hfr⟩ := pc_frames_of_thread hat
      exact h.moveClient hpc hfr
    · cases hstep
  | spuriousWake t =>
    cases hstep
    exact inv_spuriousWake h
  | enter t =>
    obtain ⟨hidle, rfl⟩ := ite_some_none_eq_some.mp hstep
    obtain ⟨hpc, hfr⟩ := pc_frames_of_thread hidle
    exact h.moveClient hpc hfr
  | run t =>
    obtain ⟨hfr, hs⟩ := ite_none_right_eq_some.mp hstep
    exact inv_run h hsafe hfr hs
  | settle t committed =>
    rw [step] at hstep
    split at hstep
    · rename_i own batch hpc
      obtain ⟨_, rfl⟩ := ite_some_none_eq_some.mp hstep
      have hfr : s.frames t = [] := (h.busy t).resolve_right (by rw [hpc]; simp [Pc.helping])
      exact inv_settle h hpc hfr
    · cases hstep
  | endClaim t segmentBytes =>
    rw [step] at hstep
    split at hstep
    · rename_i caller hpc
      cases hstep
      have hfr : s.frames t = [] := (h.busy t).resolve_right (by rw [hpc]; simp [Pc.helping])
      exact h.moveResume hpc hfr .keep .release
    · cases hstep
  | claimTail t =>
    rw [step] at hstep
    cases hpend : s.pendingTails with
    | nil =>
      rw [hpend] at hstep
      cases hstep
    | cons tail rest =>
      rw [hpend] at hstep
      obtain ⟨⟨hmay, _⟩, rfl⟩ := ite_some_none_eq_some.mp hstep
      exact inv_claimTail h hpend hmay
  | finish t => exact inv_finish h hstep
  | flush t grown =>
    rw [step] at hstep
    split at hstep
    · rename_i tail rest hfr
      obtain ⟨_, rfl⟩ := ite_some_none_eq_some.mp hstep
      exact h.phase hfr (fun _ => ⟨rfl, fun hrep => by cases hrep⟩) h.healthy subset_rfl (fun _ => .inr)
        subset_rfl rfl (by simp)
    · cases hstep
  | fail t =>
    rw [step] at hstep
    split at hstep
    · rename_i tail rest hfr
      cases hstep
      exact inv_failTail h hfr (fun hcalm => by cases hok hcalm) rfl rfl (by simp)
    · cases hstep

theorem inv_of_init (h : (commitWave c).init s) : Inv c calm s := by
  obtain ⟨waves, segmentBytes, rfl⟩ := h
  have howned : ∀ {holds : Pc → Bool}, holds .idle = false →
      Owned holds none (initial waves segmentBytes).pc := by
    intro holds hidle u
    show holds .idle = true ↔ none = some u
    rw [hidle]
    simp
  exact
    { queue := howned rfl
      commit := howned rfl
      sequencer := fun _ => howned rfl
      placed :=
        { unborn := fun k => ⟨fun _ => Nat.zero_le k, fun _ => rfl⟩
          listed := fun p hp => by
            cases p with
            | pending | held u =>
              exact ⟨fun k => ⟨fun hk => (by cases hk), fun hk => by cases hk⟩, nodup_nil⟩
            | unborn | finished => cases hp
          count := rfl }
      busy := fun _ => .inl rfl
      quiet := fun _ hcl => by cases hcl
      items := fun _ hi => by cases hi
      stack := fun _ _ hf => by cases hf
      support := ⟨0, fun _ _ => rfl⟩
      healthy := fun _ => ⟨rfl, rfl⟩
      fresh := fun _ _ _ hin => by cases hin
      counted := fun _ => rfl
      stage := fun _ _ hrole => by cases hrole
      published := fun _ _ hk => by cases hk
      reported := fun _ _ _ hf => by cases hf }

end

end ThunderboltDb.Engine.CommitWave
