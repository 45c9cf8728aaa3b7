import ThunderboltDb.Lib.Transition

/-!
# The publication-tail barrier

A commit registers its durability tail under the commit lock and finishes it without any lock:
`finish_publication_tail` increments `tails_finished` and then notifies `tail_cv`. A claimant in
`commit_state_after_wave_quiescence` waits until both counters agree: it holds the publication mutex
while it loads them, and parks on `tail_cv` when they differ.

Threads interleave at lock, atomic and condition-variable granularity. A notification reaches only the
threads parked at that moment; a parked thread may also wake spuriously.

* `barrier_no_lost_wakeup` — no wakeup is lost in runs in which the increment that drains the barrier
  never falls between a claimant's load of `tails_started` and its park;
* `barrier_lost_wakeup` — the run in which it does: the mutex does not order the increment.

The counters are unbounded. The wave barrier that a claimant passes first and re-checks later is the
parameter `waveQuiet` of its steps.
-/

namespace ThunderboltDb.Engine.PublicationBarrier

open Lib Option

/-- Where a thread stands. -/
inductive Pc where
  | idle
  /-- in `wait_wave_tail_quiescence` -/
  | waveWait
  /-- about to lock the publication mutex -/
  | lockState
  /-- holds the mutex, about to load `tails_started` -/
  | loadStarted
  /-- holds the mutex, about to load `tails_finished` -/
  | loadFinished (started : ℕ)
  /-- the counters agreed; about to drop the mutex guard -/
  | returnQuiet
  /-- the counters differed; about to ask whether the commit path is available -/
  | checkPath
  /-- about to wait on `tail_cv` -/
  | enterWait
  /-- waiting on `tail_cv`, the mutex is released -/
  | parked
  /-- woken, about to take the mutex again -/
  | relock
  /-- about to lock the commit state -/
  | lockCommit
  /-- holds the commit lock, about to load `tails_started` again -/
  | recheckStarted
  | recheckFinished (started : ℕ)
  /-- the re-check passed; holds the commit lock, about to ask whether the path is available -/
  | checkClaim
  /-- the re-check failed; about to drop the commit lock -/
  | dropCommit
  /-- about to ask whether the path is available before the next round -/
  | checkRound
  /-- `commit_state_after_wave_quiescence` returned its guard -/
  | claimed
  /-- holds the commit lock as a committer -/
  | committing
  /-- in `finish_publication_tail`, between the increment and the notification -/
  | notifying
  deriving DecidableEq

structure State (τ : Type) where
  tailsStarted : ℕ
  tailsFinished : ℕ
  stateLock : Option τ
  commitLock : Option τ
  wedged : Bool
  pc : τ → Pc

inductive Action (τ : Type) where
  /-- a thread calls `commit_state_after_wave_quiescence` -/
  | enter (t : τ)
  /-- a claimant takes its next step -/
  | claim (t : τ) (waveQuiet : Bool)
  | spuriousWake (t : τ)
  /-- a committer locks the commit state -/
  | commitState (t : τ)
  | registerPublicationTail (t : τ)
  | dropCommitState (t : τ)
  /-- the increment of `finish_publication_tail` -/
  | finishPublicationTail (t : τ)
  /-- its notification -/
  | notifyAll (t : τ)
  | wedgeCommitPath

def Action.finishes {τ : Type} : Action τ → Bool
  | .finishPublicationTail _ => true
  | _ => false

section

variable {τ : Type} [DecidableEq τ] {calm : Prop}

def State.setPc (s : State τ) (t : τ) (pc : Pc) : State τ :=
  { s with pc := fun u => if u = t then pc else s.pc u }

/-- Every parked thread leaves the condition variable. -/
def wake : Pc → Pc
  | .parked => .relock
  | pc => pc

/-- The next step of a claimant. -/
def State.claim (s : State τ) (t : τ) (waveQuiet : Bool) : Option (State τ) :=
  match s.pc t with
  | .waveWait => some (s.setPc t (if waveQuiet then .lockState else .idle))
  | .lockState | .relock =>
    if s.stateLock = none then some { s.setPc t .loadStarted with stateLock := some t } else none
  | .loadStarted => some (s.setPc t (.loadFinished s.tailsStarted))
  | .loadFinished started =>
    some (s.setPc t (if started = s.tailsFinished then .returnQuiet else .checkPath))
  | .returnQuiet => some { s.setPc t .lockCommit with stateLock := none }
  | .checkPath =>
    if s.wedged then some { s.setPc t .idle with stateLock := none } else some (s.setPc t .enterWait)
  | .enterWait => some { s.setPc t .parked with stateLock := none }
  | .lockCommit =>
    if s.commitLock = none then some { s.setPc t .recheckStarted with commitLock := some t } else none
  | .recheckStarted => some (s.setPc t (.recheckFinished s.tailsStarted))
  | .recheckFinished started =>
    some (s.setPc t (if waveQuiet ∧ started = s.tailsFinished then .checkClaim else .dropCommit))
  | .checkClaim =>
    if s.wedged then some { s.setPc t .idle with commitLock := none } else some (s.setPc t .claimed)
  | .dropCommit => some { s.setPc t .checkRound with commitLock := none }
  | .checkRound => some (s.setPc t (if s.wedged then .idle else .waveWait))
  | _ => none

def State.step (s : State τ) : Action τ → Option (State τ)
  | .enter t => if s.pc t = .idle then some (s.setPc t .waveWait) else none
  | .claim t waveQuiet => s.claim t waveQuiet
  | .spuriousWake t => if s.pc t = .parked then some (s.setPc t .relock) else none
  | .commitState t =>
    if s.pc t = .idle ∧ s.commitLock = none then
      some { s.setPc t .committing with commitLock := some t }
    else none
  | .registerPublicationTail t =>
    if s.pc t = .committing ∨ s.pc t = .claimed then
      some { s.setPc t .committing with tailsStarted := s.tailsStarted + 1 }
    else none
  | .dropCommitState t =>
    if s.pc t = .committing ∨ s.pc t = .claimed then some { s.setPc t .idle with commitLock := none }
    else none
  | .finishPublicationTail t =>
    -- each registered tail is finished once
    if s.pc t = .idle ∧ s.tailsFinished < s.tailsStarted then
      some { s.setPc t .notifying with tailsFinished := s.tailsFinished + 1 }
    else none
  | .notifyAll t =>
    if s.pc t = .notifying then
      some { s with pc := fun u => if u = t then .idle else wake (s.pc u) }
    else none
  | .wedgeCommitPath => some { s with wedged := true }

variable (τ) in
/-- The barrier of a new engine. -/
def barrier : TransitionSystem (State τ) (Action τ) where
  init s := s = ⟨0, 0, none, none, false, fun _ => .idle⟩
  step := State.step

/-! ### The invariant -/

/-- A claimant between its load of `tails_started` and its park. -/
def Pc.checking : Pc → Bool
  | .loadFinished _ | .checkPath | .enterWait => true
  | _ => false

def Pc.holdsCommit : Pc → Bool
  | .recheckStarted | .recheckFinished _ | .checkClaim | .dropCommit | .claimed | .committing => true
  | _ => false

/-- What a thread may rely on where it stands; `calm` says that no draining increment fell into a
check so far. -/
def PcOk (calm : Prop) (started finished : ℕ) : Pc → Prop
  | .loadFinished loaded => calm → finished < started ∨ loaded = finished
  | .checkPath | .enterWait => calm → finished < started
  | .recheckFinished loaded => loaded = started
  | .checkClaim | .claimed => started = finished
  | _ => True

structure Inv (calm : Prop) (s : State τ) : Prop where
  le : s.tailsFinished ≤ s.tailsStarted
  pcs : ∀ t, PcOk calm s.tailsStarted s.tailsFinished (s.pc t)
  parked : calm → ∀ t, s.pc t = .parked →
    s.tailsFinished < s.tailsStarted ∨ ∃ u, s.pc u = .notifying
  commit : ∀ t, (s.pc t).holdsCommit = true → s.commitLock = some t

/-- The increment that drains the barrier does not fall into a claimant's check. -/
def DrainsOutsideChecks (s : State τ) (a : Action τ) : Prop :=
  a.finishes = true → s.tailsFinished + 1 = s.tailsStarted → ∀ t, (s.pc t).checking = false

instance [Fintype τ] (s : State τ) (a : Action τ) : Decidable (DrainsOutsideChecks s a) :=
  inferInstanceAs (Decidable (_ → _ → ∀ t, (s.pc t).checking = false))

@[simp] theorem setPc_pc (s : State τ) (t u : τ) (pc : Pc) :
    (s.setPc t pc).pc u = if u = t then pc else s.pc u := rfl

@[simp] theorem setPc_tailsStarted (s : State τ) (t : τ) (pc : Pc) :
    (s.setPc t pc).tailsStarted = s.tailsStarted := rfl

@[simp] theorem setPc_tailsFinished (s : State τ) (t : τ) (pc : Pc) :
    (s.setPc t pc).tailsFinished = s.tailsFinished := rfl

variable {s : State τ} {t : τ} {pc : Pc} {stateLock : Option τ}

section

variable (h : Inv calm s) (hok : PcOk calm s.tailsStarted s.tailsFinished pc)
include h hok

/-- One thread moves and the counters stay. -/
theorem Inv.move {commitLock : Option τ} (hpark : calm → pc = .parked → s.tailsFinished < s.tailsStarted)
    (hnot : s.pc t ≠ .notifying)
    (hhold : pc.holdsCommit = true → commitLock = some t)
    (hothers : ∀ u, u ≠ t → (s.pc u).holdsCommit = true → commitLock = some u) :
    Inv calm { s.setPc t pc with stateLock := stateLock, commitLock := commitLock } := by
  refine ⟨h.le, ?_, ?_, ?_⟩
  · intro u
    by_cases hu : u = t
    · simpa [hu] using hok
    · simpa [hu] using h.pcs u
  · intro hcalm u hparked
    by_cases hu : u = t
    · exact .inl (hpark hcalm (by simpa [hu] using hparked))
    · rcases h.parked hcalm u (by simpa [hu] using hparked) with hlt | ⟨v, hv⟩
      · exact .inl hlt
      · have hvt : v ≠ t := by
          rintro rfl
          exact hnot hv
        exact .inr ⟨v, by simpa [hvt] using hv⟩
  · intro u hheld
    by_cases hu : u = t
    · rw [hu]
      exact hhold (by simpa [hu] using hheld)
    · exact hothers u hu (by simpa [hu] using hheld)

theorem Inv.moveKeep (hpark : calm → pc = .parked → s.tailsFinished < s.tailsStarted := by simp)
    (hnot : s.pc t ≠ .notifying := by simp [*])
    (hhold : pc.holdsCommit = true → (s.pc t).holdsCommit = true := by simp [*, Pc.holdsCommit]) :
    Inv calm { s.setPc t pc with stateLock := stateLock } :=
  h.move hok hpark hnot (fun hp => h.commit t (hhold hp)) fun u _ hu => h.commit u hu

end

section

variable {s : State τ} (h : Inv calm s) {t : τ} {pc : Pc}
  (hok : PcOk calm s.tailsStarted s.tailsFinished pc) (hpark : pc ≠ .parked)
include h hok hpark

/-- A move that takes the free commit lock. -/
theorem Inv.moveAcquire (hnot : s.pc t ≠ .notifying)
    (hfree : s.commitLock = none) : Inv calm { s.setPc t pc with commitLock := some t } := by
  refine h.move hok (fun _ hp => absurd hp hpark) hnot (fun _ => rfl) fun u _ hu => ?_
  rw [h.commit u hu] at hfree
  cases hfree

theorem Inv.moveRelease (hheld : (s.pc t).holdsCommit = true) (hdrop : pc.holdsCommit = false) :
    Inv calm { s.setPc t pc with commitLock := none } := by
  have hnot : s.pc t ≠ .notifying := by
    intro hn
    rw [hn] at hheld
    cases hheld
  refine h.move hok (fun _ hp => absurd hp hpark) hnot (fun hp => ?_) fun u hu hheld' => ?_
  · rw [hdrop] at hp
    cases hp
  · have := (h.commit t hheld).symm.trans (h.commit u hheld')
    exact absurd (some.inj this).symm hu

end

/-! ### One step -/

variable {s' : State τ}

section

variable (h : Inv calm s)
include h

theorem inv_claim {waveQuiet : Bool} (hstep : s.claim t waveQuiet = some s') : Inv calm s' := by
  have hpcs := h.pcs t
  rw [State.claim] at hstep
  cases hpc : s.pc t with
  | waveWait =>
    rw [hpc] at hstep
    obtain rfl := some.inj hstep
    cases waveQuiet with
    | true | false => exact h.moveKeep trivial
  | lockState | relock =>
    rw [hpc] at hstep
    dsimp only at hstep
    split at hstep
    · obtain rfl := some.inj hstep
      exact h.moveKeep trivial
    · cases hstep
  | loadStarted =>
    rw [hpc] at hstep
    obtain rfl := some.inj hstep
    refine h.moveKeep ?_
    intro _
    have := h.le
    omega
  | loadFinished loaded =>
    -- the counters can only differ here when the barrier is not drained
    rw [hpc] at hstep hpcs
    obtain rfl := some.inj hstep
    by_cases heq : loaded = s.tailsFinished
    · rw [if_pos heq]
      exact h.moveKeep trivial
    · rw [if_neg heq]
      exact h.moveKeep (fun hcalm => (hpcs hcalm).resolve_right heq)
  | returnQuiet =>
    rw [hpc] at hstep
    obtain rfl := some.inj hstep
    exact h.moveKeep trivial
  | checkPath =>
    rw [hpc] at hstep hpcs
    dsimp only at hstep
    split at hstep
    · obtain rfl := some.inj hstep
      exact h.moveKeep trivial
    · obtain rfl := some.inj hstep
      exact h.moveKeep hpcs
  | enterWait =>
    rw [hpc] at hstep hpcs
    obtain rfl := some.inj hstep
    exact h.moveKeep trivial fun hcalm _ => hpcs hcalm
  | lockCommit =>
    rw [hpc] at hstep
    dsimp only at hstep
    split at hstep
    · rename_i hfree
      obtain rfl := some.inj hstep
      exact h.moveAcquire trivial (by simp) (by simp [hpc]) hfree
    · cases hstep
  | recheckStarted =>
    rw [hpc] at hstep
    obtain rfl := some.inj hstep
    exact h.moveKeep rfl
  | recheckFinished loaded =>
    rw [hpc] at hstep hpcs
    obtain rfl := some.inj hstep
    by_cases hquiet : waveQuiet = true ∧ loaded = s.tailsFinished
    · rw [if_pos hquiet]
      have hdrained : s.tailsStarted = s.tailsFinished := by
        rw [← hquiet.2]
        exact Eq.symm hpcs
      exact h.moveKeep hdrained
    · rw [if_neg hquiet]
      exact h.moveKeep trivial
  | checkClaim =>
    rw [hpc] at hstep hpcs
    dsimp only at hstep
    split at hstep
    · obtain rfl := some.inj hstep
      exact h.moveRelease trivial (by simp) (by simp [hpc, Pc.holdsCommit]) rfl
    · obtain rfl := some.inj hstep
      exact h.moveKeep hpcs
  | dropCommit =>
    rw [hpc] at hstep
    obtain rfl := some.inj hstep
    exact h.moveRelease trivial (by simp) (by simp [hpc, Pc.holdsCommit]) rfl
  | checkRound =>
    rw [hpc] at hstep
    obtain rfl := some.inj hstep
    cases s.wedged with
    | true | false => exact h.moveKeep trivial
  | idle | parked | claimed | committing | notifying =>
    rw [hpc] at hstep
    cases hstep

/-- A registration: only the holder of the commit lock can be past its re-check. -/
theorem inv_register (hheld : (s.pc t).holdsCommit = true) :
    Inv calm { s.setPc t .committing with tailsStarted := s.tailsStarted + 1 } := by
  have hle := h.le
  have hlock := h.commit t hheld
  refine ⟨by show s.tailsFinished ≤ s.tailsStarted + 1; omega, ?_, ?_, ?_⟩
  · intro u
    by_cases hu : u = t
    · simp [hu, PcOk]
    · have hfree : (s.pc u).holdsCommit = false := by
        by_contra hu'
        have := hlock.symm.trans (h.commit u (by simpa using hu'))
        exact hu (some.inj this).symm
      have hpcs := h.pcs u
      show PcOk calm (s.tailsStarted + 1) s.tailsFinished (if u = t then .committing else s.pc u)
      rw [if_neg hu]
      cases hpc : s.pc u <;> rw [hpc] at hpcs hfree <;> simp_all [PcOk, Pc.holdsCommit]
  · intro _ u _
    exact .inl (by show s.tailsFinished < s.tailsStarted + 1; omega)
  · intro u hu
    by_cases hut : u = t
    · rw [hut]
      exact hlock
    · exact h.commit u (by simpa [hut] using hu)

/-- The increment of a finished tail, outside every check when it drains the barrier. -/
theorem inv_finish (hidle : s.pc t = .idle) (hopen : s.tailsFinished < s.tailsStarted)
    (hdrain : calm → s.tailsFinished + 1 = s.tailsStarted → ∀ u, (s.pc u).checking = false) :
    Inv calm { s.setPc t .notifying with tailsFinished := s.tailsFinished + 1 } := by
  refine ⟨hopen, ?_, ?_, ?_⟩
  · intro u
    by_cases hu : u = t
    · simp [hu, PcOk]
    · have hpcs := h.pcs u
      have hcheck : calm → (s.pc u).checking = true → s.tailsFinished + 1 < s.tailsStarted := by
        intro hcalm hc
        by_contra hlt
        rw [hdrain hcalm (by omega) u] at hc
        cases hc
      show PcOk calm s.tailsStarted (s.tailsFinished + 1) (if u = t then .notifying else s.pc u)
      rw [if_neg hu]
      cases hpc : s.pc u <;> rw [hpc] at hpcs hcheck <;> simp_all [PcOk, Pc.checking]
  · intro _ u _
    exact .inr ⟨t, by simp⟩
  · intro u hu
    by_cases hut : u = t
    · subst hut
      simp [Pc.holdsCommit] at hu
    · exact h.commit u (by simpa [hut] using hu)

/-- A notification leaves no thread parked. -/
theorem inv_notifyAll (t : τ) :
    Inv calm { s with pc := fun u => if u = t then .idle else wake (s.pc u) } := by
  refine ⟨h.le, ?_, ?_, ?_⟩
  · intro u
    have hpcs := h.pcs u
    dsimp only
    split
    · trivial
    · cases hpc : s.pc u <;> rw [hpc] at hpcs <;> exact hpcs
  · intro _ u hparked
    dsimp only at hparked
    split at hparked
    · cases hparked
    · cases hpc : s.pc u <;> simp [hpc, wake] at hparked
  · intro u hu
    dsimp only at hu
    split at hu
    · cases hu
    · refine h.commit u ?_
      cases hpc : s.pc u <;> simp_all [wake, Pc.holdsCommit]

theorem inv_step {a : Action τ} (hok : calm → DrainsOutsideChecks s a)
    (hstep : s.step a = some s') : Inv calm s' := by
  cases a with
  | enter t | spuriousWake t =>
    obtain ⟨hpc, rfl⟩ := ite_some_none_eq_some.mp hstep
    exact h.moveKeep trivial
  | claim t waveQuiet => exact inv_claim h hstep
  | commitState t =>
    obtain ⟨hpc, rfl⟩ := ite_some_none_eq_some.mp hstep
    exact h.moveAcquire trivial (by simp) (by simp [hpc.1]) hpc.2
  | registerPublicationTail t =>
    obtain ⟨hpc, rfl⟩ := ite_some_none_eq_some.mp hstep
    exact inv_register h (by rcases hpc with hpc | hpc <;> simp [hpc, Pc.holdsCommit])
  | dropCommitState t =>
    obtain ⟨hpc, rfl⟩ := ite_some_none_eq_some.mp hstep
    exact h.moveRelease trivial (by simp) (by rcases hpc with hpc | hpc <;> simp [hpc, Pc.holdsCommit]) rfl
  | finishPublicationTail t =>
    obtain ⟨hpc, rfl⟩ := ite_some_none_eq_some.mp hstep
    exact inv_finish h hpc.1 hpc.2 fun hcalm => hok hcalm rfl
  | notifyAll t =>
    obtain ⟨-, rfl⟩ := ite_some_none_eq_some.mp hstep
    exact inv_notifyAll h t
  | wedgeCommitPath =>
    obtain rfl := some.inj hstep
    exact ⟨h.le, h.pcs, h.parked, h.commit⟩

end

/-! ### Runs -/

theorem inv_of_init (h : (barrier τ).init s) : Inv calm s := by
  subst h
  refine ⟨le_rfl, fun _ => trivial, ?_, ?_⟩
  · intro _ t hparked
    cases hparked
  · intro t hheld
    cases hheld

/-- A parked thread that nobody is about to wake, with every registered tail finished. -/
def LostWakeup (s : State τ) : Prop :=
  s.tailsStarted = s.tailsFinished ∧ (∀ t, s.pc t ≠ .notifying) ∧ ∃ t, s.pc t = .parked

/-- **No lost wakeup**, in runs in which the draining increment falls outside every check. -/
theorem barrier_no_lost_wakeup (s : State τ)
    (h : (barrier τ).ReachableVia DrainsOutsideChecks s) : ¬ LostWakeup s := by
  rintro ⟨hdrained, hnone, t, hparked⟩
  have hinv : Inv True s := h.invariant (fun _ hs => inv_of_init hs)
    fun s a s' hs hok hstep => inv_step hs (fun _ => hok) hstep
  rcases hinv.parked trivial t hparked with hlt | ⟨u, hu⟩
  · omega
  · exact hnone u hu

/-- A claimant (`true`) parks while a tail is open; the committer (`false`) drains the barrier and is
about to notify. -/
theorem barrier_no_lost_wakeup_notifying :
    ∃ s : State Bool, s.pc true = .parked ∧ s.tailsStarted = s.tailsFinished ∧ ¬ LostWakeup s := by
  obtain ⟨s, hreach, hs⟩ := TransitionSystem.exists_reachable_of_runVia DrainsOutsideChecks
    [.commitState false, .registerPublicationTail false, .dropCommitState false, .enter true,
      .claim true true, .claim true true, .claim true true, .claim true true, .claim true true,
      .claim true true, .finishPublicationTail false]
    (show (barrier Bool).init ⟨0, 0, none, none, false, fun _ => .idle⟩ from rfl)
    (fun s => s.pc true = .parked ∧ s.tailsStarted = s.tailsFinished) (by decide)
  obtain ⟨hparked, hdrained⟩ := of_decide_eq_true hs
  exact ⟨s, hparked, hdrained, barrier_no_lost_wakeup s hreach⟩

/-- **A lost wakeup.**  The claimant has loaded both counters and found them different; before it parks,
the committer increments and notifies, and nothing wakes the claimant any more. -/
theorem barrier_lost_wakeup : ∃ s : State Bool, (barrier Bool).Reachable s ∧ LostWakeup s := by
  obtain ⟨s, hreach, hs⟩ := TransitionSystem.exists_reachable_of_runVia (fun _ _ => True)
    [.commitState false, .registerPublicationTail false, .dropCommitState false, .enter true,
      .claim true true, .claim true true, .claim true true, .claim true true, .claim true true,
      .finishPublicationTail false, .notifyAll false, .claim true true]
    (show (barrier Bool).init ⟨0, 0, none, none, false, fun _ => .idle⟩ from rfl)
    (fun s => s.tailsStarted = s.tailsFinished ∧ (∀ t, s.pc t ≠ .notifying) ∧ ∃ t, s.pc t = .parked)
    (by decide)
  have hlost := of_decide_eq_true hs
  exact ⟨s, hreach, hlost⟩

/-- The gate does its work in every run: a claimant that returned holds the commit lock and no tail is
open. -/
theorem quiescent_of_claimed (h : (barrier τ).Reachable s) (hclaimed : s.pc t = .claimed) :
    s.commitLock = some t ∧ s.tailsStarted = s.tailsFinished := by
  have hinv : Inv False s := h.invariant (fun _ hs => inv_of_init hs)
    fun s a s' hs _ hstep => inv_step hs False.elim hstep
  refine ⟨hinv.commit t (by simp [hclaimed, Pc.holdsCommit]), ?_⟩
  have hpcs := hinv.pcs t
  rwa [hclaimed] at hpcs

/-- A claimant parks while a tail is open, is woken when it has finished and passes both checks. -/
theorem quiescent_of_claimed_finished : ∃ s : State Bool, (barrier Bool).Reachable s ∧ s.tailsStarted = 1 ∧
    s.pc true = .claimed ∧ s.commitLock = some true ∧ s.tailsStarted = s.tailsFinished := by
  obtain ⟨s, hreach, hs⟩ := TransitionSystem.exists_reachable_of_runVia (fun _ _ => True)
    ([.commitState false, .registerPublicationTail false, .dropCommitState false, .enter true] ++
      List.replicate 6 (.claim true true) ++ [.finishPublicationTail false, .notifyAll false] ++
      List.replicate 8 (.claim true true))
    (show (barrier Bool).init ⟨0, 0, none, none, false, fun _ => .idle⟩ from rfl)
    (fun s => decide (s.tailsStarted = 1 ∧ s.pc true = .claimed)) (by decide)
  obtain ⟨hstarted, hclaimed⟩ := of_decide_eq_true hs
  exact ⟨s, hreach, hstarted, hclaimed, quiescent_of_claimed hreach hclaimed⟩

end

end ThunderboltDb.Engine.PublicationBarrier
