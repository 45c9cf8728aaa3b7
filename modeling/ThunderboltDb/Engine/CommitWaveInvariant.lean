import ThunderboltDb.Engine.CommitWave
import ThunderboltDb.Lib.Ownership

/-!
# The commit wave: places of tails and the invariant

* `Placed` — every applied tail is in exactly one place: held by a thread, in `pending_tails`, or finished;
  `tails_finished` counts the finished ones;
* `Inv` — the locks agree with where the threads stand, and so does the sequencer role until a drain takes
  it away; no claimant of the commit state holds a tail, every item is somewhere on its way to an outcome,
  and, while no failure wedged the commit path (`calm`), what the sequencer has loaded is still right where
  it matters;
* `Inv.change`, `Inv.move`, `Inv.moveKeep` — one thread steps: in general, without moving a tail, and
  without touching anything but locks.
-/

namespace ThunderboltDb.Engine.CommitWave

open Lib Function List State

variable {pc : Pc} {th : Thread}

/-! ### What a program point means -/

def Pc.holdsQueue : Pc → Bool
  | .claim _ .checkWedged | .claim _ .reloadApplied | .claim _ (.reloadFinished _)
  | .claim _ .enterWait => true
  | .gate _ _ .checkWedged | .gate _ _ .reloadFinished | .gate _ _ (.reloadHanded _)
  | .gate _ _ .enterWait => true
  | _ => false

def Pc.holdsCommit : Pc → Bool
  | .sequence _ _ | .release _ _ => true
  | .claim _ .recheckApplied | .claim _ (.recheckFinished _) | .claim _ .claimed => true
  | _ => false

/-- The thread set `sequencer_active` and has not stepped down. -/
def Pc.sequencing : Pc → Bool
  | .drain _ | .lockCommit _ _ | .sequence _ _ | .release _ _ | .count _ _ | .probe _ _
  | .claim (.periodic _ _) _ | .gate _ _ _ | .hand _ _ | .abandon _ _ | .countHanded _ | .wake _
  | .checkOwn _ | .stepDown _ => true
  | _ => false

/-- The tail between its wave's apply and its handoff. -/
def Pc.inHand : Pc → Option Tail
  | .release _ tail | .count _ tail | .probe _ tail | .claim (.periodic _ tail) _ => tail
  | .gate _ tail _ | .hand _ tail | .abandon _ tail => some tail
  | _ => none

/-- The applied tails that `tails_handed` does not count yet. -/
def Pc.uncounted : Pc → ℕ
  | .countHanded _ => 1
  | pc => pc.inHand.toList.length

/-- The thread is inside `commit_state_after_wave_quiescence`, or works on what it claimed. -/
def Pc.claiming : Pc → Bool
  | .claim _ _ => true
  | _ => false

/-- The call sites at which a thread may be finishing a tail. -/
def Pc.helping : Pc → Bool
  | .idle | .await _ | .drainTails _ | .gate _ _ .loadHanded => true
  | _ => false

/-- A sequencer works on a wave that the periodic probe ends, up to the size check: it may have a tail
in hand when it gets there. -/
def Pc.probed (waves : ℕ) : Pc → Bool
  | .lockCommit _ _ | .sequence _ _ | .release _ (some _) | .count _ (some _) => waves % 256 = 255
  | .probe _ (some _) => true
  | _ => false

/-- The items of a wave that is not settled. -/
def Pc.batch : Pc → List ℕ
  | .lockCommit _ batch | .sequence _ batch => batch
  | _ => []

/-- The tail's durability wait, its publication or its coverage failed. -/
def Phase.failed : Phase → Bool
  | .drop | .failing _ _ => true
  | _ => false

/-- The unfinished tails of one call of `finish_wave_tail`: its own and those its drain has taken. -/
def Frame.holding (f : Frame) : List ℕ :=
  match f.phase with
  | .notify => []
  | .failing _ (.dropTails tails) | .failing _ (.countTails tails) => f.tail.id :: tails.map Tail.id
  | _ => [f.tail.id]

/-- The items that the drain has taken and not failed. -/
def Drain.stranded : Drain → List ℕ
  | .strand items => items
  | .dropTails tails => tails.flatMap Tail.items
  | _ => []

/-- The items without an outcome of one call of `finish_wave_tail`. -/
def Frame.carries (f : Frame) : List ℕ :=
  match f.phase with
  | .bump | .notify => []
  | .failing dropped stage => (if dropped then [] else f.tail.items) ++ stage.stranded
  | _ => f.tail.items

/-- The unfinished tails a thread holds. -/
def Thread.holding (th : Thread) : List ℕ :=
  th.pc.inHand.toList.map Tail.id ++ th.frames.flatMap Frame.holding

/-- The items a thread is working on. -/
def Thread.carries (th : Thread) : List ℕ :=
  th.pc.batch ++ th.pc.inHand.toList.flatMap Tail.items ++ th.frames.flatMap Frame.carries

theorem sequencing_of_inHand {tail : Tail} (h : pc.inHand = some tail) : pc.sequencing = true := by
  cases pc with
  | claim caller stage => cases caller <;> simp_all [Pc.inHand, Pc.sequencing]
  | _ => simp_all [Pc.inHand, Pc.sequencing]

theorem uncounted_of_not_sequencing (h : pc.sequencing = false) : pc.uncounted = 0 := by
  cases pc with
  | claim caller stage => cases caller <;> simp_all [Pc.inHand, Pc.sequencing, Pc.uncounted]
  | _ => simp_all [Pc.inHand, Pc.sequencing, Pc.uncounted]

section

variable (pc : Pc)

/-- Waking changes nothing of the above. -/
theorem wakePc_cases : (wakePc pc = pc ∧ pc.helping = (wakePc pc).helping) ∨
    (∃ own, pc = .parked own ∧ wakePc pc = .await own) ∨
    (∃ caller, pc = .claim caller .parked ∧ wakePc pc = .claim caller .loadApplied) ∨
    ∃ own tail, pc = .gate own tail .parked ∧ wakePc pc = .gate own tail .loadHanded := by
  cases pc with
  | parked own => exact .inr (.inl ⟨own, rfl, rfl⟩)
  | claim caller stage =>
    cases stage with
    | parked => exact .inr (.inr (.inl ⟨caller, rfl, rfl⟩))
    | _ => exact .inl ⟨rfl, rfl⟩
  | gate own tail stage =>
    cases stage with
    | parked => exact .inr (.inr (.inr ⟨own, tail, rfl, rfl⟩))
    | _ => exact .inl ⟨rfl, rfl⟩
  | _ => exact .inl ⟨rfl, rfl⟩

/-- A property that parked threads share with woken ones. -/
theorem apply_wakePc {α : Type} {f : Pc → α} (hclient : ∀ own, f (.await own) = f (.parked own))
    (hclaim : ∀ caller, f (.claim caller .loadApplied) = f (.claim caller .parked))
    (hgate : ∀ own tail, f (.gate own tail .loadHanded) = f (.gate own tail .parked)) (pc : Pc) :
    f (wakePc pc) = f pc := by
  rcases wakePc_cases pc with h | ⟨own, rfl, h⟩ | ⟨caller, rfl, h⟩ | ⟨own, tail, rfl, h⟩
  · rw [h.1]
  · rw [h, hclient]
  · rw [h, hclaim]
  · rw [h, hgate]

@[simp] theorem holdsQueue_wakePc : (wakePc pc).holdsQueue = pc.holdsQueue :=
  apply_wakePc (fun _ => rfl) (fun _ => rfl) (fun _ _ => rfl) pc

@[simp] theorem holdsCommit_wakePc : (wakePc pc).holdsCommit = pc.holdsCommit :=
  apply_wakePc (fun _ => rfl) (fun _ => rfl) (fun _ _ => rfl) pc

@[simp] theorem inHand_wakePc : (wakePc pc).inHand = pc.inHand :=
  apply_wakePc (fun _ => rfl) (fun caller => by cases caller <;> rfl) (fun _ _ => rfl) pc

@[simp] theorem sequencing_wakePc : (wakePc pc).sequencing = pc.sequencing :=
  apply_wakePc (fun _ => rfl) (fun caller => by cases caller <;> rfl) (fun _ _ => rfl) pc

@[simp] theorem uncounted_wakePc : (wakePc pc).uncounted = pc.uncounted :=
  apply_wakePc (fun _ => rfl) (fun caller => by cases caller <;> rfl) (fun _ _ => rfl) pc

@[simp] theorem claiming_wakePc : (wakePc pc).claiming = pc.claiming :=
  apply_wakePc (fun _ => rfl) (fun _ => rfl) (fun _ _ => rfl) pc

@[simp] theorem batch_wakePc : (wakePc pc).batch = pc.batch :=
  apply_wakePc (fun _ => rfl) (fun _ => rfl) (fun _ _ => rfl) pc

end

theorem helping_wakePc (h : pc.helping = true) : (wakePc pc).helping = true := by
  rcases wakePc_cases pc with h' | ⟨own, rfl, h'⟩ | ⟨caller, rfl, h'⟩ | ⟨own, tail, rfl, h'⟩
  · rw [h'.1]
    exact h
  all_goals cases h

/-! ### Places -/

/-- The tails that are at a place with a list of its own. -/
def State.idsAt (s : State) : Place → List ℕ
  | .pending => s.pendingTails.map Tail.id
  | .held t => (s.threads t).holding
  | .unborn | .finished => []

def Place.listed : Place → Bool
  | .pending | .held _ => true
  | .unborn | .finished => false

def State.finishedTails (s : State) : Finset ℕ :=
  (Finset.range s.tailsApplied).filter fun k => s.place k = .finished

structure Placed (s : State) : Prop where
  unborn : ∀ k, s.place k = .unborn ↔ s.tailsApplied ≤ k
  listed : ∀ p, p.listed = true → (∀ k, s.place k = p ↔ k ∈ s.idsAt p) ∧ (s.idsAt p).Nodup
  count : s.tailsFinished = s.finishedTails.card

namespace Placed

variable {s s' : State}

section

variable (h : Placed s)
include h

/-- Nothing moves. -/
theorem keep (hplace : s'.place = s.place) (happlied : s'.tailsApplied = s.tailsApplied)
    (hfinished : s'.tailsFinished = s.tailsFinished) (hids : ∀ p, s'.idsAt p = s.idsAt p) :
    Placed s' := by
  refine ⟨fun k => ?_, fun p hp => ?_, ?_⟩
  · rw [hplace, happlied]
    exact h.unborn k
  · rw [hplace, hids]
    exact h.listed p hp
  · rw [hfinished, h.count, finishedTails, finishedTails, hplace, happlied]

variable {ks : List ℕ} {k : ℕ} {p p' : Place} {t : ℕ}

/-- Some tails move from a place to another. -/
theorem relocate (hks : ks.Nodup) (hk : ∀ k ∈ ks, s.place k = p) (hne : p ≠ p')
    (hplace : ∀ k, s'.place k = if k ∈ ks then p' else s.place k)
    (hsource : p.listed = true → (s.idsAt p).Perm (ks ++ s'.idsAt p))
    (htarget : p'.listed = true → (s'.idsAt p').Perm (ks ++ s.idsAt p'))
    (hrest : ∀ q, q.listed = true → q ≠ p → q ≠ p' → s'.idsAt q = s.idsAt q)
    (hunborn : ∀ j, s'.place j = .unborn ↔ s'.tailsApplied ≤ j)
    (hcount : s'.tailsFinished = s'.finishedTails.card) : Placed s' := by
  refine ⟨hunborn, fun q hq => ?_, hcount⟩
  obtain ⟨hmem, hnodup⟩ := h.listed q hq
  by_cases hqp : q = p
  · -- the tails leave this place
    subst hqp
    have hperm := hsource hq
    obtain ⟨-, hleft, hout⟩ := nodup_append'.mp (hperm.nodup_iff.mp hnodup)
    refine ⟨fun j => ?_, hleft⟩
    rw [hplace]
    by_cases hj : j ∈ ks
    · rw [if_pos hj]
      exact ⟨fun heq => absurd heq.symm hne, fun hin => absurd hin (hout hj)⟩
    · rw [if_neg hj, hmem j, hperm.mem_iff, mem_append]
      exact or_iff_right hj
  · by_cases hqp' : q = p'
    · -- the tails arrive here
      subst hqp'
      have hperm := htarget hq
      have hout : ks.Disjoint (s.idsAt q) := fun j hj hin =>
        hne ((hk j hj).symm.trans ((hmem j).mpr hin))
      refine ⟨fun j => ?_, hperm.nodup_iff.mpr (nodup_append'.mpr ⟨hks, hnodup, hout⟩)⟩
      rw [hplace, hperm.mem_iff, mem_append]
      by_cases hj : j ∈ ks
      · rw [if_pos hj]
        exact ⟨fun _ => .inl hj, fun _ => rfl⟩
      · rw [if_neg hj, hmem j]
        exact (or_iff_right hj).symm
    · rw [hrest q hq hqp hqp']
      refine ⟨fun j => ?_, hnodup⟩
      rw [hplace]
      by_cases hj : j ∈ ks
      · rw [if_pos hj, ← hmem j, hk j hj]
        exact ⟨fun heq => absurd heq.symm hqp', fun heq => absurd heq.symm hqp⟩
      · rw [if_neg hj]
        exact hmem j

theorem mem_holding : s.place k = .held t ↔ k ∈ (s.threads t).holding := (h.listed (.held t) rfl).1 k

theorem mem_pending : s.place k = .pending ↔ k ∈ s.pendingTails.map Tail.id := (h.listed .pending rfl).1 k

/-- An applied tail that has not finished is pending or held. -/
theorem open_cases (hk : k < s.tailsApplied) (hopen : s.place k ≠ .finished) :
    k ∈ s.pendingTails.map Tail.id ∨ ∃ t, k ∈ (s.threads t).holding := by
  cases hp : s.place k with
  | unborn => exact absurd ((h.unborn k).mp hp) (Nat.not_le.mpr hk)
  | held t => exact .inr ⟨t, h.mem_holding.mp hp⟩
  | pending => exact .inl (h.mem_pending.mp hp)
  | finished => exact absurd hp hopen

theorem applied_of_place (hk : s.place k ≠ .unborn) : k < s.tailsApplied :=
  Nat.not_le.mp fun hle => hk ((h.unborn k).mpr hle)

/-- An open tail keeps `tails_finished` below `tails_applied`. -/
theorem finished_lt (hborn : s.place k ≠ .unborn)
    (hopen : s.place k ≠ .finished) : s.tailsFinished < s.tailsApplied := by
  have hk := h.applied_of_place hborn
  rw [h.count]
  have hlt : s.finishedTails.card < (Finset.range s.tailsApplied).card :=
    Finset.card_lt_card ⟨Finset.filter_subset _ _, fun hsub =>
      hopen (Finset.mem_filter.mp (hsub (Finset.mem_range.mpr hk))).2⟩
  rwa [Finset.card_range] at hlt

theorem nodup_of_perm (hp : p.listed = true) (hsource : (s.idsAt p).Perm (ks ++ s'.idsAt p)) : ks.Nodup :=
  (nodup_append'.mp (hsource.nodup_iff.mp (h.listed p hp).2)).1

/-- Tails move between two places with lists. -/
theorem shift (hk : ∀ k ∈ ks, s.place k = p) (hp : p.listed = true) (hp' : p'.listed = true) (hne : p ≠ p')
    (hplace : ∀ k, s'.place k = if k ∈ ks then p' else s.place k)
    (happlied : s'.tailsApplied = s.tailsApplied) (hfinished : s'.tailsFinished = s.tailsFinished)
    (hsource : (s.idsAt p).Perm (ks ++ s'.idsAt p)) (htarget : (s'.idsAt p').Perm (ks ++ s.idsAt p'))
    (hrest : ∀ q, q.listed = true → q ≠ p → q ≠ p' → s'.idsAt q = s.idsAt q) : Placed s' := by
  have hopen : ∀ q : Place, q.listed = true → q ≠ .unborn ∧ q ≠ .finished := by
    intro q hq
    constructor <;> rintro rfl <;> cases hq
  refine h.relocate (h.nodup_of_perm hp hsource) hk hne hplace (fun _ => hsource) (fun _ => htarget) hrest
    (fun j => ?_) ?_
  · rw [hplace, happlied, ← h.unborn j]
    by_cases hj : j ∈ ks
    · rw [if_pos hj, hk j hj]
      exact iff_of_false (hopen p' hp').1 (hopen p hp).1
    · rw [if_neg hj]
  · rw [hfinished, h.count]
    congr 1
    rw [finishedTails, finishedTails, happlied]
    refine Finset.filter_congr fun j _ => ?_
    rw [hplace]
    by_cases hj : j ∈ ks
    · rw [if_pos hj, hk j hj]
      exact iff_of_false (hopen p hp).2 (hopen p' hp').2
    · rw [if_neg hj]

/-- Held tails finish. -/
theorem retire (hk : ∀ k ∈ ks, s.place k = .held t)
    (hplace : ∀ k, s'.place k = if k ∈ ks then .finished else s.place k)
    (happlied : s'.tailsApplied = s.tailsApplied) (hfinished : s'.tailsFinished = s.tailsFinished + ks.length)
    (hsource : (s.idsAt (.held t)).Perm (ks ++ s'.idsAt (.held t)))
    (hrest : ∀ q, q.listed = true → q ≠ .held t → s'.idsAt q = s.idsAt q) : Placed s' := by
  have hks := h.nodup_of_perm rfl hsource
  have hborn : ∀ k ∈ ks, k < s.tailsApplied := fun k hin => h.applied_of_place (by rw [hk k hin]; simp)
  refine h.relocate hks hk (by simp) hplace (fun _ => hsource) (fun hp => by cases hp)
    (fun q hq hqp _ => hrest q hq hqp) (fun j => ?_) ?_
  · rw [hplace, happlied, ← h.unborn j]
    by_cases hj : j ∈ ks
    · rw [if_pos hj, hk j hj]
      exact iff_of_false (by simp) (by simp)
    · rw [if_neg hj]
  · have hnew : s'.finishedTails = s.finishedTails ∪ ks.toFinset := by
      ext j
      simp only [finishedTails, Finset.mem_union, Finset.mem_filter, Finset.mem_range, mem_toFinset, happlied,
        hplace]
      by_cases hj : j ∈ ks
      · rw [if_pos hj]
        exact ⟨fun _ => .inr hj, fun _ => ⟨hborn j hj, rfl⟩⟩
      · rw [if_neg hj]
        exact (or_iff_left hj).symm
    have hout : Disjoint s.finishedTails ks.toFinset := by
      rw [Finset.disjoint_left]
      intro j hin hj
      rw [finishedTails, Finset.mem_filter, hk j (mem_toFinset.mp hj)] at hin
      cases hin.2
    rw [hfinished, h.count, hnew, Finset.card_union_of_disjoint hout, toFinset_card_of_nodup hks]

/-- A wave's tail comes into being in its sequencer's hand. -/
theorem birth (hplace : ∀ k, s'.place k = if k ∈ [s.tailsApplied] then .held t else s.place k)
    (happlied : s'.tailsApplied = s.tailsApplied + 1) (hfinished : s'.tailsFinished = s.tailsFinished)
    (htarget : (s'.idsAt (.held t)).Perm (s.tailsApplied :: s.idsAt (.held t)))
    (hrest : ∀ q, q.listed = true → q ≠ .held t → s'.idsAt q = s.idsAt q) : Placed s' := by
  have hk : s.place s.tailsApplied = .unborn := (h.unborn _).mpr le_rfl
  have hcases : ∀ j, s'.place j = if j = s.tailsApplied then .held t else s.place j := by
    intro j
    simp only [hplace, mem_singleton]
  refine h.relocate (nodup_singleton _) (forall_mem_singleton.mpr hk) (by simp) hplace
    (fun hp => by cases hp) (fun _ => htarget) (fun q hq _ hqp => hrest q hq hqp) (fun j => ?_) ?_
  · rw [hcases, happlied]
    split
    · exact iff_of_false (by simp) (by omega)
    · rw [h.unborn j]
      omega
  · rw [hfinished, h.count]
    congr 1
    ext j
    simp only [finishedTails, Finset.mem_filter, Finset.mem_range, happlied, hcases]
    split
    · rename_i hj
      simp [hj]
    · constructor
      · rintro ⟨hlt, hfin⟩
        exact ⟨by omega, hfin⟩
      · rintro ⟨hlt, hfin⟩
        exact ⟨by omega, hfin⟩

/-- With no open tail, the counters agree. -/
theorem finished_eq (hall : ∀ k < s.tailsApplied, s.place k = .finished) : s.tailsFinished = s.tailsApplied := by
  have hfilter : s.finishedTails = Finset.range s.tailsApplied :=
    Finset.filter_true_of_mem fun k hk => hall k (Finset.mem_range.mp hk)
  rw [h.count, hfilter, Finset.card_range]

end

end Placed

/-! ### The invariant -/

/-- The tail was reported to the publication join. -/
def Phase.reported : Phase → Bool
  | .durable | .publish => false
  | _ => true

/-- Some thread has counted a tail as finished and is about to notify. -/
def State.wakeable (s : State) : Prop := ∃ t, ∃ f ∈ s.frames t, f.phase = .notify

def State.uncounted (s : State) : ℕ :=
  match s.sequencer with
  | some t => (s.pc t).uncounted
  | none => 0

/-- The item has its outcome or is on its way to it. -/
def State.Located (s : State) (i : ℕ) : Prop :=
  i ∈ s.resolved ∨ i ∈ s.items ∨ (∃ tail ∈ s.pendingTails, i ∈ tail.items) ∨
    ∃ t, i ∈ (s.threads t).carries

/-- What the sequencer's loads mean: only the sequencer changes `tails_applied` and `tails_handed`, and a
tail that finishes while it holds the queue mutex has its notification ahead. -/
def StageOk (c : Config) (s : State) : Pc → Prop
  | .gate _ _ (.loadFinished handed) => handed = s.tailsHanded
  | .gate _ _ (.reloadHanded finished) => finished = s.tailsFinished ∨ s.wakeable
  | .gate _ _ .enterWait | .gate _ _ .parked =>
      c.maxOutstanding < s.tailsHanded - s.tailsFinished ∨ s.wakeable
  | .claim _ (.loadFinished applied) | .claim _ (.reloadFinished applied) => applied = s.tailsApplied
  | .claim _ .enterWait | .claim _ .parked => s.tailsApplied ≠ s.tailsFinished ∨ s.wakeable
  | .claim _ .lockCommit | .claim _ .recheckApplied | .claim _ .claimed =>
      s.tailsApplied = s.tailsFinished
  | .claim _ (.recheckFinished applied) => applied = s.tailsApplied ∧ s.tailsApplied = s.tailsFinished
  | .abandon _ _ => False
  | _ => True

structure Inv (c : Config) (calm : Prop) (s : State) : Prop where
  queue : Owned Pc.holdsQueue s.queueLock s.pc
  commit : Owned Pc.holdsCommit s.commitLock s.pc
  sequencer : s.queueWedged = false → Owned Pc.sequencing s.sequencer s.pc
  placed : Placed s
  busy : ∀ t, s.frames t = [] ∨ (s.pc t).helping = true
  quiet : ∀ t, (s.pc t).claiming = true → (s.pc t).inHand = none
  items : ∀ i < s.nextItem, s.Located i
  stack : ∀ t, ∀ f ∈ (s.frames t).tail, f.phase = .cover
  support : ∃ n, ∀ t, n ≤ t → s.threads t = ⟨.idle, []⟩
  healthy : calm → s.wedged = false ∧ s.queueWedged = false
  fresh : calm → ∀ t, ∀ tail ∈ (s.pc t).inHand, tail.id + 1 = s.tailsApplied
  counted : calm → s.tailsHanded + s.uncounted = s.tailsApplied
  stage : calm → ∀ t, s.sequencer = some t → StageOk c s (s.pc t)
  published : calm → ∀ k, s.place k = .finished → k ∈ s.published
  reported : calm → ∀ t, ∀ f ∈ s.frames t,
    f.phase.failed = false ∧ (f.phase.reported = true → f.tail.id ∈ s.published)

section

variable {c : Config} {calm : Prop} {s s' : State} {t : ℕ}

section

variable (h : s'.threads = update s.threads t th)
include h

theorem pc_of_threads : s'.pc = update s.pc t th.pc := by
  funext u
  rw [pc, h]
  exact apply_update (fun _ => Thread.pc) s.threads t th u

theorem frames_of_threads : s'.frames = update s.frames t th.frames := by
  funext u
  rw [frames, h]
  exact apply_update (fun _ => Thread.frames) s.threads t th u

/-- A property of all threads, from the one that moved and from the others. -/
theorem forall_threads {P : ℕ → Thread → Prop} (hself : P t th) (hothers : ∀ u, u ≠ t → P u (s.threads u)) :
    ∀ u, P u (s'.threads u) := by
  rw [h]
  exact (forall_update_iff s.threads P).mpr ⟨hself, hothers⟩

end

theorem support_update (h : ∃ n, ∀ t, n ≤ t → s.threads t = ⟨.idle, []⟩) (th : Thread) :
    ∃ n, ∀ u, n ≤ u → update s.threads t th u = ⟨.idle, []⟩ := by
  obtain ⟨n, hn⟩ := h
  refine ⟨max n (t + 1), fun u hu => ?_⟩
  rw [update_of_ne (by omega)]
  exact hn u (by omega)

theorem uncounted_of_owner (h : Owned Pc.sequencing s.sequencer s.pc) (ht : (s.pc t).sequencing = true) :
    s.uncounted = (s.pc t).uncounted := by
  rw [uncounted, (h t).mp ht]

theorem uncounted_congr (hseq : s'.sequencer = s.sequencer) (hpcs : s'.pc = s.pc) : s'.uncounted = s.uncounted := by
  rw [uncounted, uncounted, hseq, hpcs]

variable {pc' : Pc}

/-- A thread's step that leaves its uncounted tails leaves the sum. -/
theorem uncounted_update (h : Owned Pc.sequencing s.sequencer s.pc)
    (hpc : s'.pc = update s.pc t pc') (hcount : pc'.uncounted = (s.pc t).uncounted)
    (hs : OwnerStep t (s.pc t).sequencing pc'.sequencing s.sequencer s'.sequencer) :
    s'.uncounted = s.uncounted := by
  have hseq := h t
  have hbefore : (s.pc t).sequencing = false → (s.pc t).uncounted = 0 := uncounted_of_not_sequencing
  have hafter : pc'.sequencing = false → pc'.uncounted = 0 := uncounted_of_not_sequencing
  rw [uncounted, uncounted, hpc]
  generalize hown : s'.sequencer = owner' at hs
  generalize pc'.sequencing = after at hs hafter
  generalize hcur : (s.pc t).sequencing = before at hs hbefore hseq
  cases hs with
  | keep =>
    cases hsome : s.sequencer with
    | none => rfl
    | some u =>
      dsimp only
      by_cases hu : u = t
      · rw [hu, update_self, hcount]
      · rw [update_of_ne hu]
  | acquire hfree =>
    rw [hfree]
    dsimp only
    rw [update_self, hcount, hbefore rfl]
  | release =>
    rw [hseq.mp rfl]
    dsimp only
    rw [← hcount, hafter rfl]

/-- The step leaves every tail and the counters alone. -/
structure SameTails (s s' : State) : Prop where
  place : s'.place = s.place
  pendingTails : s'.pendingTails = s.pendingTails
  handed : s'.tailsHanded = s.tailsHanded
  applied : s'.tailsApplied = s.tailsApplied
  finished : s'.tailsFinished = s.tailsFinished
  published : s'.published = s.published
  wedged : s'.wedged = s.wedged ∧ s'.queueWedged = s.queueWedged

theorem StageOk.congr (h : StageOk c s pc) (hhanded : s'.tailsHanded = s.tailsHanded)
    (happlied : s'.tailsApplied = s.tailsApplied) (hfinished : s'.tailsFinished = s.tailsFinished)
    (hwake : s.wakeable → s'.wakeable) : StageOk c s' pc := by
  cases pc with
  | claim caller stage =>
    cases stage <;> simp only [StageOk, happlied, hfinished] at h ⊢ <;>
      first
        | exact h
        | exact h.imp_right hwake
  | gate own tail stage =>
    cases stage <;> simp only [StageOk, hhanded, hfinished] at h ⊢ <;>
      first
        | exact h
        | exact h.imp_right hwake
  | abandon own tail => exact h
  | _ => trivial

theorem wakeable_of_frames (hfr : s'.frames = s.frames) (h : s.wakeable) : s'.wakeable := by
  obtain ⟨u, f, hf, hphase⟩ := h
  exact ⟨u, f, by rw [hfr]; exact hf, hphase⟩

theorem holding_of_inHand {frames : List Frame} (h : pc'.inHand = pc.inHand) :
    (⟨pc', frames⟩ : Thread).holding = (⟨pc, frames⟩ : Thread).holding := by
  rw [Thread.holding, Thread.holding, h]

/-- A thread keeps what it holds. -/
theorem idsAt_update (hth : s'.threads = update s.threads t th)
    (hpend : s'.pendingTails = s.pendingTails) (hhold : th.holding = (s.threads t).holding)
    (p : Place) : s'.idsAt p = s.idsAt p := by
  cases p with
  | pending => rw [idsAt, idsAt, hpend]
  | held u =>
    rw [idsAt, idsAt, hth]
    by_cases hu : u = t
    · rw [hu, update_self, hhold]
    · rw [update_of_ne hu]
  | unborn | finished => rfl

theorem Inv.owned (h : Inv c calm s) (hcalm : calm) : Owned Pc.sequencing s.sequencer s.pc :=
  h.sequencer (h.healthy hcalm).2

section

variable (h : Inv c calm s) (hth : s'.threads = update s.threads t th)
include h hth

/-- One thread steps; what concerns the other threads is left to show only where the step matters to
them. -/
theorem Inv.change (hplaced : Placed s')
    (hq : OwnerStep t (s.pc t).holdsQueue th.pc.holdsQueue s.queueLock s'.queueLock)
    (hc : OwnerStep t (s.pc t).holdsCommit th.pc.holdsCommit s.commitLock s'.commitLock)
    (hs : s'.queueWedged = false → s.queueWedged = false ∧
      OwnerStep t (s.pc t).sequencing th.pc.sequencing s.sequencer s'.sequencer)
    (hbusy : th.frames = [] ∨ th.pc.helping = true)
    (hquiet : th.pc.claiming = true → th.pc.inHand = none)
    (hitems : ∀ i < s'.nextItem, s'.Located i) (hstack : ∀ f ∈ th.frames.tail, f.phase = .cover)
    (hok : calm → s'.wedged = false ∧ s'.queueWedged = false)
    (hfresh : calm → ∀ u, ∀ tail ∈ (s'.pc u).inHand, tail.id + 1 = s'.tailsApplied)
    (hcounted : calm → s'.tailsHanded + s'.uncounted = s'.tailsApplied)
    (hstage : calm → ∀ u, s'.sequencer = some u → StageOk c s' (s'.pc u))
    (hpub : calm → ∀ k, s'.place k = .finished → k ∈ s'.published)
    (hrept : calm → ∀ f ∈ th.frames,
      f.phase.failed = false ∧ (f.phase.reported = true → f.tail.id ∈ s'.published))
    (hgrow : s.published ⊆ s'.published) : Inv c calm s' := by
  have hpcs := pc_of_threads hth
  exact
    { queue := by rw [hpcs]; exact h.queue.update hq
      commit := by rw [hpcs]; exact h.commit.update hc
      sequencer := fun hq' => by rw [hpcs]; exact (h.sequencer (hs hq').1).update (hs hq').2
      placed := hplaced
      busy := forall_threads (P := fun _ th => th.frames = [] ∨ th.pc.helping = true) hth hbusy
        fun u _ => h.busy u
      quiet := forall_threads (P := fun _ th => th.pc.claiming = true → th.pc.inHand = none) hth
        hquiet fun u _ => h.quiet u
      items := hitems
      stack := forall_threads (P := fun _ th => ∀ f ∈ th.frames.tail, f.phase = .cover) hth hstack
        fun u _ => h.stack u
      support := by rw [hth]; exact support_update h.support _
      healthy := hok
      fresh := hfresh
      counted := hcounted
      stage := hstage
      published := hpub
      reported := fun hcalm => forall_threads (P := fun _ th =>
        ∀ f ∈ th.frames, f.phase.failed = false ∧ (f.phase.reported = true → f.tail.id ∈ s'.published))
        hth (hrept hcalm) fun u _ f hf =>
          (h.reported hcalm u f hf).imp_right fun hrep hphase => hgrow (hrep hphase) }

/-- The sequencer is the thread that moved, or it did not move. -/
theorem Inv.stage_update (hcalm : calm) (hs : OwnerStep t (s.pc t).sequencing th.pc.sequencing s.sequencer s'.sequencer)
    (hself : th.pc.sequencing = true → StageOk c s' th.pc)
    (hothers : ∀ u, u ≠ t → (s.pc u).sequencing = true → StageOk c s' (s.pc u)) :
    ∀ u, s'.sequencer = some u → StageOk c s' (s'.pc u) := by
  have hall : ∀ u, (s'.pc u).sequencing = true → StageOk c s' (s'.pc u) :=
    forall_threads (P := fun _ th => th.pc.sequencing = true → StageOk c s' th.pc) hth hself hothers
  intro u hu
  apply hall u
  rw [pc_of_threads hth]
  exact ((h.owned hcalm).update hs u).mpr hu

/-- No thread but the sequencer has a tail in hand. -/
theorem Inv.fresh_update (hcalm : calm) (hself : ∀ tail ∈ th.pc.inHand, tail.id + 1 = s'.tailsApplied)
    (hothers : (∃ u, u ≠ t ∧ (s.pc u).sequencing = true) → s'.tailsApplied = s.tailsApplied) :
    ∀ u, ∀ tail ∈ (s'.pc u).inHand, tail.id + 1 = s'.tailsApplied := by
  refine forall_threads (P := fun _ th => ∀ tail ∈ th.pc.inHand, tail.id + 1 = s'.tailsApplied) hth
    hself fun u hut tail hu => ?_
  rw [hothers ⟨u, hut, sequencing_of_inHand hu⟩]
  exact h.fresh hcalm u tail hu

end

/-- **One thread moves and no tail changes its place.** -/
theorem Inv.move (h : Inv c calm s) (hpc : s.pc t = pc)
    (hth : s'.threads = update s.threads t ⟨pc', s.frames t⟩) (hsame : SameTails s s')
    (hq : OwnerStep t pc.holdsQueue pc'.holdsQueue s.queueLock s'.queueLock)
    (hc : OwnerStep t pc.holdsCommit pc'.holdsCommit s.commitLock s'.commitLock)
    (hs : OwnerStep t pc.sequencing pc'.sequencing s.sequencer s'.sequencer)
    (hbusy : s.frames t = [] ∨ pc'.helping = true) (hquiet : pc'.claiming = true → pc'.inHand = none)
    (hhand : pc'.inHand = pc.inHand) (hcount : pc'.uncounted = pc.uncounted)
    (hitems : ∀ i < s'.nextItem, s'.Located i)
    (hstage : calm → pc'.sequencing = true → StageOk c s' pc') : Inv c calm s' := by
  subst hpc
  have hfr : s'.frames = s.frames := by
    rw [frames_of_threads hth]
    exact update_eq_self t s.frames
  have hhold : (⟨pc', s.frames t⟩ : Thread).holding = (s.threads t).holding := holding_of_inHand hhand
  refine h.change hth (h.placed.keep hsame.place hsame.applied hsame.finished
      (idsAt_update hth hsame.pendingTails hhold))
    hq hc (fun hq' => ⟨hsame.wedged.2 ▸ hq', hs⟩) hbusy hquiet hitems (h.stack t) ?_
    (fun hcalm => h.fresh_update hth hcalm ?_ fun _ => hsame.applied) (fun hcalm => ?_)
    (fun hcalm => h.stage_update hth hcalm hs (hstage hcalm) fun u _ hu => ?_) ?_ ?_ ?_
  · rw [hsame.wedged.1, hsame.wedged.2]
    exact h.healthy
  · intro tail htail
    rw [hsame.applied]
    exact h.fresh hcalm t tail (by rw [← hhand]; exact htail)
  · rw [hsame.handed, hsame.applied, uncounted_update (h.owned hcalm) (pc_of_threads hth) hcount hs]
    exact h.counted hcalm
  · exact (h.stage hcalm u ((h.owned hcalm u).mp hu)).congr hsame.handed hsame.applied hsame.finished
      (wakeable_of_frames hfr)
  · rw [hsame.place, hsame.published]
    exact h.published
  · rw [hsame.published]
    exact fun hcalm => h.reported hcalm t
  · rw [hsame.published]

variable {i : ℕ}

/-- What the moved thread no longer carries has an outcome or waits in the queue. -/
theorem State.Located.update (hi : s.Located i) (hth : s'.threads = update s.threads t th)
    (hres : s.resolved ⊆ s'.resolved) (hpend : ∀ tail ∈ s.pendingTails, i ∈ tail.items → s'.Located i)
    (hmove : i ∈ s.items ∨ i ∈ (s.threads t).carries → s'.Located i) : s'.Located i := by
  rcases hi with hi | hi | ⟨tail, htail, hi⟩ | ⟨u, hi⟩
  · exact .inl (hres hi)
  · exact hmove (.inl hi)
  · exact hpend tail htail hi
  · by_cases hu : u = t
    · rw [hu] at hi
      exact hmove (.inr hi)
    · refine .inr (.inr (.inr ⟨u, ?_⟩))
      rw [hth, update_of_ne hu]
      exact hi

theorem carries_iff : i ∈ th.carries ↔ i ∈ th.pc.batch ∨ (∃ tail ∈ th.pc.inHand, i ∈ tail.items) ∨
      ∃ f ∈ th.frames, i ∈ f.carries := by
  simp only [Thread.carries, mem_append, mem_flatMap, Option.mem_toList]
  exact or_assoc

theorem located_of_pending {tail : Tail} (hpend : tail ∈ s'.pendingTails) (hi : i ∈ tail.items) : s'.Located i :=
  .inr (.inr (.inl ⟨tail, hpend, hi⟩))

/-- A thread that keeps its tail and moves its batch on. -/
theorem located_move (s' : State) (hpc : s.pc t = pc)
    (hth : s'.threads = update s.threads t ⟨pc', s.frames t⟩)
    (hpend : s'.pendingTails = s.pendingTails) (hhand : pc'.inHand = pc.inHand)
    (hres : s.resolved ⊆ s'.resolved)
    (hmove : ∀ i, i ∈ s.items ∨ i ∈ pc.batch → i ∈ s'.resolved ∨ i ∈ s'.items ∨ i ∈ pc'.batch)
    (hi : s.Located i) : s'.Located i := by
  have hself : s'.threads t = ⟨pc', s.frames t⟩ := by rw [hth, update_self]
  have hcarry : i ∈ pc'.batch ∨ (∃ tail ∈ pc'.inHand, i ∈ tail.items) ∨
      (∃ f ∈ s.frames t, i ∈ f.carries) → s'.Located i := by
    intro hc
    refine .inr (.inr (.inr ⟨t, ?_⟩))
    rw [hself]
    exact carries_iff.mpr hc
  have hplain : i ∈ s.items ∨ i ∈ pc.batch → s'.Located i := by
    intro hold
    rcases hmove i hold with hr | hq | hb
    · exact .inl hr
    · exact .inr (.inl hq)
    · exact hcarry (.inl hb)
  refine hi.update hth hres (fun tail htail => located_of_pending (hpend ▸ htail)) ?_
  rintro (hq | hc)
  · exact hplain (.inl hq)
  · have hthread : s.threads t = ⟨pc, s.frames t⟩ := by
      rw [← hpc]
      rfl
    rw [hthread] at hc
    rcases carries_iff.mp hc with hb | hh | hf
    · exact hplain (.inr hb)
    · refine hcarry (.inr (.inl ?_))
      rw [hhand]
      exact hh
    · exact hcarry (.inr (.inr hf))

/-- A move that changes the locks, the role, the wave count or the segment, and nothing else. -/
theorem Inv.moveKeep (h : Inv c calm s) (hpc : s.pc t = pc)
    {queueLock commitLock sequencer : Option ℕ} {waves segmentBytes : ℕ}
    (hq : OwnerStep t pc.holdsQueue pc'.holdsQueue s.queueLock queueLock)
    (hc : OwnerStep t pc.holdsCommit pc'.holdsCommit s.commitLock commitLock)
    (hs : OwnerStep t pc.sequencing pc'.sequencing s.sequencer sequencer)
    (hbusy : s.frames t = [] ∨ pc'.helping = true) (hquiet : pc'.claiming = true → pc'.inHand = none)
    (hhand : pc'.inHand = pc.inHand) (hcount : pc'.uncounted = pc.uncounted)
    (hbatch : pc'.batch = pc.batch) (hstage : calm → pc'.sequencing = true → StageOk c s pc') :
    Inv c calm { s.setPc t pc' with queueLock := queueLock, commitLock := commitLock,
                                    sequencer := sequencer, waves := waves,
                                    segmentBytes := segmentBytes } := by
  let s₁ : State := { s.setPc t pc' with queueLock := queueLock, commitLock := commitLock,
                                         sequencer := sequencer, waves := waves,
                                         segmentBytes := segmentBytes }
  refine h.move hpc rfl ⟨rfl, rfl, rfl, rfl, rfl, rfl, rfl, rfl⟩ hq hc hs hbusy hquiet hhand hcount
    (fun i hi => located_move s₁ hpc rfl rfl hhand subset_rfl (fun j hj => ?_) (h.items i hi))
    (fun hcalm hrole => (hstage hcalm hrole).congr rfl rfl rfl ?_)
  · rw [hbatch]
    exact .inr hj
  · refine wakeable_of_frames ?_
    have hth : s₁.threads = update s.threads t ⟨pc', s.frames t⟩ := rfl
    rw [frames_of_threads hth]
    exact update_eq_self t s.frames

theorem stageOk_wakePc (h : StageOk c s pc) : StageOk c s (wakePc pc) := by
  rcases wakePc_cases pc with h' | ⟨own, rfl, h'⟩ | ⟨caller, rfl, h'⟩ | ⟨own, tail, rfl, h'⟩
  · rw [h'.1]
    exact h
  all_goals
    rw [h']
    trivial

theorem Inv.notifyAll (h : Inv c calm s) : Inv c calm s.notifyAll := by
  have hcarry : ∀ u, (s.notifyAll.threads u).carries = (s.threads u).carries := by
    intro u
    show (⟨wakePc (s.pc u), s.frames u⟩ : Thread).carries = _
    simp only [Thread.carries, batch_wakePc, inHand_wakePc]
    rfl
  have hids : ∀ p, s.notifyAll.idsAt p = s.idsAt p := by
    intro p
    cases p with
    | held u => exact holding_of_inHand (inHand_wakePc (s.pc u))
    | pending | unborn | finished => rfl
  exact
    { queue := h.queue.map holdsQueue_wakePc
      commit := h.commit.map holdsCommit_wakePc
      sequencer := fun hq => (h.sequencer hq).map sequencing_wakePc
      placed := h.placed.keep rfl rfl rfl hids
      busy := fun u => (h.busy u).imp_right helping_wakePc
      quiet := fun u hu => by
        show (wakePc (s.pc u)).inHand = none
        rw [inHand_wakePc]
        exact h.quiet u (by rwa [← claiming_wakePc])
      items := fun i hi => by
        rcases h.items i hi with hr | hq | hp | ⟨u, hu⟩
        · exact .inl hr
        · exact .inr (.inl hq)
        · exact .inr (.inr (.inl hp))
        · exact .inr (.inr (.inr ⟨u, by rw [hcarry]; exact hu⟩))
      stack := h.stack
      support := by
        obtain ⟨n, hn⟩ := h.support
        refine ⟨n, fun u hu => ?_⟩
        show (⟨wakePc (s.threads u).pc, (s.threads u).frames⟩ : Thread) = _
        rw [hn u hu]
        rfl
      healthy := h.healthy
      fresh := fun hcalm u tail hu => h.fresh hcalm u tail (by rwa [← inHand_wakePc])
      counted := fun hcalm => by
        have hunc : s.notifyAll.uncounted = s.uncounted := by
          rw [uncounted, uncounted]
          show (match s.sequencer with | some t => (wakePc (s.pc t)).uncounted | none => 0) = _
          cases s.sequencer with
          | none => rfl
          | some u => exact uncounted_wakePc (s.pc u)
        rw [hunc]
        exact h.counted hcalm
      stage := fun hcalm u hu => (stageOk_wakePc (h.stage hcalm u hu)).congr rfl rfl rfl fun hw => hw
      published := h.published
      reported := h.reported }

end

end ThunderboltDb.Engine.CommitWave
