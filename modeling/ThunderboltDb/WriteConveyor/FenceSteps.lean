import ThunderboltDb.WriteConveyor.FenceInvariant

/-!
# Every step keeps the frame log's invariant

`LaneOk.mono` says once under which changes of the shared state a lane keeps what it knows; each step of a
lane or of the appender is then one application of it. The only step that can break the invariant is the
appender's store of `end_seq` into the slot whose `end_seq` the holder of the frontier is about to load:
`Undisturbed` excludes it, and `Ordered` says that a call continues above the sequences already published.
-/

namespace ThunderboltDb.WriteConveyor

open Lib Function
open List hiding getElem?_eq_some_iff

variable {n : ℕ}

theorem endSeqAt_of_grown {a b : List PlacedFrame} (h : a <+: b) (hn : n ≤ a.length) :
    endSeqAt b n = endSeqAt a n := by
  cases n with
  | zero => rfl
  | succ n =>
    obtain ⟨c, rfl⟩ := h
    simp only [endSeqAt]
    rw [getElem?_append_left hn]

/-- Later frames end later. -/
theorem endSeqAt_mono {frames : List PlacedFrame}
    (h : frames.Pairwise fun a b => a.endSeq ≤ b.header.firstSeq.toNat) {m : ℕ} (hnm : n ≤ m)
    (hm : m ≤ frames.length) : endSeqAt frames n ≤ endSeqAt frames m := by
  cases n with
  | zero => exact Nat.zero_le _
  | succ n =>
    obtain ⟨m, rfl⟩ : ∃ k, m = k + 1 := ⟨m - 1, by omega⟩
    rcases eq_or_lt_of_le (Nat.succ_le_succ_iff.mp hnm) with rfl | hlt
    · exact le_refl _
    · have hord := pairwise_iff_getElem.mp h n m (by omega) (by omega) hlt
      simp only [endSeqAt]
      rw [getElem?_eq_getElem (by omega), getElem?_eq_getElem (by omega)]
      exact hord.trans (Nat.le_add_right _ _)

namespace FenceState

variable {groups : List PlacedGroup} {cursor : AppenderCursor} {published i j : ℕ} {f f' : PlacedFrame}

section

variable (h : Layout groups cursor published) (hi : (groups.flatMap PlacedGroup.frames)[i]? = some f)
include h hi

/-- Frames lie behind one another on disk. -/
theorem Layout.before (hj : (groups.flatMap PlacedGroup.frames)[j]? = some f') (hij : i < j) :
    f.offset + f.paddedLen ≤ f'.offset := by
  rw [(h.place i f hi).2, (h.place j f' hj).2, ← paddedTotal_take_succ hi]
  exact paddedTotal_take_mono _ hij

theorem Layout.le_nextOffset : f.offset + f.paddedLen ≤ cursor.nextOffset := by
  rw [(h.place i f hi).2, h.nextOffset, ← paddedTotal_take_succ hi]
  exact paddedTotal_take_le _ _

end

variable {τ : Type} {s s' : FenceState τ} {l : τ} {q p : LanePc} {i : ℕ} {f : PlacedFrame}

theorem getElem?_of_grown (h : s.frames <+: s'.frames) (hi : i < s.frames.length) :
    s'.frames[i]? = s.frames[i]? := by
  obtain ⟨c, hc⟩ := h
  rw [← hc, getElem?_append_left hi]

/-- The bytes of a frame that the file holds stay there. -/
def KeepsFile (s s' : FenceState τ) (f : PlacedFrame) : Prop :=
  ∀ k, s.file.Holds f.offset ((f.image.take k).map some) →
    s'.file.Holds f.offset ((f.image.take k).map some)

theorem KeepsFile.written (h : KeepsFile s s' f) (hf : s.Written f) : s'.Written f := by
  have := h f.image.length
  rw [take_length] at this
  exact this hf

/-- A lane keeps what it knows when the frames stay, the file keeps its frame, settled frames stay
settled, and nobody else moves the frontier or the end sequence it is about to load. -/
theorem LaneOk.mono (h : s.LaneOk p) (hpre : s.frames <+: s'.frames) (hwork : ∀ g, p.working = some g →
      g < s.frames.length ∧ ∀ f, s.frames[g]? = some f → KeepsFile s s' f)
    (hfrontier : p.holdsFrontier = true → s'.durableFrontier = s.durableFrontier ∧
      s'.durableFrames = s.durableFrames ∧ s.durableFrontier ≤ s.frames.length)
    (hend : ∀ advanced, p = .loadEndSeq advanced → (s'.slot (advanced - 1)).endSeq = (s.slot (advanced - 1)).endSeq)
    (hset : ∀ i, s.Settled i → i < s.frames.length → s'.Settled i) : s'.LaneOk p := by
  have hlen : s.frames.length ≤ s'.frames.length := hpre.length_le
  have hscan : ∀ {advanced}, advanced ≤ s.frames.length → (∀ i < advanced, s.Settled i) →
      ∀ i < advanced, s'.Settled i :=
    fun hle hall i hi => hset i (hall i hi) (hi.trans_le hle)
  cases p with
  | claim claimed => exact lt_of_lt_of_le h hlen
  | loadPaddedLen g offset =>
    obtain ⟨hg, -⟩ := hwork g rfl
    intro f hf
    exact h f (getElem?_of_grown hpre hg ▸ hf)
  | pwrite g offset paddedLen written =>
    obtain ⟨hg, hkeep⟩ := hwork g rfl
    intro f hf
    rw [getElem?_of_grown hpre hg] at hf
    obtain ⟨rfl, hpad, hle, hfile⟩ := h f hf
    exact ⟨rfl, hpad, hle, hkeep f hf written hfile⟩
  | storeFenced g =>
    obtain ⟨hg, hkeep⟩ := hwork g rfl
    intro f hf
    rw [getElem?_of_grown hpre hg] at hf
    exact (hkeep f hf).written (h f hf)
  | scanPublished advanced | storeFrontier advanced =>
    obtain ⟨hf, -, -⟩ := hfrontier rfl
    obtain ⟨hle, hlen', hall⟩ := h
    exact ⟨hf.symm ▸ hle, hlen'.trans hlen, hscan hlen' hall⟩
  | scanFenced advanced =>
    obtain ⟨hf, -, -⟩ := hfrontier rfl
    obtain ⟨hle, hlen', hall⟩ := h
    exact ⟨hf.symm ▸ hle, hlen'.trans_le hlen, hscan hlen'.le hall⟩
  | storeDurableFrames advanced =>
    obtain ⟨hf, hd, -⟩ := hfrontier rfl
    obtain ⟨rfl, hlt⟩ := h
    exact ⟨hf.symm, hd.symm ▸ hlt⟩
  | loadEndSeq advanced =>
    obtain ⟨hf, -, hle⟩ := hfrontier rfl
    obtain ⟨rfl, hpos, hslot⟩ := h
    exact ⟨hf.symm, hpos, by rw [hend _ rfl, hslot, endSeqAt_of_grown hpre hle]⟩
  | loadDurableSeq endSeq | storeDurableSeq endSeq priorEnd =>
    obtain ⟨hf, -, hle⟩ := hfrontier rfl
    rw [LaneOk, hf, endSeqAt_of_grown hpre hle]
    exact h
  | _ => trivial

theorem Core.working_lt_length (h : s.Core) (hl : (s.lane l).working = some i) : i < s.frames.length :=
  (h.claims.lt l i hl).trans_le h.fenceCursor_le

/-! ### Steps that move one lane -/

variable {appender : AppenderPc} {durableFrames offset : ℕ}

section

variable [DecidableEq τ]

@[simp] theorem setLane_lane_self : (s.setLane l q).lane l = q := update_self ..

theorem setLane_lane_of_ne {l' : τ} (h : l' ≠ l) : (s.setLane l q).lane l' = s.lane l' := update_of_ne h ..

/-- A frame stays settled when the moving lane does not take it up. -/
theorem Settled.setLane (h : s.Settled i) (hgroups : s'.groups = s.groups) (hfile : s'.file = s.file)
    (hcursor : s.fenceCursor ≤ s'.fenceCursor) (hlane : s'.lane = (s.setLane l q).lane)
    (hq : q.working ≠ some i) : s'.Settled i where
  written := by
    intro f hf
    rw [frames, hgroups] at hf
    rw [Written, hfile]
    exact h.written f hf
  claimed := h.claimed.trans_le hcursor
  released := by
    intro l'
    rw [hlane]
    by_cases hl : l' = l
    · rw [hl, setLane_lane_self]
      exact hq
    · rw [setLane_lane_of_ne hl]
      exact h.released l'

/-- The step leaves the published groups, the file and the frontier alone, and settled frames settled. -/
structure Quiet (s s' : FenceState τ) : Prop where
  groups : s'.groups = s.groups
  file : s'.file = s.file
  durableFrontier : s'.durableFrontier = s.durableFrontier
  durableFrames : s'.durableFrames = s.durableFrames
  settled : ∀ i, s.Settled i → s'.Settled i

omit [DecidableEq τ] in
/-- Such a step keeps what a lane knows, unless it stores the end sequence that the lane is to load. -/
theorem Quiet.laneOk (hquiet : Quiet s s') (h : s.Core) (hp : s.LaneOk p)
    (hwork : ∀ g, p.working = some g → g < s.frames.length)
    (hend : ∀ advanced, p = .loadEndSeq advanced →
      (s'.slot (advanced - 1)).endSeq = (s.slot (advanced - 1)).endSeq) : s'.LaneOk p := by
  have hframes : s'.frames = s.frames := by rw [frames, hquiet.groups]; rfl
  refine hp.mono (by rw [hframes]) ?_ ?_ hend (fun i hi _ => hquiet.settled i hi)
  · intro g hg
    refine ⟨hwork g hg, fun f _ k hk => ?_⟩
    rw [hquiet.file]
    exact hk
  · exact fun _ => ⟨hquiet.durableFrontier, hquiet.durableFrames, h.durableFrontier_le⟩

omit [DecidableEq τ] in
theorem Quiet.lane (hquiet : Quiet s s') (h : s.Core) (hend : ∀ advanced, s.lane l = .loadEndSeq advanced →
      (s'.slot (advanced - 1)).endSeq = (s.slot (advanced - 1)).endSeq) : s'.LaneOk (s.lane l) :=
  hquiet.laneOk h (h.lanes l) (fun _ hg => h.working_lt_length hg) hend

omit [DecidableEq τ] in
theorem Quiet.settled_below (hquiet : Quiet s s') (h : s.Core) : ∀ i < s.durableFrontier, s'.Settled i :=
  fun i hi => hquiet.settled i (h.settled i hi)

omit [DecidableEq τ] in
theorem Quiet.fenced (hquiet : Quiet s s') (h : s.Core) (hlo : s.durableFrontier ≤ i)
    (hhi : i < s.frames.length) (hf : (s.slot i).fenced = true) : s'.Settled i :=
  hquiet.settled i (h.fenced i hlo hhi hf)

/-- What the lanes know after a step of one lane, from what the moving lane knows at its new place and what
the other lanes know. -/
theorem lanes_setLane (hlane : s'.lane = (s.setLane l q).lane) (hself : s'.LaneOk q)
    (hother : ∀ l', l' ≠ l → s'.LaneOk (s.lane l')) : ∀ l', s'.LaneOk (s'.lane l') := by
  intro l'
  rw [hlane]
  by_cases hl : l' = l
  · rw [hl, setLane_lane_self]
    exact hself
  · rw [setLane_lane_of_ne hl]
    exact hother l' hl

variable {cursor : ℕ} {lane : τ → LanePc}

theorem Claims.update (h : Claims cursor lane) (hwork : ∀ g, q.working = some g → (lane l).working = some g) :
    Claims cursor (Function.update lane l q) := by
  have horigin : ∀ l' i, (Function.update lane l q l').working = some i → (lane l').working = some i := by
    intro l' i hi
    by_cases hl : l' = l
    · rw [hl, update_self] at hi
      exact hl ▸ hwork i hi
    · rwa [update_of_ne hl] at hi
  exact ⟨fun l' i hi => h.lt l' i (horigin l' i hi),
    fun l₁ l₂ i h₁ h₂ => h.unique l₁ l₂ i (horigin l₁ i h₁) (horigin l₂ i h₂)⟩

/-- The frame at the cursor is new to every lane. -/
theorem Claims.claim (h : Claims cursor lane)
    (l : τ) : Claims (cursor + 1) (Function.update lane l (.loadFrameId cursor)) := by
  have hother : ∀ l' i, (Function.update lane l (.loadFrameId cursor) l').working = some i →
      l' = l ∧ i = cursor ∨ i < cursor ∧ (lane l').working = some i := by
    intro l' i hi
    by_cases hl : l' = l
    · rw [hl, update_self] at hi
      cases hi
      exact .inl ⟨hl, rfl⟩
    · rw [update_of_ne hl] at hi
      exact .inr ⟨h.lt l' i hi, hi⟩
  constructor
  · intro l' i hi
    rcases hother l' i hi with ⟨-, rfl⟩ | ⟨hlt, -⟩ <;> omega
  · intro l₁ l₂ i h₁ h₂
    rcases hother l₁ i h₁ with ⟨rfl, rfl⟩ | ⟨hlt₁, hw₁⟩
    · rcases hother l₂ i h₂ with ⟨rfl, -⟩ | ⟨hlt₂, -⟩
      · rfl
      · omega
    · rcases hother l₂ i h₂ with ⟨-, rfl⟩ | ⟨-, hw₂⟩
      · omega
      · exact h.unique l₁ l₂ i hw₁ hw₂

section

variable (h : s.Core) (hok : s.LaneOk q) (hwork : ∀ g, q.working = some g → (s.lane l).working = some g)
include h hok hwork

/-- A lane moves without taking up a frame; it may take or drop the frontier's lock. -/
theorem Core.moveLane {owner : Option τ}
    (hown : OwnerStep l (s.lane l).holdsFrontier q.holdsFrontier s.frontierLock owner) :
    Core { s.setLane l q with frontierLock := owner } := by
  have hquiet : Quiet s { s.setLane l q with frontierLock := owner } := ⟨rfl, rfl, rfl, rfl, fun i hi =>
    hi.setLane (l := l) rfl rfl le_rfl rfl fun hq => hi.released l (hwork i hq)⟩
  exact { h with
    settled := hquiet.settled_below h
    fenced := fun _ => hquiet.fenced h
    claims := h.claims.update hwork
    holder := h.holder.update hown
    lanes := by
      refine lanes_setLane rfl ?_ ?_
      · exact hquiet.laneOk h hok (fun g hg => h.working_lt_length (hwork g hg)) fun _ _ => rfl
      · exact fun _ _ => hquiet.lane h fun _ _ => rfl }

/-- A lane moves and neither takes up a frame nor changes who holds the frontier. -/
theorem Core.setLane (hhold : q.holdsFrontier = (s.lane l).holdsFrontier) : (s.setLane l q).Core :=
  h.moveLane hok hwork (hhold ▸ .keep)

end

/-- A lane without a frame moves on. -/
theorem Core.moveOn (h : s.Core) (hl : s.lane l = p) (hok : s.LaneOk q) (hwork : q.working = none)
    (hhold : q.holdsFrontier = p.holdsFrontier) : (s.setLane l q).Core :=
  h.setLane hok (by simp [hwork]) (hl ▸ hhold)

/-- A lane moves on with its frame. -/
theorem Core.moveWork (h : s.Core) (hl : s.lane l = p) (hok : s.LaneOk q)
    (hwork : q.working = p.working) (hhold : q.holdsFrontier = p.holdsFrontier) : (s.setLane l q).Core :=
  h.setLane hok (by rw [hl, hwork]; exact fun _ => id) (hl ▸ hhold)

omit [DecidableEq τ] in
/-- The invariant does not look at the counters and flags that only report. -/
theorem Core.setFlags (h : s.Core) {fences : ℕ} {finished failed fault : Bool} :
    Core { s with
      fencesCompleted := fences
      publishingFinished := finished
      fenceFailed := failed
      fixedFault := fault
      appender := appender } := by
  have hquiet : Quiet s { s with
      fencesCompleted := fences
      publishingFinished := finished
      fenceFailed := failed
      fixedFault := fault
      appender := appender } :=
    ⟨rfl, rfl, rfl, rfl, fun i hi => ⟨hi.written, hi.claimed, hi.released⟩⟩
  exact { h with
    settled := hquiet.settled_below h
    fenced := fun _ => hquiet.fenced h
    lanes := fun _ => hquiet.lane h fun _ _ => rfl }

/-- The compare-exchange of `fence_cursor` gives the lane a frame that nobody else works on. -/
theorem Core.claim (h : s.Core) {claimed : ℕ} (hl : s.lane l = .claim claimed) (hcursor : s.fenceCursor = claimed) :
    Core { s.setLane l (.loadFrameId claimed) with fenceCursor := claimed + 1 } := by
  have hok : s.LaneOk (.claim claimed) := hl ▸ h.lanes l
  have hclaimed : claimed < s.frames.length := hok
  have hquiet : Quiet s { s.setLane l (.loadFrameId claimed) with fenceCursor := claimed + 1 } := by
    refine ⟨rfl, rfl, rfl, rfl, fun i hi => hi.setLane rfl rfl ?_ rfl ?_⟩
    · show s.fenceCursor ≤ claimed + 1
      omega
    · intro heq
      have hlt := hi.claimed
      cases heq
      omega
  exact { h with
    fenceCursor_le := hclaimed
    settled := hquiet.settled_below h
    fenced := fun _ => hquiet.fenced h
    claims := hcursor ▸ h.claims.claim l
    holder := h.holder.update (by rw [hl]; exact .keep)
    lanes := lanes_setLane rfl trivial fun _ _ => hquiet.lane h fun _ _ => rfl }

omit [DecidableEq τ] in
theorem Core.frontier_le_working (h : s.Core) (hl : (s.lane l).working = some i) : s.durableFrontier ≤ i := by
  by_contra hlt
  exact (h.settled i (not_le.mp hlt)).released l hl

omit [DecidableEq τ] in
/-- Frames from the frontier on that share a slot are one frame. -/
theorem Core.eq_of_ringIndex_eq (h : s.Core) (hi : s.durableFrontier ≤ i)
    (hi' : i < s.frames.length) (hj : s.durableFrontier ≤ j) (hj' : j < s.frames.length)
    (heq : ringIndex i = ringIndex j) : i = j := by
  have hring := h.ring
  have hle := h.durableFrames_le
  rcases lt_trichotomy i j with hlt | rfl | hlt
  · exact absurd heq (ringIndex_ne hlt (by omega))
  · rfl
  · exact absurd heq.symm (ringIndex_ne hlt (by omega))

/-- Setting a `fenced` flag changes no other field of any slot. -/
theorem modifySlot_fenced (slots : ℕ → FrameSlot) (g j : ℕ) (flag : Bool) :
    ∃ b, modifySlot slots g (fun slot => { slot with fenced := flag }) j = { slots j with fenced := b } := by
  by_cases hj : j = ringIndex g
  · exact ⟨flag, by rw [hj, modifySlot_self]⟩
  · exact ⟨(slots j).fenced, by rw [modifySlot_of_ne _ _ hj]⟩

variable {g : ℕ}

/-- A lane that has written its frame marks it. -/
theorem Core.storeFenced (h : s.Core) (hl : s.lane l = .storeFenced g) :
    Core { s.setLane l .countFence with
      slots := modifySlot s.slots g fun slot => { slot with fenced := true } } := by
  have hwork : (s.lane l).working = some g := by rw [hl]; rfl
  have hok : s.LaneOk (.storeFenced g) := hl ▸ h.lanes l
  have hg := h.working_lt_length hwork
  have hfrontier := h.frontier_le_working hwork
  have hquiet : Quiet s { s.setLane l .countFence with
      slots := modifySlot s.slots g fun slot => { slot with fenced := true } } :=
    ⟨rfl, rfl, rfl, rfl, fun i hi => hi.setLane rfl rfl le_rfl rfl (by simp [LanePc.working])⟩
  have hsetg : Settled { s.setLane l .countFence with
      slots := modifySlot s.slots g fun slot => { slot with fenced := true } } g := by
    refine ⟨hok, h.claims.lt l g hwork, ?_⟩
    intro l' hl'
    by_cases heq : l' = l
    · rw [heq, setLane_lane_self] at hl'
      cases hl'
    · rw [setLane_lane_of_ne heq] at hl'
      exact heq (h.claims.unique l' l g hl' hwork)
  exact { h with
    slots := by
      intro i f hi hf
      obtain ⟨b, hb⟩ := modifySlot_fenced s.slots g (ringIndex i) true
      have hdesc := h.slots i f hi hf
      simp only [slot] at hdesc ⊢
      rw [hb]
      exact ⟨hdesc.frameId, hdesc.offset, hdesc.paddedLen, hdesc.endSeq⟩
    settled := hquiet.settled_below h
    fenced := by
      intro i hlo hhi hf
      by_cases heq : ringIndex i = ringIndex g
      · rw [h.eq_of_ringIndex_eq hlo hhi hfrontier hg heq]
        exact hsetg
      · simp only [slot] at hf
        rw [modifySlot_of_ne _ _ heq] at hf
        exact hquiet.fenced h hlo hhi hf
    claims := h.claims.update fun _ hg => by cases hg
    holder := h.holder.update (by rw [hl]; exact .keep)
    lanes := by
      refine lanes_setLane rfl trivial fun _ _ => hquiet.lane h fun advanced _ => ?_
      obtain ⟨b, hb⟩ := modifySlot_fenced s.slots g (ringIndex (advanced - 1)) true
      simp only [slot]
      rw [hb] }

/-- What lanes other than the holder know does not depend on the frontier. -/
theorem Core.lanes_of_holder (h : s.Core) {l' : τ} (hne : l' ≠ l)
    (hl : (s.lane l).holdsFrontier = true) {frontier : ℕ}
    (hq : q.working = none) :
    LaneOk { s.setLane l q with durableFrontier := frontier, durableFrames := durableFrames } (s.lane l') := by
  refine (h.lanes l').mono (prefix_refl _)
    (fun g hg => ⟨h.working_lt_length hg, fun _ _ _ => id⟩) ?_ (fun _ _ => rfl) ?_
  · intro hold
    exact absurd (h.holder.unique hold hl) hne
  · exact fun i hi _ => hi.setLane rfl rfl le_rfl rfl (by simp [hq])

variable {advanced : ℕ} {written : ℕ}

/-- The holder moves the frontier over settled frames. -/
theorem Core.storeFrontier (h : s.Core) (hl : s.lane l = .storeFrontier advanced)
    (hne : advanced ≠ s.durableFrontier) :
    Core { s.setLane l (.storeDurableFrames advanced) with durableFrontier := advanced } := by
  have hok : s.LaneOk (.storeFrontier advanced) := hl ▸ h.lanes l
  obtain ⟨hle, hlen, hall⟩ := hok
  have hold : (s.lane l).holdsFrontier = true := by rw [hl]; rfl
  have hset : ∀ i, s.Settled i →
      Settled { s.setLane l (.storeDurableFrames advanced) with durableFrontier := advanced } i :=
    fun i hi => hi.setLane rfl rfl le_rfl rfl (by simp [LanePc.working])
  exact { h with
    durableFrames_le := h.durableFrames_le.trans hle
    durableFrontier_le := hlen
    settled := fun i hi => hset i (hall i hi)
    fenced := fun i hlo hhi hf => hset i (h.fenced i (hle.trans hlo) hhi hf)
    claims := h.claims.update fun _ hg => by cases hg
    holder := h.holder.update (by rw [hl]; exact .keep)
    lanes := by
      have hlt : s.durableFrames < advanced := by
        have := h.durableFrames_le
        omega
      exact lanes_setLane rfl ⟨rfl, hlt⟩ fun _ hl' => h.lanes_of_holder hl' hold rfl
    durable := h.durable.trans (endSeqAt_mono h.layout.ordered hle hlen) }

/-- The holder publishes `durable_frames`; the slot of the last durable frame still describes it. -/
theorem Core.storeDurableFrames (h : s.Core) (hl : s.lane l = .storeDurableFrames advanced) :
    Core { s.setLane l (.loadEndSeq advanced) with durableFrames := advanced } := by
  have hok : s.LaneOk (.storeDurableFrames advanced) := hl ▸ h.lanes l
  obtain ⟨rfl, hlt⟩ := hok
  have hold : (s.lane l).holdsFrontier = true := by rw [hl]; rfl
  have hset : ∀ i, s.Settled i → Settled { s.setLane l (.loadEndSeq s.durableFrontier) with
      durableFrames := s.durableFrontier } i :=
    fun i hi => hi.setLane rfl rfl le_rfl rfl (by simp [LanePc.working])
  have hring := h.ring
  exact { h with
    durableFrames_le := le_refl _
    ring := by
      show s.frames.length ≤ s.durableFrontier + frameSlots
      omega
    slots := fun i f hi hf => h.slots i f (h.durableFrames_le.trans hi) hf
    settled := fun i hi => hset i (h.settled i hi)
    fenced := fun i hlo hhi hf => hset i (h.fenced i hlo hhi hf)
    claims := h.claims.update fun _ hg => by cases hg
    holder := h.holder.update (by rw [hl]; exact .keep)
    lanes := by
      refine lanes_setLane rfl ⟨rfl, by omega, ?_⟩ fun _ hl' => h.lanes_of_holder hl' hold rfl
      obtain ⟨k, hk⟩ : ∃ k, s.durableFrontier = k + 1 := ⟨s.durableFrontier - 1, by omega⟩
      have hlen := h.durableFrontier_le
      have hget : s.frames[k]? = some s.frames[k] := getElem?_eq_getElem (by omega)
      have hdesc := h.slots k _ (by omega) hget
      rw [hk]
      show (s.slot k).endSeq = endSeqAt s.frames (k + 1)
      rw [hdesc.endSeq, endSeqAt, hget]
      rfl }

/-- The holder raises `durable_seq` to the end of the last durable frame. -/
theorem Core.storeDurableSeq (h : s.Core) {endSeq priorEnd : ℕ} (hl : s.lane l = .storeDurableSeq endSeq priorEnd) :
    Core { s.setLane l .unlockFrontier with durableSeq := max priorEnd endSeq } := by
  have hok : s.LaneOk (.storeDurableSeq endSeq priorEnd) := hl ▸ h.lanes l
  obtain ⟨hend, hprior⟩ := hok
  have hmove : (s.setLane l .unlockFrontier).Core := h.moveOn hl trivial rfl rfl
  have hquiet : Quiet (s.setLane l .unlockFrontier)
      { s.setLane l .unlockFrontier with durableSeq := max priorEnd endSeq } :=
    ⟨rfl, rfl, rfl, rfl, fun i hi => ⟨hi.written, hi.claimed, hi.released⟩⟩
  exact { hmove with
    settled := hquiet.settled_below hmove
    fenced := fun _ => hquiet.fenced hmove
    lanes := fun _ => hquiet.lane hmove fun _ _ => rfl
    durable := max_le hprior hend }

/-- A `pwrite` extends the written part of the lane's own frame. -/
theorem holds_pwrite {file : Memory (Option UInt8)} {staging : Memory UInt8}
    (hstaged : staging.Holds f.offset f.image) (hn : written + n ≤ f.paddedLen)
    (hfile : file.Holds f.offset ((f.image.take written).map some)) :
    (file.write (f.offset + written) ((staging.read (f.offset + written) n).map some)).Holds f.offset
      ((f.image.take (written + n)).map some) := by
  have hlen := f.length_image
  have hread : staging.read (f.offset + written) n = (f.image.drop written).take n := by
    have hsplit : f.image = f.image.take written ++ ((f.image.drop written).take n ++
        (f.image.drop written).drop n) := by
      rw [take_append_drop, take_append_drop]
    rw [hsplit, Memory.holds_append, Memory.holds_append] at hstaged
    have hpart := hstaged.2.1
    rw [length_take_of_le (by omega)] at hpart
    have hpartlen : ((f.image.drop written).take n).length = n := by
      rw [length_take, length_drop]
      omega
    have := hpart.read_eq
    rwa [hpartlen] at this
  rw [hread, take_add, map_append, Memory.holds_append]
  constructor
  · apply hfile.write_of_disjoint
    left
    rw [length_map, length_take_of_le (by omega)]
  · rw [length_map, length_take_of_le (by omega)]
    exact Memory.holds_write

/-- It does not touch the other frames. -/
theorem Core.keepsFile_pwrite (h : s.Core) (hg : s.frames[g]? = some f) (hi : s.frames[i]? = some f') (hne : i ≠ g)
    (hn : written + n ≤ f.paddedLen) {cells : List (Option UInt8)} (hcells : cells.length = n) :
    KeepsFile s { s.setLane l q with file := s.file.write (f.offset + written) cells } f' := by
  intro k hk
  apply hk.write_of_disjoint
  have hlen : ((f'.image.take k).map some).length ≤ f'.paddedLen := by
    rw [length_map, length_take, f'.length_image]
    exact min_le_right _ _
  rw [hcells]
  rcases lt_or_gt_of_ne hne with hlt | hlt
  · have := h.layout.before hi hg hlt
    exact .inl (by omega)
  · have := h.layout.before hg hi hlt
    exact .inr (by omega)

theorem Core.pwrite (h : s.Core) {paddedLen : ℕ}
    (hl : s.lane l = .pwrite g offset paddedLen written) (hn : written + n ≤ paddedLen) :
    Core { s.setLane l (.pwrite g offset paddedLen (written + n)) with
      file := s.file.write (offset + written) ((s.staging.read (offset + written) n).map some) } := by
  have hwork : (s.lane l).working = some g := by rw [hl]; rfl
  have hok : s.LaneOk (.pwrite g offset paddedLen written) := hl ▸ h.lanes l
  have hglen := h.working_lt_length hwork
  have hget : s.frames[g]? = some s.frames[g] := getElem?_eq_getElem hglen
  obtain ⟨rfl, rfl, hle, hfile⟩ := hok _ hget
  have hstaged := h.staged _ (mem_of_getElem? hget)
  have hcells : ((s.staging.read (s.frames[g].offset + written) n).map some).length = n := by simp
  have hset : ∀ i, s.Settled i → Settled { s.setLane l
      (.pwrite g s.frames[g].offset s.frames[g].paddedLen (written + n)) with
      file := s.file.write (s.frames[g].offset + written)
        ((s.staging.read (s.frames[g].offset + written) n).map some) } i := by
    intro i hi
    have hne : i ≠ g := by
      rintro rfl
      exact hi.released l hwork
    have hi' : (s.setLane l (.pwrite g s.frames[g].offset s.frames[g].paddedLen (written + n))).Settled i :=
      hi.setLane rfl rfl le_rfl rfl (by simp [LanePc.working, Ne.symm hne])
    refine ⟨?_, hi'.claimed, hi'.released⟩
    intro f hf
    exact (h.keepsFile_pwrite hget hf hne hn hcells).written (hi.written f hf)
  exact { h with
    settled := fun i hi => hset i (h.settled i hi)
    fenced := fun i hlo hhi hf => hset i (h.fenced i hlo hhi hf)
    claims := h.claims.update fun _ hg => by rw [hwork]; exact hg
    holder := h.holder.update (by rw [hl]; exact .keep)
    lanes := by
      refine lanes_setLane rfl ?_ ?_
      · intro f hf
        obtain rfl : s.frames[g] = f := Option.some.inj (hget.symm.trans hf)
        exact ⟨rfl, rfl, hn, holds_pwrite hstaged hn hfile⟩
      · intro l' hl'
        refine (h.lanes l').mono (prefix_refl _) ?_
          (fun _ => ⟨rfl, rfl, h.durableFrontier_le⟩) (fun _ _ => rfl) (fun i hi _ => hset i hi)
        intro g' hg'
        refine ⟨h.working_lt_length hg', fun f hf => h.keepsFile_pwrite hget hf ?_ hn hcells⟩
        rintro rfl
        exact hl' (h.claims.unique l' l g' hg' hwork) }

omit [DecidableEq τ] in
theorem Core.describes_working (h : s.Core) (hl : (s.lane l).working = some i)
    (hf : s.frames[i]? = some f) : (s.slot i).Describes f :=
  h.slots i f (h.durableFrames_le.trans (h.frontier_le_working hl)) hf

/-- Every step of a lane outside its write loop keeps the invariant. -/
theorem Core.laneStep {log : FrameLogGeometry} (h : s.Core) (hs : s.laneStep log l = some s') : s'.Core := by
  have hok := h.lanes l
  unfold FenceState.laneStep at hs
  cases hl : s.lane l <;> rw [hl] at hok <;> simp only [hl, Option.some.injEq] at hs
  case checkFault | checkFinished =>
    subst hs
    split <;> exact h.moveOn hl trivial rfl rfl
  case loadCursor =>
    subst hs
    exact h.moveOn hl trivial rfl rfl
  case loadPublished claimed =>
    subst hs
    split
    · rename_i hlt
      refine h.moveOn hl ?_ rfl rfl
      exact hlt.trans_eq h.layout.published
    · exact h.moveOn hl trivial rfl rfl
  case claim claimed =>
    split at hs
    · rename_i hcursor
      cases hs
      exact h.claim hl hcursor
    · cases hs
      exact h.moveOn hl trivial rfl rfl
  case loadFrameId g =>
    subst hs
    split
    · exact h.moveWork hl trivial rfl rfl
    · exact h.moveOn hl trivial rfl rfl
  case loadOffset g =>
    subst hs
    refine h.moveWork hl ?_ rfl rfl
    intro f hf
    exact (h.describes_working (l := l) (by rw [hl]; rfl) hf).offset
  case loadPaddedLen g offset =>
    split at hs
    · cases hs
      exact h.moveOn hl trivial rfl rfl
    · cases hs
      refine h.moveWork hl ?_ rfl rfl
      intro f hf
      have hdesc := h.describes_working (l := l) (by rw [hl]; rfl) hf
      exact ⟨hok f hf, hdesc.paddedLen, Nat.zero_le _, by simp⟩
  case pwrite g offset paddedLen written =>
    split at hs
    · cases hs
    · rename_i hge
      cases hs
      refine h.moveWork hl ?_ rfl rfl
      intro f hf
      obtain ⟨rfl, rfl, hle, hfile⟩ := hok f hf
      rw [take_of_length_le (by rw [f.length_image]; omega)] at hfile
      exact hfile
  case storeFenced g =>
    subst hs
    exact h.storeFenced hl
  case countFence =>
    subst hs
    exact (h.moveOn (q := .lockFrontier) hl trivial rfl rfl).setFlags
  case lockFrontier =>
    split at hs
    · rename_i hfree
      cases hs
      refine h.moveLane (q := .scanPublished s.durableFrontier)
        ⟨le_refl _, h.durableFrontier_le, h.settled⟩ (fun _ hg => by cases hg) ?_
      rw [hl]
      exact .acquire hfree
    · cases hs
  case scanPublished advanced =>
    obtain ⟨hle, hlen, hall⟩ := hok
    subst hs
    split
    · rename_i hlt
      exact h.moveOn hl ⟨hle, hlt.trans_eq h.layout.published, hall⟩ rfl rfl
    · exact h.moveOn hl ⟨hle, hlen, hall⟩ rfl rfl
  case scanFenced advanced =>
    obtain ⟨hle, hlen, hall⟩ := hok
    subst hs
    split
    · rename_i hfenced
      refine h.moveOn hl ⟨by omega, hlen, ?_⟩ rfl rfl
      intro i hi
      rcases Nat.lt_succ_iff_lt_or_eq.mp hi with hi | rfl
      · exact hall i hi
      · exact h.fenced i hle hlen hfenced
    · exact h.moveOn hl ⟨hle, hlen.le, hall⟩ rfl rfl
  case storeFrontier advanced =>
    split at hs
    · cases hs
      exact h.moveOn hl trivial rfl rfl
    · rename_i hne
      cases hs
      exact h.storeFrontier hl hne
  case storeDurableFrames advanced =>
    subst hs
    exact h.storeDurableFrames hl
  case loadEndSeq advanced =>
    obtain ⟨rfl, -, hend⟩ := hok
    subst hs
    exact h.moveOn hl hend.le rfl rfl
  case loadDurableSeq endSeq =>
    subst hs
    exact h.moveOn hl ⟨hok, h.durable⟩ rfl rfl
  case storeDurableSeq endSeq priorEnd =>
    subst hs
    exact h.storeDurableSeq hl
  case unlockFrontier =>
    subst hs
    refine h.moveLane (q := .checkFault) trivial (fun _ hg => by cases hg) ?_
    rw [hl]
    exact .release
  case installFault =>
    subst hs
    exact (h.moveOn (q := .storeFenceFailed) hl trivial rfl rfl).setFlags
  case storeFenceFailed =>
    subst hs
    exact (h.moveOn (q := .storeFinished) hl trivial rfl rfl).setFlags
  case storeFinished =>
    subst hs
    exact (h.moveOn (q := .failed) hl trivial rfl rfl).setFlags
  case failed | exited => cases hs

end

/-! ### Steps of the appender -/

variable {log : FrameLogGeometry} {op : AppenderOp} {ops : List AppenderOp} {g : PlacedGroup} {n : ℕ}

theorem runOp_endSeq {m : (ℕ → FrameSlot) × Memory UInt8}
    (h : ∀ f e, op = .storeEndSeq f e → j ≠ ringIndex f) :
    ((runOp op m).1 j).endSeq = (m.1 j).endSeq := by
  have hmodify : ∀ (f : ℕ) (change : FrameSlot → FrameSlot), (∀ slot, (change slot).endSeq = slot.endSeq) →
        (modifySlot m.1 f change j).endSeq = (m.1 j).endSeq := by
    intro f change hchange
    by_cases hj : j = ringIndex f
    · rw [hj, modifySlot_self, hchange]
    · rw [modifySlot_of_ne _ _ hj]
  cases op with
  | stage offset bytes => rfl
  | storeEndSeq f e =>
    dsimp only [runOp]
    rw [modifySlot_of_ne _ _ (h f e rfl)]
  | _ => exact hmodify _ _ fun _ => rfl

/-- A store for frames behind the published ones spares the slots from `durable_frames` on. -/
theorem sparesSlot_of_within {first : ℕ} (h : op.Within first n offset)
    (hn : first + n ≤ durableFrames + frameSlots) (hj : durableFrames ≤ j) (hj' : j < first) :
    op.SparesSlot (ringIndex j) := by
  cases op with
  | stage offset bytes => trivial
  | _ => exact ringIndex_ne (by exact hj'.trans_le h.1) (by have := h.2; omega)

theorem sparesStaging_of_within {first off len : ℕ} (h : op.Within first n offset)
    (hoff : off + len ≤ offset) : op.SparesStaging off len := by
  cases op with
  | stage offset' bytes => exact .inl (hoff.trans h)
  | _ => trivial

/-- A store of the appender touches nothing that a published frame still needs. -/
theorem Core.runOp (h : s.Core) (hop : op.Within s.frames.length n s.cursor.nextOffset)
    (hn : s.frames.length + n ≤ s.durableFrames + frameSlots)
    (hcalm : ∀ f e, op = .storeEndSeq f e → ∀ l advanced, s.lane l = .loadEndSeq advanced →
      ringIndex (advanced - 1) ≠ ringIndex f) :
    Core { s with
      slots := (runOp op (s.slots, s.staging)).1
      staging := (runOp op (s.slots, s.staging)).2
      appender := appender } := by
  have hslot : ∀ i, s.durableFrames ≤ i → i < s.frames.length →
      (FenceState.runOp op (s.slots, s.staging)).1 (ringIndex i) = s.slots (ringIndex i) :=
    fun i hlo hhi => runOp_slot (sparesSlot_of_within hop hn hlo hhi)
  have hquiet : Quiet s { s with
      slots := (FenceState.runOp op (s.slots, s.staging)).1
      staging := (FenceState.runOp op (s.slots, s.staging)).2
      appender := appender } :=
    ⟨rfl, rfl, rfl, rfl, fun i hi => ⟨hi.written, hi.claimed, hi.released⟩⟩
  exact { h with
    slots := by
      intro i f hi hf
      have hlen : i < s.frames.length := (getElem?_eq_some_iff.mp hf).1
      have hdesc := h.slots i f hi hf
      simp only [slot] at hdesc ⊢
      rwa [hslot i hi hlen]
    staged := by
      intro f hf
      obtain ⟨i, hi, rfl⟩ := getElem_of_mem hf
      apply runOp_staging _ (h.staged _ hf)
      rw [PlacedFrame.length_image]
      exact sparesStaging_of_within hop (h.layout.le_nextOffset (getElem?_eq_getElem hi))
    settled := hquiet.settled_below h
    fenced := by
      intro i hlo hhi hf
      simp only [slot] at hf
      rw [hslot i (h.durableFrames_le.trans hlo) hhi] at hf
      exact hquiet.fenced h hlo hhi hf
    lanes := fun l => hquiet.lane h fun advanced hadv =>
      runOp_endSeq fun f e he => hcalm f e he l advanced hadv }

/-- The published groups with one more behind them. -/
theorem Layout.append (h : Layout groups cursor published) (hg : g.Lies cursor)
    (hseq : (groups.getLast?.map PlacedGroup.lastSeq).getD 0 ≤ g.firstSeq) :
    Layout (groups ++ [g]) ⟨cursor.nextFrame + g.frames.length, cursor.nextOffset + paddedTotal g.frames⟩
      (cursor.nextFrame + g.frames.length) := by
  have hframes : (groups ++ [g]).flatMap PlacedGroup.frames =
      groups.flatMap PlacedGroup.frames ++ g.frames := by simp
  have hrange : g.firstSeq ≤ g.lastSeq := by
    obtain ⟨f, rest, hf⟩ := exists_cons_of_ne_nil hg.frames_ne
    have hmem : f ∈ g.frames := by rw [hf]; exact mem_cons_self
    rw [← hg.firstSeq_eq f hmem]
    exact (Nat.le_add_right _ _).trans (hg.endSeq_le f hmem)
  constructor
  · rw [hframes, length_append, h.nextFrame]
  · rw [hframes, length_append, ← h.nextFrame]
  · rw [hframes, paddedTotal_append, ← h.nextOffset]
  · intro i f hf
    rw [hframes] at hf ⊢
    by_cases hi : i < (groups.flatMap PlacedGroup.frames).length
    · rw [getElem?_append_left hi] at hf
      rw [take_append_of_le_length hi.le]
      exact h.place i f hf
    · rw [getElem?_append_right (by omega)] at hf
      obtain ⟨hid, hoff⟩ := hg.place _ f hf
      have hnext := h.nextFrame
      refine ⟨by omega, ?_⟩
      rw [hoff, h.nextOffset, take_append, paddedTotal_append, take_of_length_le (not_lt.mp hi)]
  · rw [hframes, pairwise_append]
    refine ⟨h.ordered, hg.ordered, ?_⟩
    intro a ha b hb
    rw [hg.firstSeq_eq b hb]
    exact (h.endSeq_le a ha).trans hseq
  · intro f hf
    rw [hframes, mem_append] at hf
    rw [getLast?_append]
    rcases hf with hf | hf
    · exact ((h.endSeq_le f hf).trans hseq).trans hrange
    · exact hg.endSeq_le f hf
  · intro g' hg' f hf
    rcases mem_append.mp hg' with hg' | hg'
    · exact h.firstSeq_eq g' hg' f hf
    · obtain rfl := mem_singleton.mp hg'
      exact hg.firstSeq_eq f hf

/-- The release store publishes a group whose stores are all done. -/
theorem Core.release (h : s.Core) (hg : g.Lies s.cursor) (hseq : s.lastSeq ≤ g.firstSeq)
    (hring : s.frames.length + g.frames.length ≤ s.durableFrames + frameSlots)
    (hdone : Completes [] g.frames (s.slots, s.staging)) : (s.release g).Core := by
  have hframes : (s.release g).frames = s.frames ++ g.frames := by
    simp [FenceState.release, frames]
  have hpre : s.frames <+: (s.release g).frames := hframes ▸ prefix_append _ _
  have hlen : (s.release g).frames.length = s.frames.length + g.frames.length := by
    rw [hframes, length_append]
  -- a frame of the new group stands where the group's stores put it
  have hnew : ∀ i f, s.frames.length ≤ i → (s.release g).frames[i]? = some f → f ∈ g.frames ∧
    f.frameId = i := by
    intro i f hi hf
    rw [hframes, getElem?_append_right hi] at hf
    have hid := (hg.place _ f hf).1
    rw [h.layout.nextFrame] at hid
    refine ⟨mem_of_getElem? hf, ?_⟩
    change f.frameId = s.frames.length + (i - s.frames.length) at hid
    omega
  have hset : ∀ i, s.Settled i → (s.release g).Settled i := by
    intro i hi
    refine ⟨?_, hi.claimed, hi.released⟩
    intro f hf
    rw [getElem?_of_grown hpre (hi.claimed.trans_le h.fenceCursor_le)] at hf
    exact hi.written f hf
  exact
    { layout := h.layout.append hg hseq
      durableFrames_le := h.durableFrames_le
      durableFrontier_le := by
        rw [hlen]
        exact h.durableFrontier_le.trans (Nat.le_add_right _ _)
      fenceCursor_le := by
        rw [hlen]
        exact h.fenceCursor_le.trans (Nat.le_add_right _ _)
      ring := by
        rw [hlen]
        exact hring
      slots := by
        intro i f hi hf
        by_cases hold : i < s.frames.length
        · rw [getElem?_of_grown hpre hold] at hf
          exact h.slots i f hi hf
        · obtain ⟨hmem, rfl⟩ := hnew i f (not_lt.mp hold) hf
          exact (hdone f hmem).1
      staged := by
        intro f hf
        rw [hframes, mem_append] at hf
        rcases hf with hf | hf
        · exact h.staged f hf
        · exact (hdone f hf).2.2
      settled := fun i hi => hset i (h.settled i hi)
      fenced := by
        intro i hlo hhi hf
        by_cases hold : i < s.frames.length
        · exact hset i (h.fenced i hlo hold hf)
        · obtain ⟨hmem, hid⟩ := hnew i _ (not_lt.mp hold) (getElem?_eq_getElem hhi)
          have hunset := (hdone _ hmem).2.1
          rw [hid] at hunset
          change (s.slots (ringIndex i)).fenced = true at hf
          change (s.slots (ringIndex i)).fenced = false at hunset
          rw [hunset] at hf
          cases hf
      claims := h.claims
      holder := h.holder
      lanes := fun l => (h.lanes l).mono hpre (fun g hg => ⟨h.working_lt_length hg, fun _ _ _ => id⟩)
        (fun _ => ⟨rfl, rfl, h.durableFrontier_le⟩) (fun _ _ => rfl) (fun i hi _ => hset i hi)
      durable := by
        show s.durableSeq ≤ endSeqAt (s.release g).frames s.durableFrontier
        rw [endSeqAt_of_grown hpre h.durableFrontier_le]
        exact h.durable }

end FenceState

end ThunderboltDb.WriteConveyor
