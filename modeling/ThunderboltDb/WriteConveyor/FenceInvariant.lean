import ThunderboltDb.Lib.Ownership
import ThunderboltDb.WriteConveyor.FenceSystem

/-!
# What the threads of a frame log keep

`FenceState.Core` is the invariant of the shared state and of the lanes. Its centre is who owns what:

* a slot belongs to the newest frame of its residue from `durable_frames` on (`slots`), so the appender
  may reuse it only behind `durable_frames` (`ring`);
* a frame between claim and `fenced` store belongs to one lane (`Claims`); a frame whose flag
  is set, or that lies below the frontier, belongs to no lane any more and is written (`Settled`);
* the frontier belongs to the holder of its lock (`holder`), whose scan only passes settled frames.

`AppenderOk` says of the appender in the middle of a call that its remaining stores complete the group
(`Completes`) and touch nothing but the group's own slots and the staging behind the cursor (`Within`).
-/

namespace ThunderboltDb.WriteConveyor

open Lib List

variable {cursor : AppenderCursor}

/-- The frame a lane has claimed and not yet marked as fenced. -/
def LanePc.working : LanePc → Option ℕ
  | .loadFrameId f => some f
  | .loadOffset f => some f
  | .loadPaddedLen f _ => some f
  | .pwrite f _ _ _ => some f
  | .storeFenced f => some f
  | _ => none

def LanePc.holdsFrontier : LanePc → Bool
  | .scanPublished _ => true
  | .scanFenced _ => true
  | .storeFrontier _ => true
  | .storeDurableFrames _ => true
  | .loadEndSeq _ => true
  | .loadDurableSeq _ => true
  | .storeDurableSeq _ _ => true
  | .unlockFrontier => true
  | _ => false

/-- The end sequence of the last of the first `n` frames. -/
def endSeqAt (frames : List PlacedFrame) : ℕ → ℕ
  | 0 => 0
  | n + 1 => ((frames[n]?).map PlacedFrame.endSeq).getD 0

structure FrameSlot.Describes (slot : FrameSlot) (f : PlacedFrame) : Prop where
  frameId : slot.frameId = f.frameId
  offset : slot.offset = f.offset
  paddedLen : slot.paddedLen = f.paddedLen
  endSeq : slot.endSeq = f.endSeq

/-- The store touches only slots of the `n` frames from `firstFrame` on, and staging from `nextOffset`
on. -/
def AppenderOp.Within (firstFrame n nextOffset : ℕ) : AppenderOp → Prop
  | .stage offset _ => nextOffset ≤ offset
  | .storeFenced f => firstFrame ≤ f ∧ f < firstFrame + n
  | .storeFrameId f => firstFrame ≤ f ∧ f < firstFrame + n
  | .storeOffset f _ => firstFrame ≤ f ∧ f < firstFrame + n
  | .storePaddedLen f _ => firstFrame ≤ f ∧ f < firstFrame + n
  | .storeEndSeq f _ => firstFrame ≤ f ∧ f < firstFrame + n

namespace FenceState

variable {τ : Type} {s s' : FenceState τ} {l : τ} {pc : LanePc} {i : ℕ} {f : PlacedFrame}

/-- The frame has been completely written to the file. -/
def Written (s : FenceState τ) (f : PlacedFrame) : Prop := s.file.Holds f.offset (f.image.map some)

/-- The end of the sequences of the last published group. -/
def lastSeq (s : FenceState τ) : ℕ := (s.groups.getLast?.map PlacedGroup.lastSeq).getD 0

/-- The frame is written and no lane works on it any more. -/
structure Settled (s : FenceState τ) (i : ℕ) : Prop where
  written : ∀ f, s.frames[i]? = some f → s.Written f
  claimed : i < s.fenceCursor
  released : ∀ l, (s.lane l).working ≠ some i

/-- Execute the appender's stores. -/
def runOps (ops : List AppenderOp) (m : (ℕ → FrameSlot) × Memory UInt8) :
    (ℕ → FrameSlot) × Memory UInt8 :=
  ops.foldl (fun m op => runOp op m) m

/-- The stores leave every frame described by its slot, not fenced, and staged. -/
def Completes (ops : List AppenderOp) (frames : List PlacedFrame)
    (m : (ℕ → FrameSlot) × Memory UInt8) : Prop :=
  ∀ f ∈ frames, ((runOps ops m).1 (ringIndex f.frameId)).Describes f ∧
    ((runOps ops m).1 (ringIndex f.frameId)).fenced = false ∧
    (runOps ops m).2.Holds f.offset f.image

/-- What a lane knows where it stands. -/
def LaneOk (s : FenceState τ) : LanePc → Prop
  | .claim claimed => claimed < s.frames.length
  | .loadPaddedLen g offset => ∀ f, s.frames[g]? = some f → offset = f.offset
  | .pwrite g offset paddedLen written => ∀ f, s.frames[g]? = some f →
      offset = f.offset ∧ paddedLen = f.paddedLen ∧ written ≤ paddedLen ∧
        s.file.Holds offset ((f.image.take written).map some)
  | .storeFenced g => ∀ f, s.frames[g]? = some f → s.Written f
  | .scanPublished advanced => s.durableFrontier ≤ advanced ∧ advanced ≤ s.frames.length ∧
      ∀ i < advanced, s.Settled i
  | .scanFenced advanced => s.durableFrontier ≤ advanced ∧ advanced < s.frames.length ∧
      ∀ i < advanced, s.Settled i
  | .storeFrontier advanced => s.durableFrontier ≤ advanced ∧ advanced ≤ s.frames.length ∧
      ∀ i < advanced, s.Settled i
  | .storeDurableFrames advanced => advanced = s.durableFrontier ∧ s.durableFrames < advanced
  | .loadEndSeq advanced => advanced = s.durableFrontier ∧ 0 < advanced ∧
      (s.slot (advanced - 1)).endSeq = endSeqAt s.frames advanced
  | .loadDurableSeq endSeq => endSeq ≤ endSeqAt s.frames s.durableFrontier
  | .storeDurableSeq endSeq priorEnd => endSeq ≤ endSeqAt s.frames s.durableFrontier ∧
      priorEnd ≤ endSeqAt s.frames s.durableFrontier
  | _ => True

/-- The published groups lie one behind the other up to the appender's cursor, with ascending sequences. -/
structure Layout (groups : List PlacedGroup) (cursor : AppenderCursor) (publishedFrames : ℕ) : Prop where
  published : publishedFrames = (groups.flatMap PlacedGroup.frames).length
  nextFrame : cursor.nextFrame = (groups.flatMap PlacedGroup.frames).length
  nextOffset : cursor.nextOffset = paddedTotal (groups.flatMap PlacedGroup.frames)
  place : ∀ i (f : PlacedFrame), (groups.flatMap PlacedGroup.frames)[i]? = some f →
    f.frameId = i ∧ f.offset = paddedTotal ((groups.flatMap PlacedGroup.frames).take i)
  ordered : (groups.flatMap PlacedGroup.frames).Pairwise fun a b =>
    a.endSeq ≤ b.header.firstSeq.toNat
  endSeq_le : ∀ f ∈ groups.flatMap PlacedGroup.frames,
    f.endSeq ≤ (groups.getLast?.map PlacedGroup.lastSeq).getD 0
  firstSeq_eq : ∀ g ∈ groups, ∀ f ∈ g.frames, f.header.firstSeq.toNat = g.firstSeq

/-- Every frame below the cursor was claimed by at most one lane. -/
structure Claims (fenceCursor : ℕ) (lane : τ → LanePc) : Prop where
  lt : ∀ l i, (lane l).working = some i → i < fenceCursor
  unique : ∀ l l' i, (lane l).working = some i → (lane l').working = some i → l = l'

/-- The invariant of the shared state and the lanes. -/
structure Core (s : FenceState τ) : Prop where
  layout : Layout s.groups s.cursor s.publishedFrames
  durableFrames_le : s.durableFrames ≤ s.durableFrontier
  durableFrontier_le : s.durableFrontier ≤ s.frames.length
  fenceCursor_le : s.fenceCursor ≤ s.frames.length
  ring : s.frames.length ≤ s.durableFrames + frameSlots
  slots : ∀ i f, s.durableFrames ≤ i → s.frames[i]? = some f → (s.slot i).Describes f
  staged : ∀ f ∈ s.frames, s.staging.Holds f.offset f.image
  settled : ∀ i < s.durableFrontier, s.Settled i
  fenced : ∀ i, s.durableFrontier ≤ i → i < s.frames.length → (s.slot i).fenced = true → s.Settled i
  claims : Claims s.fenceCursor s.lane
  holder : Owned LanePc.holdsFrontier s.frontierLock s.lane
  lanes : ∀ l, s.LaneOk (s.lane l)
  durable : s.durableSeq ≤ endSeqAt s.frames s.durableFrontier

/-- What the appender knows where it stands. -/
def AppenderOk (log : FrameLogGeometry) (s : FenceState τ) : Prop :=
  match s.appender with
  | .reserve source plan firstSeq seqCount => s.lastSeq ≤ firstSeq.toNat ∧
      ∃ lastSeq, validateScatterInput log s.cursor source plan firstSeq seqCount = .ok lastSeq
  | .verify reservation source firstSeq seqCount => s.lastSeq ≤ firstSeq.toNat ∧
      ∃ plan lastSeq durableFrames, durableFrames ≤ s.durableFrames ∧
        validateScatterInput log s.cursor source plan firstSeq seqCount = .ok lastSeq ∧
        reserveScatter log s.cursor durableFrames plan = .ok reservation
  | .staging ops (some g) => g.Lies s.cursor ∧ s.lastSeq ≤ g.firstSeq ∧
      s.frames.length + g.frames.length ≤ s.durableFrames + frameSlots ∧
      (∀ op ∈ ops, op.Within s.frames.length g.frames.length s.cursor.nextOffset) ∧
      Completes ops g.frames (s.slots, s.staging)
  | .staging ops none => ∀ op ∈ ops, op.Within s.frames.length 0 s.cursor.nextOffset
  | _ => True

end FenceState

/-! ### Rings and extents -/

variable {i j : ℕ} {g : PlacedGroup}

/-- Two frames less than one round apart have different slots. -/
theorem ringIndex_ne (h : i < j) (h' : j < i + frameSlots) : ringIndex i ≠ ringIndex j := by
  simp only [ringIndex, frameSlots] at *
  omega

theorem paddedTotal_append (a b : List PlacedFrame) : paddedTotal (a ++ b) = paddedTotal a + paddedTotal b := by
  simp [paddedTotal]

theorem paddedTotal_take_succ {frames : List PlacedFrame} {f : PlacedFrame} (h : frames[i]? = some f) :
    paddedTotal (frames.take (i + 1)) = paddedTotal (frames.take i) + f.paddedLen := by
  rw [take_add_one, h, paddedTotal_append]
  simp [paddedTotal]

theorem paddedTotal_take_mono (frames : List PlacedFrame) (h : i ≤ j) :
    paddedTotal (frames.take i) ≤ paddedTotal (frames.take j) := by
  obtain ⟨k, rfl⟩ := Nat.exists_eq_add_of_le h
  rw [take_add, paddedTotal_append]
  exact Nat.le_add_right _ _

theorem paddedTotal_take_le (frames : List PlacedFrame) (i : ℕ) :
    paddedTotal (frames.take i) ≤ paddedTotal frames := by
  conv_rhs => rw [← take_append_drop i frames, paddedTotal_append]
  exact Nat.le_add_right _ _

/-- The slots of two frames differ and the second lies behind the first on disk. -/
def Apart (f f' : PlacedFrame) : Prop :=
  ringIndex f.frameId ≠ ringIndex f'.frameId ∧ f.offset + f.paddedLen ≤ f'.offset

theorem PlacedGroup.Lies.apart (h : g.Lies cursor)
    (hlen : g.frames.length ≤ frameSlots) : g.frames.Pairwise Apart := by
  rw [pairwise_iff_getElem]
  intro i j hi hj hij
  obtain ⟨hid, hoff⟩ := h.place i _ (getElem?_eq_getElem hi)
  obtain ⟨hid', hoff'⟩ := h.place j _ (getElem?_eq_getElem hj)
  constructor
  · rw [hid, hid']
    exact ringIndex_ne (by omega) (by omega)
  · have hstep := paddedTotal_take_succ (getElem?_eq_getElem hi)
    have hmono := paddedTotal_take_mono g.frames (show i + 1 ≤ j from hij)
    rw [hoff, hoff']
    omega

/-! ### The appender's stores -/

namespace FenceState

variable {τ : Type} {s s' : FenceState τ} {ops : List AppenderOp} {frames : List PlacedFrame}
  {f : PlacedFrame} {m : (ℕ → FrameSlot) × Memory UInt8} {firstFrame n nextOffset : ℕ}

theorem modifySlot_self (slots : ℕ → FrameSlot) (frameId : ℕ) (change : FrameSlot → FrameSlot) :
    modifySlot slots frameId change (ringIndex frameId) = change (slots (ringIndex frameId)) :=
  Function.update_self ..

theorem modifySlot_of_ne (slots : ℕ → FrameSlot) {frameId : ℕ} (change : FrameSlot → FrameSlot)
    (h : i ≠ ringIndex frameId) : modifySlot slots frameId change i = slots i :=
  Function.update_of_ne h ..

theorem runOps_append (a b : List AppenderOp) : runOps (a ++ b) m = runOps b (runOps a m) := by
  simp [runOps, foldl_append]

theorem runOps_cons (op : AppenderOp) : runOps (op :: ops) m = runOps ops (runOp op m) := rfl

end FenceState

/-- The store does not change the slot at ring index `j`. -/
def AppenderOp.SparesSlot (j : ℕ) : AppenderOp → Prop
  | .stage _ _ => True
  | .storeFenced f => j ≠ ringIndex f
  | .storeFrameId f => j ≠ ringIndex f
  | .storeOffset f _ => j ≠ ringIndex f
  | .storePaddedLen f _ => j ≠ ringIndex f
  | .storeEndSeq f _ => j ≠ ringIndex f

/-- The store does not change the `len` bytes of staging from `off` on. -/
def AppenderOp.SparesStaging (off len : ℕ) : AppenderOp → Prop
  | .stage offset bytes => off + len ≤ offset ∨ offset + bytes.length ≤ off
  | _ => True

namespace FenceState

variable {τ : Type} {s s' : FenceState τ} {ops : List AppenderOp} {frames : List PlacedFrame}
  {f : PlacedFrame} {m : (ℕ → FrameSlot) × Memory UInt8} {firstFrame n nextOffset off j : ℕ}
  {cells : Bytes} {op : AppenderOp}

theorem runOp_slot (h : op.SparesSlot j) : (runOp op m).1 j = m.1 j := by
  cases op with
  | stage offset bytes => rfl
  | _ =>
    dsimp only [runOp]
    exact modifySlot_of_ne m.1 _ h

theorem runOp_staging (h : op.SparesStaging off cells.length) (hm : m.2.Holds off cells) :
    (runOp op m).2.Holds off cells := by
  cases op with
  | stage offset bytes => exact hm.write_of_disjoint h
  | _ => exact hm

theorem runOps_slot (h : ∀ op ∈ ops, op.SparesSlot j) : (runOps ops m).1 j = m.1 j := by
  induction ops generalizing m with
  | nil => rfl
  | cons op ops ih =>
    obtain ⟨hop, hops⟩ := forall_mem_cons.mp h
    rw [runOps_cons, ih hops, runOp_slot hop]

theorem runOps_staging (h : ∀ op ∈ ops, op.SparesStaging off cells.length)
    (hm : m.2.Holds off cells) : (runOps ops m).2.Holds off cells := by
  induction ops generalizing m with
  | nil => exact hm
  | cons op ops ih =>
    obtain ⟨hop, hops⟩ := forall_mem_cons.mp h
    rw [runOps_cons]
    exact ih hops (runOp_staging hop hm)

/-- The slot stores of a frame describe it, whatever stood in the slot. -/
theorem runOps_slotStores : ((runOps (slotStores f) m).1 (ringIndex f.frameId)).Describes f ∧
      ((runOps (slotStores f) m).1 (ringIndex f.frameId)).fenced = false ∧
      (runOps (slotStores f) m).2 = m.2 := by
  refine ⟨⟨?_, ?_, ?_, ?_⟩, ?_, rfl⟩ <;> simp [runOps, slotStores, runOp, modifySlot]

theorem slotStores_sparesSlot {f f' : PlacedFrame} (h : ringIndex f.frameId ≠ ringIndex f'.frameId) :
    ∀ op ∈ slotStores f', op.SparesSlot (ringIndex f.frameId) := by
  intro op hop
  simp only [slotStores, mem_cons, not_mem_nil, or_false] at hop
  rcases hop with rfl | rfl | rfl | rfl | rfl <;> exact h

theorem slotStores_sparesStaging (off len : ℕ) : ∀ op ∈ slotStores f, op.SparesStaging off len := by
  intro op hop
  simp only [slotStores, mem_cons, not_mem_nil, or_false] at hop
  rcases hop with rfl | rfl | rfl | rfl | rfl <;> trivial

/-- Three writes one behind the other stage the image of a frame. -/
theorem holds_image (staging : Memory UInt8) :
    (((staging.write f.offset f.header.bytes).write (f.offset + frameHeaderBytes) f.payload).write
      (f.offset + frameHeaderBytes + f.payload.length) f.pad).Holds f.offset f.image := by
  have hlen := f.header.length_bytes
  rw [PlacedFrame.image, Memory.holds_append, Memory.holds_append, length_append, hlen, ← Nat.add_assoc]
  refine ⟨⟨?_, ?_⟩, Memory.holds_write⟩
  · apply Memory.Holds.write_of_disjoint _ (.inl (by omega))
    exact Memory.Holds.write_of_disjoint Memory.holds_write (.inl (by omega))
  · exact Memory.Holds.write_of_disjoint Memory.holds_write (.inl (by omega))

theorem internalOps_cons : internalOps (f :: frames) =
      ([.stage f.offset f.header.bytes, .stage (f.offset + frameHeaderBytes) f.payload,
        .stage (f.offset + frameHeaderBytes + f.payload.length) f.pad] ++ slotStores f) ++
        internalOps frames := by
  simp [internalOps]

/-- The stores of frames apart from `f` spare its slot and its staged image. -/
theorem internalOps_spare (h : ∀ f' ∈ frames, Apart f f') :
    ∀ op ∈ internalOps frames, op.SparesSlot (ringIndex f.frameId) ∧ op.SparesStaging f.offset f.paddedLen := by
  intro op hop
  obtain ⟨f', hf', hop⟩ := mem_flatMap.mp hop
  obtain ⟨hslot, hoff⟩ := h f' hf'
  rcases mem_append.mp hop with hstage | hstore
  · simp only [mem_cons, not_mem_nil, or_false] at hstage
    rcases hstage with rfl | rfl | rfl <;> exact ⟨trivial, .inl (by omega)⟩
  · exact ⟨slotStores_sparesSlot hslot op hstore, slotStores_sparesStaging _ _ op hstore⟩

/-- The program of `publish_internal` completes its frames from any state of ring and staging. -/
theorem completes_internalOps (h : frames.Pairwise Apart) : Completes (internalOps frames) frames m := by
  induction frames generalizing m with
  | nil => simp [Completes]
  | cons f frames ih =>
    obtain ⟨hf, hframes⟩ := pairwise_cons.mp h
    rw [Completes, internalOps_cons, runOps_append]
    intro f' hf'
    rcases mem_cons.mp hf' with rfl | hf'
    · have hspare := internalOps_spare hf
      rw [runOps_slot fun op hop => (hspare op hop).1]
      rw [runOps_append]
      obtain ⟨hdesc, hfenced, hstaging⟩ := runOps_slotStores
      refine ⟨hdesc, hfenced, ?_⟩
      apply runOps_staging
      · intro op hop
        rw [f'.length_image]
        exact (hspare op hop).2
      · rw [hstaging]
        exact holds_image m.2
    · exact ih hframes f' hf'

/-- The first loop of a scatter whose copies all succeed. -/
def payloadOps (frames : List PlacedFrame) : List AppenderOp :=
  frames.flatMap fun f => [.stage (f.offset + frameHeaderBytes) f.payload,
    .stage (f.offset + frameHeaderBytes + f.payload.length) f.pad]

theorem copyOps_eq_payloadOps {crc : UInt32 → Bytes → UInt32} {log : FrameLogGeometry}
    {total index offset : ℕ} {firstSeq : UInt64} {seqCount : UInt32}
    {group : Option FrameGroupMetadata} {chunks : List Bytes} :
    copyOps offset chunks true =
      payloadOps (placeFrames crc log firstFrame total firstSeq seqCount group index offset chunks) := by
  induction chunks generalizing index offset with
  | nil => simp [copyOps, payloadOps, placeFrames]
  | cons chunk rest ih =>
    rw [placeFrames, payloadOps, flatMap_cons, ← payloadOps, ← ih, copyOps, if_neg (by simp)]
    rfl

theorem payloadOps_spare (h : ∀ f' ∈ frames, Apart f f') :
    ∀ op ∈ payloadOps frames, op.SparesStaging f.offset f.paddedLen := by
  intro op hop
  obtain ⟨f', hf', hop⟩ := mem_flatMap.mp hop
  obtain ⟨-, hoff⟩ := h f' hf'
  simp only [mem_cons, not_mem_nil, or_false] at hop
  rcases hop with rfl | rfl <;> exact .inl (by omega)

theorem headerOps_spare (h : ∀ f' ∈ frames, Apart f f') :
    ∀ op ∈ headerOps frames, op.SparesSlot (ringIndex f.frameId) ∧ op.SparesStaging f.offset f.paddedLen := by
  intro op hop
  obtain ⟨f', hf', hop⟩ := mem_flatMap.mp hop
  obtain ⟨hslot, hoff⟩ := h f' hf'
  rcases mem_cons.mp hop with rfl | hstore
  · exact ⟨trivial, .inl (by omega)⟩
  · exact ⟨slotStores_sparesSlot hslot op hstore, slotStores_sparesStaging _ _ op hstore⟩

/-- The body of a frame stands behind its header. -/
def BodyStaged (staging : Memory UInt8) (f : PlacedFrame) : Prop :=
  staging.Holds (f.offset + frameHeaderBytes) (f.payload ++ f.pad)

theorem length_body (f : PlacedFrame) : (f.payload ++ f.pad).length + frameHeaderBytes = f.paddedLen := by
  have := f.length_image
  simp only [PlacedFrame.image, length_append, FrameHeader.length_bytes] at this ⊢
  omega

/-- Stores that spare the whole frame spare its body. -/
theorem bodyStaged_runOps (h : ∀ op ∈ ops, op.SparesStaging f.offset f.paddedLen)
    (hm : BodyStaged m.2 f) : BodyStaged (runOps ops m).2 f := by
  have hlen := length_body f
  apply runOps_staging _ hm
  intro op hop
  have hspare := h op hop
  cases op with
  | stage offset bytes =>
    simp only [AppenderOp.SparesStaging] at hspare ⊢
    omega
  | _ => trivial

theorem bodyStaged_payloadOps (h : frames.Pairwise Apart) :
    ∀ f ∈ frames, BodyStaged (runOps (payloadOps frames) m).2 f := by
  induction frames generalizing m with
  | nil => simp
  | cons f frames ih =>
    obtain ⟨hf, hframes⟩ := pairwise_cons.mp h
    rw [payloadOps, flatMap_cons, ← payloadOps, runOps_append]
    intro f' hf'
    rcases mem_cons.mp hf' with rfl | hf'
    · apply bodyStaged_runOps (payloadOps_spare hf)
      apply Memory.holds_append.mpr
      exact ⟨Memory.Holds.write_of_disjoint Memory.holds_write (.inl (by omega)), Memory.holds_write⟩
    · exact ih hframes f' hf'

/-- With every body staged, the second loop of a scatter completes the frames. -/
theorem completes_headerOps (h : frames.Pairwise Apart) (hbody : ∀ f ∈ frames, BodyStaged m.2 f) :
    Completes (headerOps frames) frames m := by
  induction frames generalizing m with
  | nil => simp [Completes]
  | cons f frames ih =>
    obtain ⟨hf, hframes⟩ := pairwise_cons.mp h
    rw [Completes, headerOps, flatMap_cons, ← headerOps, runOps_append, runOps_cons]
    obtain ⟨hdesc, hfenced, hstaging⟩ := runOps_slotStores
    intro f' hf'
    rcases mem_cons.mp hf' with rfl | hf'
    · have hspare := headerOps_spare hf
      rw [runOps_slot fun op hop => (hspare op hop).1]
      refine ⟨hdesc, hfenced, ?_⟩
      apply runOps_staging
      · intro op hop
        rw [f'.length_image]
        exact (hspare op hop).2
      · rw [hstaging, PlacedFrame.image, append_assoc, Memory.holds_append, FrameHeader.length_bytes]
        refine ⟨Memory.holds_write, ?_⟩
        apply (hbody f' mem_cons_self).write_of_disjoint
        exact .inr (by rw [FrameHeader.length_bytes])
    · apply ih hframes _ f' hf'
      intro f₂ hf₂
      obtain ⟨-, hoff⟩ := hf f₂ hf₂
      rw [BodyStaged, hstaging]
      apply (hbody f₂ (mem_cons_of_mem _ hf₂)).write_of_disjoint
      refine .inr ?_
      rw [FrameHeader.length_bytes]
      omega

theorem completes_scatterOps (h : frames.Pairwise Apart) :
    Completes (payloadOps frames ++ headerOps frames) frames m := by
  have hbody := bodyStaged_payloadOps (m := m) h
  intro f hf
  rw [runOps_append]
  exact completes_headerOps h hbody f hf

/-! ### Where the appender's stores go -/

theorem mem_lies (h : g.Lies cursor) (hf : f ∈ g.frames) :
    (cursor.nextFrame ≤ f.frameId ∧ f.frameId < cursor.nextFrame + g.frames.length) ∧
      cursor.nextOffset ≤ f.offset := by
  obtain ⟨i, hi, rfl⟩ := getElem_of_mem hf
  obtain ⟨hid, hoff⟩ := h.place i _ (getElem?_eq_getElem hi)
  omega

theorem within_slotStores (h : firstFrame ≤ f.frameId ∧ f.frameId < firstFrame + n) :
    ∀ op ∈ slotStores f, op.Within firstFrame n nextOffset := by
  intro op hop
  simp only [slotStores, mem_cons, not_mem_nil, or_false] at hop
  rcases hop with rfl | rfl | rfl | rfl | rfl <;> exact h

theorem within_internalOps (h : g.Lies cursor) : ∀ op ∈ internalOps g.frames,
      op.Within cursor.nextFrame g.frames.length cursor.nextOffset := by
  intro op hop
  obtain ⟨f, hf, hop⟩ := mem_flatMap.mp hop
  obtain ⟨hid, hoff⟩ := mem_lies h hf
  rcases mem_append.mp hop with hstage | hstore
  · simp only [mem_cons, not_mem_nil, or_false] at hstage
    rcases hstage with rfl | rfl | rfl <;> simp only [AppenderOp.Within] <;> omega
  · exact within_slotStores hid op hstore

theorem within_copyOps (chunks : List Bytes) (ok : Bool) (h : nextOffset ≤ off) :
    ∀ op ∈ copyOps off chunks ok, op.Within firstFrame n nextOffset := by
  induction chunks generalizing off with
  | nil => simp [copyOps]
  | cons chunk rest ih =>
    intro op hop
    rw [copyOps, mem_cons] at hop
    rcases hop with rfl | hop
    · exact h.trans (Nat.le_add_right _ _)
    · split at hop
      · cases hop
      · rcases mem_cons.mp hop with rfl | hop
        · show nextOffset ≤ off + frameHeaderBytes + chunk.length
          omega
        · exact ih (by omega) op hop

theorem within_headerOps (h : g.Lies cursor) : ∀ op ∈ headerOps g.frames,
      op.Within cursor.nextFrame g.frames.length cursor.nextOffset := by
  intro op hop
  obtain ⟨f, hf, hop⟩ := mem_flatMap.mp hop
  obtain ⟨hid, hoff⟩ := mem_lies h hf
  rcases mem_cons.mp hop with rfl | hstore
  · exact hoff
  · exact within_slotStores hid op hstore

end FenceState

end ThunderboltDb.WriteConveyor
