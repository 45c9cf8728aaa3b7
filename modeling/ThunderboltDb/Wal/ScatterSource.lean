import ThunderboltDb.Wal.ArchiveRoundTrip
import ThunderboltDb.Wal.WalInvariant
import ThunderboltDb.WriteConveyor.FrameLog

/-!
# A prepared group as a scatter source

A group is a list of entries, an entry one or two regions of bytes; `copy_into` fills one fragment of a
scatter plan from them, whatever boundaries the fragment cuts.

* `scatter_source_flat` — what a copy delivers and what a plan stages;
* `published_group_lies` — the frames that `publish_scatter` stages for a group formed from a buffer.
-/

namespace ThunderboltDb.Wal

open Lib WriteConveyor List

variable {start room : ℕ}

def GroupEntry.region : GroupEntry → ℕ → Option Bytes
  | .exact wire, 0 => some wire.serializedRecord
  | .legacy header _, 0 => some header
  | .legacy _ payload, 1 => some payload
  | _, _ => none

/-- `GroupEntry::parts`: an empty legacy payload has no region. -/
def GroupEntry.parts : GroupEntry → ℕ
  | .exact _ => 1
  | .legacy _ payload => 1 + if payload = [] then 0 else 1

/-- A formed group with the records that its entries carry. -/
structure RecordGroup extends PreparedWalGroup where
  records : List WalRecord
  holds : Forall₂ GroupEntry.Holds entries records
  wireBytes_eq : wireBytes = (encodedRecords records).length

/-- What a handoff forms from a buffer whose exact owners hold their records' bytes. -/
theorem exists_recordGroup {ι : Type} (b : WalBuffer ι) (p : WalGroupPrefix) (slot exactCount : ℕ) {lo : ℕ}
    (hw : WiresInv b.records lo b.exactTypedWireRecords)
    (hlen : p.wireBytes = (encodedRecords (recordRange b.records p.firstRecord p.targetRecords)).length) :
    ∃ g : RecordGroup, g.toPreparedWalGroup = b.formGroup p slot exactCount ∧
      g.records = recordRange b.records p.firstRecord p.targetRecords :=
  ⟨⟨b.formGroup p slot exactCount, _, formGroup_holds hw, hlen⟩, rfl, rfl⟩

/-- The regions in the order of the loops over entries and parts. -/
def PreparedWalGroup.regions (g : PreparedWalGroup) : List (Option Bytes) :=
  g.entries.flatMap fun entry => (range entry.parts).map entry.region

/-- The loops of `copy_into`, for a destination of `room` bytes; `none` is the scatter-source fault. -/
def copyRegions : List (Option Bytes) → (start room : ℕ) → Option Bytes
  | [], _, _ | none :: _, _, _ => none
  | some bytes :: regions, start, room =>
    if bytes.length ≤ start then copyRegions regions (start - bytes.length) room
    else
      let copied := (bytes.drop start).take room
      if room ≤ bytes.length - start then some copied
      else (copyRegions regions 0 (room - copied.length)).map (copied ++ ·)

def PreparedWalGroup.copyInto (g : PreparedWalGroup) (start room : ℕ) : Option Bytes :=
  if g.wireBytes < start + room then none else copyRegions g.regions start room

/-- The group as the source of `publish_scatter`, which does not read what a failed copy leaves. -/
def PreparedWalGroup.scatterSource (g : PreparedWalGroup) : FuaScatterSource where
  len := g.wireBytes
  copyInto start room :=
    match g.copyInto start room with
    | none => .error (List.Vector.replicate room 0)
    | some bytes =>
      if h : bytes.length = room then .ok ⟨bytes, h⟩ else .error (List.Vector.replicate room 0)

theorem exists_regions {records : List WalRecord} (h : Forall₂ GroupEntry.Holds entries records) :
    ∃ regions : List Bytes,
      (entries.flatMap fun entry => (range entry.parts).map entry.region) = regions.map some ∧
        regions.flatten = encodedRecords records := by
  induction h with
  | nil => exact ⟨[], rfl, rfl⟩
  | @cons e r entries records he _ ih =>
    obtain ⟨regions, hregions, hflat⟩ := ih
    have hentry : ∃ own : List Bytes, (range e.parts).map e.region = own.map some ∧
      own.flatten = encodedRecord r := by
      cases e with
      | exact wire => exact ⟨[wire.serializedRecord], rfl, (append_nil _).trans he⟩
      | legacy header payload =>
        obtain ⟨rfl, rfl⟩ := he
        by_cases hp : r.payload = []
        · exact ⟨[encodeRecordHeader r], by simp [GroupEntry.parts, hp, GroupEntry.region],
            by simp [encodedRecord_eq, hp]⟩
        · exact ⟨[encodeRecordHeader r, r.payload], by simp [GroupEntry.parts, hp]; rfl,
            by simp [encodedRecord_eq]⟩
    obtain ⟨own, hown, hbytes⟩ := hentry
    exact ⟨own ++ regions, by simp [hown, hregions], by simp [hbytes, hflat]⟩

/-- A copy within the regions delivers the bytes; only an empty copy at their end fails. -/
theorem copyRegions_eq {regions : List Bytes} {start room : ℕ}
    (h : start + room ≤ regions.flatten.length) :
    copyRegions (regions.map some) start room =
      if start < regions.flatten.length then some ((regions.flatten.drop start).take room)
      else none := by
  induction regions generalizing start room with
  | nil => rfl
  | cons bytes regions ih =>
    rw [flatten_cons, length_append] at h ⊢
    rw [map_cons, copyRegions]
    by_cases hskip : bytes.length ≤ start
    · rw [if_pos hskip, ih (by omega), drop_append, drop_of_length_le hskip, nil_append]
      exact if_congr (by omega) rfl rfl
    have hin : start < bytes.length + regions.flatten.length := by omega
    rw [if_neg hskip, if_pos hin, drop_append_of_le_length (by omega), take_append, length_drop]
    by_cases hroom : room ≤ bytes.length - start
    · rw [if_pos hroom, Nat.sub_eq_zero_of_le hroom, take_zero, append_nil]
    · have hmore : 0 < regions.flatten.length := by omega
      rw [if_neg hroom, take_of_length_le (by rw [length_drop]; omega), length_drop, ih (by omega),
        if_pos hmore]
      rfl

theorem copyInto_eq (g : RecordGroup) {start room : ℕ} (h : start + room ≤ g.wireBytes) :
    g.copyInto start room = if start < g.wireBytes then
      some (((encodedRecords g.records).drop start).take room) else none := by
  obtain ⟨regions, hregions, hflat⟩ := exists_regions g.holds
  have hlen := g.wireBytes_eq
  rw [← hflat] at hlen ⊢
  rw [PreparedWalGroup.copyInto, if_neg h.not_gt, PreparedWalGroup.regions, hregions, hlen]
  exact copyRegions_eq (hlen ▸ h)

/-- The fragments of a plan are the pieces of the records' bytes from the first one's offset on. -/
theorem copyChunks_scatterSource (g : RecordGroup) {sizes : List ℕ} {start : ℕ}
    (hpos : ∀ size ∈ sizes, 0 < size) (h : start + sizes.sum ≤ g.wireBytes) :
    ∃ chunks, copyChunks g.scatterSource start sizes = (chunks, true) ∧
      chunks.flatten = ((encodedRecords g.records).drop start).take sizes.sum := by
  induction sizes generalizing start with
  | nil => exact ⟨[], rfl, by simp⟩
  | cons size sizes ih =>
    rw [sum_cons] at h ⊢
    obtain ⟨hsize, hrest⟩ := forall_mem_cons.mp hpos
    obtain ⟨chunks, hchunks, hflat⟩ := @ih (start + size) hrest (by omega)
    have hcopy := copyInto_eq g (show start + size ≤ g.wireBytes by omega)
    rw [if_pos (by omega)] at hcopy
    have hlen : (((encodedRecords g.records).drop start).take size).length = size := by
      rw [length_take, length_drop, ← g.wireBytes_eq]
      omega
    refine ⟨((encodedRecords g.records).drop start).take size :: chunks, ?_, ?_⟩
    · simp only [copyChunks, PreparedWalGroup.scatterSource, hcopy, hlen, dite_true]
      simp only [PreparedWalGroup.scatterSource] at hchunks
      rw [hchunks]
      rfl
    · rw [flatten_cons, hflat, ← drop_drop, take_add]

/-- Within the group every copy delivers its slice of the records' bytes, but for the empty one at their
end; and every plan for the group stages fragments that are these bytes in order. -/
theorem scatter_source_flat (g : RecordGroup) :
    (∀ start room, start + room ≤ g.wireBytes →
      g.copyInto start room = if start < g.wireBytes then
        some (((encodedRecords g.records).drop start).take room) else none) ∧
    ∀ crc log reservation firstSeq seqCount, reservation.plan.payloadBytes = g.wireBytes →
      ∃ placed, stageSealedScatter crc log reservation g.scatterSource firstSeq seqCount = .ok placed ∧
        placed.frames.flatMap PlacedFrame.payload = encodedRecords g.records := by
  refine ⟨fun _ _ => copyInto_eq g, fun crc log reservation firstSeq seqCount hplan => ?_⟩
  rw [reservation.plan.payload_eq] at hplan
  obtain ⟨chunks, hcopy, hflat⟩ := copyChunks_scatterSource g
    (fun size hmem => (reservation.plan.chunk_pos size hmem).1) ((Nat.zero_add _).le.trans hplan.le)
  refine ⟨_, by rw [stageSealedScatter, hcopy], ?_⟩
  rw [flatMap_def, placeGroup, map_payload_placeFrames, hflat, drop_zero, hplan, g.wireBytes_eq, take_length]

/-- A group of one exact record. -/
def oneRecordGroup : RecordGroup :=
  { slot := 0, entries := [.exact ⟨0, [], encodedRecord (sampleRecord 7), .inFlight, 24⟩], wireBytes := 24
    firstRecord := 0, targetRecords := 1, containsExact := true, records := [sampleRecord 7]
    holds := .cons rfl .nil, wireBytes_eq := rfl }

/-- The empty copy at the end of a group is refused. -/
theorem empty_copy_at_end_fails :
    24 + 0 ≤ oneRecordGroup.wireBytes ∧ oneRecordGroup.copyInto 24 0 = none := by decide

/-- **A published group** lies behind the cursor, frame after frame; its headers carry the call's sequences,
with the count in the terminal fragment, and its payloads the records that the group was formed from. -/
theorem published_group_lies {ι : Type} (b : WalBuffer ι) (p : WalGroupPrefix) (slot exactCount : ℕ) {lo : ℕ}
    (hw : WiresInv b.records lo b.exactTypedWireRecords)
    (hlen : p.wireBytes = (encodedRecords (recordRange b.records p.firstRecord p.targetRecords)).length)
    {crc log cursor durableFrames plan firstSeq seqCount placed}
    (h : publishScatter crc log cursor durableFrames (b.formGroup p slot exactCount).scatterSource plan firstSeq
      seqCount = .ok placed) :
    placed.Lies cursor ∧
    placed.frames.map (fun f => (f.header.firstSeq, f.header.seqCount)) =
      replicate (plan.chunks.length - 1) (firstSeq, 0) ++ [(firstSeq, seqCount)] ∧
    placed.frames.flatMap PlacedFrame.payload =
      encodedRecords (recordRange b.records p.firstRecord p.targetRecords) := by
  obtain ⟨g, hg, hrecords⟩ := exists_recordGroup b p slot exactCount hw hlen
  rw [← hg] at h
  rw [← hrecords]
  obtain ⟨chunks, hcopy, hadmitted, rfl⟩ := publishScatter_ok h
  refine ⟨placeGroup_lies hadmitted.chunks_ne, ?_, ?_⟩
  · rw [← copyChunks_lengths hcopy, length_map]
    exact sequences_placeFrames hadmitted.chunks_ne (Nat.zero_add _)
  have hsum : g.wireBytes = plan.chunks.sum := by
    simp only [publishScatter, validateScatterInput, bind_ok, refuse_eq_ok] at h
    obtain ⟨_, ⟨_, -, _, hsource, -⟩, -⟩ := h
    exact (not_not.mp hsource).trans plan.payload_eq
  obtain ⟨chunks', hcopy', hflat⟩ := copyChunks_scatterSource g
    (fun size hmem => (plan.chunk_pos size hmem).1) (show 0 + plan.chunks.sum ≤ g.wireBytes by omega)
  obtain rfl := (Prod.mk.inj (hcopy.symm.trans hcopy')).1
  rw [flatMap_def, placeGroup, map_payload_placeFrames, hflat, drop_zero, ← hsum, g.wireBytes_eq, take_length]

/-- A buffer with two records. -/
def twoRecords : WalBuffer Unit :=
  { WalBuffer.withDurableSegment 0 none with records := [sampleRecord 7, sampleRecord 8] }

/-- Two records in three fragments. -/
theorem published_group_lies_three : ∃ plan placed,
    publishScatter (fun _ _ => 0) ⟨1, 12288⟩ ⟨0, 0⟩ 0 (twoRecords.formGroup ⟨0, 2, 48, 0⟩ 0 0).scatterSource
      plan 5 2 = .ok placed ∧ placed.Lies ⟨0, 0⟩ ∧
    placed.frames.map (fun f => (f.header.firstSeq, f.header.seqCount)) = [(5, 0), (5, 0), (5, 2)] ∧
    placed.frames.flatMap PlacedFrame.payload = encodedRecords [sampleRecord 7, sampleRecord 8] := by
  obtain ⟨plan, placed, h, hplan⟩ : ∃ plan placed, publishScatter (fun _ _ => 0) ⟨1, 12288⟩ ⟨0, 0⟩ 0
      (twoRecords.formGroup ⟨0, 2, 48, 0⟩ 0 0).scatterSource plan 5 2 = .ok placed ∧ plan.chunks.length = 3 :=
    ⟨(FuaScatterPlan.new 48 3).get rfl, _, rfl, rfl⟩
  have hwires : WiresInv twoRecords.records 0 twoRecords.exactTypedWireRecords :=
    ⟨.nil, forall_mem_nil _, forall_mem_nil _, forall_mem_nil _⟩
  have hlies := published_group_lies twoRecords ⟨0, 2, 48, 0⟩ 0 0 hwires rfl h
  rw [hplan] at hlies
  exact ⟨plan, placed, h, hlies⟩

end ThunderboltDb.Wal
