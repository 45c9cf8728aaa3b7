import ThunderboltDb.Lib.ContiguousJoin
import ThunderboltDb.Lib.StateResult
import ThunderboltDb.Types

/-!
# The publication join

`publish_ready_indices` is the only writer of the readers' watermark `committed_seq` while commits run:
it takes the commit indices whose durability and apply work is complete, in any order and any number of
times, and publishes the contiguous prefix.

* `Published b reported p` — the coordinator's state summarises the reports above the snapshot
  boundary `b`.

The recovery-only sealed generation that a moving boundary drops is left out.
-/

namespace ThunderboltDb.Engine

open Lib

/-- `u64::MAX`. -/
def u64Max : ℕ := 2 ^ 64 - 1

/-- `CommitPublicationState` and the readers' watermark. -/
structure Publication where
  visibleNext : ℕ
  ready : Finset ℕ
  committedSeq : ℕ

/-- `install_publication_snapshot`. -/
def Publication.snapshot (lastIncluded : ℕ) : Publication :=
  ⟨min (lastIncluded + 1) u64Max, ∅, lastIncluded⟩

def Publication.insert (p : Publication) (index : ℕ) : Publication :=
  if p.visibleNext ≤ index then { p with ready := Insert.insert index p.ready } else p

/-- The loop that inserts the reported indices. -/
def insertReady : List ℕ → EStateM EngineError Publication Unit
  | [] => pure ()
  | index :: indices => do
    if index = 0 ∨ index = u64Max then
      throw (.durability s!"commit index {index} is outside the publishable sequence domain")
    else
      modify fun p => p.insert index
      insertReady indices

/-- The loop that advances the boundary, and the store of the readers' watermark. `u64::MAX` is never
ready, so the boundary does not overflow. -/
def Publication.publish (p : Publication) : Publication :=
  let advanced := advance p.ready.card p.visibleNext p.ready
  { visibleNext := advanced.1, ready := advanced.2, committedSeq := advanced.1 - 1 }

def publishReadyIndices (indices : List ℕ) : EStateM EngineError Publication ℕ := do
  insertReady indices
  modify Publication.publish
  return (← get).committedSeq

/-- An index that `publish_ready_indices` accepts. -/
def Publishable (index : ℕ) : Prop := 0 < index ∧ index < u64Max

/-- The coordinator's state summarises the reports above the snapshot boundary `b`. -/
structure Published (b : ℕ) (reported : Finset ℕ) (p : Publication) : Prop where
  joined : Joined b reported p.visibleNext p.ready
  watermark : p.committedSeq + 1 = p.visibleNext

theorem Published.snapshot {b : ℕ} (hb : b < u64Max) : Published b ∅ (.snapshot b) := by
  have hnext : (Publication.snapshot b).visibleNext = b + 1 := min_eq_left hb
  refine ⟨?_, hnext.symm⟩
  rw [hnext]
  exact .init b

variable {indices : List ℕ}

theorem insertReady_run (h : ∀ i ∈ indices, Publishable i) (p : Publication) :
    insertReady indices p = .ok () (indices.foldl Publication.insert p) := by
  induction indices generalizing p with
  | nil => rfl
  | cons index indices ih =>
    obtain ⟨hpos, hlt⟩ := h index List.mem_cons_self
    rw [insertReady, if_neg (by omega)]
    exact ih (fun i hi => h i (List.mem_cons_of_mem _ hi)) (p.insert index)

theorem foldl_insert (p : Publication) : (indices.foldl Publication.insert p).visibleNext = p.visibleNext ∧
    ∀ i, i ∈ (indices.foldl Publication.insert p).ready ↔
      i ∈ p.ready ∨ (i ∈ indices.toFinset ∧ p.visibleNext ≤ i) := by
  induction indices generalizing p with
  | nil => simp
  | cons index indices ih =>
    obtain ⟨hnext, hready⟩ := ih (p.insert index)
    have hkeep : (p.insert index).visibleNext = p.visibleNext := by
      unfold Publication.insert
      split <;> rfl
    refine ⟨by rw [List.foldl_cons, hnext, hkeep], fun i => ?_⟩
    rw [List.foldl_cons, hready i, hkeep, List.toFinset_cons, Finset.mem_insert]
    unfold Publication.insert
    by_cases hle : p.visibleNext ≤ index
    · rw [if_pos hle, Finset.mem_insert]
      constructor
      · rintro ((rfl | hin) | ⟨hin, hi⟩)
        · exact .inr ⟨.inl rfl, hle⟩
        · exact .inl hin
        · exact .inr ⟨.inr hin, hi⟩
      · rintro (hin | ⟨rfl | hin, hi⟩)
        · exact .inl (.inr hin)
        · exact .inl (.inl rfl)
        · exact .inr ⟨hin, hi⟩
    · rw [if_neg hle]
      constructor
      · rintro (hin | ⟨hin, hi⟩)
        · exact .inl hin
        · exact .inr ⟨.inr hin, hi⟩
      · rintro (hin | ⟨rfl | hin, hi⟩)
        · exact .inl hin
        · exact absurd hi hle
        · exact .inr ⟨hin, hi⟩

/-- **The publication join.**  A call with publishable indices succeeds, returns the new watermark, which
has not moved back, and leaves the exact summary of all reports. -/
theorem publishReadyIndices_spec {b : ℕ} {reported : Finset ℕ} {p : Publication}
    (h : Published b reported p) (hdom : ∀ i ∈ indices, Publishable i) :
    ∃ p', publishReadyIndices indices p = .ok p'.committedSeq p' ∧
      Published b (reported ∪ indices.toFinset) p' ∧ p.committedSeq ≤ p'.committedSeq := by
  obtain ⟨hnext, hready⟩ := foldl_insert p
  refine ⟨(indices.foldl Publication.insert p).publish, ?_, ⟨?_, ?_⟩, ?_⟩
  · rw [publishReadyIndices, bind_of_ok (insertReady_run hdom p)]
    rfl
  · have hjoin := h.joined.report hready
    rw [← hnext] at hjoin
    exact hjoin
  · have hfloor := (h.joined.report hready).floor
    rw [← hnext] at hfloor
    simp only [Publication.publish]
    omega
  · have hle := Joined.le_advance p.visibleNext (indices.foldl Publication.insert p).ready
    have hmark := h.watermark
    rw [← hnext] at hle
    simp only [Publication.publish]
    omega

end ThunderboltDb.Engine
