import Mathlib

/-!
# The durable cut across lanes

Every lane reports intervals of sequences as durable, in its own order and at its own pace. `CutState` merges
them: `cut` ends the contiguous durable prefix, and intervals behind a gap wait in `pending` until the cut
reaches them. Entries leave the map as the cut passes them; `Merged` says what is left of them.

* `cut_merge_confluent` — after an `advance` the cut is the end of the longest covered run from the first cut.
-/

namespace ThunderboltDb.Wal

open List

/-- The merger of the lanes' intervals. `pending` holds the entries of its map in the order of their keys. -/
structure CutState where
  cut : ℕ
  pending : List (ℕ × ℕ)

open CutState

variable {seen l : List (ℕ × ℕ)} {first cut start stop : ℕ} {s : CutState}

/-- The entry of `start`, with the larger end if there is one already. -/
def ingestEntry (start stop : ℕ) : List (ℕ × ℕ) → List (ℕ × ℕ)
  | [] => [(start, stop)]
  | (key, slot) :: rest =>
    if start < key then (start, stop) :: (key, slot) :: rest
    else if start = key then (key, if stop > slot then stop else slot) :: rest
    else (key, slot) :: ingestEntry start stop rest

/-- The loop of `advance`: an interval that starts above the cut is a gap and stops it. -/
def advanceLoop (cut : ℕ) : List (ℕ × ℕ) → CutState
  | [] => ⟨cut, []⟩
  | (start, stop) :: rest =>
    if start > cut then ⟨cut, (start, stop) :: rest⟩
    else advanceLoop (if stop > cut then stop else cut) rest

namespace CutState

def new (cut : ℕ) : CutState := ⟨cut, []⟩

def ingest (self : CutState) (start stop : ℕ) : CutState :=
  { self with pending := ingestEntry start stop self.pending }

def advance (self : CutState) : CutState := advanceLoop self.cut self.pending

end CutState

inductive CutStep where
  | ingest (start stop : ℕ)
  | advance

def CutState.step (self : CutState) : CutStep → CutState
  | .ingest start stop => self.ingest start stop
  | .advance => self.advance

def CutState.run (self : CutState) (steps : List CutStep) : CutState := steps.foldl CutState.step self

/-- The intervals that the steps ingest. -/
def ingested (steps : List CutStep) : List (ℕ × ℕ) :=
  steps.filterMap fun
    | .ingest start stop => some (start, stop)
    | .advance => none

/-- The sequence lies in one of the intervals. -/
def Covered (seen : List (ℕ × ℕ)) (x : ℕ) : Prop := ∃ i ∈ seen, i.1 ≤ x ∧ x < i.2

/-- The state is a summary of the intervals `seen` above the cut `first`. -/
structure Merged (first : ℕ) (seen : List (ℕ × ℕ)) (s : CutState) : Prop where
  ascending : s.pending.Pairwise fun i j => i.1 ≤ j.1
  above : first ≤ s.cut
  covered : ∀ x, first ≤ x → x < s.cut → Covered seen x
  /-- an interval was passed by the cut, or its entry is still there -/
  kept : ∀ i ∈ seen, i.2 ≤ s.cut ∨ ∃ j ∈ s.pending, j.1 = i.1 ∧ i.2 ≤ j.2
  known : ∀ i ∈ s.pending, i ∈ seen

theorem mem_ingestEntry {i : ℕ × ℕ} (h : i ∈ ingestEntry start stop l) : i ∈ l ∨ i = (start, stop) := by
  induction l with
  | nil => exact .inr (mem_singleton.mp h)
  | cons entry rest ih =>
    grind [ingestEntry]

theorem ascending_ingestEntry (h : l.Pairwise fun i j => i.1 ≤ j.1) :
    (ingestEntry start stop l).Pairwise fun i j => i.1 ≤ j.1 := by
  induction l with
  | nil => exact pairwise_singleton _ _
  | cons entry rest ih =>
    have hmem := @mem_ingestEntry rest start stop
    grind [ingestEntry, pairwise_cons]

/-- No entry is lost, and the new interval has one. -/
theorem ingestEntry_kept : ∀ i ∈ (start, stop) :: l, ∃ j ∈ ingestEntry start stop l, j.1 = i.1 ∧
    i.2 ≤ j.2 := by
  induction l with
  | nil => simp [ingestEntry]
  | cons entry rest ih =>
    rw [ingestEntry]
    split
    · exact fun i hi => ⟨i, hi, rfl, le_rfl⟩
    · simp only [forall_mem_cons] at ih ⊢
      split <;> simp only [exists_mem_cons_iff] <;> grind

theorem Merged.ingest (h : Merged first seen s) (start stop : ℕ) :
    Merged first (seen ++ [(start, stop)]) (s.ingest start stop) where
  ascending := ascending_ingestEntry h.ascending
  above := h.above
  covered := by
    intro x hx hlt
    obtain ⟨i, hi, hin⟩ := h.covered x hx hlt
    exact ⟨i, mem_append_left _ hi, hin⟩
  kept := by
    intro i hi
    rcases mem_append.mp hi with hi | hi
    · refine (h.kept i hi).imp_right fun ⟨j, hj, hkey, hle⟩ => ?_
      obtain ⟨k, hk, hkj, hjk⟩ := ingestEntry_kept j (mem_cons_of_mem _ hj)
      exact ⟨k, hk, hkj.trans hkey, hle.trans hjk⟩
    · rw [mem_singleton.mp hi]
      exact .inr (ingestEntry_kept _ mem_cons_self)
  known := by
    intro i hi
    rcases mem_ingestEntry hi with hi | rfl
    · exact mem_append_left _ (h.known i hi)
    · exact mem_append_right _ (mem_singleton_self _)

/-- The loop passes over covered sequences only and stops before a gap. -/
theorem Merged.advanceLoop (h : Merged first seen ⟨cut, l⟩) : Merged first seen (advanceLoop cut l) ∧
    cut ≤ (advanceLoop cut l).cut ∧ ∀ i ∈ (advanceLoop cut l).pending, (advanceLoop cut l).cut < i.1 := by
  induction l generalizing cut with
  | nil => exact ⟨h, le_rfl, fun i hi => by cases hi⟩
  | cons entry rest ih =>
    obtain ⟨start, stop⟩ := entry
    obtain ⟨hfirst, hrest⟩ := pairwise_cons.mp h.ascending
    rw [Wal.advanceLoop]
    split
    · rename_i hgap
      refine ⟨h, le_rfl, fun i hi => ?_⟩
      rcases mem_cons.mp hi with rfl | hi
      · exact hgap
      · exact hgap.trans_le (hfirst i hi)
    · rename_i hreach
      have hcut : cut ≤ if stop > cut then stop else cut := by split <;> omega
      have hstop : stop ≤ if stop > cut then stop else cut := by split <;> omega
      have hnext : Merged first seen ⟨if stop > cut then stop else cut, rest⟩ := by
        refine ⟨hrest, h.above.trans hcut, fun x hx hlt => ?_, fun i hi => ?_, fun i hi => ?_⟩
        · by_cases hold : x < cut
          · exact h.covered x hx hold
          · -- the entry starts at or below the old cut and ends at the new one
            refine ⟨(start, stop), h.known _ mem_cons_self, by dsimp only; omega, ?_⟩
            dsimp only at hlt ⊢
            split at hlt <;> omega
        · rcases h.kept i hi with hle | ⟨j, hj, hkey, hle⟩
          · exact .inl (hle.trans hcut)
          · rcases mem_cons.mp hj with rfl | hj
            · exact .inl (hle.trans hstop)
            · exact .inr ⟨j, hj, hkey, hle⟩
        · exact h.known i (mem_cons_of_mem _ hi)
      obtain ⟨hmerged, hle, hgap⟩ := ih hnext
      exact ⟨hmerged, hcut.trans hle, hgap⟩

/-- **One step.** -/
theorem Merged.step (h : Merged first seen s) (step : CutStep) :
    Merged first (seen ++ ingested [step]) (s.step step) ∧ s.cut ≤ (s.step step).cut := by
  cases step with
  | ingest start stop => exact ⟨h.ingest start stop, le_rfl⟩
  | advance =>
    obtain ⟨hmerged, hle, -⟩ := h.advanceLoop
    rw [show ingested [.advance] = [] from rfl, append_nil]
    exact ⟨hmerged, hle⟩

theorem Merged.run (h : Merged first seen s) (steps : List CutStep) :
    Merged first (seen ++ ingested steps) (s.run steps) := by
  induction steps generalizing seen s with
  | nil => simpa [ingested, CutState.run] using h
  | cons step steps ih =>
    have hrun := ih (h.step step).1
    rwa [append_assoc, ← show ingested (step :: steps) = ingested [step] ++ ingested steps from
      filterMap_append (l := [step])] at hrun

theorem merged_run_new (first : ℕ) (steps : List CutStep) :
    Merged first (ingested steps) ((new first).run steps) := by
  have hnew : Merged first [] (.new first) :=
    ⟨.nil, le_rfl, fun x hx hlt => absurd hx (Nat.not_le.mpr hlt), by simp, by simp [new]⟩
  exact hnew.run steps

/-- After an `advance` the cut is the end of the longest covered run. -/
theorem Merged.isGreatest_advance (h : Merged first seen s) :
    IsGreatest {n | first ≤ n ∧ ∀ x, first ≤ x → x < n → Covered seen x} s.advance.cut := by
  obtain ⟨hmerged, -, hgap⟩ := h.advanceLoop
  refine ⟨⟨hmerged.above, hmerged.covered⟩, fun n hn => ?_⟩
  by_contra hlt
  -- the sequence at the cut has an interval, whose entry would lie behind the gap
  obtain ⟨i, hi, hstart, hstop⟩ := hn.2 _ hmerged.above (Nat.not_le.mp hlt)
  rcases hmerged.kept i hi with hle | ⟨j, hj, hkey, -⟩
  · exact absurd hle (Nat.not_le.mpr hstop)
  · have := hgap j hj
    exact absurd hstart (Nat.not_le.mpr (hkey ▸ this))

/-- **The merge is confluent.**  Whatever the order of the intervals and wherever the cut is advanced, the cut
that an `advance` ends with is the end of the longest run of covered sequences; no step moves the cut back, and
at no time has it passed a sequence that no interval covers. -/
theorem cut_merge_confluent (first : ℕ) (steps : List CutStep) :
    IsGreatest {n | first ≤ n ∧ ∀ x, first ≤ x → x < n → Covered (ingested steps) x}
      ((new first).run steps).advance.cut ∧
    (∀ steps', (∀ i, i ∈ ingested steps' ↔ i ∈ ingested steps) →
      ((new first).run steps').advance.cut = ((new first).run steps).advance.cut) ∧
    (∀ step, ((new first).run steps).cut ≤ (((new first).run steps).step step).cut) ∧
    ∀ x, first ≤ x → x < ((new first).run steps).cut → Covered (ingested steps) x := by
  have h := merged_run_new first steps
  refine ⟨h.isGreatest_advance, fun steps' hsame => ?_, fun step => (h.step step).2, h.covered⟩
  have h' := (merged_run_new first steps').isGreatest_advance
  simp only [Covered, hsame] at h'
  exact h'.unique h.isGreatest_advance

end ThunderboltDb.Wal
