import Mathlib

/-!
# Joining out-of-order reports into a contiguous prefix

Indices are reported in any order and any number of times; a boundary `next` moves over the longest run
of reported indices and the reports beyond a gap are kept in a set. `Joined b reported next ready` says
that `next` and `ready` are exactly that summary of `reported` above the floor `b`:

* `advance_spec` — what one pass over the ready set does;
* `Joined.report` — joining a batch of reports keeps the summary exact;
* `Joined.isGreatest` — `next - 1` is the greatest `n` with every index above the floor up to `n`
  reported.
-/

namespace ThunderboltDb.Lib

/-- Move `next` over the ready indices, removing each; at most `fuel` of them. -/
def advance : ℕ → ℕ → Finset ℕ → ℕ × Finset ℕ
  | 0, next, ready => (next, ready)
  | fuel + 1, next, ready =>
    if next ∈ ready then advance fuel (next + 1) (ready.erase next) else (next, ready)

/-- With enough fuel, the pass stops at the first index that is not ready and removes what it passed. -/
theorem advance_spec (next : ℕ) {fuel : ℕ} {ready : Finset ℕ} (hfuel : ready.card ≤ fuel) :
    next ≤ (advance fuel next ready).1 ∧
    (∀ i, next ≤ i → i < (advance fuel next ready).1 → i ∈ ready) ∧
    (advance fuel next ready).1 ∉ ready ∧
    (∀ i, i ∈ (advance fuel next ready).2 ↔ i ∈ ready ∧
      ¬ (next ≤ i ∧ i < (advance fuel next ready).1)) := by
  induction fuel generalizing next ready with
  | zero =>
    have hempty : ready = ∅ := Finset.card_eq_zero.mp (Nat.le_zero.mp hfuel)
    subst hempty
    exact ⟨le_rfl, fun i hi hlt => absurd hlt (by simpa [advance] using hi), by simp, by simp [advance]⟩
  | succ fuel ih =>
    by_cases hmem : next ∈ ready
    · have hcard : (ready.erase next).card ≤ fuel := by
        rw [Finset.card_erase_of_mem hmem]
        omega
      obtain ⟨hle, hrun, hstop, hrest⟩ := ih (next + 1) hcard
      rw [advance, if_pos hmem]
      refine ⟨by omega, ?_, ?_, ?_⟩
      · intro i hi hlt
        rcases Nat.eq_or_lt_of_le hi with rfl | hi
        · exact hmem
        · exact Finset.mem_of_mem_erase (hrun i hi hlt)
      · intro hin
        exact hstop (Finset.mem_erase.mpr ⟨by omega, hin⟩)
      · intro i
        rw [hrest i, Finset.mem_erase]
        constructor
        · rintro ⟨⟨hne, hin⟩, hout⟩
          exact ⟨hin, fun hc => hout ⟨by omega, hc.2⟩⟩
        · rintro ⟨hin, hout⟩
          refine ⟨⟨?_, hin⟩, fun hc => hout ⟨by omega, hc.2⟩⟩
          rintro rfl
          exact hout ⟨le_rfl, by omega⟩
    · rw [advance, if_neg hmem]
      refine ⟨le_rfl, fun i hi hlt => absurd hlt (by simpa using hi), hmem, fun i => ?_⟩
      constructor
      · intro hin
        exact ⟨hin, fun hc => absurd hc.2 (by simpa using hc.1)⟩
      · exact fun hin => hin.1

/-- `next` and `ready` summarise the reports above the floor `b`. -/
structure Joined (b : ℕ) (reported : Finset ℕ) (next : ℕ) (ready : Finset ℕ) : Prop where
  floor : b < next
  passed : ∀ i, b < i → i < next → i ∈ reported
  beyond : ∀ i, i ∈ ready ↔ i ∈ reported ∧ next ≤ i
  gap : next ∉ ready

namespace Joined

variable {b next : ℕ} {reported ready : Finset ℕ}

theorem init (b : ℕ) : Joined b ∅ (b + 1) ∅ :=
  ⟨Nat.lt_succ_self b, fun _ hb hn => absurd hn (by omega), by simp, by simp⟩

/-- **The join.**  Insert the new reports that are not passed yet, then advance. -/
theorem report (h : Joined b reported next ready) {batch ready' : Finset ℕ}
    (hready : ∀ i, i ∈ ready' ↔ i ∈ ready ∨ (i ∈ batch ∧ next ≤ i)) :
    Joined b (reported ∪ batch) (advance ready'.card next ready').1 (advance ready'.card next ready').2 := by
  obtain ⟨hle, hrun, hstop, hrest⟩ := advance_spec next (le_refl ready'.card)
  have hnew : ∀ i, i ∈ ready' ↔ i ∈ reported ∪ batch ∧ next ≤ i := by
    intro i
    rw [hready i, h.beyond i, Finset.mem_union]
    tauto
  refine ⟨lt_of_lt_of_le h.floor hle, ?_, ?_, ?_⟩
  · intro i hb hlt
    by_cases hi : i < next
    · exact Finset.mem_union_left _ (h.passed i hb hi)
    · exact ((hnew i).mp (hrun i (by omega) hlt)).1
  · intro i
    rw [hrest i, hnew i]
    constructor
    · rintro ⟨⟨hin, hi⟩, hout⟩
      exact ⟨hin, by by_contra hc; exact hout ⟨hi, by omega⟩⟩
    · rintro ⟨hin, hi⟩
      exact ⟨⟨hin, by omega⟩, fun hc => by omega⟩
  · intro hin
    exact hstop ((hrest _).mp hin).1

/-- The boundary never moves back. -/
theorem le_advance (next : ℕ) (ready : Finset ℕ) : next ≤ (advance ready.card next ready).1 :=
  (advance_spec next (le_refl ready.card)).1

/-- The boundary is the greatest contiguous prefix of the reports. -/
theorem isGreatest (h : Joined b reported next ready) :
    IsGreatest {n | b ≤ n ∧ ∀ i, b < i → i ≤ n → i ∈ reported} (next - 1) := by
  have hfloor := h.floor
  refine ⟨⟨by omega, fun i hb hi => h.passed i hb (by omega)⟩, ?_⟩
  rintro n ⟨hbn, hall⟩
  by_contra hlt
  have hin : next ∈ reported := hall next hfloor (by omega)
  exact h.gap ((h.beyond next).mpr ⟨hin, le_rfl⟩)

/-- Every index up to the boundary has been reported or lies at or below the floor. -/
theorem mem_of_lt (h : Joined b reported next ready) {i : ℕ} (hi : i < next) : i ≤ b ∨ i ∈ reported := by
  by_cases hb : b < i
  · exact .inr (h.passed i hb hi)
  · exact .inl (by omega)

end Joined

end ThunderboltDb.Lib
