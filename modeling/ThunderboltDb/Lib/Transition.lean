import Mathlib

/-!
# Labelled transition systems, guarded runs and their invariants

The concurrent parts of a system are modelled by one state type and one executable step function
`step : σ → α → Option σ` (`none`: the step is not enabled).

* `TransitionSystem` — initial states plus the step function;
* `StepVia` / `RunVia` / `ReachableVia` — one step, a run and reachability where every step taken
  satisfies a guard `ok` on the state before the step (`fun _ _ => True` for all runs);
* `ReachableVia.invariant` — a predicate that holds initially and is kept by every guarded step holds
  in every state a guarded run reaches;
* `runVia` — the executable form over a list of labels, with `runVia_sound` back to `RunVia` and
  `exists_reachable_of_runVia`, so that a concrete run can be evaluated.
-/

namespace ThunderboltDb.Lib

/-- Initial states and a partial step function over labels `α`. -/
structure TransitionSystem (σ α : Type*) where
  init : σ → Prop
  step : σ → α → Option σ

namespace TransitionSystem

variable {σ α : Type*} (T : TransitionSystem σ α) (ok : σ → α → Prop)

/-- One step whose label satisfies the guard in the state before the step. -/
def StepVia (s s' : σ) : Prop := ∃ a, ok s a ∧ T.step s a = some s'

/-- A run all of whose steps satisfy the guard. -/
def RunVia : σ → σ → Prop := Relation.ReflTransGen (T.StepVia ok)

/-- The states that guarded runs reach from an initial state. -/
def ReachableVia (s : σ) : Prop := ∃ s₀, T.init s₀ ∧ T.RunVia ok s₀ s

/-- The states that unrestricted runs reach. -/
def Reachable (s : σ) : Prop := T.ReachableVia (fun _ _ => True) s

variable {T ok} {s : σ} {s' : σ} {P : σ → Prop}

theorem ReachableVia.of_init (h : T.init s) : T.ReachableVia ok s := ⟨s, h, Relation.ReflTransGen.refl⟩

theorem ReachableVia.trans (h : T.ReachableVia ok s) (hr : T.RunVia ok s s') : T.ReachableVia ok s' := by
  obtain ⟨s₀, h₀, hrun⟩ := h
  exact ⟨s₀, h₀, Relation.ReflTransGen.trans hrun hr⟩

theorem ReachableVia.step {a : α} (h : T.ReachableVia ok s) (hok : ok s a)
    (hs : T.step s a = some s') : T.ReachableVia ok s' :=
  h.trans (Relation.ReflTransGen.single ⟨a, hok, hs⟩)

/-- A property kept by every guarded step is kept by every guarded run. -/
theorem RunVia.preserves (hr : T.RunVia ok s s')
    (hstep : ∀ s a s', P s → ok s a → T.step s a = some s' → P s') (hs : P s) : P s' := by
  induction hr with
  | refl => exact hs
  | tail _ hstep' ih =>
    obtain ⟨a, hok, ha⟩ := hstep'
    exact hstep _ a _ ih hok ha

/-- **The invariant rule.**  A property that holds initially and is kept by every guarded step holds
in every state a guarded run reaches. -/
theorem ReachableVia.invariant (hr : T.ReachableVia ok s) (hinit : ∀ s, T.init s → P s)
    (hstep : ∀ s a s', P s → ok s a → T.step s a = some s' → P s') : P s := by
  obtain ⟨s₀, h₀, hrun⟩ := hr
  exact hrun.preserves hstep (hinit s₀ h₀)

/-- A run under a guard is a run under every weaker guard. -/
theorem RunVia.mono {ok' : σ → α → Prop} (himp : ∀ s a, ok s a → ok' s a)
    (hr : T.RunVia ok s s') : T.RunVia ok' s s' :=
  Relation.ReflTransGen.mono (fun _ _ ⟨a, hok, ha⟩ => ⟨a, himp _ _ hok, ha⟩) _ _ hr

variable (T ok)

/-- Run a list of labels, checking the guard before each step. -/
def runVia [∀ s a, Decidable (ok s a)] : σ → List α → Option σ
  | s, [] => some s
  | s, a :: as => if ok s a then (T.step s a).bind fun s' => runVia s' as else none

variable {T ok}

theorem runVia_sound [∀ s a, Decidable (ok s a)] {as : List α}
    (h : T.runVia ok s as = some s') : T.RunVia ok s s' := by
  induction as generalizing s with
  | nil =>
    simp only [runVia, Option.some.injEq] at h
    subst h
    exact Relation.ReflTransGen.refl
  | cons a as ih =>
    simp only [runVia] at h
    split at h
    · rename_i hok
      obtain ⟨s₁, hs₁, hrest⟩ := Option.bind_eq_some_iff.mp h
      exact Relation.ReflTransGen.head ⟨a, hok, hs₁⟩ (ih hrest)
    · cases h

/-- A run that evaluates from an initial state to one that passes a test. -/
theorem exists_reachable_of_runVia (ok : σ → α → Prop) [∀ s a, Decidable (ok s a)]
    (as : List α) (hinit : T.init s) (p : σ → Bool)
    (h : (T.runVia ok s as).any p = true) : ∃ s', T.ReachableVia ok s' ∧ p s' = true := by
  obtain ⟨s', hrun, hp⟩ := (Option.any_eq_true p _).mp h
  exact ⟨s', ⟨s, hinit, runVia_sound hrun⟩, hp⟩

end TransitionSystem

end ThunderboltDb.Lib
