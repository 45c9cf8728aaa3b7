import ThunderboltDb.Lib.Transition

/-!
# Cancelling a connection's requests

One connection begins and drops its requests one after another, and any number of threads call `request_cancel`.
Every step is one atomic operation. A call returns `true` right behind its store: `notify_one` wakes the waiter and
touches none of the three generations.
-/

namespace ThunderboltDb.Server.Cancellation

open Lib Function Option

/-- Where the connection stands. -/
inductive Connection where
  | idle
  /-- in `begin`, with a generation drawn -/
  | drawn (generation : UInt64)
  /-- an `ActiveRequest` is alive -/
  | active (generation : UInt64)
  /-- in `drop`, behind its first exchange -/
  | dropping (generation : UInt64)
  deriving DecidableEq

/-- `RequestState`, the connection, and what each call of `request_cancel` has loaded and not yet stored. -/
structure State where
  nextGeneration : UInt64
  activeGeneration : UInt64
  cancelledGeneration : UInt64
  connection : Connection
  loaded : ℕ → Option UInt64

inductive Action where
  | draw
  | install
  | drop
  | clear
  | load (t : ℕ)
  | store (t : ℕ)
  deriving DecidableEq

namespace State

variable (s : State)

def initial : State := ⟨1, 0, 0, .idle, fun _ => none⟩

def isCancelled (generation : UInt64) : Bool := s.cancelledGeneration = generation

def step : Action → Option State
  | .draw =>
    -- generation 0 is drawn again
    if s.connection = .idle then
      some { s with
        nextGeneration := s.nextGeneration + 1
        connection := if s.nextGeneration = 0 then .idle else .drawn s.nextGeneration }
    else none
  | .install =>
    match s.connection with
    | .drawn generation =>
      if s.activeGeneration = 0 then
        some { s with activeGeneration := generation, connection := .active generation }
      else some { s with connection := .idle }
    | _ => none
  | .drop =>
    match s.connection with
    | .active generation =>
      if s.activeGeneration = generation then
        some { s with activeGeneration := 0, connection := .dropping generation }
      else some { s with connection := .idle }
    | _ => none
  | .clear =>
    match s.connection with
    | .dropping generation =>
      some { s with
        cancelledGeneration := if s.cancelledGeneration = generation then 0 else s.cancelledGeneration
        connection := .idle }
    | _ => none
  | .load t =>
    -- without an active request the call returns `false`
    if s.loaded t = none then
      some { s with
        loaded := Function.update s.loaded t (if s.activeGeneration = 0 then none else some s.activeGeneration) }
    else none
  | .store t =>
    (s.loaded t).map fun generation =>
      { s with cancelledGeneration := generation, loaded := Function.update s.loaded t none }

end State

def cancellation : TransitionSystem State Action := ⟨(· = .initial), State.step⟩

/-- The active request is not dropped. -/
def Undropped (_ : State) (a : Action) : Prop := a ≠ .drop

variable {s s' : State} {a : Action} {g : UInt64} {t : ℕ}

/-- The generation of a living request is the active one. -/
theorem active_of_reachable (h : cancellation.Reachable s) : s.connection = .active g → s.activeGeneration = g := by
  refine h.invariant (P := fun s => s.connection = .active g → s.activeGeneration = g) ?_ ?_
  · rintro s rfl hactive
    cases hactive
  · intro s a s' hs _ hstep
    cases a <;> simp only [cancellation, State.step, map_eq_some_iff] at hstep <;> grind

/-- The request has its mark, and whoever is about to set a mark sets the same. -/
structure Holds (g : UInt64) (s : State) : Prop where
  connection : s.connection = .active g
  active : s.activeGeneration = g
  cancelled : s.cancelledGeneration = g
  loaded : ∀ t, ∀ g' ∈ s.loaded t, g' = g

/-- The calls that have loaded something else than `g` are no more behind an update that leaves none of them. -/
theorem forall_update {loaded : ℕ → Option UInt64} {entry : Option UInt64} (hentry : ∀ g' ∈ entry, g' = g)
    (h : ∀ u ≠ t, ∀ g' ∈ loaded u, g' = g) : ∀ u, ∀ g' ∈ Function.update loaded t entry u, g' = g := by
  intro u g' hu
  by_cases hut : u = t
  · rw [hut, update_self] at hu
    exact hentry g' hu
  · rw [update_of_ne hut] at hu
    exact h u hut g' hu

theorem Holds.step (h : Holds g s) (hok : Undropped s a) (hstep : s.step a = some s') : Holds g s' := by
  cases a with
  | draw | install | clear => simp [State.step, h.connection] at hstep
  | drop => exact absurd rfl hok
  | load t =>
    obtain ⟨-, rfl⟩ := ite_some_none_eq_some.mp hstep
    refine { h with loaded := forall_update ?_ fun u _ => h.loaded u }
    grind [h.active]
  | store t =>
    obtain ⟨g', hload, rfl⟩ := map_eq_some_iff.mp hstep
    exact { h with
      cancelled := h.loaded t g' hload
      loaded := forall_update nofun fun u _ => h.loaded u }

/-- Only the store of a call that has read a generation makes it report cancelled. -/
theorem cancelled_of_store (hstep : s.step a = some s') (hbefore : s.isCancelled g = false)
    (hafter : s'.isCancelled g = true) (hg : g ≠ 0) : ∃ t, a = .store t ∧ s.loaded t = some g := by
  cases a <;> simp only [State.step, map_eq_some_iff] at hstep <;> grind [State.isCancelled]

/-- No call makes a request of another generation report cancelled; and a request that a call has cancelled reports it
until its drop, exactly when no call that has read another generation is still about to store it. -/
theorem cancel_hits_its_request_iff (hreach : cancellation.Reachable s) (hload : s.loaded t = some g)
    (hactive : s.connection = .active g) (hstore : s.step (.store t) = some s') :
    ((∀ s₁ a s₂ g', State.step s₁ a = some s₂ → s₁.isCancelled g' = false → s₂.isCancelled g' = true →
      g' ≠ 0 →
        ∃ u, a = .store u ∧ s₁.loaded u = some g') ∧
      ∀ s₁, cancellation.RunVia Undropped s' s₁ → s₁.isCancelled g = true) ↔
    ∀ u, ∀ g' ∈ s.loaded u, g' = g := by
  obtain ⟨g₁, hload₁, rfl⟩ := map_eq_some_iff.mp hstore
  obtain rfl : g = g₁ := some.inj (hload.symm.trans hload₁)
  constructor
  · rintro ⟨-, hstays⟩ u g' hu
    by_contra hne
    have hut : u ≠ t := by
      rintro rfl
      exact hne (some.inj (hu.symm.trans hload))
    -- the stalled call stores behind the other one
    have hnext : State.step { s with cancelledGeneration := g, loaded := update s.loaded t none } (.store u) =
        some { s with cancelledGeneration := g', loaded := update (update s.loaded t none) u none } := by
      simp [State.step, hut, Option.mem_def.mp hu]
    exact hne (of_decide_eq_true (hstays _ (.single ⟨.store u, nofun, hnext⟩)))
  · intro hothers
    have hgeneration := active_of_reachable hreach hactive
    refine ⟨fun _ _ _ _ => cancelled_of_store, fun s₁ hrun => decide_eq_true ?_⟩
    refine (hrun.preserves (fun _ _ _ h => h.step) ?_ : Holds g s₁).cancelled
    exact ⟨hactive, hgeneration, rfl, forall_update (by simp) fun u _ => hothers u⟩

/-- A call that nobody interferes with. -/
theorem lone_cancel_holds : ∃ s s', cancellation.Reachable s ∧ s.step (.store 0) = some s' ∧
    ∀ s₁, cancellation.RunVia Undropped s' s₁ → s₁.isCancelled 1 = true := by
  have hrun : cancellation.runVia (fun _ _ => True) .initial [.draw, .install, .load 0] = some _ := rfl
  have hreach : cancellation.Reachable _ := ⟨_, rfl, TransitionSystem.runVia_sound hrun⟩
  refine ⟨_, _, hreach, rfl, ((cancel_hits_its_request_iff (g := 1) (t := 0) hreach rfl rfl rfl).mpr ?_).2⟩
  exact forall_update (by rintro _ ⟨⟩; rfl) nofun

/-- A call that has read an earlier request stores behind the return of the one that cancelled the present one. -/
theorem stalled_cancel_overwrites : ∃ s s₁ s₂, cancellation.Reachable s ∧ s.connection = .active 2 ∧
    s.loaded 1 = some 2 ∧ s.step (.store 1) = some s₁ ∧ s₁.isCancelled 2 = true ∧
    cancellation.RunVia Undropped s₁ s₂ ∧ s₂.isCancelled 2 = false := by
  have hrun : cancellation.runVia (fun _ _ => True) .initial
    [.draw, .install, .load 0, .drop, .clear, .draw, .install, .load 1] = some _ := rfl
  exact ⟨_, _, _, ⟨_, rfl, TransitionSystem.runVia_sound hrun⟩, rfl, rfl, rfl, rfl,
    .single ⟨.store 0, by simp [Undropped], rfl⟩, rfl⟩

end ThunderboltDb.Server.Cancellation
