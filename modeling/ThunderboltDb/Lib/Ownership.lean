import Mathlib

/-!
# Exclusive ownership by program counters

A mutex, or any other exclusive role, is recorded twice in a model of threads: once as the owner field of
the state and once by where each thread stands. `Owned` says that the two agree, which also makes the
owner unique; `OwnerStep` lists what one thread's step may do to them.

* `Owned.update` — a step of one thread keeps the agreement;
* `Owned.map` — so does a change of all local states that nobody's ownership depends on.
-/

namespace ThunderboltDb.Lib

variable {τ σ : Type*} {holds : σ → Bool} {owner owner' : Option τ} {loc : τ → σ}

/-- The owner is exactly the thread whose local state holds the resource. -/
def Owned (holds : σ → Bool) (owner : Option τ) (loc : τ → σ) : Prop :=
  ∀ t, holds (loc t) = true ↔ owner = some t

/-- A step of thread `t`: whether it holds the resource before and after, and the owner before and
after. -/
inductive OwnerStep (t : τ) : Bool → Bool → Option τ → Option τ → Prop where
  | keep {b : Bool} {owner : Option τ} : OwnerStep t b b owner owner
  | acquire {owner : Option τ} (hfree : owner = none) : OwnerStep t false true owner (some t)
  | release {owner : Option τ} : OwnerStep t true false owner none

namespace Owned

theorem unique (h : Owned holds owner loc) {t u : τ} (ht : holds (loc t) = true)
    (hu : holds (loc u) = true) : t = u :=
  Option.some.inj (((h t).mp ht).symm.trans ((h u).mp hu))

theorem update [DecidableEq τ] (h : Owned holds owner loc) {t : τ} {x : σ}
    (hstep : OwnerStep t (holds (loc t)) (holds x) owner owner') :
    Owned holds owner' (Function.update loc t x) := by
  intro u
  by_cases hu : u = t
  · subst hu
    rw [Function.update_self]
    have hu := h u
    generalize holds x = after at hstep ⊢
    generalize holds (loc u) = before at hstep hu
    cases hstep with
    | keep => exact hu
    | acquire | release => simp
  · rw [Function.update_of_ne hu]
    have ht := h t
    have hu' := h u
    generalize holds x = after at hstep
    generalize holds (loc t) = before at hstep ht
    cases hstep with
    | keep => exact hu'
    | acquire hfree =>
      rw [hu', hfree]
      simp [Ne.symm hu]
    | release =>
      rw [hu', ht.mp rfl]
      simp [Ne.symm hu]

theorem map (h : Owned holds owner loc) {f : σ → σ} (hf : ∀ x, holds (f x) = holds x) :
    Owned holds owner (fun t => f (loc t)) := by
  intro t
  rw [hf]
  exact h t

end Owned

end ThunderboltDb.Lib
