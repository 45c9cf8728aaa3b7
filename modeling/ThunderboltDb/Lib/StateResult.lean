import Mathlib

/-!
# Pre- and postconditions for stateful fallible functions

A function that mutates a state and may fail, keeping what it changed before the failure, is an
`EStateM ε σ α`. `Triple P m Q E` says: from every state with `P`, a normal return satisfies `Q` and
a failure satisfies `E`. The rules follow the shape of a program: one for each primitive, one for
sequencing, one for a branch and the rule of consequence. `Frames g m` says that a call leaves the
part `g` of the state alone; any property of that part then survives it (`Frames.triple`).
-/

namespace ThunderboltDb.Lib

variable {ε σ α β : Type}

/-- Partial correctness with a postcondition for each way a call can return. -/
def Triple (P : σ → Prop) (m : EStateM ε σ α) (Q : α → σ → Prop) (E : ε → σ → Prop) : Prop :=
  ∀ s, P s → match m s with
    | .ok a s' => Q a s'
    | .error e s' => E e s'

variable {a : α} {e : ε} {m m₁ m₂ : EStateM ε σ α} {f : α → EStateM ε σ β} {s s' : σ} {c : Prop}

namespace Triple

variable {P P' : σ → Prop} {Q Q' : α → σ → Prop} {R : β → σ → Prop} {E E' : ε → σ → Prop}

theorem pure (h : ∀ s, P s → Q a s) : Triple P (Pure.pure a : EStateM ε σ α) Q E :=
  fun s hs => h s hs

theorem throw (h : ∀ s, P s → E e s) : Triple P (MonadExcept.throw e : EStateM ε σ α) Q E :=
  fun s hs => h s hs

theorem bind (hm : Triple P m Q E) (hf : ∀ a, Triple (Q a) (f a) R E) : Triple P (m >>= f) R E := by
  intro s hs
  have h := hm s hs
  simp only [Bind.bind, EStateM.bind]
  cases hms : m s with
  | ok a s' => rw [hms] at h; exact hf a s' h
  | error e s' => rw [hms] at h; exact h

/-- Reading the state and going on with it. -/
theorem get_bind {f : σ → EStateM ε σ β} (h : ∀ s, P s → Triple (fun s' => s' = s) (f s) R E) :
    Triple P (MonadState.get >>= f) R E :=
  fun s hs => h s hs s rfl

theorem get_self {f : σ → EStateM ε σ β} (h : Triple (fun s' => s' = s) (f s) R E) :
    Triple (fun s' => s' = s) (MonadState.get >>= f) R E :=
  get_bind fun _ hs => hs ▸ h

theorem modify {f : σ → σ} {Q : PUnit → σ → Prop} (h : ∀ s, P s → Q ⟨⟩ (f s)) :
    Triple P (modify f : EStateM ε σ PUnit) Q E :=
  fun s hs => h s hs

theorem set {Q : PUnit → σ → Prop} (h : ∀ s, P s → Q ⟨⟩ s') :
    Triple P (MonadStateOf.set s' : EStateM ε σ PUnit) Q E :=
  fun s hs => h s hs

theorem ite [Decidable c] (h₁ : c → Triple P m₁ Q E)
    (h₂ : ¬ c → Triple P m₂ Q E) : Triple P (if c then m₁ else m₂) Q E := by
  split
  · exact h₁ ‹_›
  · exact h₂ ‹_›

theorem conseq (h : Triple P m Q E) (hP : ∀ s, P' s → P s)
    (hQ : ∀ a s, Q a s → Q' a s) (hE : ∀ e s, E e s → E' e s) : Triple P' m Q' E' := by
  intro s hs
  have := h s (hP s hs)
  cases hms : m s with
  | ok a s' => rw [hms] at this; exact hQ a s' this
  | error e s' => rw [hms] at this; exact hE e s' this

end Triple

variable {P : σ → Prop} {Q : α → σ → Prop}

/-- A call that cannot fail returns. -/
theorem Triple.exists_ok (h : Triple P m Q fun _ _ => False) (hs : P s) : ∃ a s', m s = .ok a s' ∧ Q a s' := by
  have hm := h s hs
  cases hres : m s with
  | ok a s' => rw [hres] at hm; exact ⟨a, s', rfl, hm⟩
  | error e s' => rw [hres] at hm; exact hm.elim

/-- Undo work of a failed call: `f` is applied to the state a failure leaves. -/
def onError (m : EStateM ε σ α) (f : σ → σ) : EStateM ε σ α := fun s =>
  match m s with
  | .ok a s' => .ok a s'
  | .error e s' => .error e (f s')

theorem Triple.onError {f : σ → σ}
    {E : ε → σ → Prop} (h : Triple P m Q fun e s => E e (f s)) : Triple P (Lib.onError m f) Q E := by
  intro s hs
  have := h s hs
  simp only [Lib.onError]
  cases hms : m s with
  | ok a s' | error e s' => rw [hms] at this; exact this

/-! ### The state a call leaves -/

/-- The state after a call, however it returned. -/
def stateAfter (m : EStateM ε σ α) (s : σ) : σ :=
  match m s with
  | .ok _ s' => s'
  | .error _ s' => s'

theorem bind_of_ok (h : m s = .ok a s') : (m >>= f) s = f a s' := by
  simp only [Bind.bind, EStateM.bind, h]

theorem bind_of_error (h : m s = .error e s') : (m >>= f) s = .error e s' := by
  simp only [Bind.bind, EStateM.bind, h]

/-- A sequence that returns normally, taken apart. -/
theorem bind_eq_ok {s'' : σ} {b : β} :
    (m >>= f) s = .ok b s'' ↔ ∃ a s', m s = .ok a s' ∧ f a s' = .ok b s'' := by
  cases h : m s with
  | ok a s' => simp [bind_of_ok h]
  | error e s' => simp [bind_of_error h]

theorem onError_of_ok {f : σ → σ} (h : m s = .ok a s') : Lib.onError m f s = .ok a s' := by
  simp only [Lib.onError, h]

theorem onError_of_error {f : σ → σ} (h : m s = .error e s') : Lib.onError m f s = .error e (f s') := by
  simp only [Lib.onError, h]

/-! ### Frames -/

/-- However the call returns, the part `g` of the state is as before. -/
def Frames {γ : Type} (g : σ → γ) (m : EStateM ε σ α) : Prop :=
  ∀ c, Triple (fun s => g s = c) m (fun _ s => g s = c) (fun _ s => g s = c)

namespace Frames

variable {γ : Type} {g : σ → γ}

theorem pure (a : α) : Frames g (Pure.pure a : EStateM ε σ α) := fun _ => Triple.pure fun _ h => h

theorem throw (e : ε) : Frames g (MonadExcept.throw e : EStateM ε σ α) :=
  fun _ => Triple.throw fun _ h => h

theorem bind (hm : Frames g m) (hf : ∀ a, Frames g (f a)) : Frames g (m >>= f) :=
  fun c => Triple.bind (hm c) fun a => hf a c

theorem get_bind {f : σ → EStateM ε σ β} (hf : ∀ s, Frames g (f s)) : Frames g (MonadState.get >>= f) := by
  intro c
  refine Triple.get_bind fun s hs => ?_
  subst hs
  exact (hf s (g s)).conseq (fun _ h => by rw [h]) (fun _ _ h => h) fun _ _ h => h

theorem modify {f : σ → σ} (h : ∀ s, g (f s) = g s) : Frames g (modify f : EStateM ε σ PUnit) :=
  fun _ => Triple.modify fun s hs => (h s).trans hs

theorem ite [Decidable c] (h₁ : Frames g m₁) (h₂ : Frames g m₂) : Frames g (if c then m₁ else m₂) :=
  fun x => Triple.ite (fun _ => h₁ x) fun _ => h₂ x

/-- A part of a framed part is framed. -/
theorem comp {δ : Type} (h : Frames g m) (k : γ → δ) : Frames (fun s => k (g s)) m := by
  intro c s hs
  have hc := h (g s) s rfl
  cases hm : m s with
  | ok a s' | error e s' => rw [hm] at hc; simp only at hc ⊢; rw [hc]; exact hs

/-- Any property of a framed part survives the call. -/
theorem triple (h : Frames g m) (P : γ → Prop) :
    Triple (fun s => P (g s)) m (fun _ s => P (g s)) (fun _ s => P (g s)) := by
  intro s hs
  have hc := h (g s) s rfl
  cases hm : m s with
  | ok a s' | error e s' => rw [hm] at hc; simp only at hc ⊢; rw [hc]; exact hs

end Frames

theorem Triple.and {P' : σ → Prop} {Q' : α → σ → Prop}
    {E E' : ε → σ → Prop} (h : Triple P m Q E) (h' : Triple P' m Q' E') :
    Triple (fun s => P s ∧ P' s) m (fun a s => Q a s ∧ Q' a s) (fun e s => E e s ∧ E' e s) := by
  intro s hs
  have h₁ := h s hs.1
  have h₂ := h' s hs.2
  cases hm : m s with
  | ok a s' | error e s' => rw [hm] at h₁ h₂; exact ⟨h₁, h₂⟩

end ThunderboltDb.Lib
