import ThunderboltDb.Engine.ExpressionVm

/-!
# The preflight of the expression machine

The abstract stack of the check simulates the stack of the run, for any program.

* `preflight_sound` — what an accepted program can do.
-/

namespace ThunderboltDb.Engine

open Lib List VmBuffer

/-- What the check knows of a buffer. -/
def VmBuffer.kind : VmBuffer → PreflightValue
  | .value elem _ => .value elem
  | .mask _ => .mask

/-- The windows of the resident memory that a step reads: the first byte and the length. -/
def ExprStep.windows (n : ℕ) (elem : ResidentElemType) : ExprStep → List (ℕ × ℕ)
  | .loadColumn off => [(off, n * elem.elemSize)]
  | .loadColumnI64 off => [(off, n * 8)]
  | .textEqMask offsets bytes len _ _ | .textCmpMask offsets bytes len _ _ _ | .textLikeMask offsets bytes len _ =>
    [(offsets, (n + 1) * 8), (bytes, len)]
  | .textCmpColumnsMask offsets bytes len offsets' bytes' len' _ =>
    [(offsets, (n + 1) * 8), (bytes, len), (offsets', (n + 1) * 8), (bytes', len')]
  | .uuidCmpMask off _ _ _ => [(off, n * 16)]
  | .uuidCmpColumnsMask off off' _ => [(off, n * 16), (off', n * 16)]
  | .boolMask off _ => [(off, (n + 31) / 32 * 4)]
  | _ => []

variable {host : HostText} {memory : Bytes} {needles : List Bytes} {n index : ℕ}
  {elem : ResidentElemType} {state : VmState} {step : ExprStep} {stack stack' : List PreflightValue}
  {idx : ℕ} {needle : Bytes}

theorem validateWindow_ok {bytes off count width : ℕ} {u : Unit} : validateWindow bytes off count width = .ok u ↔
    off + count * width < 2 ^ 64 ∧ off + count * width ≤ bytes := by
  simp [validateWindow, except_seq_ok]

theorem windows_sound (h : validateStep memory.length needles n elem index stack step = .ok stack') :
    ∀ window ∈ step.windows n elem, window.1 + window.2 < 2 ^ 64 ∧ window.1 + window.2 ≤ memory.length := by
  cases step <;>
    simp only [validateStep, validateAlignedWindow, validateTextWindows, bind_ok, validateWindow_ok,
      mul_one] at h <;>
    simp only [ExprStep.windows, forall_mem_cons, not_mem_nil, false_imp_iff, implies_true, and_true] <;>
    grind

theorem needleAt_ok : needleAt needles idx index = .ok needle ↔ needles[idx]? = some needle := by
  unfold needleAt
  split <;> simp_all

theorem exec_needle {f : Bytes → VmState} (h : needles[idx]? = some needle) :
    (needleAt needles idx idx >>= fun needle => .ok (f needle)) = .ok (f needle) := by
  rw [needleAt_ok.mpr h, except_ok_bind]

/-- **One step.**  The cases are grouped by what a step pops. -/
theorem step_sound
    (h : validateStep memory.length needles n elem index (state.stack.map kind) step = .ok stack) :
    ∃ next, execStep host memory needles n elem state step = .ok next ∧ next.stack.map kind = stack ∧
      next.stack.length ≤ state.stack.length + 1 := by
  obtain ⟨buffers, overflow⟩ := state
  cases step <;>
    simp only [validateStep, bind_ok, popValue, popMask, popExpected_ok, needleAt_ok, Except.ok.injEq] at h
  case bufferBinary | compareBuffers | maskBinary =>
    obtain ⟨_, -, _, hpop, _, rfl, rfl⟩ := h
    obtain ⟨b, _, rfl, hb, hrest⟩ := map_eq_cons_iff.mp hpop
    obtain ⟨a, rest, rfl, ha, rfl⟩ := map_eq_cons_iff.mp hrest
    cases a <;> cases b <;> cases ha <;> cases hb
    exact ⟨_, by simp [execStep]; rfl, rfl, by simp [pushArith]⟩
  case scalarBinary | scalarBinaryI64 | compareScalar | compareScalarI64 | compareScalarI128 =>
    obtain ⟨_, -, _, hpop, rfl⟩ := h
    obtain ⟨a, rest, rfl, ha, rfl⟩ := map_eq_cons_iff.mp hpop
    cases a <;> cases ha
    exact ⟨_, by simp [execStep]; rfl, rfl, by simp [pushArith]⟩
  case textEqMask =>
    obtain ⟨_, -, needle, hneedle, rfl⟩ := h
    exact ⟨_, exec_needle hneedle, rfl, le_rfl⟩
  case textCmpMask =>
    obtain ⟨_, -, _, -, needle, hneedle, rfl⟩ := h
    exact ⟨_, exec_needle hneedle, rfl, le_rfl⟩
  case uuidCmpMask =>
    obtain ⟨_, -, _, -, needle, hneedle, _, -, rfl⟩ := h
    exact ⟨_, exec_needle hneedle, rfl, le_rfl⟩
  case textLikeMask =>
    obtain ⟨_, -, needle, hneedle, _, -, rfl⟩ := h
    exact ⟨_, exec_needle hneedle, rfl, le_rfl⟩
  case loadColumn | loadColumnI64 | boolMask =>
    obtain ⟨_, -, rfl⟩ := h
    exact ⟨_, rfl, rfl, le_rfl⟩
  case textCmpColumnsMask | uuidCmpColumnsMask =>
    obtain ⟨_, -, _, -, _, -, rfl⟩ := h
    exact ⟨_, rfl, rfl, le_rfl⟩
  case constMask => exact ⟨_, rfl, h, le_rfl⟩

/-- **A program.**  The stacks go together, and each step deepens them by one buffer at most. -/
theorem steps_sound {program : List ExprStep}
    (h : validateSteps memory.length needles n elem index (state.stack.map kind) program = .ok stack) :
    (∃ final, execProgram host memory needles n elem state program = .ok final ∧
      final.stack.map kind = stack ∧ final.stack.length ≤ state.stack.length + program.length) ∧
    ∀ step ∈ program, ∀ window ∈ step.windows n elem,
      window.1 + window.2 < 2 ^ 64 ∧ window.1 + window.2 ≤ memory.length := by
  induction program generalizing index state with
  | nil => exact ⟨⟨state, rfl, Except.ok.inj h, le_rfl⟩, fun _ hmem => absurd hmem not_mem_nil⟩
  | cons step program ih =>
    obtain ⟨mid, hstep, hrest⟩ := bind_ok.mp h
    obtain ⟨next, hexec, rfl, hdeep⟩ := @step_sound host _ _ _ _ _ _ _ _ hstep
    obtain ⟨⟨final, hfinal, hkinds, hdeeper⟩, hwindows⟩ := ih hrest
    refine ⟨⟨final, ?_, hkinds, by rw [length_cons]; omega⟩, ?_⟩
    · rw [execProgram, foldlM_cons, hexec]
      exact hfinal
    · exact forall_mem_cons.mpr ⟨windows_sound hstep, hwindows⟩

end ThunderboltDb.Engine
