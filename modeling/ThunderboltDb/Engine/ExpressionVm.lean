import ThunderboltDb.Engine.ResidentExpr

/-!
# The resident expression machine

A program is a list of steps over a stack of device buffers with one entry a row: value buffers of 4, 8 or 16
bytes an entry, and masks. `validateResidentArithProgram` checks a program before anything is launched: that
every window lies in the device memory and that the stack is used by its types. `execProgram` is the run; every
checked arithmetic step ORs into one overflow flag over all rows, and `runExprPredicateFilter` reads that flag
once, at the end.
-/

namespace ThunderboltDb.Engine

open Lib Sql

/-! ### Steps -/

inductive ResidentElemType where
  | i32
  | i64
  | i128
  deriving DecidableEq

def ResidentElemType.elemSize : ResidentElemType → ℕ
  | .i32 => 4
  | .i64 => 8
  | .i128 => 16

/-- `op` is 0 for `add`, 1 for `sub` and 2 for `mul`, or 0 for `and` and 1 for `or` on masks; `cmp` is 0 for
`=`, 1 for `<`, 2 for `<=`, 3 for `>`, 4 for `>=` and 5 for `<>`. -/
inductive ExprStep where
  | loadColumn (byteOffset : ℕ)
  | loadColumnI64 (byteOffset : ℕ)
  | bufferBinary (op : ℕ)
  | scalarBinary (op : ℕ) (scalar : Int32) (scalarOnLeft : Bool)
  | scalarBinaryI64 (op : ℕ) (scalar : Int64) (scalarOnLeft : Bool)
  | compareScalar (cmp : ℕ) (scalar : Int32) (scalarOnLeft : Bool)
  | compareScalarI64 (cmp : ℕ) (scalar : Int64) (scalarOnLeft : Bool)
  | compareScalarI128 (cmp : ℕ) (scalar : I128) (scalarOnLeft : Bool)
  | compareBuffers (cmp : ℕ)
  | maskBinary (op : ℕ)
  | textEqMask (offsetsByteOffset bytesByteOffset bytesLen needleIdx : ℕ) (negate : Bool)
  | textCmpMask (offsetsByteOffset bytesByteOffset bytesLen needleIdx : ℕ) (scalarOnLeft : Bool) (cmp : ℕ)
  | uuidCmpMask (byteOffset needleIdx : ℕ) (scalarOnLeft : Bool) (cmp : ℕ)
  | textCmpColumnsMask (aOffsetsByteOffset aBytesByteOffset aBytesLen : ℕ)
    (bOffsetsByteOffset bBytesByteOffset bBytesLen : ℕ) (cmp : ℕ)
  | uuidCmpColumnsMask (aByteOffset bByteOffset cmp : ℕ)
  | textLikeMask (offsetsByteOffset bytesByteOffset bytesLen patternIdx : ℕ)
  | boolMask (bitmapByteOffset : ℕ) (negate : Bool)
  | constMask (value : Bool)

inductive CudaRuntimeProbeError where
  | invalidInputLength (length : ℕ)
  | integerOutOfRange
  | bigintOutOfRange
  | numericFieldOverflow
  deriving DecidableEq

/-! ### The check before a run -/

/-- `usize::MAX`, reported where a `u64` would overflow. -/
def overflowed : CudaRuntimeProbeError := .invalidInputLength (2 ^ 64 - 1)

def validateWindow (allocatedBytes byteOffset elementCount elementWidth : ℕ) :
    Except CudaRuntimeProbeError Unit := do
  refuse (2 ^ 64 ≤ byteOffset + elementCount * elementWidth) overflowed
  refuse (allocatedBytes < byteOffset + elementCount * elementWidth)
    (.invalidInputLength (byteOffset + elementCount * elementWidth))

def validateAlignedWindow (allocatedBytes byteOffset elementCount elementWidth alignment : ℕ) :
    Except CudaRuntimeProbeError Unit := do
  refuse (alignment = 0 ∨ ¬alignment ∣ byteOffset) (.invalidInputLength byteOffset)
  validateWindow allocatedBytes byteOffset elementCount elementWidth

def validateTextWindows (allocatedBytes offsetsByteOffset bytesByteOffset bytesLen rowCount : ℕ) :
    Except CudaRuntimeProbeError Unit := do
  refuse (2 ^ 64 ≤ rowCount + 1) overflowed
  validateAlignedWindow allocatedBytes offsetsByteOffset (rowCount + 1) 8 8
  validateWindow allocatedBytes bytesByteOffset bytesLen 1

inductive PreflightValue where
  | value (elem : ResidentElemType)
  | mask
  deriving DecidableEq

inductive ExprTerminal where
  | value
  | mask
  | twoValues

/-- Pop the entry that a step expects; the stack's top is the list's head. -/
def popExpected (expected : PreflightValue) (step : ℕ) :
    List PreflightValue → Except CudaRuntimeProbeError (List PreflightValue)
  | top :: stack => if top = expected then .ok stack else .error (.invalidInputLength step)
  | [] => .error (.invalidInputLength step)

def popValue (elem : ResidentElemType) : ℕ → List PreflightValue →
    Except CudaRuntimeProbeError (List PreflightValue) := popExpected (.value elem)

def popMask : ℕ → List PreflightValue → Except CudaRuntimeProbeError (List PreflightValue) :=
  popExpected .mask

theorem popExpected_ok {expected : PreflightValue} {step : ℕ} {stack stack' : List PreflightValue} :
    popExpected expected step stack = .ok stack' ↔ stack = expected :: stack' := by
  cases stack with
  | nil => simp [popExpected]
  | cons top stack =>
    simp only [popExpected]
    split
    · rename_i heq
      simp [heq]
    · rename_i hne
      simp [hne]

/-- `text_needles.get(needle_idx)`. -/
def needleAt (textNeedles : List Bytes) (idx step : ℕ) : Except CudaRuntimeProbeError Bytes :=
  match textNeedles[idx]? with
  | none => .error (.invalidInputLength step)
  | some needle => .ok needle

variable {p q : List ExprStep}

section Preflight

variable (residentBytes : ℕ) (textNeedles : List Bytes) (n : ℕ) (elem : ResidentElemType)

def validateStep (index : ℕ) (stack : List PreflightValue) :
    ExprStep → Except CudaRuntimeProbeError (List PreflightValue)
  | .loadColumn byteOffset => do
    validateAlignedWindow residentBytes byteOffset n elem.elemSize 4
    .ok (.value elem :: stack)
  | .loadColumnI64 byteOffset => do
    validateAlignedWindow residentBytes byteOffset n 8 4
    .ok (.value .i64 :: stack)
  | .bufferBinary op => do
    refuse (2 < op) (.invalidInputLength index)
    let stack ← popValue elem index stack
    let stack ← popValue elem index stack
    .ok (.value elem :: stack)
  | .scalarBinary op _ _ => do
    refuse (2 < op) (.invalidInputLength index)
    let stack ← popValue elem index stack
    .ok (.value elem :: stack)
  | .scalarBinaryI64 op _ _ => do
    refuse (2 < op ∨ elem ≠ .i64) (.invalidInputLength index)
    let stack ← popValue .i64 index stack
    .ok (.value .i64 :: stack)
  | .compareScalar cmp _ _ => do
    refuse (5 < cmp) (.invalidInputLength index)
    let stack ← popValue elem index stack
    .ok (.mask :: stack)
  | .compareScalarI64 cmp _ _ => do
    refuse (5 < cmp) (.invalidInputLength index)
    let stack ← popValue .i64 index stack
    .ok (.mask :: stack)
  | .compareScalarI128 cmp _ _ => do
    refuse (5 < cmp ∨ elem ≠ .i128) (.invalidInputLength index)
    let stack ← popValue .i128 index stack
    .ok (.mask :: stack)
  | .compareBuffers cmp => do
    refuse (5 < cmp) (.invalidInputLength index)
    let stack ← popValue elem index stack
    let stack ← popValue elem index stack
    .ok (.mask :: stack)
  | .maskBinary op => do
    refuse (1 < op) (.invalidInputLength index)
    let stack ← popMask index stack
    let stack ← popMask index stack
    .ok (.mask :: stack)
  | .textEqMask offsetsByteOffset bytesByteOffset bytesLen needleIdx _ => do
    validateTextWindows residentBytes offsetsByteOffset bytesByteOffset bytesLen n
    let _ ← needleAt textNeedles needleIdx index
    .ok (.mask :: stack)
  | .textCmpMask offsetsByteOffset bytesByteOffset bytesLen needleIdx _ cmp => do
    refuse (5 < cmp) (.invalidInputLength index)
    validateTextWindows residentBytes offsetsByteOffset bytesByteOffset bytesLen n
    let _ ← needleAt textNeedles needleIdx index
    .ok (.mask :: stack)
  | .uuidCmpMask byteOffset needleIdx _ cmp => do
    refuse (5 < cmp) (.invalidInputLength index)
    validateWindow residentBytes byteOffset n 16
    let needle ← needleAt textNeedles needleIdx index
    refuse (needle.length ≠ 16) (.invalidInputLength needle.length)
    .ok (.mask :: stack)
  | .textCmpColumnsMask aOffsetsByteOffset aBytesByteOffset aBytesLen bOffsetsByteOffset bBytesByteOffset
      bBytesLen cmp => do
    refuse (5 < cmp) (.invalidInputLength index)
    validateTextWindows residentBytes aOffsetsByteOffset aBytesByteOffset aBytesLen n
    validateTextWindows residentBytes bOffsetsByteOffset bBytesByteOffset bBytesLen n
    .ok (.mask :: stack)
  | .uuidCmpColumnsMask aByteOffset bByteOffset cmp => do
    refuse (5 < cmp) (.invalidInputLength index)
    validateWindow residentBytes aByteOffset n 16
    validateWindow residentBytes bByteOffset n 16
    .ok (.mask :: stack)
  | .textLikeMask offsetsByteOffset bytesByteOffset bytesLen patternIdx => do
    validateTextWindows residentBytes offsetsByteOffset bytesByteOffset bytesLen n
    let pattern ← needleAt textNeedles patternIdx index
    refuse (pattern.length % 4 ≠ 0) (.invalidInputLength pattern.length)
    .ok (.mask :: stack)
  | .boolMask bitmapByteOffset _ => do
    validateAlignedWindow residentBytes bitmapByteOffset ((n + 31) / 32) 4 4
    .ok (.mask :: stack)
  | .constMask _ => .ok (.mask :: stack)

/-- The steps from `index` on. -/
def validateSteps : ℕ → List PreflightValue → List ExprStep →
    Except CudaRuntimeProbeError (List PreflightValue)
  | _, stack, [] => .ok stack
  | index, stack, step :: steps => do
    let stack ← validateStep residentBytes textNeedles n elem index stack step
    validateSteps (index + 1) stack steps

/-- What a run leaves on the stack. -/
def ExprTerminal.stack : ExprTerminal → List PreflightValue
  | .value => [.value elem]
  | .mask => [.mask]
  | .twoValues => [.value elem, .value elem]

def validateResidentArithProgram (program : List ExprStep) (terminal : ExprTerminal) :
    Except CudaRuntimeProbeError Unit := do
  refuse (2 ^ 64 ≤ n + 31) overflowed
  let stack ← validateSteps residentBytes textNeedles n elem 0 [] program
  refuse (stack ≠ terminal.stack elem) (.invalidInputLength program.length)

variable {residentBytes textNeedles n elem}

/-- A program is checked part by part. -/
theorem validateSteps_append {index : ℕ} {stack stack' : List PreflightValue} :
    validateSteps residentBytes textNeedles n elem index stack (p ++ q) = .ok stack' ↔
      ∃ mid, validateSteps residentBytes textNeedles n elem index stack p = .ok mid ∧
        validateSteps residentBytes textNeedles n elem (index + p.length) mid q = .ok stack' := by
  induction p generalizing index stack with
  | nil => simp [validateSteps]
  | cons step p ih =>
    simp only [List.cons_append, validateSteps, bind_ok, List.length_cons]
    constructor
    · rintro ⟨next, hstep, hrest⟩
      obtain ⟨mid, hp, hq⟩ := ih.mp hrest
      refine ⟨mid, ⟨next, hstep, hp⟩, ?_⟩
      rwa [show index + (p.length + 1) = index + 1 + p.length by omega]
    · rintro ⟨mid, ⟨next, hstep, hp⟩, hq⟩
      refine ⟨next, hstep, ih.mpr ⟨mid, hp, ?_⟩⟩
      rwa [show index + 1 + p.length = index + (p.length + 1) by omega]

end Preflight

/-! ### The run -/

/-- A buffer with an entry for each row. -/
inductive VmBuffer where
  | value (elem : ResidentElemType) (cells : ℕ → ℤ)
  | mask (bits : ℕ → Bool)

/-- The buffers, the top first, and the overflow flag. -/
structure VmState where
  stack : List VmBuffer
  overflow : Bool

section

variable (elem : ResidentElemType)

def ResidentElemType.bits : ℕ := 8 * elem.elemSize

/-- The number fits an element. -/
def ResidentElemType.InRange (v : ℤ) : Prop :=
  -2 ^ (elem.bits - 1) ≤ v ∧ v < 2 ^ (elem.bits - 1)

instance (elem : ResidentElemType) (v : ℤ) : Decidable (elem.InRange v) :=
  inferInstanceAs (Decidable (_ ∧ _))

/-- The element that keeps a number, wrapped around if it does not fit. -/
def ResidentElemType.wrap (v : ℤ) : ℤ := v.bmod (2 ^ elem.bits)

end

theorem ResidentElemType.wrap_eq {elem : ResidentElemType} {v : ℤ} (h : elem.InRange v) : elem.wrap v = v := by
  obtain ⟨hlo, hhi⟩ := h
  unfold ResidentElemType.wrap
  cases elem <;>
    · simp only [ResidentElemType.bits, ResidentElemType.elemSize] at hlo hhi ⊢
      norm_num at hlo hhi ⊢
      exact Int.bmod_eq_of_le (by norm_num; omega) (by norm_num; omega)

/-- The arithmetic of an `op` code. -/
def vmArith : ℕ → ℤ → ℤ → ℤ
  | 0, a, b => a + b
  | 1, a, b => a - b
  | _, a, b => a * b

/-- The orderings that a `cmp` code accepts. -/
def cmpHolds : ℕ → Ordering → Bool
  | 0, o => o == .eq
  | 1, o => o == .lt
  | 2, o => o != .gt
  | 3, o => o == .gt
  | 4, o => o != .lt
  | _, o => o != .eq

/-- The mask operation of an `op` code. -/
def vmMask : ℕ → Bool → Bool → Bool
  | 0, a, b => a && b
  | _, a, b => a || b

/-- Both operands in the order that a scalar step names. -/
def sided {α β : Type} (scalarOnLeft : Bool) (f : α → α → β) (cell scalar : α) : β :=
  if scalarOnLeft then f scalar cell else f cell scalar

section Run

variable (host : HostText) (memory : Bytes) (textNeedles : List Bytes) (n : ℕ)
  (elem : ResidentElemType)

/-- Entry `row` of a column of the element's width. The check has seen that it lies in the memory. -/
def loadCell (elem : ResidentElemType) (byteOffset row : ℕ) : ℤ :=
  match elem with
  | .i32 => ((readI32 memory (byteOffset + row * 4)).map Int32.toInt).getD 0
  | .i64 => ((readI64 memory (byteOffset + row * 8)).map Int64.toInt).getD 0
  | .i128 => ((window memory (byteOffset + row * 16) 16).map fun bytes => (i128OfLe bytes).val).getD 0

/-- The text of a row, by the column's offsets. -/
def loadText (offsetsByteOffset bytesByteOffset bytesLen row : ℕ) : Bytes :=
  (readTextBytes memory ⟨"", offsetsByteOffset, bytesByteOffset, bytesLen⟩ row).getD []

/-- The 16 raw bytes of a row. -/
def loadB128 (byteOffset row : ℕ) : Bytes := (window memory (byteOffset + row * 16) 16).getD []

def loadBit (bitmapByteOffset row : ℕ) : Bool := (readBit memory bitmapByteOffset row).getD false

/-- A checked arithmetic result: the wrapped elements, and the flag with every row that overflowed. -/
def pushArith (overflow : Bool) (stack : List VmBuffer) (exact : ℕ → ℤ) : VmState where
  stack := .value elem (fun row => elem.wrap (exact row)) :: stack
  overflow := overflow || (List.range n).any fun row => !decide (elem.InRange (exact row))

/-- A popped buffer is missing or of another kind. -/
def stackMisused : CudaRuntimeProbeError := .invalidInputLength 0

/-- One step, by the meaning that it is documented with. -/
def execStep (state : VmState) : ExprStep → Except CudaRuntimeProbeError VmState
  | .loadColumn byteOffset =>
    .ok { state with stack := .value elem (loadCell memory elem byteOffset) :: state.stack }
  | .loadColumnI64 byteOffset =>
    .ok { state with stack := .value .i64 (loadCell memory .i64 byteOffset) :: state.stack }
  | .bufferBinary op =>
    match state.stack with
    | .value e b :: .value e' a :: stack =>
      if e = elem ∧ e' = elem then
        .ok (pushArith n elem state.overflow stack fun row => vmArith op (a row) (b row))
      else .error stackMisused
    | _ => .error stackMisused
  | .scalarBinary op scalar scalarOnLeft =>
    match state.stack with
    | .value e a :: stack =>
      if e = elem then
        .ok (pushArith n elem state.overflow stack fun row =>
          sided scalarOnLeft (vmArith op) (a row) scalar.toInt)
      else .error stackMisused
    | _ => .error stackMisused
  | .scalarBinaryI64 op scalar scalarOnLeft =>
    match state.stack with
    | .value .i64 a :: stack =>
      .ok (pushArith n .i64 state.overflow stack fun row =>
        sided scalarOnLeft (vmArith op) (a row) scalar.toInt)
    | _ => .error stackMisused
  | .compareScalar cmp scalar scalarOnLeft =>
    match state.stack with
    | .value e a :: stack =>
      if e = elem then
        .ok { state with
          stack := .mask (fun row => cmpHolds cmp (sided scalarOnLeft compare (a row) scalar.toInt)) :: stack }
      else .error stackMisused
    | _ => .error stackMisused
  | .compareScalarI64 cmp scalar scalarOnLeft =>
    match state.stack with
    | .value .i64 a :: stack =>
      .ok { state with
        stack := .mask (fun row => cmpHolds cmp (sided scalarOnLeft compare (a row) scalar.toInt)) :: stack }
    | _ => .error stackMisused
  | .compareScalarI128 cmp scalar scalarOnLeft =>
    match state.stack with
    | .value .i128 a :: stack =>
      .ok { state with
        stack := .mask (fun row => cmpHolds cmp (sided scalarOnLeft compare (a row) scalar.val)) :: stack }
    | _ => .error stackMisused
  | .compareBuffers cmp =>
    match state.stack with
    | .value e b :: .value e' a :: stack =>
      if e = elem ∧ e' = elem then
        .ok { state with stack := .mask (fun row => cmpHolds cmp (compare (a row) (b row))) :: stack }
      else .error stackMisused
    | _ => .error stackMisused
  | .maskBinary op =>
    match state.stack with
    | .mask b :: .mask a :: stack =>
      .ok { state with stack := .mask (fun row => vmMask op (a row) (b row)) :: stack }
    | _ => .error stackMisused
  | .textEqMask offsetsByteOffset bytesByteOffset bytesLen needleIdx negate => do
    let needle ← needleAt textNeedles needleIdx needleIdx
    .ok { state with
      stack := .mask (fun row =>
        decide (loadText memory offsetsByteOffset bytesByteOffset bytesLen row = needle) ^^ negate) ::
          state.stack }
  | .textCmpMask offsetsByteOffset bytesByteOffset bytesLen needleIdx scalarOnLeft cmp => do
    let needle ← needleAt textNeedles needleIdx needleIdx
    .ok { state with
      stack := .mask (fun row => cmpHolds cmp (sided scalarOnLeft compare
        (loadText memory offsetsByteOffset bytesByteOffset bytesLen row) needle)) :: state.stack }
  | .uuidCmpMask byteOffset needleIdx scalarOnLeft cmp => do
    let needle ← needleAt textNeedles needleIdx needleIdx
    .ok { state with
      stack := .mask (fun row => cmpHolds cmp (sided scalarOnLeft compare
        (loadB128 memory byteOffset row) needle)) :: state.stack }
  | .textCmpColumnsMask aOffsetsByteOffset aBytesByteOffset aBytesLen bOffsetsByteOffset bBytesByteOffset
      bBytesLen cmp =>
    .ok { state with
      stack := .mask (fun row => cmpHolds cmp (compare
        (loadText memory aOffsetsByteOffset aBytesByteOffset aBytesLen row)
        (loadText memory bOffsetsByteOffset bBytesByteOffset bBytesLen row))) :: state.stack }
  | .uuidCmpColumnsMask aByteOffset bByteOffset cmp =>
    .ok { state with
      stack := .mask (fun row => cmpHolds cmp (compare
        (loadB128 memory aByteOffset row) (loadB128 memory bByteOffset row))) :: state.stack }
  | .textLikeMask offsetsByteOffset bytesByteOffset bytesLen patternIdx => do
    let pattern ← needleAt textNeedles patternIdx patternIdx
    .ok { state with
      stack := .mask (fun row =>
        host.likeMatches pattern (loadText memory offsetsByteOffset bytesByteOffset bytesLen row)) ::
          state.stack }
  | .boolMask bitmapByteOffset negate =>
    .ok { state with stack := .mask (fun row => loadBit memory bitmapByteOffset row ^^ negate) :: state.stack }
  | .constMask value => .ok { state with stack := .mask (fun _ => value) :: state.stack }

def execProgram (state : VmState) (program : List ExprStep) : Except CudaRuntimeProbeError VmState :=
  program.foldlM (execStep host memory textNeedles n elem) state

/-- The error of the overflow flag. -/
def ResidentElemType.rangeError : ResidentElemType → CudaRuntimeProbeError
  | .i32 => .integerOutOfRange
  | .i64 => .bigintOutOfRange
  | .i128 => .numericFieldOverflow

def runResidentArithProgram (program : List ExprStep) (terminal : ExprTerminal) :
    Except CudaRuntimeProbeError (List VmBuffer) := do
  validateResidentArithProgram memory.length textNeedles n elem program terminal
  let state ← execProgram host memory textNeedles n elem ⟨[], false⟩ program
  refuse (state.overflow = true) elem.rangeError
  .ok state.stack

/-- Run a predicate and compact its mask to the indices of its rows. -/
def runExprPredicateFilter (program : List ExprStep) : Except CudaRuntimeProbeError (List ℕ) :=
  if n = 0 then .ok [] else do
    match ← runResidentArithProgram host memory textNeedles n elem program .mask with
    | [.mask bits] => .ok ((List.range n).filter bits)
    | [] => .error (.invalidInputLength 0)
    | _ => .error (.invalidInputLength program.length)

variable {host memory textNeedles n elem}

theorem execProgram_append {state : VmState} : execProgram host memory textNeedles n elem state (p ++ q)
      = (execProgram host memory textNeedles n elem state p >>= fun state =>
          execProgram host memory textNeedles n elem state q) := List.foldlM_append

end Run

end ThunderboltDb.Engine
