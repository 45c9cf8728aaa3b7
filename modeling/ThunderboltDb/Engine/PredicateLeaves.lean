import ThunderboltDb.Engine.ResidentStore

/-!
# Compiled comparisons

The stack machine computes on the cells as they are stored, a `NULL` as 0, and knows only masks. A comparison's
mask is right on the rows whose operands are known and arbitrary on the others; the validity masks behind it clear
those.

* `arith_exec` — the value buffer of an arithmetic operand, and which rows set the overflow flag.
-/

namespace ThunderboltDb.Engine

open Lib Sql List ResidentStore

variable {host : HostText} {store : ResidentStore} {elem : ResidentElemType} {final : List Bytes}
  {n col r : ℕ} {left right : List ExprStep} {a b : Option Datum}

variable {row : List SqlValue} {off : ℕ} {ty : SqlType} {e literal : ResidentExpr} {steps : List ExprStep}
    {columns : List RelationalColumn} {layout : ResidentDeviceTextColumnLayout}

/-! ### Arithmetic -/

/-- The number an arithmetic expression comes to over the cells as they are stored, a `NULL` being a 0. -/
def storedArith (row : List SqlValue) : ResidentExpr → ℤ
  | .column col => ((row[col]?).bind valueInt).join.getD 0
  | .int4Literal value => value.toInt
  | .int8Literal value => value.toInt
  | .binary op lhs rhs => (arithOf op).elim 0 fun apply => apply (storedArith row lhs) (storedArith row rhs)
  | _ => 0

/-- An intermediate result over the stored cells does not fit an element. -/
def arithOverflows (elem : ResidentElemType) (row : List SqlValue) : ResidentExpr → Bool
  | .binary op lhs rhs => arithOverflows elem row lhs || arithOverflows elem row rhs ||
      !decide (elem.InRange (storedArith row (.binary op lhs rhs)))
  | _ => false

/-- An operand of a comparison of the predicate overflows. -/
def predicateOverflows (elem : ResidentElemType) (row : List SqlValue) : ResidentExpr → Bool
  | .binary op lhs rhs =>
    if (booleanOpCode op).isSome then predicateOverflows elem row lhs || predicateOverflows elem row rhs
    else arithOverflows elem row lhs || arithOverflows elem row rhs
  | _ => false

/-- Flags over all rows add up, as long as the second is right on the rows that the first leaves alone. -/
theorem any_range_or {f g h : ℕ → Bool} (heq : ∀ r < n, f r = false → g r = h r) :
    ((List.range n).any f || (List.range n).any g) = (List.range n).any fun r => f r || h r := by
  rw [Bool.eq_iff_iff]
  simp only [Bool.or_eq_true, any_eq_true, mem_range]
  constructor
  · rintro (⟨r, hr, hf⟩ | ⟨r, hr, hg⟩)
    · exact ⟨r, hr, Or.inl hf⟩
    · cases hf : f r with
      | true => exact ⟨r, hr, Or.inl hf⟩
      | false => exact ⟨r, hr, Or.inr (heq r hr hf ▸ hg)⟩
  · rintro ⟨r, hr, hfh⟩
    cases hf : f r with
    | true => exact Or.inl ⟨r, hr, hf⟩
    | false =>
      rw [hf] at hfh
      exact Or.inr ⟨r, hr, (heq r hr hf).trans (hfh.resolve_left Bool.false_ne_true)⟩

section

variable {op : ResidentBinaryOp} {code : ℕ} (h : arithOpCode op = some code)
include h

theorem arithOf_eq : arithOf op = some (vmArith code) := by
  cases op <;> cases h <;> rfl

theorem storedArith_binary (lhs rhs : ResidentExpr) : storedArith row (.binary op lhs rhs)
      = vmArith code (storedArith row lhs) (storedArith row rhs) := by
  rw [storedArith, arithOf_eq h]
  rfl

end

variable {op : ResidentBinaryOp} {value : ResidentExpr}

section Sides

variable {onLeft : Bool} {lhs rhs cell scalar : ResidentExpr}

theorem Sides.cell_eq (h : Sides onLeft lhs rhs cell scalar) : cell = lhs ∨ cell = rhs := by
  cases onLeft with
  | false => exact Or.inl (Prod.mk.inj h).1.symm
  | true => exact Or.inr (Prod.mk.inj h).2.symm

theorem Sides.references_cell (h : Sides onLeft lhs rhs cell scalar)
    (href : cell.References col) : (ResidentExpr.binary op lhs rhs).References col := by
  rcases h.cell_eq with rfl | rfl
  · exact Or.inl href
  · exact Or.inr href

/-- The column of a comparison is one of its operands. -/
theorem Sides.references (h : Sides onLeft lhs rhs (.column col) scalar) :
    (ResidentExpr.binary op lhs rhs).References col := h.references_cell rfl

theorem Sides.overflows (h : Sides onLeft lhs rhs cell scalar) (row : List SqlValue) :
    (arithOverflows elem row lhs || arithOverflows elem row rhs)
      = (arithOverflows elem row cell || arithOverflows elem row scalar) := by
  cases onLeft with
  | false =>
    obtain ⟨rfl, rfl⟩ := Prod.mk.inj h
    rfl
  | true =>
    obtain ⟨rfl, rfl⟩ := Prod.mk.inj h
    exact Bool.or_comm _ _

theorem storedArith_sides {code : ℕ} {literal : Int32}
    (hop : arithOpCode op = some code) (h : Sides onLeft lhs rhs value (.int4Literal literal)) :
    storedArith row (.binary op lhs rhs) = sided onLeft (vmArith code) (storedArith row value) literal.toInt := by
  rw [storedArith_binary hop]
  cases onLeft <;> obtain ⟨rfl, rfl⟩ := Prod.mk.inj h <;> rfl

end Sides

/-- The element types whose columns a program of this width loads. -/
def LoadsAt : ResidentElemType → SqlType → Prop
  | .i32, ty => ty = .int4 ∨ ty = .int2
  | .i64, ty => ty = .int8 ∨ ty = .timestamp
  | .i128, _ => False

/-- An arithmetic operand is a column of the 4-byte or the 8-byte section. -/
theorem residentDeviceIntColumnOffset_ok
    (h : residentDeviceIntColumnOffset store.columns store.snapshot col = .ok off) : ∃ ty,
    columnType store.columns col = some ty ∧
      (LoadsAt .i32 ty ∧ residentDeviceInt4ColumnOffset store.snapshot store.columns col = .ok off ∨
        LoadsAt .i64 ty ∧ residentDeviceInt8ColumnOffset store.snapshot store.columns col = .ok off) := by
  unfold residentDeviceIntColumnOffset at h
  split at h
  · exact ⟨_, ‹_›, Or.inl ⟨Or.inl rfl, h⟩⟩
  · exact ⟨_, ‹_›, Or.inl ⟨Or.inr rfl, h⟩⟩
  · exact ⟨_, ‹_›, Or.inr ⟨Or.inl rfl, h⟩⟩
  · exact ⟨_, ‹_›, Or.inr ⟨Or.inr rfl, h⟩⟩
  · cases h

theorem LoadsAt.section_i32 (h : LoadsAt .i32 ty) : payloadSection ty = .int4 := by
  rcases h with rfl | rfl <;> rfl

theorem LoadsAt.section_i64 (h : LoadsAt .i64 ty) : payloadSection ty = .int8 := by
  rcases h with rfl | rfl <;> rfl

section

variable (h : residentDeviceIntColumnOffset store.columns store.snapshot col = .ok off)
include h

theorem intColumn_value (hr : r < store.rowCount) :
    ∃ value number, (store.row r)[col]? = some value ∧ valueInt value = some number := by
  obtain ⟨ty, hty, ⟨hload, hoff⟩ | ⟨hload, hoff⟩⟩ := residentDeviceIntColumnOffset_ok h
  · obtain ⟨value, number, hvalue, hnumber, -⟩ := store.int4_load hty hload.section_i32 hoff hr
    exact ⟨value, number, hvalue, hnumber⟩
  · obtain ⟨value, number, hvalue, hnumber, -⟩ := store.int8_load hty hload.section_i64 hoff hr
    exact ⟨value, number, hvalue, hnumber⟩

theorem loadCell_eq_stored (hty : columnType store.columns col = some ty) (hload : LoadsAt elem ty)
    (hr : r < store.rowCount) :
    loadCell store.memory elem off r = storedArith (store.row r) (.column col) := by
  obtain ⟨ty', hty', hcases⟩ := residentDeviceIntColumnOffset_ok h
  obtain rfl : ty' = ty := Option.some.inj (hty'.symm.trans hty)
  cases elem with
  | i128 => exact hload.elim
  | i32 =>
    obtain ⟨-, hoff⟩ | ⟨hload', -⟩ := hcases
    · obtain ⟨value, number, hvalue, hnumber, hcell⟩ := store.int4_load hty hload.section_i32 hoff hr
      rw [hcell, storedArith, hvalue, Option.bind_some, hnumber, Option.join_some]
    · rcases hload with rfl | rfl <;> simp [LoadsAt] at hload'
  | i64 =>
    obtain ⟨hload', -⟩ | ⟨-, hoff⟩ := hcases
    · rcases hload with rfl | rfl <;> simp [LoadsAt] at hload'
    · obtain ⟨value, number, hvalue, hnumber, hcell⟩ := store.int8_load hty hload.section_i64 hoff hr
      rw [hcell, storedArith, hvalue, Option.bind_some, hnumber, Option.join_some]

end

section

variable (store : ResidentStore)

/-- A run over the memory of a store. -/
abbrev ResidentStore.exec (host : HostText) (final : List Bytes)
    (elem : ResidentElemType) (state : VmState) (program : List ExprStep) :
    Except CudaRuntimeProbeError VmState :=
  execProgram host store.memory final store.rowCount elem state program

/-- The check of a run over the memory of a store. -/
abbrev ResidentStore.check (final : List Bytes) (elem : ResidentElemType)
    (index : ℕ) (stack : List PreflightValue) (program : List ExprStep) :
    Except CudaRuntimeProbeError (List PreflightValue) :=
  validateSteps store.memory.length final store.rowCount elem index stack program

def ResidentStore.someRow (flag : List SqlValue → Bool) : Bool :=
  (List.range store.rowCount).any fun r => flag (store.row r)

theorem ResidentStore.someRow_false : store.someRow (fun _ => false) = false := by
  simp [someRow]

/-- A program that leaves a value buffer: its cells are the stored result on every row that does not overflow,
and the flag says whether one does. -/
def LeavesValue (host : HostText) (final : List Bytes) (elem : ResidentElemType)
    (e : ResidentExpr) (steps : List ExprStep) (cells : ℕ → ℤ) : Prop :=
  (∀ state, store.exec host final elem state steps = .ok
    ⟨.value elem cells :: state.stack, state.overflow || store.someRow fun row => arithOverflows elem row e⟩) ∧
  ∀ r < store.rowCount, arithOverflows elem (store.row r) e = false → cells r = storedArith (store.row r) e

end

/-- The arithmetic step on top of its operands. -/
theorem LeavesValue.step (exact : ℕ → ℤ) (operands : List SqlValue → Bool)
    (hexec : ∀ state, store.exec host final elem state steps = .ok
      (pushArith store.rowCount elem (state.overflow || store.someRow operands) state.stack exact))
    (hexact : ∀ r < store.rowCount, operands (store.row r) = false → exact r = storedArith (store.row r) e)
    (hflag : ∀ row, arithOverflows elem row e = (operands row || !decide (elem.InRange (storedArith row e)))) :
    LeavesValue store host final elem e steps fun r => elem.wrap (exact r) := by
  constructor
  · intro state
    rw [hexec state, pushArith]
    have hany := any_range_or (n := store.rowCount) (f := fun r => operands (store.row r))
      (g := fun r => !decide (elem.InRange (exact r)))
      (h := fun r => !decide (elem.InRange (storedArith (store.row r) e)))
      (fun r hr hf => by rw [hexact r hr hf])
    simp only [someRow, Bool.or_assoc, hany, hflag]
  · intro r hr hno
    rw [hflag, Bool.or_eq_false_iff, Bool.not_eq_false', decide_eq_true_eq] at hno
    show elem.wrap (exact r) = _
    rw [hexact r hr hno.1, ResidentElemType.wrap_eq hno.2]

/-- An arithmetic program leaves its stored values, and flags a row that overflows. -/
theorem arith_exec (h : ArithCode store.columns store.snapshot e steps)
    (hwidth : ∀ col ty, e.References col → columnType store.columns col = some ty → LoadsAt elem ty) :
    ∃ cells, LeavesValue store host final elem e steps cells := by
  induction h with
  | @column col off hoff =>
    refine ⟨loadCell store.memory elem off, ?_, ?_⟩
    · intro state
      simp [exec, execProgram, execStep, arithOverflows, someRow]
    · intro r hr _
      obtain ⟨ty, hty, -⟩ := residentDeviceIntColumnOffset_ok hoff
      exact loadCell_eq_stored hoff hty (hwidth col ty rfl hty) hr
  | @scalar op code onLeft lhs rhs value scalar steps hop hsides hvalue ih =>
    obtain ⟨cells, hexec, hcells⟩ := ih fun col ty href => hwidth col ty (hsides.references_cell href)
    refine ⟨_, LeavesValue.step (fun r => sided onLeft (vmArith code) (cells r) scalar.toInt)
      (fun row => arithOverflows elem row value) ?_ ?_ ?_⟩
    · intro state
      rw [exec, execProgram_append, ← exec, hexec state]
      simp [execProgram, execStep, except_ok_bind]
    · intro r hr hno
      rw [storedArith_sides hop hsides, hcells r hr hno]
    · intro row
      rw [arithOverflows, hsides.overflows, show arithOverflows elem row (.int4Literal scalar) = false from rfl,
        Bool.or_false]
  | @buffers op code lhs rhs left right hop hleft hright ihl ihr =>
    obtain ⟨a, hexecl, ha⟩ := ihl fun col ty href => hwidth col ty (Or.inl href)
    obtain ⟨b, hexecr, hb⟩ := ihr fun col ty href => hwidth col ty (Or.inr href)
    refine ⟨_, LeavesValue.step (fun r => vmArith code (a r) (b r))
      (fun row => arithOverflows elem row lhs || arithOverflows elem row rhs) ?_ ?_ ?_⟩
    · intro state
      have hany := any_range_or (n := store.rowCount) (f := fun r => arithOverflows elem (store.row r) lhs)
        (g := fun r => arithOverflows elem (store.row r) rhs)
        (h := fun r => arithOverflows elem (store.row r) rhs) (fun _ _ _ => rfl)
      rw [exec, execProgram_append, execProgram_append, ← exec, hexecl state,
        except_ok_bind, ← exec, hexecr, except_ok_bind]
      simp [execProgram, execStep, someRow, Bool.or_assoc, hany]
    · intro r hr hno
      rw [Bool.or_eq_false_iff] at hno
      rw [storedArith_binary hop, ha r hr hno.1, hb r hr hno.2]
    · intro row
      simp [arithOverflows]

/-- The value in a column is not `NULL`. -/
def nonNull (row : List SqlValue) (col : ℕ) : Bool := decide (row[col]? ≠ some .null)

theorem nonNull_eq {value : SqlValue} (h : row[col]? = some value) : nonNull row col = decide (value ≠ .null) := by
  simp [nonNull, h]

variable {number : Option ℤ} {index : ℕ}

theorem valueInt_isSome {value : SqlValue} (h : valueInt value = some number) :
    number.isSome = decide (value ≠ .null) := by
  cases value with
  | null | int4 _ | date _ | int2 _ | int8 _ | timestamp _ => rw [← Option.some.inj h]; rfl
  | _ => cases h

/-- The value of an arithmetic operand: the stored result where every column is known, and `NULL` elsewhere. -/
theorem integerValue_eq (h : ArithCode store.columns store.snapshot e steps) (hr : r < store.rowCount) :
    ∃ number, integerValue (store.row r) e = some number ∧
      (number.isSome ↔ ∀ col, e.References col → nonNull (store.row r) col) ∧
      ∀ v, number = some v → v = storedArith (store.row r) e := by
  induction h with
  | @column col off hoff =>
    obtain ⟨value, number, hvalue, hnumber⟩ := intColumn_value hoff hr
    refine ⟨number, ?_, ?_, ?_⟩
    · rw [integerValue, hvalue, Option.bind_some, hnumber]
    · rw [valueInt_isSome hnumber, ← nonNull_eq hvalue]
      exact ⟨fun h col' href => href ▸ h, fun h => h col rfl⟩
    · rintro v rfl
      rw [storedArith, hvalue, Option.bind_some, hnumber]
      rfl
  | @scalar op code onLeft lhs rhs value scalar steps hop hsides hvalue ih =>
    obtain ⟨number, hnumber, hsome, hstored⟩ := ih
    refine ⟨number.map fun a => sided onLeft (vmArith code) a scalar.toInt, ?_, ?_, ?_⟩
    · cases onLeft <;> obtain ⟨rfl, rfl⟩ := Prod.mk.inj hsides <;> cases number <;>
        simp [integerValue, arithOf_eq hop, hnumber, sided]
    · rw [Option.isSome_map, hsome]
      cases onLeft <;> obtain ⟨rfl, rfl⟩ := Prod.mk.inj hsides <;> simp [ResidentExpr.References]
    · intro v hv
      obtain ⟨a, ha, rfl⟩ := Option.map_eq_some_iff.mp hv
      rw [storedArith_sides hop hsides, ← hstored a ha]
  | @buffers op code lhs rhs left right hop hleft hright ihl ihr =>
    obtain ⟨a, ha, hasome, hastored⟩ := ihl
    obtain ⟨b, hb, hbsome, hbstored⟩ := ihr
    refine ⟨a.bind fun a => b.map fun b => vmArith code a b, ?_, ?_, ?_⟩
    · cases a <;> cases b <;> simp [integerValue, arithOf_eq hop, ha, hb]
    · have hboth : (a.bind fun a => b.map fun b => vmArith code a b).isSome ↔ a.isSome ∧ b.isSome := by
        cases a <;> cases b <;> simp
      rw [hboth, hasome, hbsome]
      simp only [ResidentExpr.References, or_imp, forall_and]
    · intro v hv
      obtain ⟨a', ha', hv⟩ := Option.bind_eq_some_iff.mp hv
      obtain ⟨b', hb', rfl⟩ := Option.map_eq_some_iff.mp hv
      rw [storedArith_binary hop, ← hastored a' ha', ← hbstored b' hb']

/-! ### The check of arithmetic -/

/-- What the check finds on the stack behind an arithmetic operand. -/
theorem arith_check {stack stack' : List PreflightValue} (h : ArithCode store.columns store.snapshot e steps)
    (hcheck : store.check final elem index stack steps = .ok stack') : stack' = .value elem :: stack := by
  induction h generalizing index stack stack' with
  | column hoff =>
    simp only [check, validateSteps, validateStep, bind_ok, Except.ok.injEq] at hcheck
    obtain ⟨_, ⟨_, _, rfl⟩, rfl⟩ := hcheck
    rfl
  | scalar hop hsides hvalue ih =>
    obtain ⟨mid, hmid, hcheck⟩ := validateSteps_append.mp hcheck
    obtain rfl := ih hmid
    simp only [validateSteps, validateStep, bind_ok, Except.ok.injEq, popValue, popExpected_ok] at hcheck
    obtain ⟨_, ⟨_, _, _, hpop, rfl⟩, rfl⟩ := hcheck
    rw [List.cons.inj hpop |>.2]
  | buffers hop hleft hright ihl ihr =>
    obtain ⟨mid, hmid, hcheck⟩ := validateSteps_append.mp hcheck
    obtain ⟨first, hfirst, hmid⟩ := validateSteps_append.mp hmid
    obtain rfl := ihl hfirst
    obtain rfl := ihr hmid
    simp only [validateSteps, validateStep, bind_ok, Except.ok.injEq, popValue, popExpected_ok] at hcheck
    obtain ⟨_, ⟨_, _, _, hpop, _, hpop', rfl⟩, rfl⟩ := hcheck
    obtain ⟨-, rfl⟩ := List.cons.inj hpop
    rw [List.cons.inj hpop' |>.2]

/-! ### Comparisons -/

section

variable {op : ResidentBinaryOp} {cmp : ℕ} (hcmp : predicateCompareCode op = some cmp)
include hcmp

theorem orderingHolds_eq (o : Ordering) : orderingHolds op o = some (cmpHolds cmp o) := by
  cases op <;> cases hcmp <;> rfl

theorem datumHolds_eq {a b : Datum} {o : Ordering} (h : a.compare b = some o) :
    datumHolds host op a b = some (cmpHolds cmp o) := by
  unfold datumHolds
  split
  · cases hcmp
  · rw [h, Option.bind_some, orderingHolds_eq hcmp]

end

variable {cmp : ℕ} {bit : Bool}

/-- A comparison is TRUE where both operands are known and ordered as it says. -/
theorem truth_of_operands {lhs rhs : ResidentExpr} (hcmp : predicateCompareCode op = some cmp)
    (hl : operandDatum host (bareType columns rhs) row lhs = some a)
    (hr : operandDatum host (bareType columns lhs) row rhs = some b)
    (hord : ∀ x y, a = some x → b = some y → ∃ o, x.compare y = some o ∧ cmpHolds cmp o = bit) :
    ∃ truth, comparisonTruth host columns row op lhs rhs = some truth ∧
      ((bit && (a.isSome && b.isSome)) = true ↔ truth = some true) := by
  unfold comparisonTruth
  rw [hl, hr]
  cases a with
  | none => exact ⟨none, rfl, by simp⟩
  | some x =>
    cases b with
    | none => exact ⟨none, rfl, by simp⟩
    | some y =>
      obtain ⟨o, ho, hbit⟩ := hord x y rfl rfl
      refine ⟨some bit, ?_, by simp⟩
      simp [datumHolds_eq hcmp ho, hbit]

section Sides

variable {onLeft : Bool} {lhs rhs cell scalar : ResidentExpr}

theorem truth_of_sides (hsides : Sides onLeft lhs rhs cell scalar) (hcmp : predicateCompareCode op = some cmp)
    (hcell : operandDatum host (bareType columns scalar) row cell = some a)
    (hscalar : operandDatum host (bareType columns cell) row scalar = some b)
    (hord : ∀ x y, a = some x → b = some y → ∃ o, sided onLeft Datum.compare x y = some o ∧
      cmpHolds cmp o = bit) :
    ∃ truth, comparisonTruth host columns row op lhs rhs = some truth ∧
      ((bit && (a.isSome && b.isSome)) = true ↔ truth = some true) := by
  cases onLeft with
  | false =>
    obtain ⟨rfl, rfl⟩ := Prod.mk.inj hsides
    exact truth_of_operands hcmp hcell hscalar hord
  | true =>
    obtain ⟨rfl, rfl⟩ := Prod.mk.inj hsides
    rw [Bool.and_comm a.isSome]
    exact truth_of_operands hcmp hscalar hcell fun x y hx hy => hord y x hy hx

theorem sided_int {a b : ℤ} :
    sided onLeft Datum.compare (.int a) (.int b) = some (sided onLeft compare a b) := by
  cases onLeft <;> rfl

theorem sided_text {a b : List Char} : sided onLeft Datum.compare (.text a) (.text b)
      = some (sided onLeft compare (utf8Bytes a) (utf8Bytes b)) := by
  cases onLeft <;> rfl

theorem sided_uuid {a b : Bytes} :
    sided onLeft Datum.compare (.uuid a) (.uuid b) = some (sided onLeft compare a b) := by
  cases onLeft <;> rfl

theorem sided_bool {onLeft a b : Bool} :
    sided onLeft Datum.compare (.bool a) (.bool b) = some (sided onLeft compare a b) := by
  cases onLeft <;> rfl

end Sides

/-- An arithmetic operand is compared as a number. -/
theorem operandDatum_arith
    {target : Option SqlType} (h : ArithCode store.columns store.snapshot e steps) (hr : r < store.rowCount)
    (hnumber : integerValue (store.row r) e = some number) :
    operandDatum host target (store.row r) e = some (number.map Datum.int) := by
  cases h with
  | column hoff =>
    obtain ⟨value, number', hvalue, hnumber'⟩ := intColumn_value hoff hr
    rw [integerValue, hvalue, Option.bind_some] at hnumber
    rw [operandDatum, hvalue, Option.bind_some, valueDatum_of_int hnumber]
  | scalar hop hsides hvalue | buffers hop hleft hright =>
    rw [operandDatum, hnumber, Option.map_some]
    all_goals simp

/-- A program that leaves a mask, and sets the flag if a row overflows. -/
def LeavesMask (store : ResidentStore) (host : HostText) (final : List Bytes) (elem : ResidentElemType)
    (steps : List ExprStep) (overflows : List SqlValue → Bool) (bits : ℕ → Bool) : Prop :=
  ∀ state, store.exec host final elem state steps = .ok
    ⟨.mask bits :: state.stack, state.overflow || store.someRow overflows⟩

/-- An operand of a comparison overflows. -/
def leafOverflows (elem : ResidentElemType) (lhs rhs : ResidentExpr) (row : List SqlValue) : Bool :=
  arithOverflows elem row lhs || arithOverflows elem row rhs

/-- The mask of a comparison, once ANDed with its validity, holds the rows where it is TRUE. -/
def LeafRight (store : ResidentStore) (host : HostText) (elem : ResidentElemType) (op : ResidentBinaryOp)
    (lhs rhs : ResidentExpr) (validity : List ℕ) (bits : ℕ → Bool) : Prop :=
  ∀ r < store.rowCount, leafOverflows elem lhs rhs (store.row r) = false →
    ∃ truth, comparisonTruth host store.columns (store.row r) op lhs rhs = some truth ∧
      ((bits r && validity.all (nonNull (store.row r))) = true ↔ truth = some true)

section Leaves

variable {op : ResidentBinaryOp} {lhs rhs scalar : ResidentExpr} {onLeft : Bool} {cmp needleIdx : ℕ}
  {bits : ℕ → Bool} {leaf : LeafCode}

/-- A comparison whose operands are columns and literals computes nothing that could overflow. -/
theorem LeavesMask.of_atoms (hatoms : ∀ row, leafOverflows elem lhs rhs row = false)
    (hexec : ∀ state, store.exec host final elem state steps = .ok ⟨.mask bits :: state.stack, state.overflow⟩) :
    LeavesMask store host final elem steps (leafOverflows elem lhs rhs) bits := by
  intro state
  rw [hexec state, show leafOverflows elem lhs rhs = fun _ => false from funext hatoms,
    store.someRow_false, Bool.or_false]

/-- The value of a column in a row, and what it is if it is not `NULL`. -/
def ResidentStore.Holds (store : ResidentStore) (col r : ℕ) (P : Datum → Prop) : Prop :=
  ∃ value datum, (store.row r)[col]? = some value ∧ valueDatum value = some datum ∧
    datum.isSome = decide (value ≠ .null) ∧ ∀ x, datum = some x → P x

theorem ResidentStore.Holds.imp {P Q : Datum → Prop} (h : store.Holds col r P) (hPQ : ∀ x, P x → Q x) :
    store.Holds col r Q := by
  obtain ⟨value, datum, hvalue, hdatum, hsome, hP⟩ := h
  exact ⟨value, datum, hvalue, hdatum, hsome, fun x hx => hPQ x (hP x hx)⟩

theorem holds_number {value : SqlValue} (hvalue : (store.row r)[col]? = some value)
    (hnumber : valueInt value = some number) : store.Holds col r (· = .int (number.getD 0)) := by
  refine ⟨value, _, hvalue, valueDatum_of_int hnumber, ?_, ?_⟩
  · rw [Option.isSome_map, valueInt_isSome hnumber]
  · intro x hx
    obtain ⟨a, rfl, rfl⟩ := Option.map_eq_some_iff.mp hx
    rfl

theorem holds_uuid (hty : columnType store.columns col = some .uuid)
    (hoff : residentDeviceNumericColumnOffset store.snapshot store.columns col = .ok off)
    (hr : r < store.rowCount) : store.Holds col r (· = .uuid (loadB128 store.memory off r)) := by
  obtain ⟨value, hvalue, rfl | ⟨bytes, rfl, hload⟩⟩ := store.uuid_load hty hoff hr
  · exact ⟨_, none, hvalue, rfl, rfl, fun x hx => by cases hx⟩
  · refine ⟨_, some (.uuid bytes.toList), hvalue, rfl, by simp, ?_⟩
    intro x hx
    rw [← Option.some.inj hx, hload]

theorem holds_text (hsole : Unshared store.columns col) (hty : columnType store.columns col = some .text)
    (hlayout : residentDeviceTextColumnLayout store.snapshot store.columns col = .ok layout)
    (hr : r < store.rowCount) : store.Holds col r fun x => ∃ text, x = .text text ∧
      loadText store.memory layout.offsetsByteOffset layout.bytesByteOffset layout.bytesLen r = utf8Bytes text := by
  obtain ⟨value, hvalue, rfl | ⟨text, rfl, hload⟩⟩ := store.text_load hsole hty hlayout hr
  · exact ⟨_, none, hvalue, rfl, rfl, fun x hx => by cases hx⟩
  · refine ⟨_, some (.text text), hvalue, rfl, by simp, ?_⟩
    intro x hx
    exact ⟨text, (Option.some.inj hx).symm, hload⟩

theorem holds_bool (hty : columnType store.columns col = some .bool) (hr : r < store.rowCount) :
    store.Holds col r fun x => ∃ b, x = .bool b := by
  obtain ⟨value, hvalue, rfl | htyped⟩ := store.exists_value hty hr
  · exact ⟨_, none, hvalue, rfl, rfl, fun x hx => by cases hx⟩
  · cases htyped with
    | bool b => exact ⟨_, some (.bool b), hvalue, rfl, by simp, fun x hx => ⟨b, (Option.some.inj hx).symm⟩⟩

theorem holds_bool_bit (hsole : Unshared store.columns col) (hty : columnType store.columns col = some .bool)
    (hoff : residentDeviceBoolColumnOffset store.snapshot store.columns col = .ok off)
    (hr : r < store.rowCount) : store.Holds col r (· = .bool (loadBit store.memory off r)) := by
  obtain ⟨value, hvalue, ⟨rfl, -⟩ | rfl⟩ := store.bool_load hsole hty hoff hr
  · exact ⟨_, none, hvalue, rfl, rfl, fun x hx => by cases hx⟩
  · exact ⟨_, some _, hvalue, rfl, by simp, fun x hx => (Option.some.inj hx).symm⟩

section

variable (hsides : Sides onLeft lhs rhs (.column col) scalar) (hcmp : predicateCompareCode op = some cmp)
include hsides hcmp

/-- A column against a literal: the mask is right where the column's value is known. -/
theorem LeafRight.of_scalar {s : Datum}
    (hscalar : ∀ row, operandDatum host (columnType store.columns col) row scalar = some (some s))
    (hrow : ∀ r < store.rowCount, store.Holds col r fun x =>
      ∃ o, sided onLeft Datum.compare x s = some o ∧ cmpHolds cmp o = bits r) :
    LeafRight store host elem op lhs rhs [col] bits := by
  intro r hr _
  obtain ⟨value, datum, hvalue, hdatum, hsome, hord⟩ := hrow r hr
  have hcell : operandDatum host (bareType store.columns scalar) (store.row r) (.column col) = some datum := by
    rw [operandDatum, hvalue, Option.bind_some, hdatum]
  have hboth : ∀ x y, datum = some x → some s = some y →
      ∃ o, sided onLeft Datum.compare x y = some o ∧ cmpHolds cmp o = bits r := by
    intro x y hx hy
    obtain rfl := Option.some.inj hy
    exact hord x hx
  obtain ⟨truth, htruth, hiff⟩ := truth_of_sides hsides hcmp hcell (hscalar _) hboth
  refine ⟨truth, htruth, ?_⟩
  rw [← hiff, all_cons, all_nil, nonNull_eq hvalue, ← hsome, Option.isSome_some]

theorem LeafRight.of_number {cells : ℕ → ℤ} {v : ℤ}
    (hload : ∀ r < store.rowCount, ∃ value number, (store.row r)[col]? = some value ∧
      valueInt value = some number ∧ cells r = number.getD 0)
    (hscalar : ∀ row, operandDatum host (columnType store.columns col) row scalar = some (some (.int v))) :
    LeafRight store host elem op lhs rhs [col] fun r => cmpHolds cmp (sided onLeft compare (cells r) v) := by
  apply LeafRight.of_scalar hsides hcmp hscalar
  intro r hr
  obtain ⟨value, number, hvalue, hnumber, hcell⟩ := hload r hr
  apply (holds_number hvalue hnumber).imp
  rintro x rfl
  exact ⟨_, sided_int, by rw [hcell]⟩

end

/-- Two columns: the mask is right where both values are known. -/
theorem LeafRight.of_columns {a b : ℕ} {P Q : ℕ → Datum → Prop} (hlhs : lhs = .column a)
    (hrhs : rhs = .column b)
    (hcmp : predicateCompareCode op = some cmp) (ha : ∀ r < store.rowCount, store.Holds a r (P r))
    (hb : ∀ r < store.rowCount, store.Holds b r (Q r))
    (hord : ∀ r x y, P r x → Q r y → ∃ o, x.compare y = some o ∧ cmpHolds cmp o = bits r) :
    LeafRight store host elem op lhs rhs [a, b] bits := by
  subst hlhs hrhs
  intro r hlt _
  obtain ⟨valueA, datumA, hA, hdatumA, hsomeA, hPA⟩ := ha r hlt
  obtain ⟨valueB, datumB, hB, hdatumB, hsomeB, hQB⟩ := hb r hlt
  have hl : operandDatum host (bareType store.columns (.column b)) (store.row r) (.column a) = some datumA := by
    rw [operandDatum, hA, Option.bind_some, hdatumA]
  have hr : operandDatum host (bareType store.columns (.column a)) (store.row r) (.column b) = some datumB := by
    rw [operandDatum, hB, Option.bind_some, hdatumB]
  obtain ⟨truth, htruth, hiff⟩ := truth_of_operands hcmp hl hr
    fun x y hx hy => hord r x y (hPA x hx) (hQB y hy)
  refine ⟨truth, htruth, ?_⟩
  rw [← hiff, all_cons, all_cons, all_nil, nonNull_eq hA, nonNull_eq hB, ← hsomeA, ← hsomeB, Bool.and_true]

/-- The mask step that a leaf consists of is right. -/
def LeafSound (store : ResidentStore) (host : HostText) (final : List Bytes) (elem : ResidentElemType)
    (op : ResidentBinaryOp) (lhs rhs : ResidentExpr) (leaf : LeafCode) : Prop :=
  ∃ bits, LeavesMask store host final elem leaf.steps (leafOverflows elem lhs rhs) bits ∧
    LeafRight store host elem op lhs rhs leaf.validity bits

variable {text : List Char} {v : Int64}

theorem LeafSound.uuidScalar {bytes : List.Vector UInt8 16}
    (hcmp : predicateCompareCode op = some cmp) (hsides : Sides onLeft lhs rhs (.column col) (.textLiteral text))
    (hty : columnType store.columns col = some .uuid) (hparse : parseUuid text = some bytes)
    (hoff : residentDeviceNumericColumnOffset store.snapshot store.columns col = .ok off)
    (hneedle : final[needleIdx]? = some bytes.toList) : LeafSound store host final elem op lhs rhs
      ⟨[.uuidCmpMask off needleIdx onLeft cmp], [bytes.toList], [col]⟩ := by
  refine ⟨fun r => cmpHolds cmp (sided onLeft compare (loadB128 store.memory off r) bytes.toList), ?_, ?_⟩
  · apply LeavesMask.of_atoms
    · intro row
      exact (hsides.overflows row).trans rfl
    · intro state
      simp [exec, execProgram, execStep, needleAt, hneedle, except_ok_bind]
  · have hscalar : ∀ row, operandDatum host (columnType store.columns col) row (.textLiteral text)
        = some (some (.uuid bytes.toList)) := by
      intro row
      simp [operandDatum, coerceText, hty, hparse]
    apply LeafRight.of_scalar hsides hcmp hscalar
    intro r hr
    apply (holds_uuid hty hoff hr).imp
    rintro x rfl
    exact ⟨_, sided_uuid, rfl⟩

theorem LeafSound.uuidColumns {a b offA offB : ℕ} (hcmp : predicateCompareCode op = some cmp)
    (hlhs : lhs = .column a) (hrhs : rhs = .column b) (hta : columnType store.columns a = some .uuid)
    (htb : columnType store.columns b = some .uuid)
    (hoffA : residentDeviceNumericColumnOffset store.snapshot store.columns a = .ok offA)
    (hoffB : residentDeviceNumericColumnOffset store.snapshot store.columns b = .ok offB) :
    LeafSound store host final elem op lhs rhs ⟨[.uuidCmpColumnsMask offA offB cmp], [], [a, b]⟩ := by
  refine ⟨fun r => cmpHolds cmp (compare (loadB128 store.memory offA r) (loadB128 store.memory offB r)), ?_, ?_⟩
  · apply LeavesMask.of_atoms
    · intro row
      rw [hlhs, hrhs]
      rfl
    · intro state
      simp [exec, execProgram, execStep]
  · apply LeafRight.of_columns hlhs hrhs hcmp (fun r hr => holds_uuid hta hoffA hr)
      (fun r hr => holds_uuid htb hoffB hr)
    rintro r x y rfl rfl
    exact ⟨_, rfl, rfl⟩

section

variable (hcmp : predicateCompareCode op = some cmp) (hsides : Sides onLeft lhs rhs (.column col) scalar)
include hcmp hsides

/-- A column whose 8 bytes are loaded whatever the width of the program. -/
theorem LeafSound.loadI64 (hatom : ∀ row, arithOverflows elem row scalar = false)
    (hty : columnType store.columns col = some ty) (hs : payloadSection ty = .int8)
    (hoff : residentDeviceInt8ColumnOffset store.snapshot store.columns col = .ok off)
    (hscalar : ∀ row, operandDatum host (columnType store.columns col) row scalar = some (some (.int v.toInt))) :
    LeafSound store host final elem op lhs rhs
      ⟨[.loadColumnI64 off, .compareScalarI64 cmp v onLeft], [], [col]⟩ := by
  refine ⟨_, ?_, LeafRight.of_number hsides hcmp (fun r hr => store.int8_load hty hs hoff hr) hscalar⟩
  apply LeavesMask.of_atoms
  · intro row
    exact (hsides.overflows row).trans (by rw [hatom]; rfl)
  · intro state
    simp [exec, execProgram, execStep, except_ok_bind]

/-- A date is a number of 4 bytes, read by a program of that width. -/
theorem LeafSound.date {days : Int32} (hty : columnType store.columns col = some .date)
    (hlit : dateLiteralDays host scalar = .ok days)
    (hoff : residentDeviceInt4ColumnOffset store.snapshot store.columns col = .ok off) :
    LeafSound store host final .i32 op lhs rhs ⟨[.loadColumn off, .compareScalar cmp days onLeft], [], [col]⟩ := by
  obtain ⟨text, rfl, hparse⟩ : ∃ text, scalar = .textLiteral text ∧ host.parseDate text = some days := by
    cases scalar with
    | textLiteral text =>
      refine ⟨text, rfl, ?_⟩
      simp only [dateLiteralDays] at hlit
      cases hparse : host.parseDate text with
      | none => simp [hparse] at hlit
      | some days' =>
        simp only [hparse, Except.ok.injEq] at hlit
        rw [hlit]
    | _ => cases hlit
  have hscalar : ∀ row, operandDatum host (columnType store.columns col) row (.textLiteral text)
      = some (some (.int days.toInt)) := by
    intro row
    simp [operandDatum, coerceText, hty, hparse]
  refine ⟨_, ?_, LeafRight.of_number hsides hcmp (fun r hr => store.int4_load hty rfl hoff hr) hscalar⟩
  apply LeavesMask.of_atoms
  · intro row
    exact (hsides.overflows row).trans rfl
  · intro state
    simp [exec, execProgram, execStep, except_ok_bind]

end

variable {step : ExprStep}

/-- A text column against a literal: equality has a step of its own, which ignores the sides. -/
theorem textScalarStep_exec {needle : Bytes}
    (hstep : textScalarStep op layout needleIdx (!onLeft) = .ok step) (hneedle : final[needleIdx]? = some needle) :
    ∃ cmp, predicateCompareCode op = some cmp ∧ ∀ state, store.exec host final elem state [step] = .ok
      ⟨.mask (fun r => cmpHolds cmp (sided onLeft compare (loadText store.memory layout.offsetsByteOffset
        layout.bytesByteOffset layout.bytesLen r) needle)) :: state.stack, state.overflow⟩ := by
  have hequal : ∀ text, decide (text = needle) = (sided onLeft compare text needle == .eq) := by
    intro text
    rw [Bool.eq_iff_iff, decide_eq_true_eq, beq_iff_eq]
    cases onLeft with
    | false => exact Std.LawfulEqOrd.compare_eq_iff_eq.symm
    | true => exact eq_comm.trans Std.LawfulEqOrd.compare_eq_iff_eq.symm
  cases op with
  | eq | ne =>
    obtain rfl := Except.ok.inj hstep
    refine ⟨_, rfl, ?_⟩
    intro state
    simp [exec, execProgram, execStep, needleAt, hneedle, except_ok_bind, cmpHolds, hequal, bne]
  | lt | le | gt | ge =>
    obtain rfl := Except.ok.inj hstep
    refine ⟨_, rfl, ?_⟩
    intro state
    simp [exec, execProgram, execStep, needleAt, hneedle, except_ok_bind]
  | _ => cases hstep

theorem LeafSound.textScalar
    (hsole : Unshared store.columns col) (hsides : Sides onLeft lhs rhs (.column col) (.textLiteral text))
    (hty : columnType store.columns col = some .text)
    (hlayout : residentDeviceTextColumnLayout store.snapshot store.columns col = .ok layout)
    (hstep : textScalarStep op layout needleIdx (!onLeft) = .ok step)
    (hneedle : final[needleIdx]? = some (utf8Bytes text)) :
    LeafSound store host final elem op lhs rhs ⟨[step], [utf8Bytes text], [col]⟩ := by
  obtain ⟨cmp, hcmp, hexec⟩ := @textScalarStep_exec host store elem _ _ _ _ _ _ _ hstep hneedle
  refine ⟨_, LeavesMask.of_atoms (fun row => (hsides.overflows row).trans rfl) hexec, ?_⟩
  have hscalar : ∀ row, operandDatum host (columnType store.columns col) row (.textLiteral text)
      = some (some (.text text)) := by
    intro row
    simp [operandDatum, coerceText, hty]
  apply LeafRight.of_scalar hsides hcmp hscalar
  intro r hr
  apply (holds_text hsole hty hlayout hr).imp
  rintro x ⟨stored, rfl, hload⟩
  exact ⟨_, sided_text, by rw [hload]⟩

theorem LeafSound.textColumns {a b : ℕ} {layoutA layoutB : ResidentDeviceTextColumnLayout}
    (hua : Unshared store.columns a) (hub : Unshared store.columns b) (hcmp : predicateCompareCode op = some cmp)
    (hlhs : lhs = .column a) (hrhs : rhs = .column b) (hta : columnType store.columns a = some .text)
    (htb : columnType store.columns b = some .text)
    (hlayoutA : residentDeviceTextColumnLayout store.snapshot store.columns a = .ok layoutA)
    (hlayoutB : residentDeviceTextColumnLayout store.snapshot store.columns b = .ok layoutB) :
    LeafSound store host final elem op lhs rhs
      ⟨[.textCmpColumnsMask layoutA.offsetsByteOffset layoutA.bytesByteOffset layoutA.bytesLen
        layoutB.offsetsByteOffset layoutB.bytesByteOffset layoutB.bytesLen cmp], [], [a, b]⟩ := by
  refine ⟨fun r => cmpHolds cmp (compare
      (loadText store.memory layoutA.offsetsByteOffset layoutA.bytesByteOffset layoutA.bytesLen r)
      (loadText store.memory layoutB.offsetsByteOffset layoutB.bytesByteOffset layoutB.bytesLen r)),
    LeavesMask.of_atoms ?_ ?_, LeafRight.of_columns hlhs hrhs hcmp
      (fun r hr => holds_text hua hta hlayoutA hr) (fun r hr => holds_text hub htb hlayoutB hr) ?_⟩
  · intro row
    rw [hlhs, hrhs]
    rfl
  · intro state
    rfl
  · rintro r x y ⟨textA, rfl, hloadA⟩ ⟨textB, rfl, hloadB⟩
    exact ⟨_, rfl, by rw [hloadA, hloadB]⟩

/-- `LIKE` against a compiled pattern. -/
theorem LeafSound.textLike {pattern : List Char} {tokens : Bytes}
    (hsole : Unshared store.columns col) (hop : op = .like) (hlhs : lhs = .column col)
    (hrhs : rhs = .textLiteral pattern) (hty : columnType store.columns col = some .text)
    (htokens : host.compileLikePattern pattern = some tokens)
    (hlayout : residentDeviceTextColumnLayout store.snapshot store.columns col = .ok layout)
    (hneedle : final[needleIdx]? = some tokens) : LeafSound store host final elem op lhs rhs
      ⟨[.textLikeMask layout.offsetsByteOffset layout.bytesByteOffset layout.bytesLen needleIdx], [tokens],
        [col]⟩ := by
  subst hop hlhs hrhs
  refine ⟨fun r => host.likeMatches tokens (loadText store.memory layout.offsetsByteOffset
    layout.bytesByteOffset layout.bytesLen r), LeavesMask.of_atoms (fun _ => rfl) ?_, ?_⟩
  · intro state
    simp [exec, execProgram, execStep, needleAt, hneedle, except_ok_bind]
  · intro r hr _
    obtain ⟨value, datum, hvalue, hdatum, hsome, htext⟩ := holds_text hsole hty hlayout hr
    unfold comparisonTruth
    simp only [operandDatum, bareType, hty, coerceText, hvalue, hdatum, Option.bind_some, Option.map_some,
      Option.bind_eq_bind, all_cons, all_nil, Bool.and_true, nonNull_eq hvalue, ← hsome]
    cases datum with
    | none => exact ⟨none, rfl, by simp⟩
    | some x =>
      obtain ⟨text, rfl, hload⟩ := htext x rfl
      refine ⟨_, by simp only [datumHolds, htokens, Option.map_some]; rfl, ?_⟩
      rw [hload]
      simp

def BoolVerdict.accepts : BoolVerdict → Bool → Bool
  | .equals needle, b => b == needle
  | .never, _ => false
  | .whenKnown, _ => true

/-- The verdict on a `bool` column is the comparison, wherever the literal stands. -/
theorem boolVerdict_spec {literal : Bool} {verdict : BoolVerdict}
    (h : boolVerdict (if onLeft then flipComparison op else op) literal = some verdict) :
    ∃ cmp, predicateCompareCode op = some cmp ∧
      ∀ b, cmpHolds cmp (sided onLeft compare b literal) = verdict.accepts b := by
  cases op <;> cases onLeft <;> cases literal <;>
    simp only [flipComparison, boolVerdict, Bool.false_eq_true, if_true, if_false, reduceCtorEq,
      Option.some.injEq] at h <;> subst h <;> exact ⟨_, rfl, by decide⟩

theorem LeafSound.bool {literal : Bool} (hsole : Unshared store.columns col)
    (hsides : Sides onLeft lhs rhs (.column col) (.boolLiteral literal))
    (hty : columnType store.columns col = some .bool)
    (hleaf : compileBoolScalarLeaf store.columns store.snapshot (if onLeft then flipComparison op else op) col
      literal = .ok leaf) : LeafSound store host final elem op lhs rhs leaf := by
  have hscalar : ∀ row, operandDatum host (columnType store.columns col) row (.boolLiteral literal)
      = some (some (.bool literal)) := fun _ => rfl
  have hatoms : ∀ row, leafOverflows elem lhs rhs row = false := fun row => (hsides.overflows row).trans rfl
  unfold compileBoolScalarLeaf at hleaf
  cases hverdict : boolVerdict (if onLeft then flipComparison op else op) literal with
  | none => simp [hverdict] at hleaf
  | some verdict =>
    obtain ⟨cmp, hcmp, hspec⟩ := boolVerdict_spec hverdict
    -- A constant verdict is the comparison on every known value.
    have hconst : ∀ bit, (∀ b, cmpHolds cmp (sided onLeft compare b literal) = bit) →
        LeafRight store host elem op lhs rhs [col] fun _ => bit := by
      intro bit hbit
      apply LeafRight.of_scalar hsides hcmp hscalar
      intro r hr
      apply (holds_bool hty hr).imp
      rintro x ⟨b, rfl⟩
      exact ⟨_, sided_bool, hbit b⟩
    cases verdict with
    | never =>
      simp only [hverdict] at hleaf
      obtain rfl := Except.ok.inj hleaf
      refine ⟨fun _ => false, LeavesMask.of_atoms hatoms fun _ => rfl, ?_⟩
      intro r hr hno
      obtain ⟨truth, htruth, hiff⟩ := hconst false hspec r hr hno
      exact ⟨truth, htruth, by simpa using hiff⟩
    | whenKnown =>
      simp only [hverdict] at hleaf
      obtain rfl := Except.ok.inj hleaf
      exact ⟨fun _ => true, LeavesMask.of_atoms hatoms fun _ => rfl, hconst true hspec⟩
    | equals needle =>
      simp only [hverdict, bind_ok] at hleaf
      obtain ⟨off, hoff, heq⟩ := hleaf
      obtain rfl := Except.ok.inj heq
      refine ⟨fun r => loadBit store.memory off r ^^ !needle, LeavesMask.of_atoms hatoms fun _ => rfl, ?_⟩
      apply LeafRight.of_scalar hsides hcmp hscalar
      intro r hr
      apply (holds_bool_bit hsole hty hoff hr).imp
      rintro x rfl
      refine ⟨_, sided_bool, (hspec _).trans ?_⟩
      cases needle <;> simp [BoolVerdict.accepts]

/-- The columns that an operand references are all known exactly where its value is. -/
theorem all_nonNull (h : number.isSome ↔ ∀ col, e.References col → nonNull row col) :
    (collectExprColumns e []).all (nonNull row) = number.isSome := by
  rw [Bool.eq_iff_iff, h, all_eq_true]
  simp [mem_collectExprColumns]

/-- An arithmetic value against a number. -/
theorem LeafSound.compareValue {v : ℤ}
    (hcmp : predicateCompareCode op = some cmp) (hsides : Sides onLeft lhs rhs value literal)
    (hatom : ∀ row, arithOverflows elem row literal = false)
    (hliteral : ∀ target row, operandDatum host target row literal = some (some (.int v)))
    (hvalue : ArithCode store.columns store.snapshot value steps)
    (hwidth : ∀ col ty, value.References col → columnType store.columns col = some ty → LoadsAt elem ty)
    (hstep : ∀ cells stack overflow,
      execStep host store.memory final store.rowCount elem ⟨.value elem cells :: stack, overflow⟩ step = .ok
        ⟨.mask (fun r => cmpHolds cmp (sided onLeft compare (cells r) v)) :: stack, overflow⟩) :
    LeafSound store host final elem op lhs rhs ⟨steps ++ [step], [], collectExprColumns value []⟩ := by
  obtain ⟨cells, hexec, hcells⟩ := @arith_exec host store elem final _ _ hvalue hwidth
  have hflag : leafOverflows elem lhs rhs = fun row => arithOverflows elem row value := by
    funext row
    rw [leafOverflows, hsides.overflows, hatom, Bool.or_false]
  refine ⟨fun r => cmpHolds cmp (sided onLeft compare (cells r) v), ?_, ?_⟩
  · intro state
    rw [exec, execProgram_append, ← exec, hexec state, except_ok_bind, hflag]
    simp [execProgram, hstep]
  · intro r hr hno
    rw [hflag] at hno
    obtain ⟨number, hnumber, hsome, hstored⟩ := integerValue_eq hvalue hr
    have hord : ∀ x y, number.map Datum.int = some x → some (.int v) = some y →
        ∃ o, sided onLeft Datum.compare x y = some o ∧
          cmpHolds cmp o = cmpHolds cmp (sided onLeft compare (cells r) v) := by
      intro x y hx hy
      obtain ⟨a, ha, rfl⟩ := Option.map_eq_some_iff.mp hx
      obtain rfl := Option.some.inj hy
      exact ⟨_, sided_int, by rw [hstored a ha, hcells r hr hno]⟩
    obtain ⟨truth, htruth, hiff⟩ := truth_of_sides hsides hcmp (operandDatum_arith hvalue hr hnumber)
      (hliteral _ _) hord
    refine ⟨truth, htruth, ?_⟩
    rw [← hiff, all_nonNull hsome, Option.isSome_map, Option.isSome_some, Bool.and_true]

/-- Two arithmetic values. -/
theorem LeafSound.compareBuffers (hcmp : predicateCompareCode op = some cmp)
    (hleft : ArithCode store.columns store.snapshot lhs left)
    (hright : ArithCode store.columns store.snapshot rhs right)
    (hwidth : ∀ col ty, lhs.References col ∨ rhs.References col → columnType store.columns col = some ty →
      LoadsAt elem ty) : LeafSound store host final elem op lhs rhs
      ⟨left ++ right ++ [.compareBuffers cmp], [], collectExprColumns rhs (collectExprColumns lhs [])⟩ := by
  obtain ⟨a, hexecl, ha⟩ := @arith_exec host store elem final _ _ hleft
    fun col ty href => hwidth col ty (Or.inl href)
  obtain ⟨b, hexecr, hb⟩ := @arith_exec host store elem final _ _ hright
    fun col ty href => hwidth col ty (Or.inr href)
  refine ⟨fun r => cmpHolds cmp (compare (a r) (b r)), ?_, ?_⟩
  · intro state
    have hany := any_range_or (n := store.rowCount) (f := fun r => arithOverflows elem (store.row r) lhs)
      (g := fun r => arithOverflows elem (store.row r) rhs)
      (h := fun r => arithOverflows elem (store.row r) rhs) (fun _ _ _ => rfl)
    rw [exec, execProgram_append, execProgram_append, ← exec, hexecl state,
      except_ok_bind, ← exec, hexecr, except_ok_bind]
    simp [execProgram, execStep, someRow, Bool.or_assoc, hany, leafOverflows]
  · intro r hr hno
    rw [leafOverflows, Bool.or_eq_false_iff] at hno
    obtain ⟨x, hx, hxsome, hxstored⟩ := integerValue_eq hleft hr
    obtain ⟨y, hy, hysome, hystored⟩ := integerValue_eq hright hr
    have hord : ∀ dx dy, x.map Datum.int = some dx → y.map Datum.int = some dy →
        ∃ o, dx.compare dy = some o ∧ cmpHolds cmp o = cmpHolds cmp (compare (a r) (b r)) := by
      intro dx dy hdx hdy
      obtain ⟨vx, hvx, rfl⟩ := Option.map_eq_some_iff.mp hdx
      obtain ⟨vy, hvy, rfl⟩ := Option.map_eq_some_iff.mp hdy
      exact ⟨_, rfl, by rw [hxstored vx hvx, hystored vy hvy, ha r hr hno.1, hb r hr hno.2]⟩
    obtain ⟨truth, htruth, hiff⟩ := truth_of_operands hcmp (operandDatum_arith hleft hr hx)
      (operandDatum_arith hright hr hy) hord
    refine ⟨truth, htruth, ?_⟩
    have hall : (collectExprColumns rhs (collectExprColumns lhs [])).all (nonNull (store.row r))
        = (x.isSome && y.isSome) := by
      rw [Bool.eq_iff_iff, Bool.and_eq_true, hxsome, hysome, all_eq_true]
      simp [mem_collectExprColumns, or_imp, forall_and]
    rw [← hiff, hall, Option.isSome_map, Option.isSome_map]

/-! ### The width of a program -/

/-- A predicate that a program of this width reads with the right strides: at 4 bytes every column of the 8-byte
section is a bare column against a literal, at 8 bytes no column is of 4 bytes. -/
def WidthSafe (columns : List RelationalColumn) : ResidentElemType → ResidentExpr → Prop
  | .i32, e => i64SectionLeavesScalarOnly columns e = true
  | .i64, e => ∀ col ty, e.References col → columnType columns col = some ty → payloadSection ty ≠ .int4
  | .i128, _ => False

theorem mentionsI64_eq_true :
    mentionsI64 columns e = true ↔ ∃ col ty, e.References col ∧ columnType columns col = some ty ∧
      isI64SectionType ty = true := by
  simp only [mentionsI64, any_eq_true, mem_collectExprColumns, not_mem_nil, false_or, Option.any_eq_true]
  constructor
  · rintro ⟨col, href, ty, hty, hsection⟩
    exact ⟨col, ty, href, hty, hsection⟩
  · rintro ⟨col, ty, href, hty, hsection⟩
    exact ⟨col, href, ty, hty, hsection⟩

theorem isI64SectionType_iff : isI64SectionType ty = true ↔ LoadsAt .i64 ty := by
  cases ty <;> simp [isI64SectionType, LoadsAt]

/-- What `scalar_side_ok` accepts has a leaf of its own. -/
theorem scalarSideOk_cases (h : scalarSideOk columns lhs rhs = true) : ∃ col, lhs = .column col ∧
      (columnType columns col = some .int8 ∧ (intLiteralI64 rhs).isSome ∨
        columnType columns col = some .timestamp ∧
          ((textLiteralValue rhs).isSome || (int8LiteralValue rhs).isSome) = true) := by
  cases lhs with
  | column col =>
    refine ⟨col, rfl, ?_⟩
    simp only [scalarSideOk] at h
    split at h
    · rename_i hty
      refine Or.inl ⟨hty, ?_⟩
      cases rhs <;> simp [int8LiteralValue, int4LiteralValue, intLiteralI64] at h ⊢
    · rename_i hty
      refine Or.inr ⟨hty, ?_⟩
      rw [Bool.or_comm]
      exact h
    · cases h
  | _ => cases h

theorem typedColumnIndex_none_of_literal (h : ∀ col, e ≠ .column col) : typedColumnIndex columns ty e = none := by
  cases e with
  | column col => exact absurd rfl (h col)
  | _ => rfl

/-- A bare column of the 8-byte section against such a literal does not fall through its leaf. -/
theorem scalarSide_taken {cell : ResidentExpr}
    (hsides : Sides onLeft lhs rhs cell literal) (hside : scalarSideOk columns cell literal = true)
    (htime : timestampScalar host columns lhs rhs = .ok none) (hint8 : int8ScalarLeaf columns lhs rhs = none) :
    False := by
  obtain ⟨col, rfl, ⟨hty, hlit⟩ | ⟨hty, hlit⟩⟩ := scalarSideOk_cases hside
  · obtain ⟨scalar, hscalar⟩ := Option.isSome_iff_exists.mp hlit
    have hcol : int8ColumnIndex columns (.column col) = some col := typedColumnIndex_eq_some.mpr ⟨rfl, hty⟩
    have hnone : int8ColumnIndex columns literal = none := by
      apply typedColumnIndex_none_of_literal
      rintro col' rfl
      cases hscalar
    cases onLeft <;> obtain ⟨rfl, rfl⟩ := Prod.mk.inj hsides <;>
      simp [int8ScalarLeaf, hcol, hscalar, hnone] at hint8
  · have hcol := typedColumnIndex_eq_some.mpr ⟨rfl, hty⟩
    have hnone : typedColumnIndex columns .timestamp literal = none := by
      apply typedColumnIndex_none_of_literal
      rintro col' rfl
      simp [textLiteralValue, int8LiteralValue] at hlit
    cases onLeft <;> obtain ⟨rfl, rfl⟩ := Prod.mk.inj hsides <;>
      simp only [timestampScalar, scalarComparand, hcol, hnone, hlit, if_true, bind_ok, Except.ok.injEq,
        reduceCtorEq, and_false, exists_false] at htime

/-- A comparison that falls through the leaves of the 8-byte section does not mention that section, in a program of
4-byte elements. -/
theorem no_i64_of_scalarOnly (hop : booleanOpCode op = none)
    (h : i64SectionLeavesScalarOnly columns (.binary op lhs rhs) = true)
    (htime : timestampScalar host columns lhs rhs = .ok none) (hint8 : int8ScalarLeaf columns lhs rhs = none) :
    mentionsI64 columns lhs = false ∧ mentionsI64 columns rhs = false := by
  simp only [i64SectionLeavesScalarOnly, hop, Option.isSome_none, Bool.false_eq_true, if_false] at h
  cases hl : mentionsI64 columns lhs <;> cases hr : mentionsI64 columns rhs <;> simp only [hl, hr] at h
  · exact ⟨rfl, rfl⟩
  · exact (scalarSide_taken (show Sides true lhs rhs rhs lhs from rfl) h htime hint8).elim
  · exact (scalarSide_taken (show Sides false lhs rhs lhs rhs from rfl) h htime hint8).elim
  · cases h

/-- Arithmetic operands are columns of numbers. -/
theorem ArithCode.loads (h : ArithCode store.columns store.snapshot e steps) (href : e.References col)
    (hty : columnType store.columns col = some ty) : LoadsAt .i32 ty ∨ LoadsAt .i64 ty := by
  induction h with
  | column hoff =>
    obtain rfl := href
    obtain ⟨ty', hty', hcases⟩ := residentDeviceIntColumnOffset_ok hoff
    obtain rfl : ty' = ty := Option.some.inj (hty'.symm.trans hty)
    exact hcases.imp And.left And.left
  | @scalar _ _ onLeft _ _ _ _ _ hop hsides hvalue ih =>
    apply ih
    cases onLeft <;> obtain ⟨rfl, rfl⟩ := Prod.mk.inj hsides
    · exact href.resolve_right id
    · exact href.resolve_left id
  | buffers hop hleft hright ihl ihr => exact href.elim ihl ihr

/-- The columns of arithmetic operands are of the program's width. -/
theorem loadsAt_of_widthSafe (hop : booleanOpCode op = none)
    (hwidth : WidthSafe store.columns elem (.binary op lhs rhs))
    (htime : timestampScalar host store.columns lhs rhs = .ok none)
    (hint8 : int8ScalarLeaf store.columns lhs rhs = none) (he : e = lhs ∨ e = rhs)
    (hcode : ArithCode store.columns store.snapshot e steps) :
    ∀ col ty, e.References col → columnType store.columns col = some ty → LoadsAt elem ty := by
  intro col ty href hty
  have hnumber := hcode.loads href hty
  cases elem with
  | i32 =>
    obtain ⟨hl, hr⟩ := no_i64_of_scalarOnly hop hwidth htime hint8
    have hmention : mentionsI64 store.columns e = false := by
      rcases he with rfl | rfl
      · exact hl
      · exact hr
    refine hnumber.resolve_right fun hload => ?_
    rw [mentionsI64_eq_true.mpr ⟨col, ty, href, hty, isI64SectionType_iff.mpr hload⟩] at hmention
    cases hmention
  | i64 =>
    have hin : (ResidentExpr.binary op lhs rhs).References col := by
      rcases he with rfl | rfl
      · exact Or.inl href
      · exact Or.inr href
    exact hnumber.resolve_left fun hload => hwidth col ty hin hty hload.section_i32
  | i128 => exact hwidth.elim

/-! ### One comparison -/

def ExprStep.pushesMask : ExprStep → Bool
  | .textEqMask .. | .textCmpMask .. | .uuidCmpMask .. | .textCmpColumnsMask .. | .uuidCmpColumnsMask ..
  | .textLikeMask .. | .boolMask .. | .constMask .. => true
  | _ => false

def ExprStep.needle? : ExprStep → Option ℕ
  | .textEqMask _ _ _ idx _ | .textCmpMask _ _ _ idx _ _ | .uuidCmpMask _ idx _ _ | .textLikeMask _ _ _ idx =>
    some idx
  | _ => none

section Check

variable {index : ℕ} {stack stack' : List PreflightValue} {step : ExprStep} {e : ResidentElemType}

theorem check_single : store.check final elem index stack [step] = .ok stack' ↔
    validateStep store.memory.length final store.rowCount elem index stack step = .ok stack' := by
  simp [check, validateSteps, bind_ok]

theorem check_pushesMask (hstep : step.pushesMask)
    (hcheck : store.check final elem index stack [step] = .ok stack') : stack' = .mask :: stack := by
  rw [check_single] at hcheck
  cases step <;> simp only [ExprStep.pushesMask, Bool.false_eq_true] at hstep <;>
    simp only [validateStep, bind_ok, Except.ok.injEq] at hcheck <;> aesop

theorem check_needle {idx : ℕ} {bytes : Bytes} (hstep : step.needle? = some idx)
    (hcheck : store.check final elem index stack [step] = .ok stack')
    (hagree : final[idx]? = none ∨ final[idx]? = some bytes) : final[idx]? = some bytes := by
  rw [check_single] at hcheck
  refine hagree.resolve_left fun hnone => ?_
  cases step <;> simp only [ExprStep.needle?, reduceCtorEq, Option.some.injEq] at hstep <;> subst hstep <;>
    simp [validateStep, bind_ok, needleAt, hnone] at hcheck

theorem check_compareScalar {v : Int32}
    (hcheck : store.check final elem index (.value e :: stack) [.compareScalar cmp v onLeft] = .ok stack') :
    stack' = .mask :: stack := by
  rw [check_single] at hcheck
  simp only [validateStep, bind_ok, Except.ok.injEq, popValue, popExpected_ok] at hcheck
  obtain ⟨_, _, _, hpop, rfl⟩ := hcheck
  rw [(List.cons.inj hpop).2]

theorem check_compareScalarI64
    (hcheck : store.check final elem index (.value e :: stack) [.compareScalarI64 cmp v onLeft] = .ok stack') :
    e = .i64 ∧ stack' = .mask :: stack := by
  rw [check_single] at hcheck
  simp only [validateStep, bind_ok, Except.ok.injEq, popValue, popExpected_ok] at hcheck
  obtain ⟨_, _, _, hpop, rfl⟩ := hcheck
  obtain ⟨helem, rfl⟩ := List.cons.inj hpop
  exact ⟨PreflightValue.value.inj helem, rfl⟩

theorem check_loadI64
    (hcheck : store.check final elem index stack [.loadColumnI64 off, .compareScalarI64 cmp v onLeft] = .ok stack') :
    stack' = .mask :: stack := by
  obtain ⟨mid, hload, hcompare⟩ := (validateSteps_append (p := [ExprStep.loadColumnI64 off])).mp hcheck
  rw [← check, check_single] at hload
  simp only [validateStep, bind_ok, Except.ok.injEq] at hload
  obtain ⟨_, _, rfl⟩ := hload
  exact (check_compareScalarI64 hcompare).2

theorem check_date {v : Int32}
    (hcheck : store.check final elem index stack [.loadColumn off, .compareScalar cmp v onLeft] = .ok stack') :
    stack' = .mask :: stack := by
  obtain ⟨mid, hload, hcompare⟩ := (validateSteps_append (p := [ExprStep.loadColumn off])).mp hcheck
  rw [← check, check_single] at hload
  simp only [validateStep, bind_ok, Except.ok.injEq] at hload
  obtain ⟨_, _, rfl⟩ := hload
  exact check_compareScalar hcompare

theorem check_compareBuffers (hleft : ArithCode store.columns store.snapshot lhs left)
    (hright : ArithCode store.columns store.snapshot rhs right)
    (hcheck : store.check final elem index stack (left ++ right ++ [.compareBuffers cmp]) = .ok stack') :
    stack' = .mask :: stack := by
  obtain ⟨mid, hmid, hcheck⟩ := validateSteps_append.mp hcheck
  obtain ⟨first, hfirst, hmid⟩ := validateSteps_append.mp hmid
  obtain rfl := arith_check hleft hfirst
  obtain rfl := arith_check hright hmid
  rw [← check, check_single] at hcheck
  simp only [validateStep, bind_ok, Except.ok.injEq, popValue, popExpected_ok] at hcheck
  obtain ⟨_, _, _, hpop, _, hpop', rfl⟩ := hcheck
  obtain ⟨-, rfl⟩ := List.cons.inj hpop
  rw [(List.cons.inj hpop').2]

end Check

theorem textScalarStep_pushes (h : textScalarStep op layout needleIdx onLeft = .ok step) :
    step.pushesMask ∧ step.needle? = some needleIdx := by
  cases op <;> cases h <;> exact ⟨rfl, rfl⟩

theorem bool_pushes {snapshot : RelationalResidencySnapshot} {literal : Bool}
    (h : compileBoolScalarLeaf columns snapshot op col literal = .ok leaf) :
    ∃ step, leaf.steps = [step] ∧ step.pushesMask := by
  unfold compileBoolScalarLeaf at h
  cases hverdict : boolVerdict op literal with
  | none => simp [hverdict] at h
  | some verdict =>
    cases verdict with
    | never | whenKnown =>
      simp only [hverdict] at h
      obtain rfl := Except.ok.inj h
      exact ⟨_, rfl, rfl⟩
    | equals needle =>
      simp only [hverdict, bind_ok] at h
      obtain ⟨off, -, heq⟩ := h
      obtain rfl := Except.ok.inj heq
      exact ⟨_, rfl, rfl⟩

theorem timestampLiteral_datum {micros : Int64}
    (hty : columnType columns col = some .timestamp) (h : timestampLiteralMicros host literal = .ok micros)
    (row : List SqlValue) :
    operandDatum host (columnType columns col) row literal = some (some (.int micros.toInt)) ∧
      arithOverflows elem row literal = false := by
  cases literal with
  | textLiteral text =>
    simp only [timestampLiteralMicros] at h
    cases hparse : host.parseTimestamp text with
    | none => simp [hparse] at h
    | some micros' =>
      simp only [hparse, Except.ok.injEq] at h
      simp [operandDatum, coerceText, hty, hparse, h, arithOverflows]
  | int8Literal value =>
    obtain rfl : value = micros := Except.ok.inj h
    exact ⟨rfl, rfl⟩
  | _ => cases h

theorem intLiteral_datum {scalar : Int64} (h : intLiteralI64 literal = some scalar)
    (target : Option SqlType) (row : List SqlValue) :
    operandDatum host target row literal = some (some (.int scalar.toInt)) ∧
      arithOverflows elem row literal = false := by
  cases literal with
  | int8Literal value =>
    obtain rfl : value = scalar := Option.some.inj h
    exact ⟨rfl, rfl⟩
  | int4Literal value =>
    obtain rfl : value.toInt64 = scalar := Option.some.inj h
    simp [operandDatum, integerValue, arithOverflows]
  | _ => cases h

/-- **One comparison.**  A comparison that compiles and passes the check leaves the right mask. -/
theorem leaf_sound {stack stack' : List PreflightValue}
    (hshape : LeafShape host store.columns store.snapshot op lhs rhs needleIdx leaf)
    (hop : booleanOpCode op = none) (hwidth : WidthSafe store.columns elem (.binary op lhs rhs))
    (hsole : ∀ col, (ResidentExpr.binary op lhs rhs).References col → Unshared store.columns col)
    (hagree : ∀ bytes ∈ leaf.needles, final[needleIdx]? = none ∨ final[needleIdx]? = some bytes)
    (hcheck : store.check final elem index stack leaf.steps = .ok stack') :
    stack' = .mask :: stack ∧ LeafSound store host final elem op lhs rhs leaf := by
  cases hshape with
  | uuidScalar hcmp hsides hty hparse hoff =>
    have hneedle := check_needle rfl hcheck (hagree _ (mem_singleton.mpr rfl))
    exact ⟨check_pushesMask rfl hcheck, .uuidScalar hcmp hsides hty hparse hoff hneedle⟩
  | uuidColumns hcmp hlhs hrhs hta htb hoffA hoffB =>
    exact ⟨check_pushesMask rfl hcheck, .uuidColumns hcmp hlhs hrhs hta htb hoffA hoffB⟩
  | timestampScalar hcmp hsides hty hlit hoff =>
    have hdatum := fun row => @timestampLiteral_datum host elem _ _ _ _ hty hlit row
    exact ⟨check_loadI64 hcheck,
      .loadI64 hcmp hsides (fun row => (hdatum row).2) hty rfl hoff fun row => (hdatum row).1⟩
  | dateScalar hcmp hsides hty hlit hoff =>
    cases elem with
    | i32 => exact ⟨check_date hcheck, .date hcmp hsides hty hlit hoff⟩
    | i64 => exact (hwidth _ _ hsides.references hty rfl).elim
    | i128 => exact hwidth.elim
  | textScalar hsides hty hlayout hstep =>
    obtain ⟨hpushes, hidx⟩ := textScalarStep_pushes hstep
    have hneedle := check_needle hidx hcheck (hagree _ (mem_singleton.mpr rfl))
    exact ⟨check_pushesMask hpushes hcheck,
      .textScalar (hsole _ hsides.references) hsides hty hlayout hstep hneedle⟩
  | textColumns hcmp hlhs hrhs hta htb hlayoutA hlayoutB =>
    have hua := hsole _ (Or.inl (by rw [hlhs]; rfl))
    have hub := hsole _ (Or.inr (by rw [hrhs]; rfl))
    exact ⟨check_pushesMask rfl hcheck, .textColumns hua hub hcmp hlhs hrhs hta htb hlayoutA hlayoutB⟩
  | textLike hlike hlhs hrhs hty htokens hlayout =>
    have hneedle := check_needle rfl hcheck (hagree _ (mem_singleton.mpr rfl))
    have hu := hsole _ (Or.inl (by rw [hlhs]; rfl))
    exact ⟨check_pushesMask rfl hcheck, .textLike hu hlike hlhs hrhs hty htokens hlayout hneedle⟩
  | bool hsides hty hleaf =>
    obtain ⟨step, hsteps, hpushes⟩ := bool_pushes hleaf
    rw [hsteps] at hcheck
    exact ⟨check_pushesMask hpushes hcheck, .bool (hsole _ hsides.references) hsides hty hleaf⟩
  | int8Scalar hcmp hsides hty hlit hoff =>
    have hdatum := fun target row => @intLiteral_datum host elem _ _ hlit target row
    exact ⟨check_loadI64 hcheck,
      .loadI64 hcmp hsides (fun row => (hdatum none row).2) hty rfl hoff fun row => (hdatum _ row).1⟩
  | compareScalar hcmp hsides hvalue htime hint8 =>
    have hloads := loadsAt_of_widthSafe hop hwidth htime hint8 hsides.cell_eq hvalue
    obtain ⟨mid, hmid, hlast⟩ := validateSteps_append.mp hcheck
    obtain rfl := arith_check hvalue hmid
    refine ⟨check_compareScalar hlast, .compareValue hcmp hsides (fun _ => rfl) (fun _ _ => rfl) hvalue hloads ?_⟩
    intro cells stack overflow
    simp [execStep]
  | compareScalarI64 hcmp hsides hvalue htime hint8 =>
    have hloads := loadsAt_of_widthSafe hop hwidth htime hint8 hsides.cell_eq hvalue
    obtain ⟨mid, hmid, hlast⟩ := validateSteps_append.mp hcheck
    obtain rfl := arith_check hvalue hmid
    obtain ⟨rfl, hstack⟩ := check_compareScalarI64 hlast
    refine ⟨hstack, .compareValue hcmp hsides (fun _ => rfl) (fun _ _ => rfl) hvalue hloads ?_⟩
    intro cells stack overflow
    rfl
  | compareBuffers hcmp hleft hright htime hint8 =>
    refine ⟨check_compareBuffers hleft hright hcheck, .compareBuffers hcmp hleft hright ?_⟩
    intro col ty href
    rcases href with href | href
    · exact loadsAt_of_widthSafe hop hwidth htime hint8 (Or.inl rfl) hleft col ty href
    · exact loadsAt_of_widthSafe hop hwidth htime hint8 (Or.inr rfl) hright col ty href

end Leaves

end ThunderboltDb.Engine
