import ThunderboltDb.Engine.ExpressionVm

/-!
# The predicate compiler

`compilePredicateProgram` turns a predicate into a program that leaves one mask. UNKNOWN is never represented:
behind each comparison the mask is ANDed with the validity of the columns compared. `predicateVmElemType` and
its siblings pick the element width of a run, and `lowerResidentPredicate` is the dispatch between them.
-/

namespace ThunderboltDb.Engine

open Lib Sql

variable {e : ResidentExpr} {onLeft : Bool}

/-! ### Codes -/

def arithOpCode : ResidentBinaryOp → Option ℕ
  | .add => some 0
  | .sub => some 1
  | .mul => some 2
  | _ => none

def predicateCompareCode : ResidentBinaryOp → Option ℕ
  | .eq => some 0
  | .lt => some 1
  | .le => some 2
  | .gt => some 3
  | .ge => some 4
  | .ne => some 5
  | _ => none

def booleanOpCode : ResidentBinaryOp → Option ℕ
  | .and => some 0
  | .or => some 1
  | _ => none

/-! ### Literals -/

section Literals

variable (host : HostText)

def dateLiteralDays : ResidentExpr → Except ExecuteError Int32
  | .textLiteral text =>
    match host.parseDate text with
    | some days => .ok days
    | none =>
      let shown := String.ofList text
      .error (applyFailed s!"invalid input syntax for type date: \"{shown}\"")
  | _ => .error (applyFailed "a date column compares only to a date literal or another date column")

/-- A `bigint` literal is a count of microseconds. -/
def timestampLiteralMicros : ResidentExpr → Except ExecuteError Int64
  | .textLiteral text =>
    match host.parseTimestamp text with
    | some micros => .ok micros
    | none =>
      let shown := String.ofList text
      .error (applyFailed s!"invalid input syntax for type timestamp: \"{shown}\"")
  | .int8Literal micros => .ok micros
  | _ =>
    .error (applyFailed "a timestamp column compares only to a timestamp literal or another timestamp column")

def uuidLiteralBytes : ResidentExpr → Except ExecuteError (List.Vector UInt8 16)
  | .textLiteral text =>
    match parseUuid text with
    | some bytes => .ok bytes
    | none =>
      let shown := String.ofList text
      .error (applyFailed s!"invalid input syntax for type uuid: \"{shown}\"")
  | _ => .error (applyFailed "a uuid column compares only to a uuid literal or another uuid column")

end Literals

/-! ### Arithmetic operands -/

section Compile

variable (host : HostText) (columns : List RelationalColumn) (snapshot : RelationalResidencySnapshot)

/-- A column as an arithmetic operand: `int2` is read from the 4-byte section, `timestamp` from the 8-byte one. -/
def residentDeviceIntColumnOffset (col : ℕ) : Except ExecuteError ℕ :=
  match columnType columns col with
  | some .int4 | some .int2 => residentDeviceInt4ColumnOffset snapshot columns col
  | some .int8 | some .timestamp => residentDeviceInt8ColumnOffset snapshot columns col
  | _ => .error (applyFailed "resident device-memory column is neither int2/int4 nor int8/timestamp")

/-- The steps that leave the value of an arithmetic expression. A literal operand is folded into its step. -/
def compileArithProgram : ResidentExpr → Except ExecuteError (List ExprStep)
  | .column col => do .ok [.loadColumn (← residentDeviceIntColumnOffset columns snapshot col)]
  | .isNull _ _ => .error (applyFailed "IS NULL is not an arithmetic operand")
  | .binary op lhs rhs =>
    match arithOpCode op with
    | none => .error (applyFailed "resident Expr arithmetic position requires an arithmetic op (add/sub/mul)")
    | some code =>
      match int4LiteralValue lhs, int4LiteralValue rhs with
      | none, some scalar => do .ok ((← compileArithProgram lhs) ++ [.scalarBinary code scalar false])
      | some scalar, none => do .ok ((← compileArithProgram rhs) ++ [.scalarBinary code scalar true])
      | none, none => do
        let left ← compileArithProgram lhs
        let right ← compileArithProgram rhs
        .ok (left ++ right ++ [.bufferBinary code])
      | some _, some _ => .error (applyFailed
          "resident Expr interpreter does not yet constant-fold literal-only arithmetic subtrees")
  | _ => .error (applyFailed
      "resident Expr arithmetic value cannot be a bare literal (constant-folding pending)")

/-! ### Validity -/

/-- AND the mask on the stack with the validity of a column; a column without a bitmap holds no `NULL`. -/
def pushColumnValidityAnd (col : ℕ) : Except ExecuteError (List ExprStep) := do
  match ← residentDeviceNullColumnOffset snapshot columns col with
  | some bitmapByteOffset => .ok [.boolMask bitmapByteOffset false, .maskBinary 0]
  | none => .ok []

/-- `push_column_validity_and` for each column of a list. -/
def pushValidityAnds (cols : List ℕ) : Except ExecuteError (List ExprStep) := do
  .ok (← cols.mapM (pushColumnValidityAnd columns snapshot)).flatten

/-! ### Comparisons -/

/-- A comparison's own steps, the needles it adds and the columns whose validity it is ANDed with. -/
structure LeafCode where
  steps : List ExprStep
  needles : List Bytes
  validity : List ℕ

/-- A comparison with its validity, behind the needles that are there already. -/
def emitLeaf (leaf : LeafCode) (needles : List Bytes) :
    Except ExecuteError (List ExprStep × List Bytes) := do
  .ok (leaf.steps ++ (← pushValidityAnds columns snapshot leaf.validity), needles ++ leaf.needles)

variable (op : ResidentBinaryOp) (lhs rhs : ResidentExpr) (needles : List Bytes)

def compileUuidLeaf : Except ExecuteError LeafCode :=
  match predicateCompareCode op with
  | none => .error (applyFailed "a uuid predicate leaf must be a comparison (eq/ne/lt/le/gt/ge)")
  | some cmp =>
    match uuidColumnIndex columns lhs, uuidColumnIndex columns rhs with
    | some col, none => do
      let needle ← uuidLiteralBytes rhs
      let byteOffset ← residentDeviceNumericColumnOffset snapshot columns col
      .ok ⟨[.uuidCmpMask byteOffset needles.length false cmp], [needle.toList], [col]⟩
    | none, some col => do
      let needle ← uuidLiteralBytes lhs
      let byteOffset ← residentDeviceNumericColumnOffset snapshot columns col
      .ok ⟨[.uuidCmpMask byteOffset needles.length true cmp], [needle.toList], [col]⟩
    | some a, some b => do
      let aByteOffset ← residentDeviceNumericColumnOffset snapshot columns a
      let bByteOffset ← residentDeviceNumericColumnOffset snapshot columns b
      .ok ⟨[.uuidCmpColumnsMask aByteOffset bByteOffset cmp], [], [a, b]⟩
    | none, none => .error (applyFailed "a uuid predicate must involve a uuid column")

/-- A bare column of the type against a literal that `accepts`: the column, the literal's value, and whether
the literal stands on the left. -/
def scalarComparand {α : Type} (ty : SqlType) (accepts : ResidentExpr → Bool)
    (value : ResidentExpr → Except ExecuteError α) (lhs rhs : ResidentExpr) :
    Except ExecuteError (Option (ℕ × α × Bool)) :=
  match typedColumnIndex columns ty lhs, typedColumnIndex columns ty rhs with
  | some col, none => if accepts rhs then do .ok (some (col, ← value rhs, false)) else .ok none
  | none, some col => if accepts lhs then do .ok (some (col, ← value lhs, true)) else .ok none
  | _, _ => .ok none

/-- A timestamp column against a text or a count of microseconds. -/
def timestampScalar : ResidentExpr → ResidentExpr → Except ExecuteError (Option (ℕ × Int64 × Bool)) :=
  scalarComparand columns .timestamp (fun e => (textLiteralValue e).isSome || (int8LiteralValue e).isSome)
    (timestampLiteralMicros host)

/-- A date column against a text; an integer is no date. -/
def dateScalar : ResidentExpr → ResidentExpr → Except ExecuteError (Option (ℕ × Int32 × Bool)) :=
  scalarComparand columns .date (fun e => (textLiteralValue e).isSome) (dateLiteralDays host)

variable (col : ℕ)

def compileTimestampLeaf (micros : Int64) (scalarOnLeft : Bool) : Except ExecuteError LeafCode :=
  match predicateCompareCode op with
  | none => .error (applyFailed "a timestamp predicate leaf must be a comparison (eq/ne/lt/le/gt/ge)")
  | some cmp => do
    let byteOffset ← residentDeviceInt8ColumnOffset snapshot columns col
    .ok ⟨[.loadColumnI64 byteOffset, .compareScalarI64 cmp micros scalarOnLeft], [], [col]⟩

def compileDateLeaf (days : Int32) (scalarOnLeft : Bool) : Except ExecuteError LeafCode :=
  match predicateCompareCode op with
  | none => .error (applyFailed "a date predicate leaf must be a comparison (eq/ne/lt/le/gt/ge)")
  | some cmp => do
    let byteOffset ← residentDeviceInt4ColumnOffset snapshot columns col
    .ok ⟨[.loadColumn byteOffset, .compareScalar cmp days scalarOnLeft], [], [col]⟩

/-- The mask step of a text column against a literal. -/
def textScalarStep (layout : ResidentDeviceTextColumnLayout) (needleIdx : ℕ)
    (columnOnLeft : Bool) : Except ExecuteError ExprStep :=
  match op, predicateCompareCode op with
  | .eq, _ =>
    .ok (.textEqMask layout.offsetsByteOffset layout.bytesByteOffset layout.bytesLen needleIdx false)
  | .ne, _ =>
    .ok (.textEqMask layout.offsetsByteOffset layout.bytesByteOffset layout.bytesLen needleIdx true)
  | _, some cmp => .ok (.textCmpMask layout.offsetsByteOffset layout.bytesByteOffset layout.bytesLen needleIdx
      (!columnOnLeft) cmp)
  | _, none => .error (applyFailed "the general GPU executor supports text = <> < <= > >= and LIKE only")

/-- A text column against a literal. -/
def compileTextScalarLeaf (literal : List Char) (columnOnLeft : Bool)
    (needles : List Bytes) : Except ExecuteError LeafCode := do
  let layout ← residentDeviceTextColumnLayout snapshot columns col
  let step ← textScalarStep op layout needles.length columnOnLeft
  .ok ⟨[step], [utf8Bytes literal], [col]⟩

def compileTextColumnsLeaf (a b : ℕ) : Except ExecuteError LeafCode :=
  match predicateCompareCode op with
  | none => .error (applyFailed "a text col-vs-col leaf must be a comparison (eq/ne/lt/le/gt/ge)")
  | some cmp => do
    let aLayout ← residentDeviceTextColumnLayout snapshot columns a
    let bLayout ← residentDeviceTextColumnLayout snapshot columns b
    .ok ⟨[.textCmpColumnsMask aLayout.offsetsByteOffset aLayout.bytesByteOffset aLayout.bytesLen
      bLayout.offsetsByteOffset bLayout.bytesByteOffset bLayout.bytesLen cmp], [], [a, b]⟩

def compileTextEqLeaf : Except ExecuteError LeafCode :=
  match textColumnIndex columns lhs, textColumnIndex columns rhs, textLiteralValue lhs, textLiteralValue rhs with
  | some col, none, _, some literal => compileTextScalarLeaf columns snapshot op col literal true needles
  | none, some col, some literal, _ => compileTextScalarLeaf columns snapshot op col literal false needles
  | some a, some b, _, _ => compileTextColumnsLeaf columns snapshot op a b
  | _, _, _, _ => .error (applyFailed "text comparison must be a column against a literal")

def compileTextLikeLeaf : Except ExecuteError LeafCode :=
  match textColumnIndex columns lhs, textLiteralValue rhs with
  | some col, some pattern =>
    match host.compileLikePattern pattern with
    | none => .error (applyFailed "LIKE pattern must not end with escape character")
    | some tokens => do
      let layout ← residentDeviceTextColumnLayout snapshot columns col
      .ok ⟨[.textLikeMask layout.offsetsByteOffset layout.bytesByteOffset layout.bytesLen needles.length],
        [tokens], [col]⟩
  | _, _ => .error (applyFailed "LIKE must be a text column LIKE a literal pattern")

def flipComparison : ResidentBinaryOp → ResidentBinaryOp
  | .lt => .gt
  | .le => .ge
  | .gt => .lt
  | .ge => .le
  | other => other

/-- What a comparison of a `bool` column with a literal comes to. -/
inductive BoolVerdict where
  | equals (needle : Bool)
  | never
  | whenKnown

/-- `false` comes before `true`, so a comparison with either is an equality or constant. -/
def boolVerdict : ResidentBinaryOp → Bool → Option BoolVerdict
  | .eq, literal => some (.equals literal)
  | .ne, literal => some (.equals (!literal))
  | .lt, true => some (.equals false)
  | .le, false => some (.equals false)
  | .gt, false => some (.equals true)
  | .ge, true => some (.equals true)
  | .lt, false | .gt, true => some .never
  | .le, true | .ge, false => some .whenKnown
  | _, _ => none

/-- A `bool` column against a literal, the column on the left of `op`. -/
def compileBoolScalarLeaf (literal : Bool) : Except ExecuteError LeafCode :=
  match boolVerdict op literal with
  | none => .error (applyFailed "the general GPU executor supports only comparisons against a bool literal")
  | some .never => .ok ⟨[.constMask false], [], []⟩
  | some .whenKnown => .ok ⟨[.constMask true], [], [col]⟩
  | some (.equals needle) => do
    let bitmapByteOffset ← residentDeviceBoolColumnOffset snapshot columns col
    .ok ⟨[.boolMask bitmapByteOffset (!needle)], [], [col]⟩

def isBoolColumn : ResidentExpr → Bool
  | .column col => columnType columns col = some .bool
  | _ => false

def compileBoolLeaf : Except ExecuteError LeafCode :=
  match lhs, rhs with
  | .column col, .boolLiteral literal =>
    if columnType columns col = some .bool then compileBoolScalarLeaf columns snapshot op col literal
    else .error (applyFailed "a bool comparison must be a bool column against a true/false literal")
  | .boolLiteral literal, .column col =>
    if columnType columns col = some .bool then
      compileBoolScalarLeaf columns snapshot (flipComparison op) col literal
    else .error (applyFailed "a bool comparison must be a bool column against a true/false literal")
  | _, _ => .error (applyFailed "a bool comparison must be a bool column against a true/false literal")

/-- An integer literal of either width. -/
def intLiteralI64 : ResidentExpr → Option Int64
  | .int8Literal value => some value
  | .int4Literal value => some value.toInt64
  | _ => none

/-- A bare `bigint` column against an integer literal. -/
def int8ScalarLeaf : Option (ℕ × Int64 × Bool) :=
  match int8ColumnIndex columns lhs, intLiteralI64 rhs, int8ColumnIndex columns rhs, intLiteralI64 lhs with
  | some col, some scalar, _, _ => some (col, scalar, false)
  | _, _, some col, some scalar => some (col, scalar, true)
  | _, _, _, _ => none

/-- A value against a literal: its steps, the comparison, and the validity of what it references. -/
def compileScalarCompare (value : ResidentExpr) (compare : ExprStep) : Except ExecuteError LeafCode := do
  .ok ⟨(← compileArithProgram columns snapshot value) ++ [compare], [], collectExprColumns value []⟩

/-- A comparison of arithmetic values. -/
def compileCompare (cmp : ℕ) (lhs rhs : ResidentExpr) : Except ExecuteError LeafCode :=
  match int4LiteralValue lhs, int4LiteralValue rhs, int8LiteralValue lhs, int8LiteralValue rhs with
  | none, some scalar, _, _ => compileScalarCompare columns snapshot lhs (.compareScalar cmp scalar false)
  | some scalar, none, _, _ => compileScalarCompare columns snapshot rhs (.compareScalar cmp scalar true)
  | none, none, _, some scalar => compileScalarCompare columns snapshot lhs (.compareScalarI64 cmp scalar false)
  | none, none, some scalar, none =>
    compileScalarCompare columns snapshot rhs (.compareScalarI64 cmp scalar true)
  | none, none, none, none => do
    let left ← compileArithProgram columns snapshot lhs
    let right ← compileArithProgram columns snapshot rhs
    .ok ⟨left ++ right ++ [.compareBuffers cmp], [], collectExprColumns rhs (collectExprColumns lhs [])⟩
  | some _, some _, _, _ => .error (applyFailed
      "resident predicate comparison cannot be literal-vs-literal (constant-folding pending)")

/-- An integer comparison: a bare `bigint` column against a literal loads its 8 bytes whatever the width of the
program; everything else goes by that width. -/
def compileIntLeaf : Except ExecuteError LeafCode :=
  match predicateCompareCode op with
  | none => .error (applyFailed "resident predicate node must be a comparison (eq/ne/lt/le/gt/ge) or AND/OR")
  | some cmp =>
    match int8ScalarLeaf columns lhs rhs with
    | some (col, scalar, scalarOnLeft) => do
      let byteOffset ← residentDeviceInt8ColumnOffset snapshot columns col
      .ok ⟨[.loadColumnI64 byteOffset, .compareScalarI64 cmp scalar scalarOnLeft], [], [col]⟩
    | none => compileCompare columns snapshot cmp lhs rhs

/-- A comparison, by the kinds of its operands: a `uuid`, timestamp or date column is looked for before text,
since their literals are texts. -/
def compileLeaf : Except ExecuteError LeafCode :=
  if exprMentionsUuid columns lhs || exprMentionsUuid columns rhs then
    compileUuidLeaf columns snapshot op lhs rhs needles
  else do
    match ← timestampScalar host columns lhs rhs with
    | some (col, micros, scalarOnLeft) => compileTimestampLeaf columns snapshot op col micros scalarOnLeft
    | none =>
      match ← dateScalar host columns lhs rhs with
      | some (col, days, scalarOnLeft) => compileDateLeaf columns snapshot op col days scalarOnLeft
      | none =>
        if exprMentionsText columns lhs || exprMentionsText columns rhs then
          if op = .like then compileTextLikeLeaf host columns snapshot lhs rhs needles
          else compileTextEqLeaf columns snapshot op lhs rhs needles
        else if isBoolColumn columns lhs || isBoolColumn columns rhs then compileBoolLeaf columns snapshot op lhs rhs
        else compileIntLeaf columns snapshot op lhs rhs

/-! ### Predicates -/

/-- The steps that leave the mask of a predicate, and the needles behind those that are there already. -/
def compilePredicateProgram : ResidentExpr → List Bytes →
    Except ExecuteError (List ExprStep × List Bytes)
  | .column col, needles =>
    if columnType columns col = some .bool then do
      .ok ([.boolMask (← residentDeviceBoolColumnOffset snapshot columns col) false], needles)
    else .error (applyFailed
      "a bare column predicate leaf must be a bool column (argument of WHERE must be boolean)")
  | .isNull col isNotNull, needles => do
    match ← residentDeviceNullColumnOffset snapshot columns col with
    | some bitmapByteOffset => .ok ([.boolMask bitmapByteOffset (!isNotNull)], needles)
    | none => .ok ([.constMask isNotNull], needles)
  | .binary op lhs rhs, needles =>
    match booleanOpCode op with
    | some code => do
      let (left, needles) ← compilePredicateProgram lhs needles
      let (right, needles) ← compilePredicateProgram rhs needles
      .ok (left ++ right ++ [.maskBinary code], needles)
    | none => do emitLeaf columns snapshot (← compileLeaf host columns snapshot op lhs rhs needles) needles
  | _, _ => .error (applyFailed "resident predicate must be a comparison or boolean (AND/OR) combination")

end Compile

/-! ### What the compiler emits -/

section Shapes

variable {host : HostText} {columns : List RelationalColumn} {snapshot : RelationalResidencySnapshot}

/-- `lhs` and `rhs` are `cell` and `scalar`, in the order that `scalarOnLeft` says. -/
def Sides (scalarOnLeft : Bool) (lhs rhs cell scalar : ResidentExpr) : Prop :=
  (lhs, rhs) = if scalarOnLeft then (scalar, cell) else (cell, scalar)

variable (columns snapshot) in
/-- The programs of arithmetic expressions. -/
inductive ArithCode : ResidentExpr → List ExprStep → Prop
  | column {col off : ℕ} (hoff : residentDeviceIntColumnOffset columns snapshot col = .ok off) :
    ArithCode (.column col) [.loadColumn off]
  | scalar {op : ResidentBinaryOp} {code : ℕ} {onLeft : Bool} {lhs rhs value : ResidentExpr} {scalar : Int32}
      {steps : List ExprStep} (hop : arithOpCode op = some code)
      (hsides : Sides onLeft lhs rhs value (.int4Literal scalar)) (hvalue : ArithCode value steps) :
    ArithCode (.binary op lhs rhs) (steps ++ [.scalarBinary code scalar onLeft])
  | buffers {op : ResidentBinaryOp} {code : ℕ} {lhs rhs : ResidentExpr} {left right : List ExprStep}
      (hop : arithOpCode op = some code) (hleft : ArithCode lhs left) (hright : ArithCode rhs right) :
    ArithCode (.binary op lhs rhs) (left ++ right ++ [.bufferBinary code])

theorem int4LiteralValue_eq_some {value : Int32} : int4LiteralValue e = some value ↔ e = .int4Literal value := by
  cases e <;> simp [int4LiteralValue]

theorem int8LiteralValue_eq_some {value : Int64} : int8LiteralValue e = some value ↔ e = .int8Literal value := by
  cases e <;> simp [int8LiteralValue]

theorem textLiteralValue_eq_some {value : List Char} :
    textLiteralValue e = some value ↔ e = .textLiteral value := by
  cases e <;> simp [textLiteralValue]

variable {ty : SqlType} {col : ℕ}

theorem typedColumnIndex_eq_some :
    typedColumnIndex columns ty e = some col ↔ e = .column col ∧ columnType columns col = some ty := by
  cases e with
  | column col' =>
    simp only [typedColumnIndex, Option.ite_none_right_eq_some, Option.some.injEq, ResidentExpr.column.injEq]
    constructor
    · rintro ⟨hty, rfl⟩
      exact ⟨rfl, hty⟩
    · rintro ⟨rfl, hty⟩
      exact ⟨hty, rfl⟩
  | _ => simp [typedColumnIndex]

theorem compileArithProgram_ok {steps : List ExprStep}
    (h : compileArithProgram columns snapshot e = .ok steps) : ArithCode columns snapshot e steps := by
  induction e generalizing steps with
  | column col =>
    simp only [compileArithProgram, bind_ok] at h
    obtain ⟨off, hoff, heq⟩ := h
    obtain rfl : [ExprStep.loadColumn off] = steps := Except.ok.inj heq
    exact .column hoff
  | binary op lhs rhs ihl ihr =>
    simp only [compileArithProgram] at h
    cases hop : arithOpCode op with
    | none => simp [hop] at h
    | some code =>
      simp only [hop] at h
      cases hl : int4LiteralValue lhs with
      | none =>
        cases hr : int4LiteralValue rhs with
        | none =>
          simp only [hl, hr, bind_ok] at h
          obtain ⟨left, hleft, right, hright, heq⟩ := h
          obtain rfl : left ++ right ++ [.bufferBinary code] = steps := Except.ok.inj heq
          exact .buffers hop (ihl hleft) (ihr hright)
        | some scalar =>
          simp only [hl, hr, bind_ok] at h
          obtain ⟨left, hleft, heq⟩ := h
          obtain rfl : left ++ [.scalarBinary code scalar false] = steps := Except.ok.inj heq
          rw [int4LiteralValue_eq_some.mp hr]
          exact .scalar hop (show Sides false _ _ _ _ from rfl) (ihl hleft)
      | some scalar =>
        cases hr : int4LiteralValue rhs with
        | none =>
          simp only [hl, hr, bind_ok] at h
          obtain ⟨right, hright, heq⟩ := h
          obtain rfl : right ++ [.scalarBinary code scalar true] = steps := Except.ok.inj heq
          rw [int4LiteralValue_eq_some.mp hl]
          exact .scalar hop (show Sides true _ _ _ _ from rfl) (ihr hright)
        | some scalar' => simp [hl, hr] at h
  | _ => simp [compileArithProgram] at h

variable (host columns snapshot) in
/-- The comparisons the compiler accepts, each with its code. -/
inductive LeafShape (op : ResidentBinaryOp) (lhs rhs : ResidentExpr) (needleIdx : ℕ) : LeafCode → Prop
  | uuidScalar {cmp col off : ℕ} {onLeft : Bool} {text : List Char} {bytes : List.Vector UInt8 16}
      (hcmp : predicateCompareCode op = some cmp) (hsides : Sides onLeft lhs rhs (.column col) (.textLiteral text))
      (hty : columnType columns col = some .uuid) (hparse : parseUuid text = some bytes)
      (hoff : residentDeviceNumericColumnOffset snapshot columns col = .ok off) :
    LeafShape op lhs rhs needleIdx ⟨[.uuidCmpMask off needleIdx onLeft cmp], [bytes.toList], [col]⟩
  | uuidColumns {cmp a b offA offB : ℕ} (hcmp : predicateCompareCode op = some cmp) (hlhs : lhs = .column a)
      (hrhs : rhs = .column b) (hta : columnType columns a = some .uuid)
      (htb : columnType columns b = some .uuid)
      (hoffA : residentDeviceNumericColumnOffset snapshot columns a = .ok offA)
      (hoffB : residentDeviceNumericColumnOffset snapshot columns b = .ok offB) :
    LeafShape op lhs rhs needleIdx ⟨[.uuidCmpColumnsMask offA offB cmp], [], [a, b]⟩
  | timestampScalar {cmp col off : ℕ} {onLeft : Bool} {literal : ResidentExpr} {micros : Int64}
      (hcmp : predicateCompareCode op = some cmp) (hsides : Sides onLeft lhs rhs (.column col) literal)
      (hty : columnType columns col = some .timestamp) (hlit : timestampLiteralMicros host literal = .ok micros)
      (hoff : residentDeviceInt8ColumnOffset snapshot columns col = .ok off) :
    LeafShape op lhs rhs needleIdx ⟨[.loadColumnI64 off, .compareScalarI64 cmp micros onLeft], [], [col]⟩
  | dateScalar {cmp col off : ℕ} {onLeft : Bool} {literal : ResidentExpr} {days : Int32}
      (hcmp : predicateCompareCode op = some cmp) (hsides : Sides onLeft lhs rhs (.column col) literal)
      (hty : columnType columns col = some .date) (hlit : dateLiteralDays host literal = .ok days)
      (hoff : residentDeviceInt4ColumnOffset snapshot columns col = .ok off) :
    LeafShape op lhs rhs needleIdx ⟨[.loadColumn off, .compareScalar cmp days onLeft], [], [col]⟩
  | textScalar {col : ℕ} {onLeft : Bool} {text : List Char} {layout : ResidentDeviceTextColumnLayout}
      {step : ExprStep} (hsides : Sides onLeft lhs rhs (.column col) (.textLiteral text))
      (hty : columnType columns col = some .text)
      (hlayout : residentDeviceTextColumnLayout snapshot columns col = .ok layout)
      (hstep : textScalarStep op layout needleIdx (!onLeft) = .ok step) :
    LeafShape op lhs rhs needleIdx ⟨[step], [utf8Bytes text], [col]⟩
  | textColumns {cmp a b : ℕ} {layoutA layoutB : ResidentDeviceTextColumnLayout}
      (hcmp : predicateCompareCode op = some cmp) (hlhs : lhs = .column a) (hrhs : rhs = .column b)
      (hta : columnType columns a = some .text) (htb : columnType columns b = some .text)
      (hlayoutA : residentDeviceTextColumnLayout snapshot columns a = .ok layoutA)
      (hlayoutB : residentDeviceTextColumnLayout snapshot columns b = .ok layoutB) :
    LeafShape op lhs rhs needleIdx
      ⟨[.textCmpColumnsMask layoutA.offsetsByteOffset layoutA.bytesByteOffset layoutA.bytesLen
        layoutB.offsetsByteOffset layoutB.bytesByteOffset layoutB.bytesLen cmp], [], [a, b]⟩
  | textLike {col : ℕ} {pattern : List Char} {tokens : Bytes} {layout : ResidentDeviceTextColumnLayout}
      (hop : op = .like) (hlhs : lhs = .column col) (hrhs : rhs = .textLiteral pattern)
      (hty : columnType columns col = some .text) (htokens : host.compileLikePattern pattern = some tokens)
      (hlayout : residentDeviceTextColumnLayout snapshot columns col = .ok layout) :
    LeafShape op lhs rhs needleIdx
      ⟨[.textLikeMask layout.offsetsByteOffset layout.bytesByteOffset layout.bytesLen needleIdx], [tokens], [col]⟩
  | bool {col : ℕ} {onLeft literal : Bool} {leaf : LeafCode}
      (hsides : Sides onLeft lhs rhs (.column col) (.boolLiteral literal))
      (hty : columnType columns col = some .bool)
      (hleaf : compileBoolScalarLeaf columns snapshot (if onLeft then flipComparison op else op) col literal
        = .ok leaf) :
    LeafShape op lhs rhs needleIdx leaf
  | int8Scalar {cmp col off : ℕ} {onLeft : Bool} {literal : ResidentExpr} {scalar : Int64}
      (hcmp : predicateCompareCode op = some cmp) (hsides : Sides onLeft lhs rhs (.column col) literal)
      (hty : columnType columns col = some .int8) (hlit : intLiteralI64 literal = some scalar)
      (hoff : residentDeviceInt8ColumnOffset snapshot columns col = .ok off) :
    LeafShape op lhs rhs needleIdx ⟨[.loadColumnI64 off, .compareScalarI64 cmp scalar onLeft], [], [col]⟩
  | compareScalar {cmp : ℕ} {onLeft : Bool} {value : ResidentExpr} {scalar : Int32} {steps : List ExprStep}
      (hcmp : predicateCompareCode op = some cmp) (hsides : Sides onLeft lhs rhs value (.int4Literal scalar))
      (hvalue : ArithCode columns snapshot value steps) (htime : timestampScalar host columns lhs rhs = .ok none)
      (hint8 : int8ScalarLeaf columns lhs rhs = none) :
    LeafShape op lhs rhs needleIdx
      ⟨steps ++ [.compareScalar cmp scalar onLeft], [], collectExprColumns value []⟩
  | compareScalarI64 {cmp : ℕ} {onLeft : Bool} {value : ResidentExpr} {scalar : Int64} {steps : List ExprStep}
      (hcmp : predicateCompareCode op = some cmp) (hsides : Sides onLeft lhs rhs value (.int8Literal scalar))
      (hvalue : ArithCode columns snapshot value steps) (htime : timestampScalar host columns lhs rhs = .ok none)
      (hint8 : int8ScalarLeaf columns lhs rhs = none) :
    LeafShape op lhs rhs needleIdx
      ⟨steps ++ [.compareScalarI64 cmp scalar onLeft], [], collectExprColumns value []⟩
  | compareBuffers {cmp : ℕ} {left right : List ExprStep} (hcmp : predicateCompareCode op = some cmp)
      (hleft : ArithCode columns snapshot lhs left) (hright : ArithCode columns snapshot rhs right)
      (htime : timestampScalar host columns lhs rhs = .ok none)
      (hint8 : int8ScalarLeaf columns lhs rhs = none) :
    LeafShape op lhs rhs needleIdx
      ⟨left ++ right ++ [.compareBuffers cmp], [], collectExprColumns rhs (collectExprColumns lhs [])⟩

section Leaves

variable {op : ResidentBinaryOp} {lhs rhs : ResidentExpr} {needles : List Bytes} {leaf : LeafCode}

theorem uuidLiteralBytes_ok {bytes : List.Vector UInt8 16}
    (h : uuidLiteralBytes e = .ok bytes) : ∃ text, e = .textLiteral text ∧ parseUuid text = some bytes := by
  cases e with
  | textLiteral text =>
    refine ⟨text, rfl, ?_⟩
    simp only [uuidLiteralBytes] at h
    cases hparse : parseUuid text with
    | none => simp [hparse] at h
    | some bytes' =>
      simp only [hparse, Except.ok.injEq] at h
      rw [h]
  | _ => simp [uuidLiteralBytes] at h

theorem compileUuidLeaf_ok (h : compileUuidLeaf columns snapshot op lhs rhs needles = .ok leaf) :
    LeafShape host columns snapshot op lhs rhs needles.length leaf := by
  unfold compileUuidLeaf at h
  cases hcmp : predicateCompareCode op with
  | none => simp [hcmp] at h
  | some cmp =>
    cases hl : uuidColumnIndex columns lhs with
    | none =>
      cases hr : uuidColumnIndex columns rhs with
      | none => simp [hcmp, hl, hr] at h
      | some col =>
        simp only [hcmp, hl, hr, bind_ok] at h
        obtain ⟨bytes, hbytes, off, hoff, heq⟩ := h
        obtain ⟨text, rfl, hparse⟩ := uuidLiteralBytes_ok hbytes
        obtain ⟨rfl, hty⟩ := typedColumnIndex_eq_some.mp hr
        rw [← Except.ok.inj heq]
        exact .uuidScalar hcmp rfl hty hparse hoff
    | some col =>
      cases hr : uuidColumnIndex columns rhs with
      | none =>
        simp only [hcmp, hl, hr, bind_ok] at h
        obtain ⟨bytes, hbytes, off, hoff, heq⟩ := h
        obtain ⟨text, rfl, hparse⟩ := uuidLiteralBytes_ok hbytes
        obtain ⟨rfl, hty⟩ := typedColumnIndex_eq_some.mp hl
        rw [← Except.ok.inj heq]
        exact .uuidScalar hcmp rfl hty hparse hoff
      | some col' =>
        simp only [hcmp, hl, hr, bind_ok] at h
        obtain ⟨offA, hoffA, offB, hoffB, heq⟩ := h
        obtain ⟨rfl, hta⟩ := typedColumnIndex_eq_some.mp hl
        obtain ⟨rfl, htb⟩ := typedColumnIndex_eq_some.mp hr
        rw [← Except.ok.inj heq]
        exact .uuidColumns hcmp rfl rfl hta htb hoffA hoffB

theorem scalarComparand_ok {α : Type} {accepts : ResidentExpr → Bool}
    {value : ResidentExpr → Except ExecuteError α} {v : α}
    (h : scalarComparand columns ty accepts value lhs rhs = .ok (some (col, v, onLeft))) :
    ∃ literal, Sides onLeft lhs rhs (.column col) literal ∧ columnType columns col = some ty ∧
      value literal = .ok v := by
  unfold scalarComparand at h
  cases hl : typedColumnIndex columns ty lhs with
  | none =>
    cases hr : typedColumnIndex columns ty rhs with
    | none => simp [hl, hr] at h
    | some col' =>
      simp only [hl, hr] at h
      split at h
      · simp only [bind_ok, Except.ok.injEq, Option.some.injEq, Prod.mk.injEq] at h
        obtain ⟨v', hv, rfl, rfl, rfl⟩ := h
        obtain ⟨rfl, hty⟩ := typedColumnIndex_eq_some.mp hr
        exact ⟨lhs, rfl, hty, hv⟩
      · simp at h
  | some col' =>
    cases hr : typedColumnIndex columns ty rhs with
    | none =>
      simp only [hl, hr] at h
      split at h
      · simp only [bind_ok, Except.ok.injEq, Option.some.injEq, Prod.mk.injEq] at h
        obtain ⟨v', hv, rfl, rfl, rfl⟩ := h
        obtain ⟨rfl, hty⟩ := typedColumnIndex_eq_some.mp hl
        exact ⟨rhs, rfl, hty, hv⟩
      · simp at h
    | some col'' => simp [hl, hr] at h

theorem compileTimestampLeaf_ok {micros : Int64}
    (hscalar : timestampScalar host columns lhs rhs = .ok (some (col, micros, onLeft)))
    (h : compileTimestampLeaf columns snapshot op col micros onLeft = .ok leaf) :
    LeafShape host columns snapshot op lhs rhs needles.length leaf := by
  obtain ⟨literal, hsides, hty, hlit⟩ := scalarComparand_ok hscalar
  unfold compileTimestampLeaf at h
  cases hcmp : predicateCompareCode op with
  | none => simp [hcmp] at h
  | some cmp =>
    simp only [hcmp, bind_ok] at h
    obtain ⟨off, hoff, heq⟩ := h
    rw [← Except.ok.inj heq]
    exact .timestampScalar hcmp hsides hty hlit hoff

theorem compileDateLeaf_ok {days : Int32}
    (hscalar : dateScalar host columns lhs rhs = .ok (some (col, days, onLeft)))
    (h : compileDateLeaf columns snapshot op col days onLeft = .ok leaf) :
    LeafShape host columns snapshot op lhs rhs needles.length leaf := by
  obtain ⟨literal, hsides, hty, hlit⟩ := scalarComparand_ok hscalar
  unfold compileDateLeaf at h
  cases hcmp : predicateCompareCode op with
  | none => simp [hcmp] at h
  | some cmp =>
    simp only [hcmp, bind_ok] at h
    obtain ⟨off, hoff, heq⟩ := h
    rw [← Except.ok.inj heq]
    exact .dateScalar hcmp hsides hty hlit hoff

theorem compileTextScalarLeaf_ok {text : List Char}
    (hsides : Sides onLeft lhs rhs (.column col) (.textLiteral text))
    (hty : columnType columns col = some .text)
    (h : compileTextScalarLeaf columns snapshot op col text (!onLeft) needles = .ok leaf) :
    LeafShape host columns snapshot op lhs rhs needles.length leaf := by
  simp only [compileTextScalarLeaf, bind_ok] at h
  obtain ⟨layout, hlayout, step, hstep, heq⟩ := h
  rw [← Except.ok.inj heq]
  exact .textScalar hsides hty hlayout hstep

theorem compileTextEqLeaf_ok (h : compileTextEqLeaf columns snapshot op lhs rhs needles = .ok leaf) :
    LeafShape host columns snapshot op lhs rhs needles.length leaf := by
  unfold compileTextEqLeaf at h
  split at h
  · rename_i col literal hl _ hlit
    obtain ⟨rfl, hty⟩ := typedColumnIndex_eq_some.mp hl
    rw [textLiteralValue_eq_some.mp hlit]
    exact compileTextScalarLeaf_ok (show Sides false _ _ _ _ from rfl) hty h
  · rename_i col literal _ hr hlit
    obtain ⟨rfl, hty⟩ := typedColumnIndex_eq_some.mp hr
    rw [textLiteralValue_eq_some.mp hlit]
    exact compileTextScalarLeaf_ok (show Sides true _ _ _ _ from rfl) hty h
  · rename_i a b hl hr
    obtain ⟨rfl, hta⟩ := typedColumnIndex_eq_some.mp hl
    obtain ⟨rfl, htb⟩ := typedColumnIndex_eq_some.mp hr
    unfold compileTextColumnsLeaf at h
    cases hcmp : predicateCompareCode op with
    | none => simp [hcmp] at h
    | some cmp =>
      simp only [hcmp, bind_ok] at h
      obtain ⟨layoutA, hlayoutA, layoutB, hlayoutB, heq⟩ := h
      rw [← Except.ok.inj heq]
      exact .textColumns hcmp rfl rfl hta htb hlayoutA hlayoutB
  · simp at h

theorem compileTextLikeLeaf_ok (hop : op = .like)
    (h : compileTextLikeLeaf host columns snapshot lhs rhs needles = .ok leaf) :
    LeafShape host columns snapshot op lhs rhs needles.length leaf := by
  unfold compileTextLikeLeaf at h
  split at h
  · rename_i col pattern hl hr
    obtain ⟨rfl, hty⟩ := typedColumnIndex_eq_some.mp hl
    rw [textLiteralValue_eq_some.mp hr]
    cases htokens : host.compileLikePattern pattern with
    | none => simp [htokens] at h
    | some tokens =>
      simp only [htokens, bind_ok] at h
      obtain ⟨layout, hlayout, heq⟩ := h
      rw [← Except.ok.inj heq]
      exact .textLike hop rfl rfl hty htokens hlayout
  · simp at h

theorem compileBoolLeaf_ok (h : compileBoolLeaf columns snapshot op lhs rhs = .ok leaf) :
    LeafShape host columns snapshot op lhs rhs needles.length leaf := by
  unfold compileBoolLeaf at h
  split at h
  · rename_i col literal
    split at h
    · rename_i hty
      exact .bool (show Sides false _ _ _ _ from rfl) hty h
    · simp at h
  · rename_i literal col
    split at h
    · rename_i hty
      exact .bool (show Sides true _ _ _ _ from rfl) hty h
    · simp at h
  · simp at h

theorem int8ScalarLeaf_some {scalar : Int64} (h : int8ScalarLeaf columns lhs rhs = some (col, scalar, onLeft)) :
    ∃ literal, Sides onLeft lhs rhs (.column col) literal ∧ columnType columns col = some .int8 ∧
      intLiteralI64 literal = some scalar := by
  unfold int8ScalarLeaf at h
  split at h
  · rename_i col' scalar' hl hlit
    obtain ⟨rfl, rfl, rfl⟩ : col' = col ∧ scalar' = scalar ∧ false = onLeft := by simpa using h
    obtain ⟨rfl, hty⟩ := typedColumnIndex_eq_some.mp hl
    exact ⟨rhs, rfl, hty, hlit⟩
  · rename_i col' scalar' hr hlit _
    obtain ⟨rfl, rfl, rfl⟩ : col' = col ∧ scalar' = scalar ∧ true = onLeft := by simpa using h
    obtain ⟨rfl, hty⟩ := typedColumnIndex_eq_some.mp hr
    exact ⟨lhs, rfl, hty, hlit⟩
  · simp at h

theorem compileScalarCompare_ok {value : ResidentExpr} {step : ExprStep}
    (h : compileScalarCompare columns snapshot value step = .ok leaf) : ∃ steps,
    ArithCode columns snapshot value steps ∧ leaf = ⟨steps ++ [step], [], collectExprColumns value []⟩ := by
  simp only [compileScalarCompare, bind_ok] at h
  obtain ⟨steps, hsteps, heq⟩ := h
  exact ⟨steps, compileArithProgram_ok hsteps, (Except.ok.inj heq).symm⟩

theorem compileCompare_ok {cmp : ℕ} (hcmp : predicateCompareCode op = some cmp)
    (htime : timestampScalar host columns lhs rhs = .ok none) (hint8 : int8ScalarLeaf columns lhs rhs = none)
    (h : compileCompare columns snapshot cmp lhs rhs = .ok leaf) :
    LeafShape host columns snapshot op lhs rhs needles.length leaf := by
  unfold compileCompare at h
  split at h
  · rename_i scalar hl hr
    obtain ⟨steps, hsteps, rfl⟩ := compileScalarCompare_ok h
    have hsides : Sides false lhs rhs lhs (.int4Literal scalar) := by rw [← int4LiteralValue_eq_some.mp hr]; rfl
    exact .compareScalar hcmp hsides hsteps htime hint8
  · rename_i scalar hl hr
    obtain ⟨steps, hsteps, rfl⟩ := compileScalarCompare_ok h
    have hsides : Sides true lhs rhs rhs (.int4Literal scalar) := by rw [← int4LiteralValue_eq_some.mp hl]; rfl
    exact .compareScalar hcmp hsides hsteps htime hint8
  · rename_i scalar _ _ hr
    obtain ⟨steps, hsteps, rfl⟩ := compileScalarCompare_ok h
    have hsides : Sides false lhs rhs lhs (.int8Literal scalar) := by rw [← int8LiteralValue_eq_some.mp hr]; rfl
    exact .compareScalarI64 hcmp hsides hsteps htime hint8
  · rename_i scalar _ _ hl _
    obtain ⟨steps, hsteps, rfl⟩ := compileScalarCompare_ok h
    have hsides : Sides true lhs rhs rhs (.int8Literal scalar) := by rw [← int8LiteralValue_eq_some.mp hl]; rfl
    exact .compareScalarI64 hcmp hsides hsteps htime hint8
  · simp only [bind_ok] at h
    obtain ⟨left, hleft, right, hright, heq⟩ := h
    rw [← Except.ok.inj heq]
    exact .compareBuffers hcmp (compileArithProgram_ok hleft) (compileArithProgram_ok hright) htime hint8
  · simp at h

theorem compileIntLeaf_ok (htime : timestampScalar host columns lhs rhs = .ok none)
    (h : compileIntLeaf columns snapshot op lhs rhs = .ok leaf) :
    LeafShape host columns snapshot op lhs rhs needles.length leaf := by
  unfold compileIntLeaf at h
  cases hcmp : predicateCompareCode op with
  | none => simp [hcmp] at h
  | some cmp =>
    cases hint8 : int8ScalarLeaf columns lhs rhs with
    | none =>
      simp only [hcmp, hint8] at h
      exact compileCompare_ok hcmp htime hint8 h
    | some found =>
      simp only [hcmp, hint8, bind_ok] at h
      obtain ⟨off, hoff, heq⟩ := h
      obtain ⟨literal, hsides, hty, hlit⟩ := int8ScalarLeaf_some hint8
      rw [← Except.ok.inj heq]
      exact .int8Scalar hcmp hsides hty hlit hoff

/-- Every comparison that compiles is of one of the shapes. -/
theorem compileLeaf_ok (h : compileLeaf host columns snapshot op lhs rhs needles = .ok leaf) :
    LeafShape host columns snapshot op lhs rhs needles.length leaf := by
  unfold compileLeaf at h
  split at h
  · exact compileUuidLeaf_ok h
  · obtain ⟨timestamp, htime, h⟩ := bind_ok.mp h
    cases timestamp with
    | some found => exact compileTimestampLeaf_ok htime h
    | none =>
      obtain ⟨date, hdate, h⟩ := bind_ok.mp h
      cases date with
      | some found => exact compileDateLeaf_ok hdate h
      | none =>
        simp only at h
        split at h
        · split at h
          · rename_i hop
            exact compileTextLikeLeaf_ok hop h
          · exact compileTextEqLeaf_ok h
        · split at h
          · exact compileBoolLeaf_ok h
          · exact compileIntLeaf_ok htime h

end Leaves

end Shapes

/-! ### The width of a run -/

section Width

variable (columns : List RelationalColumn) (predicate : ResidentExpr)

def allOfTypes (ofType : SqlType → Bool) (cols : List ℕ) : Bool :=
  cols.all fun col => (columnType columns col).any ofType

def isVmI32Type : SqlType → Bool
  | .int4 | .int2 | .text | .bool => true
  | _ => false

def isI64SectionType : SqlType → Bool
  | .int8 | .timestamp => true
  | _ => false

/-- The types whose leaves load 4 bytes or are masks. -/
def isI32ServableType : SqlType → Bool
  | .uuid | .int4 | .int2 | .text | .bool | .date => true
  | _ => false

def predicateVmElemType : Option ResidentElemType :=
  let cols := collectExprColumns predicate []
  if allOfTypes columns isVmI32Type cols then some .i32
  else if allOfTypes columns (· = .int8) cols then some .i64
  else none

/-- The expression references a column of the 8-byte section. -/
def mentionsI64 (e : ResidentExpr) : Bool :=
  (collectExprColumns e []).any fun col => (columnType columns col).any isI64SectionType

/-- A bare column of the 8-byte section against a literal that its leaf takes. -/
def scalarSideOk (colSide litSide : ResidentExpr) : Bool :=
  match colSide with
  | .column col =>
    match columnType columns col with
    | some .int8 => (int8LiteralValue litSide).isSome || (int4LiteralValue litSide).isSome
    | some .timestamp => (int8LiteralValue litSide).isSome || (textLiteralValue litSide).isSome
    | _ => false
  | _ => false

/-- Every column of the 8-byte section is used as a bare column against a literal. -/
def i64SectionLeavesScalarOnly : ResidentExpr → Bool
  | .binary op lhs rhs =>
    if (booleanOpCode op).isSome then i64SectionLeavesScalarOnly lhs && i64SectionLeavesScalarOnly rhs
    else
      match mentionsI64 columns lhs, mentionsI64 columns rhs with
      | false, false => true
      | true, true => false
      | true, false => scalarSideOk columns lhs rhs
      | false, true => scalarSideOk columns rhs lhs
  | .column col => !mentionsI64 columns (.column col)
  | _ => true

def mixedWidthI32Elem : Option ResidentElemType :=
  let cols := collectExprColumns predicate []
  if cols = [] then none
  else if allOfTypes columns (fun ty => isI32ServableType ty || isI64SectionType ty) cols
      && !allOfTypes columns isI64SectionType cols && i64SectionLeavesScalarOnly columns predicate then
    some .i32
  else none

/-- The width of an `AND` or `OR` over columns that hold `NULL`s. -/
def nullableGroupElem : Option ResidentElemType :=
  let cols := collectExprColumns predicate []
  if cols = [] then none
  else if allOfTypes columns isI32ServableType cols then some .i32
  else if allOfTypes columns isI64SectionType cols then some .i64
  else mixedWidthI32Elem columns predicate

/-- `predicate_references_nullable_column`; an `IS NULL` test does not count. -/
def predicateReferencesNullableColumn (snapshot : RelationalResidencySnapshot) (predicate : ResidentExpr) :
    Except ExecuteError Bool := do
  let offsets ← (collectExprColumns predicate []).mapM (residentDeviceNullColumnOffset snapshot columns)
  .ok (offsets.any Option.isSome)

/-- A run of the compiled predicate: its width, and whether the needles are handed over. -/
structure VmRoute where
  elem : ResidentElemType
  withText : Bool

/-- The expression mentions what a program of 8-byte elements cannot hold. -/
def mentionsWidthBound (lhs rhs : ResidentExpr) : Bool :=
  [exprMentionsInt4Column, exprMentionsInt2, exprMentionsText, exprMentionsBoolColumn, exprMentionsDate].any
    fun mentions => mentions columns lhs || mentions columns rhs

variable (op : ResidentBinaryOp) (lhs rhs : ResidentExpr)

/-- The comparisons of a bare `bigint` column that have kernels of their own. -/
def int8Peephole : Bool :=
  (predicateCompareCode op).isSome &&
    ((int4LiteralValue lhs).isSome && (int8ColumnIndex columns rhs).isSome
      || (int4LiteralValue rhs).isSome && (int8ColumnIndex columns lhs).isSome
      || (int8ColumnIndex columns lhs).isSome && (int8ColumnIndex columns rhs).isSome)

/-- `try_lower_int8_predicate`: `none` if the predicate is passed on, otherwise the run it takes, if any. -/
def tryLowerInt8Predicate : Option (Option VmRoute) :=
  if int8Peephole columns op lhs rhs then some none
  else if !(exprMentionsInt8 columns lhs || exprMentionsInt8 columns rhs) then none
  else if mentionsWidthBound columns lhs rhs || exprMentionsUuid columns lhs || exprMentionsUuid columns rhs then
    if (mixedWidthI32Elem columns (.binary op lhs rhs)).isSome then none
    else if mentionsWidthBound columns lhs rhs then some none
    else some (some ⟨.i64, false⟩)
  else some (some ⟨.i64, false⟩)

def tryLowerTimestampPredicate : Option (Option VmRoute) :=
  if !(exprMentionsTimestamp columns lhs || exprMentionsTimestamp columns rhs) then none
  else if (predicateCompareCode op).isSome then some none
  else
    let cols := collectExprColumns (.binary op lhs rhs) []
    if cols ≠ [] ∧ allOfTypes columns isI64SectionType cols then some (some ⟨.i64, false⟩)
    else if (mixedWidthI32Elem columns (.binary op lhs rhs)).isSome then none
    else some none

/-- The paths that take every single comparison of a `uuid`, date, `int2` or text; they pass `AND` and `OR`
on. -/
def tryLowerTypedComparison : Bool :=
  (booleanOpCode op).isNone &&
    [exprMentionsDate, exprMentionsUuid, exprMentionsInt2, exprMentionsText].any
      fun mentions => mentions columns lhs || mentions columns rhs

/-- A `bool` column against a literal, which is read from the bitmap alone. -/
def isBoolComparison : ResidentExpr → ResidentExpr → Bool
  | .column col, .boolLiteral _ | .boolLiteral _, .column col => columnType columns col = some .bool
  | _, _ => false

/-- The dispatch of a predicate over columns without `NULL`s. -/
def lowerNonNull : Option VmRoute :=
  if isBoolComparison columns lhs rhs then none
  else
    match tryLowerInt8Predicate columns op lhs rhs with
    | some route => route
    | none =>
      if exprMentionsNumeric columns lhs || exprMentionsNumeric columns rhs then none
      else
        match tryLowerTimestampPredicate columns op lhs rhs with
        | some route => route
        | none =>
          if tryLowerTypedComparison columns op lhs rhs then none
          else if op = .and ∨ op = .or ∨ op = .ne then some ⟨.i32, true⟩ else none

/-- The dispatch of a predicate over a column that holds `NULL`s. -/
def lowerNullable (predicate : ResidentExpr) : Option VmRoute :=
  match predicateVmElemType columns predicate, predicate with
  | some elem, _ => some ⟨elem, true⟩
  | none, .binary op lhs rhs =>
    if exprMentionsNumeric columns lhs || exprMentionsNumeric columns rhs then none
    else if op = .and ∨ op = .or then (nullableGroupElem columns (.binary op lhs rhs)).map (⟨·, true⟩)
    else none
  | none, _ => none

/-- Where `lower_resident_predicate` runs the compiled predicate, and at which width. `none` is a kernel of
its own (bare columns, single typed comparisons, numeric predicates) or a refusal. -/
def lowerResidentPredicate (snapshot : RelationalResidencySnapshot) (versioned : Bool)
    (predicate : ResidentExpr) : Except ExecuteError (Option VmRoute) :=
  if versioned then
    .ok ((predicateVmElemType columns predicate <|> mixedWidthI32Elem columns predicate).map (⟨·, true⟩))
  else
    match predicate with
    | .column _ | .isNull _ _ => .ok none
    | predicate => do
      if ← predicateReferencesNullableColumn columns snapshot predicate then
        .ok (lowerNullable columns predicate)
      else
        match predicate with
        | .binary op lhs rhs => .ok (lowerNonNull columns op lhs rhs)
        | _ => .ok none

end Width

/-! ### Visibility -/

/-- A read snapshot and where the version stamps of the rows stand, if they were gathered. -/
structure ResidentVisibility where
  readTxnId : Int64
  deletedByOffset : Option ℕ
  createdByOffset : Option ℕ

/-- `push_conjuncts` onto a mask that is on the stack already. -/
def ResidentVisibility.pushConjuncts (visibility : ResidentVisibility) : List ExprStep :=
  [(visibility.deletedByOffset, 3), (visibility.createdByOffset, 2)].flatMap fun (offset, cmp) =>
    match offset with
    | none => []
    | some byteOffset =>
      [.loadColumnI64 byteOffset, .compareScalarI64 cmp visibility.readTxnId false, .maskBinary 0]

end ThunderboltDb.Engine
