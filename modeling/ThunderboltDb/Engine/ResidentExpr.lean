import ThunderboltDb.Lib.ThreeValued
import ThunderboltDb.Engine.DevicePayload

/-!
# Scalar expressions over resident columns, and what SQL means by them

`ResidentExpr` is the expression tree that SQL binding hands to the device. The recognisers of its operands
(`typedColumnIndex`, `exprMentions`, the literals) are those of the predicate compiler. `sqlTruth` is the
meaning of a predicate on one row in three-valued logic: arithmetic with a `NULL` is `NULL`, a comparison with
a `NULL` is UNKNOWN, `AND` and `OR` are Kleene's.
-/

namespace ThunderboltDb.Engine

open Lib Sql

/-! ### Expressions -/

inductive ResidentBinaryOp where
  | add
  | sub
  | mul
  | eq
  | ne
  | lt
  | le
  | gt
  | ge
  | and
  | or
  | like
  deriving DecidableEq

/-- Columns are indices into the table's columns. -/
inductive ResidentExpr where
  | column (col : ℕ)
  | int4Literal (value : Int32)
  | int8Literal (value : Int64)
  | numericLiteral (value : Decimal128)
  | textLiteral (value : List Char)
  | boolLiteral (value : Bool)
  | isNull (col : ℕ) (isNotNull : Bool)
  | binary (op : ResidentBinaryOp) (lhs rhs : ResidentExpr)
  deriving DecidableEq

/-- The column is a value operand of the expression; an `IS NULL` test has none. -/
def ResidentExpr.References (col : ℕ) : ResidentExpr → Prop
  | .column col' => col' = col
  | .binary _ lhs rhs => lhs.References col ∨ rhs.References col
  | _ => False

/-- The column occurs in the expression, as a value operand or in an `IS NULL` test. -/
def ResidentExpr.Names (col : ℕ) : ResidentExpr → Prop
  | .column col' => col' = col
  | .isNull col' _ => col' = col
  | .binary _ lhs rhs => lhs.Names col ∨ rhs.Names col
  | _ => False

variable {col : ℕ} {e : ResidentExpr}

theorem ResidentExpr.References.names (h : e.References col) : e.Names col := by
  induction e with
  | column _ => exact h
  | binary _ lhs rhs ihl ihr => exact Or.imp ihl ihr h
  | _ => exact h.elim

/-! ### What the texts of a query stand for -/

/-- How the host reads texts: `parse_date` and `parse_timestamp`, the compiled form of a `LIKE` pattern, and
which texts the device's matcher accepts for it. -/
structure HostText where
  parseDate : List Char → Option Int32
  parseTimestamp : List Char → Option Int64
  compileLikePattern : List Char → Option Bytes
  likeMatches : Bytes → Bytes → Bool

/-! ### Recognising operands -/

/-- `table.columns.get(col).map(|column| column.ty)`. -/
def columnType (columns : List RelationalColumn) (col : ℕ) : Option SqlType :=
  (columns[col]?).map RelationalColumn.ty

section Operands

variable (columns : List RelationalColumn)

def int4LiteralValue : ResidentExpr → Option Int32
  | .int4Literal value => some value
  | _ => none

def int8LiteralValue : ResidentExpr → Option Int64
  | .int8Literal value => some value
  | _ => none

def textLiteralValue : ResidentExpr → Option (List Char)
  | .textLiteral value => some value
  | _ => none

/-- The index of a bare column of the type. -/
def typedColumnIndex (ty : SqlType) : ResidentExpr → Option ℕ
  | .column col => if columnType columns col = some ty then some col else none
  | _ => none

def int8ColumnIndex : ResidentExpr → Option ℕ := typedColumnIndex columns .int8

def textColumnIndex : ResidentExpr → Option ℕ := typedColumnIndex columns .text

def uuidColumnIndex : ResidentExpr → Option ℕ := typedColumnIndex columns .uuid

/-- Whether a column that satisfies `ofType`, or a literal that satisfies `literal`, occurs anywhere. -/
def exprMentions (ofType : SqlType → Bool) (literal : ResidentExpr → Bool) : ResidentExpr → Bool
  | .column col => (columnType columns col).any ofType
  | .binary _ lhs rhs => exprMentions ofType literal lhs || exprMentions ofType literal rhs
  | .isNull _ _ => false
  | e => literal e

def exprMentionsInt8 : ResidentExpr → Bool := exprMentions columns (· = .int8) fun _ => false

def exprMentionsInt4Column : ResidentExpr → Bool := exprMentions columns (· = .int4) fun _ => false

def exprMentionsInt2 : ResidentExpr → Bool := exprMentions columns (· = .int2) fun _ => false

def exprMentionsDate : ResidentExpr → Bool := exprMentions columns (· = .date) fun _ => false

def exprMentionsTimestamp : ResidentExpr → Bool := exprMentions columns (· = .timestamp) fun _ => false

def exprMentionsUuid : ResidentExpr → Bool := exprMentions columns (· = .uuid) fun _ => false

def exprMentionsBoolColumn : ResidentExpr → Bool := exprMentions columns (· = .bool) fun _ => false

/-- A text literal counts, whatever it is compared with. -/
def exprMentionsText : ResidentExpr → Bool :=
  exprMentions columns (· = .text) fun e => (textLiteralValue e).isSome

def isNumericType : SqlType → Bool
  | .numeric _ _ => true
  | _ => false

def isNumericLiteral : ResidentExpr → Bool
  | .numericLiteral _ => true
  | _ => false

def exprMentionsNumeric : ResidentExpr → Bool := exprMentions columns isNumericType isNumericLiteral

/-- A column that occurs is mentioned with its type. -/
theorem exprMentions_of_references {ofType : SqlType → Bool} {literal : ResidentExpr → Bool}
    {ty : SqlType} (href : e.References col) (hty : columnType columns col = some ty)
    (hof : ofType ty) : exprMentions columns ofType literal e = true := by
  induction e with
  | column col' =>
    obtain rfl : col' = col := href
    simp [exprMentions, hty, hof]
  | binary op lhs rhs ihl ihr =>
    rcases href with href | href
    · simp [exprMentions, ihl href]
    · simp [exprMentions, ihr href]
  | _ => exact href.elim

end Operands

/-- The value operands of an expression behind those already found, each once, in the order they are met. -/
def collectExprColumns : ResidentExpr → List ℕ → List ℕ
  | .column col, out => if col ∈ out then out else out ++ [col]
  | .binary _ lhs rhs, out => collectExprColumns rhs (collectExprColumns lhs out)
  | _, out => out

theorem mem_collectExprColumns {out : List ℕ} :
    col ∈ collectExprColumns e out ↔ col ∈ out ∨ e.References col := by
  induction e generalizing out with
  | column col' =>
    unfold collectExprColumns ResidentExpr.References
    split
    · constructor
      · intro h; exact Or.inl h
      · rintro (h | rfl)
        · exact h
        · assumption
    · rw [List.mem_append, List.mem_singleton, eq_comm (a := col)]
  | binary op lhs rhs ihl ihr =>
    rw [collectExprColumns, ihr, ihl, ResidentExpr.References, or_assoc]
  | _ => simp [collectExprColumns, ResidentExpr.References]

/-! ### SQL semantics -/

/-- A value that is not `NULL`, as comparisons see it: integers of every width, day counts and microseconds
are numbers. -/
inductive Datum where
  | int (value : ℤ)
  | text (value : List Char)
  | bool (value : Bool)
  | uuid (bytes : Bytes)
  deriving DecidableEq

/-- The number in a value of an integer or temporal type; the inner `none` is `NULL`. -/
def valueInt : SqlValue → Option (Option ℤ)
  | .null => some none
  | .int4 value | .date value => some (some value.toInt)
  | .int2 value => some (some value.toInt)
  | .int8 value | .timestamp value => some (some value.toInt)
  | _ => none

/-- The inner `none` is `NULL`; the outer one a value that these predicates do not compare. -/
def valueDatum : SqlValue → Option (Option Datum)
  | .text value => some (some (.text value))
  | .bool value => some (some (.bool value))
  | .uuid bytes => some (some (.uuid bytes.toList))
  | value => (valueInt value).map (Option.map Datum.int)

theorem valueDatum_of_int {value : SqlValue} {number : Option ℤ} (h : valueInt value = some number) :
    valueDatum value = some (number.map Datum.int) := by
  cases value with
  | null | int4 _ | date _ | int2 _ | int8 _ | timestamp _ => rw [← Option.some.inj h]; rfl
  | _ => cases h

def arithOf : ResidentBinaryOp → Option (ℤ → ℤ → ℤ)
  | .add => some (· + ·)
  | .sub => some (· - ·)
  | .mul => some (· * ·)
  | _ => none

/-- Integer arithmetic, strict in `NULL`. -/
def integerValue (row : List SqlValue) : ResidentExpr → Option (Option ℤ)
  | .column col => (row[col]?).bind valueInt
  | .int4Literal value => some (some value.toInt)
  | .int8Literal value => some (some value.toInt)
  | .binary op lhs rhs => do
    let apply ← arithOf op
    let a ← integerValue row lhs
    let b ← integerValue row rhs
    some (do some (apply (← a) (← b)))
  | _ => none

section Truth

variable (host : HostText) (columns : List RelationalColumn)

/-- The type of a bare column; what a text literal on the other side is read as. -/
def bareType : ResidentExpr → Option SqlType
  | .column col => columnType columns col
  | _ => none

/-- A text literal takes the type of what it is compared with. -/
def coerceText (target : Option SqlType) (text : List Char) : Option Datum :=
  match target with
  | some .date => (host.parseDate text).map fun days => .int days.toInt
  | some .timestamp => (host.parseTimestamp text).map fun micros => .int micros.toInt
  | some .uuid => (parseUuid text).map fun bytes => .uuid bytes.toList
  | _ => some (.text text)

/-- The value of an operand that is compared with something of type `target`. -/
def operandDatum (target : Option SqlType) (row : List SqlValue) : ResidentExpr → Option (Option Datum)
  | .column col => (row[col]?).bind valueDatum
  | .textLiteral text => (coerceText host target text).map some
  | .boolLiteral value => some (some (.bool value))
  | e => (integerValue row e).map (Option.map Datum.int)

/-- Texts and `uuid`s are ordered by their bytes, `false` comes before `true`. -/
def Datum.compare : Datum → Datum → Option Ordering
  | .int a, .int b => some (Ord.compare a b)
  | .text a, .text b => some (Ord.compare (utf8Bytes a) (utf8Bytes b))
  | .bool a, .bool b => some (Ord.compare a b)
  | .uuid a, .uuid b => some (Ord.compare a b)
  | _, _ => none

/-- Which orderings satisfy a comparison. -/
def orderingHolds : ResidentBinaryOp → Ordering → Option Bool
  | .eq, o => some (o == .eq)
  | .ne, o => some (o != .eq)
  | .lt, o => some (o == .lt)
  | .le, o => some (o != .gt)
  | .gt, o => some (o == .gt)
  | .ge, o => some (o != .lt)
  | _, _ => none

/-- A comparison of two values that are not `NULL`. -/
def datumHolds (op : ResidentBinaryOp) (a b : Datum) : Option Bool :=
  match op, a, b with
  | .like, .text text, .text pattern =>
    (host.compileLikePattern pattern).map fun tokens => host.likeMatches tokens (utf8Bytes text)
  | _, _, _ => (a.compare b).bind (orderingHolds op)

/-- A comparison with a `NULL` is UNKNOWN. -/
def comparisonTruth (row : List SqlValue) (op : ResidentBinaryOp) (lhs rhs : ResidentExpr) :
    Option (Option Bool) := do
  let a ← operandDatum host (bareType columns rhs) row lhs
  let b ← operandDatum host (bareType columns lhs) row rhs
  match a, b with
  | some a, some b => (datumHolds host op a b).map some
  | _, _ => some none

/-- The truth value of a predicate on a row: the inner `none` is UNKNOWN, the outer one is no predicate. -/
def sqlTruth (row : List SqlValue) : ResidentExpr → Option (Option Bool)
  | .column col =>
    match row[col]? with
    | some (.bool value) => some (some value)
    | some .null => some none
    | _ => none
  | .isNull col isNotNull => (row[col]?).map fun value => some (decide (value = .null) != isNotNull)
  | .binary .and lhs rhs => do some (kleeneAnd (← sqlTruth row lhs) (← sqlTruth row rhs))
  | .binary .or lhs rhs => do some (kleeneOr (← sqlTruth row lhs) (← sqlTruth row rhs))
  | .binary op lhs rhs => comparisonTruth host columns row op lhs rhs
  | _ => none

end Truth

end ThunderboltDb.Engine
