import ThunderboltDb.Engine.PredicateSoundness

/-!
# Which rows may fail a query

The overflow flag of a run is set by any physical row, while `NULL`s and invisible rows are masked out by later
steps only. A row is entitled to fail the query if it is visible and the arithmetic that overflows has no `NULL`
operand. Reports are right exactly on the stores where a physical overflow implies an entitled one. A `NULL`
cell holds 0 in every `ResidentStore`, as the payload builders write it: stores with other placeholders are not
among those that the statements range over.
-/

namespace ThunderboltDb.Engine

open Lib Sql List LoweredWhere

variable {host : HostText} {store store' : ResidentStore} {elem : ResidentElemType} {row : List SqlValue}
  {vis vis' : Option ResidentVisibility} {p : ResidentExpr}

/-- An intermediate result of which every operand is known does not fit an element. -/
def knownArithOverflows (elem : ResidentElemType) (row : List SqlValue) : ResidentExpr → Bool
  | .binary op lhs rhs => knownArithOverflows elem row lhs || knownArithOverflows elem row rhs ||
      ((collectExprColumns (.binary op lhs rhs) []).all (nonNull row) &&
        !decide (elem.InRange (storedArith row (.binary op lhs rhs))))
  | _ => false

/-- `predicateOverflows` on known operands. -/
def knownOverflows (elem : ResidentElemType) (row : List SqlValue) : ResidentExpr → Bool
  | .binary op lhs rhs =>
    if (booleanOpCode op).isSome then knownOverflows elem row lhs || knownOverflows elem row rhs
    else knownArithOverflows elem row lhs || knownArithOverflows elem row rhs
  | _ => false

theorem arithOverflows_of_known (h : knownArithOverflows elem row p = true) : arithOverflows elem row p = true := by
  induction p with
  | binary op lhs rhs ihl ihr =>
    simp only [knownArithOverflows, Bool.or_eq_true, Bool.and_eq_true] at h
    simp only [arithOverflows, Bool.or_eq_true]
    exact h.imp (Or.imp ihl ihr) And.right
  | _ => cases h

theorem predicateOverflows_of_known (h : knownOverflows elem row p = true) :
    predicateOverflows elem row p = true := by
  induction p with
  | binary op lhs rhs ihl ihr =>
    simp only [knownOverflows] at h
    simp only [predicateOverflows]
    split at h
    · rename_i hop
      rw [if_pos hop]
      exact Bool.or_eq_true_iff.mpr ((Bool.or_eq_true_iff.mp h).imp ihl ihr)
    · rename_i hop
      rw [if_neg hop]
      exact Bool.or_eq_true_iff.mpr ((Bool.or_eq_true_iff.mp h).imp arithOverflows_of_known arithOverflows_of_known)
  | _ => cases h

/-- Two stores of one shape with the same visible rows. -/
structure AgreeOnVisible (store store' : ResidentStore) (vis vis' : Option ResidentVisibility) :
    Prop where
  columns : store.columns = store'.columns
  capacity : store.capacity = store'.capacity
  rowCount : store.rowCount = store'.rowCount
  versioned : vis.isSome = vis'.isSome
  visible : ∀ r < store.rowCount, store.visible vis r = store'.visible vis' r
  rows : ∀ r < store.rowCount, store.visible vis r = true → store.row r = store'.row r

/-- Without version stamps every row is visible, so the payloads are one. -/
theorem AgreeOnVisible.snapshot_eq (h : AgreeOnVisible store store' none none) :
    store.snapshot = store'.snapshot := by
  have hrows : store.rows = store'.rows := by
    apply ext_getElem?
    intro r
    by_cases hr : r < store.rowCount
    · rw [store.getElem?_row hr, store'.getElem?_row (h.rowCount ▸ hr), h.rows r hr rfl]
    · have hr' : ¬ r < store'.rowCount := h.rowCount ▸ hr
      rw [getElem?_eq_none (Nat.le_of_not_lt hr), getElem?_eq_none (Nat.le_of_not_lt hr')]
  have hbuilt : store.built = store'.built := by
    have hlaid := store.laidOut
    rw [h.columns, hrows, h.capacity, store'.laidOut] at hlaid
    exact (Except.ok.inj hlaid).symm
  rw [ResidentStore.snapshot, ResidentStore.snapshot, h.columns, hrows, h.capacity, hbuilt]

namespace LoweredWhere

/-- Some visible row overflows on known operands. -/
def entitled (lowered : LoweredWhere host store vis p) : Prop :=
  ∃ r < store.rowCount, store.visible vis r = true ∧
    knownOverflows lowered.route.elem (store.row r) p = true

variable (lowered : LoweredWhere host store vis p)

theorem overflows_of_entitled (h : lowered.entitled) : lowered.overflows = true := by
  obtain ⟨r, hr, -, hknown⟩ := h
  exact any_eq_true.mpr ⟨r, mem_range.mpr hr, predicateOverflows_of_known hknown⟩

theorem reports_iff : lowered.run = .error lowered.route.elem.rangeError ↔ lowered.overflows = true := by
  rw [lowered.run_eq]
  cases lowered.overflows <;> simp

variable {lowered} {lowered' : LoweredWhere host store' vis' p}

section

variable (h : AgreeOnVisible store store' vis vis')
include h

theorem elem_eq : lowered.route.elem = lowered'.route.elem := by
  have hroute : lowerResidentPredicate store.columns store.snapshot vis.isSome p
      = lowerResidentPredicate store'.columns store'.snapshot vis'.isSome p := by
    rw [h.columns, h.versioned]
    cases hsome : vis'.isSome with
    | true => rfl
    | false =>
      obtain rfl := Option.isSome_eq_false_iff.mp hsome |> Option.isNone_iff_eq_none.mp
      obtain rfl := Option.isSome_eq_false_iff.mp (h.versioned.trans hsome) |> Option.isNone_iff_eq_none.mp
      rw [h.snapshot_eq]
  rw [lowered.routed, lowered'.routed] at hroute
  rw [Option.some.inj (Except.ok.inj hroute)]

theorem entitled_iff : lowered.entitled ↔ lowered'.entitled := by
  unfold entitled
  rw [elem_eq h, ← h.rowCount]
  apply exists_congr
  intro r
  apply and_congr_right
  intro hr
  rw [← h.visible r hr]
  apply and_congr_right
  intro hvisible
  rw [h.rows r hr hvisible]

theorem selected_eq : lowered.selected = lowered'.selected := by
  unfold selected
  rw [← h.rowCount]
  apply filter_congr
  intro r hr
  have hr := mem_range.mp hr
  rw [← h.visible r hr]
  cases hvisible : store.visible vis r with
  | false => simp
  | true => rw [h.rows r hr hvisible, h.columns]

end

end LoweredWhere

/-- **Scope of the overflow error.**  A reported overflow is that of an entitled row exactly if a physical overflow
implies an entitled one; two such stores with the same visible rows give the same result. -/
theorem overflow_scoped_iff (lowered : LoweredWhere host store vis p) :
    ((lowered.run = .error lowered.route.elem.rangeError → lowered.entitled) ↔
      ((∃ r < store.rowCount, predicateOverflows lowered.route.elem (store.row r) p = true) → lowered.entitled)) ∧
    (((∃ r < store.rowCount, predicateOverflows lowered.route.elem (store.row r) p = true) → lowered.entitled) →
      ∀ store' vis' (lowered' : LoweredWhere host store' vis' p),
        ((∃ r < store'.rowCount, predicateOverflows lowered'.route.elem (store'.row r) p = true) →
          lowered'.entitled) →
        AgreeOnVisible store store' vis vis' → lowered.run = lowered'.run) := by
  have hoverflows : ∀ {store vis} (lowered : LoweredWhere host store vis p), lowered.overflows = true ↔
      ∃ r < store.rowCount, predicateOverflows lowered.route.elem (store.row r) p = true := by
    intro store vis lowered
    simp [overflows, ResidentStore.someRow]
  constructor
  · rw [lowered.reports_iff, hoverflows]
  · intro hscoped store' vis' lowered' hscoped' hagree
    -- The flags agree because the entitled rows do.
    have hflag : lowered.overflows = lowered'.overflows := by
      rw [Bool.eq_iff_iff]
      constructor
      · intro h
        exact lowered'.overflows_of_entitled ((entitled_iff hagree).mp (hscoped ((hoverflows _).mp h)))
      · intro h
        exact lowered.overflows_of_entitled
          ((entitled_iff hagree).mpr (hscoped' ((hoverflows _).mp h)))
    rw [lowered.run_eq, lowered'.run_eq, hflag, elem_eq hagree, selected_eq hagree]

/-- `a + 1 > 0`. -/
def successorWhere : ResidentExpr := .binary .gt (.binary .add (.column 0) (.int4Literal 1)) (.int4Literal 0)

/-- The largest `int4` in a row that was deleted before the snapshot fails the query, though the only visible row
holds a 1. -/
theorem deleted_row_fails_query : ∃ (store : ResidentStore)
    (lowered : LoweredWhere plainHost store (some ⟨5, some 16, none⟩) successorWhere),
    store.rows = [[.int4 2147483647], [.int4 1]] ∧
      (List.range 2).map (store.visible (some ⟨5, some 16, none⟩)) = [false, true] ∧
      lowered.run = .error .integerOutOfRange ∧ ¬ lowered.entitled := by
  let store : ResidentStore :=
    { columns := [⟨"a", .int4⟩]
      rows := [[.int4 2147483647], [.int4 1]]
      capacity := 2
      built := _
      tail := i64ToLe 1 ++ i64ToLe 9
      laidOut := rfl
      typed := by
        intro values hvalues
        simp only [mem_cons, not_mem_nil, or_false] at hvalues
        rcases hvalues with rfl | rfl
        · exact .cons (Or.inr (.int4 2147483647)) .nil
        · exact .cons (Or.inr (.int4 1)) .nil }
  let lowered : LoweredWhere plainHost store (some ⟨5, some 16, none⟩) successorWhere :=
    { route := ⟨.i32, true⟩
      steps := [.loadColumn 8, .scalarBinary 0 1 false, .compareScalar 3 0 false]
      needles := []
      routed := rfl
      compiled := rfl
      checked := by decide +kernel
      unshared := fun col _ => unshared_singleton _ col }
  have hflag : lowered.overflows = true := by decide +kernel
  refine ⟨store, lowered, rfl, by decide +kernel, lowered.reports_iff.mpr hflag, ?_⟩
  rintro ⟨r, hr, hvisible, hknown⟩
  have hr : r < 2 := hr
  revert hvisible hknown
  interval_cases r <;> decide +kernel

end ThunderboltDb.Engine
