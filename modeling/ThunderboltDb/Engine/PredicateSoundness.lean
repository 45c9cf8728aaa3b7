import ThunderboltDb.Engine.PredicateLeaves

/-!
# Compiled predicates select the rows where the predicate is TRUE

By induction over the predicate the mask of each subtree holds exactly the rows where it is TRUE: UNKNOWN and FALSE
are both clear, and under `AND` and `OR` nothing else is needed. The dispatch only picks widths at which every
column is read with its own stride.
-/

namespace ThunderboltDb.Engine

open Lib Sql Option ResidentStore
open List hiding any_eq_true getElem?_eq_some_iff

variable {host : HostText} {store : ResidentStore} {elem : ResidentElemType} {final : List Bytes}
  {n col r : ℕ}
  {steps : List ExprStep} {snapshot : RelationalResidencySnapshot} {ofType : SqlType → Bool} {route : VmRoute}
  {cols : List ℕ}

/-! ### Validity masks -/

/-- A program that ANDs the mask on the stack with what `keep` says of each row. -/
def AndsMask (store : ResidentStore) (host : HostText) (final : List Bytes) (elem : ResidentElemType)
    (steps : List ExprStep) (keep : ℕ → Bool) : Prop :=
  ∀ bits, ∃ bits', (∀ stack overflow, store.exec host final elem ⟨.mask bits :: stack, overflow⟩ steps
    = .ok ⟨.mask bits' :: stack, overflow⟩) ∧ ∀ r < store.rowCount, bits' r = (bits r && keep r)

theorem AndsMask.nil : AndsMask store host final elem [] fun _ => true := by
  intro bits
  exact ⟨bits, fun _ _ => rfl, fun r _ => (Bool.and_true _).symm⟩

theorem AndsMask.append {p q : List ExprStep} {keep keep' : ℕ → Bool}
    (hp : AndsMask store host final elem p keep) (hq : AndsMask store host final elem q keep') :
    AndsMask store host final elem (p ++ q) fun r => keep r && keep' r := by
  intro bits
  obtain ⟨mid, hpexec, hpbits⟩ := hp bits
  obtain ⟨last, hqexec, hqbits⟩ := hq mid
  refine ⟨last, ?_, ?_⟩
  · intro stack overflow
    rw [exec, execProgram_append, ← exec, hpexec, except_ok_bind]
    exact hqexec stack overflow
  · intro r hr
    rw [hqbits r hr, hpbits r hr, Bool.and_assoc]

theorem validityColumn_ands (hsole : Unshared store.columns col)
    (hsteps : pushColumnValidityAnd store.columns store.snapshot col = .ok steps) :
    AndsMask store host final elem steps fun r => nonNull (store.row r) col := by
  simp only [pushColumnValidityAnd, bind_ok] at hsteps
  obtain ⟨validity, hoff, hsteps⟩ := hsteps
  have hvalid : ∀ r < store.rowCount, store.valid validity r = nonNull (store.row r) col := by
    intro r hr
    obtain ⟨value, hvalue, hvalid⟩ := store.validity_load hsole hoff hr
    rw [hvalid, nonNull_eq hvalue]
  intro bits
  cases validity with
  | none =>
    obtain rfl := Except.ok.inj hsteps
    refine ⟨bits, fun _ _ => rfl, ?_⟩
    intro r hr
    show bits r = (bits r && nonNull (store.row r) col)
    rw [← hvalid r hr]
    exact (Bool.and_true _).symm
  | some off =>
    obtain rfl := Except.ok.inj hsteps
    refine ⟨fun r => bits r && loadBit store.memory off r, ?_, ?_⟩
    · intro stack overflow
      simp [exec, execProgram, execStep, vmMask, except_ok_bind]
    · intro r hr
      show (bits r && loadBit store.memory off r) = (bits r && nonNull (store.row r) col)
      rw [← hvalid r hr]
      rfl

theorem validity_ands (hsole : ∀ col ∈ cols, Unshared store.columns col)
    (hsteps : pushValidityAnds store.columns store.snapshot cols = .ok steps) :
    AndsMask store host final elem steps fun r => cols.all (nonNull (store.row r)) := by
  simp only [pushValidityAnds, bind_ok] at hsteps
  obtain ⟨parts, hparts, heq⟩ := hsteps
  obtain rfl := Except.ok.inj heq
  induction cols generalizing parts with
  | nil =>
    obtain rfl : [] = parts := Except.ok.inj hparts
    exact AndsMask.nil
  | cons col cols ih =>
    rw [mapM_cons] at hparts
    simp only [bind_ok] at hparts
    obtain ⟨first, hfirst, rest, hrest, heq⟩ := hparts
    obtain rfl : first :: rest = parts := Except.ok.inj heq
    rw [flatten_cons]
    exact (validityColumn_ands (hsole col mem_cons_self) hfirst).append
      (ih (fun col hcol => hsole col (mem_cons_of_mem _ hcol)) rest hrest rfl)

variable {index : ℕ} {stack stack' : List PreflightValue} {columns : List RelationalColumn} {p : ResidentExpr}

theorem validity_check (hsteps : pushValidityAnds store.columns store.snapshot cols = .ok steps)
    (hcheck : store.check final elem index (.mask :: stack) steps = .ok stack') : stack' = .mask :: stack := by
  simp only [pushValidityAnds, bind_ok] at hsteps
  obtain ⟨parts, hparts, heq⟩ := hsteps
  obtain rfl := Except.ok.inj heq
  induction cols generalizing parts index with
  | nil =>
    obtain rfl : [] = parts := Except.ok.inj hparts
    exact (Except.ok.inj hcheck).symm
  | cons col cols ih =>
    rw [mapM_cons] at hparts
    simp only [bind_ok] at hparts
    obtain ⟨first, hfirst, rest, hrest, heq⟩ := hparts
    obtain rfl : first :: rest = parts := Except.ok.inj heq
    rw [flatten_cons] at hcheck
    obtain ⟨mid, hmid, hcheck⟩ := validateSteps_append.mp hcheck
    obtain rfl : mid = .mask :: stack := by
      simp only [pushColumnValidityAnd, bind_ok] at hfirst
      obtain ⟨validity, -, hfirst⟩ := hfirst
      cases validity with
      | none =>
        obtain rfl := Except.ok.inj hfirst
        exact (Except.ok.inj hmid).symm
      | some off =>
        obtain rfl := Except.ok.inj hfirst
        simp only [validateSteps, validateStep, bind_ok, Except.ok.injEq, popMask, popExpected_ok] at hmid
        obtain ⟨_, ⟨_, _, rfl⟩, _, ⟨_, _, _, hpop, _, hpop', rfl⟩, rfl⟩ := hmid
        obtain ⟨-, rfl⟩ := List.cons.inj hpop
        rw [(List.cons.inj hpop').2]
    exact ih rest hrest hcheck rfl

/-! ### Predicates -/

/-- The needles handed to a run are those of the program, where there are any. -/
def Agrees (final needles : List Bytes) : Prop :=
  ∀ (k : ℕ) bytes, needles[k]? = some bytes → final[k]? = none ∨ final[k]? = some bytes

theorem Agrees.of_isPrefix {needles needles' : List Bytes} (h : Agrees final needles')
    (hpre : needles <+: needles') : Agrees final needles := by
  intro k bytes hk
  obtain ⟨rest, rfl⟩ := hpre
  exact h k bytes (by rw [getElem?_append_left (getElem?_eq_some_iff.mp hk).1]; exact hk)

theorem compilePredicateProgram_needles {needles needles' : List Bytes}
    (h : compilePredicateProgram host columns snapshot p needles = .ok (steps, needles')) :
    needles <+: needles' := by
  induction p generalizing needles steps needles' with
  | column col =>
    simp only [compilePredicateProgram] at h
    split at h
    · simp only [bind_ok, Except.ok.injEq, Prod.mk.injEq] at h
      obtain ⟨_, _, _, rfl⟩ := h
      exact prefix_rfl
    · cases h
  | isNull col isNotNull =>
    simp only [compilePredicateProgram, bind_ok] at h
    obtain ⟨validity, -, h⟩ := h
    cases validity with
    | none | some off =>
      obtain ⟨-, rfl⟩ := Prod.mk.inj (Except.ok.inj h)
      exact prefix_rfl
  | binary op lhs rhs ihl ihr =>
    simp only [compilePredicateProgram] at h
    cases hop : booleanOpCode op with
    | some code =>
      simp only [hop, bind_ok, Except.ok.injEq, Prod.mk.injEq, Prod.exists] at h
      obtain ⟨left, mid, hleft, right, last, hright, _, rfl⟩ := h
      exact (ihl hleft).trans (ihr hright)
    | none =>
      simp only [hop, bind_ok, emitLeaf, Except.ok.injEq, Prod.mk.injEq] at h
      obtain ⟨leaf, _, _, _, _, rfl⟩ := h
      exact prefix_append _ _
  | _ => cases h

/-- The program of a predicate leaves the mask of the rows where it is TRUE. -/
def PredicateSound (store : ResidentStore) (host : HostText) (final : List Bytes) (elem : ResidentElemType)
    (p : ResidentExpr) (steps : List ExprStep) : Prop :=
  ∃ bits, LeavesMask store host final elem steps (fun row => predicateOverflows elem row p) bits ∧
    ∀ r < store.rowCount, predicateOverflows elem (store.row r) p = false →
      ∃ truth, sqlTruth host store.columns (store.row r) p = some truth ∧ (bits r = true ↔ truth = some true)

variable {op : ResidentBinaryOp} {lhs rhs : ResidentExpr} {code : ℕ}

theorem sqlTruth_comparison {row : List SqlValue} (hop : booleanOpCode op = none) :
    sqlTruth host columns row (.binary op lhs rhs) = comparisonTruth host columns row op lhs rhs := by
  cases op with
  | and | or => cases hop
  | _ => rfl

theorem PredicateSound.column {off : ℕ} (hsole : Unshared store.columns col)
    (hty : columnType store.columns col = some .bool)
    (hoff : residentDeviceBoolColumnOffset store.snapshot store.columns col = .ok off) :
    PredicateSound store host final elem (.column col) [.boolMask off false] := by
  refine ⟨fun r => loadBit store.memory off r, ?_, ?_⟩
  · intro state
    simp [exec, execProgram, execStep, predicateOverflows, someRow]
  · intro r hr _
    -- A `NULL` is kept as a clear bit, so no validity mask is needed here.
    obtain ⟨value, hvalue, ⟨rfl, hbit⟩ | rfl⟩ := store.bool_load hsole hty hoff hr
    · exact ⟨none, by rw [sqlTruth, hvalue], by simp [hbit]⟩
    · exact ⟨some (loadBit store.memory off r), by rw [sqlTruth, hvalue], by simp⟩

theorem PredicateSound.isNull {validity : Option ℕ} {isNotNull : Bool} (hsole : Unshared store.columns col)
    (hoff : residentDeviceNullColumnOffset store.snapshot store.columns col = .ok validity) :
    PredicateSound store host final elem (.isNull col isNotNull) (match validity with
        | some off => [.boolMask off (!isNotNull)]
        | none => [.constMask isNotNull]) := by
  refine ⟨fun r => store.valid validity r ^^ !isNotNull, ?_, ?_⟩
  · intro state
    cases validity <;>
      simp [exec, execProgram, execStep, predicateOverflows, someRow,
        valid]
  · intro r hr _
    obtain ⟨value, hvalue, hbit⟩ := store.validity_load hsole hoff hr
    refine ⟨_, by rw [sqlTruth, hvalue, map_some], ?_⟩
    show (store.valid validity r ^^ !isNotNull) = true ↔ _
    rw [hbit, Option.some.injEq]
    by_cases hnull : value = .null <;> cases isNotNull <;> simp [hnull]

/-- `AND` and `OR` of two masks. -/
theorem PredicateSound.boolean {left right : List ExprStep} (hop : booleanOpCode op = some code)
    (hl : PredicateSound store host final elem lhs left) (hr : PredicateSound store host final elem rhs right) :
    PredicateSound store host final elem (.binary op lhs rhs) (left ++ right ++ [.maskBinary code]) := by
  obtain ⟨a, hexecl, ha⟩ := hl
  obtain ⟨b, hexecr, hb⟩ := hr
  have hflag : ∀ row, predicateOverflows elem row (.binary op lhs rhs)
      = (predicateOverflows elem row lhs || predicateOverflows elem row rhs) := by
    intro row
    simp [predicateOverflows, hop]
  refine ⟨fun r => vmMask code (a r) (b r), ?_, ?_⟩
  · intro state
    have hany := any_range_or (n := store.rowCount) (f := fun r => predicateOverflows elem (store.row r) lhs)
      (g := fun r => predicateOverflows elem (store.row r) rhs)
      (h := fun r => predicateOverflows elem (store.row r) rhs) (fun _ _ _ => rfl)
    rw [exec, execProgram_append, execProgram_append, ← exec, hexecl state,
      except_ok_bind, ← exec, hexecr, except_ok_bind]
    simp [execProgram, execStep, someRow, Bool.or_assoc, hany, hflag]
  · intro r hr hno
    rw [hflag, Bool.or_eq_false_iff] at hno
    obtain ⟨x, hx, hxiff⟩ := ha r hr hno.1
    obtain ⟨y, hy, hyiff⟩ := hb r hr hno.2
    cases op with
    | and =>
      obtain rfl : 0 = code := some.inj hop
      refine ⟨kleeneAnd x y, by simp [sqlTruth, hx, hy], ?_⟩
      rw [kleeneAnd_eq_true, ← hxiff, ← hyiff]
      exact Bool.and_eq_true_iff
    | or =>
      obtain rfl : 1 = code := some.inj hop
      refine ⟨kleeneOr x y, by simp [sqlTruth, hx, hy], ?_⟩
      rw [kleeneOr_eq_true, ← hxiff, ← hyiff]
      exact Bool.or_eq_true_iff
    | _ => cases hop

/-- A comparison with its validity. -/
theorem PredicateSound.leaf {leaf : LeafCode} {validity : List ExprStep} (hop : booleanOpCode op = none)
    (hleaf : LeafSound store host final elem op lhs rhs leaf)
    (hvalidity : AndsMask store host final elem validity fun r => leaf.validity.all (nonNull (store.row r))) :
    PredicateSound store host final elem (.binary op lhs rhs) (leaf.steps ++ validity) := by
  obtain ⟨bits, hexec, hright⟩ := hleaf
  obtain ⟨bits', hands, hbits⟩ := hvalidity bits
  have hflag : (fun row => predicateOverflows elem row (.binary op lhs rhs)) = leafOverflows elem lhs rhs := by
    funext row
    simp [predicateOverflows, hop, leafOverflows]
  refine ⟨bits', ?_, ?_⟩
  · intro state
    rw [exec, execProgram_append, ← exec, hexec state, except_ok_bind, hflag]
    exact hands _ _
  · intro r hr hno
    obtain ⟨truth, htruth, hiff⟩ := hright r hr (by rw [← hflag]; exact hno)
    refine ⟨truth, (sqlTruth_comparison hop).trans htruth, ?_⟩
    rw [hbits r hr]
    exact hiff

theorem WidthSafe.operand {e : ResidentExpr}
    (hop : (booleanOpCode op).isSome) (h : WidthSafe columns elem (.binary op lhs rhs)) (he : e = lhs ∨ e = rhs) :
    WidthSafe columns elem e := by
  cases elem with
  | i32 =>
    simp only [WidthSafe, i64SectionLeavesScalarOnly, hop, if_true, Bool.and_eq_true] at h
    rcases he with rfl | rfl
    · exact h.1
    · exact h.2
  | i64 =>
    intro col ty href
    rcases he with rfl | rfl
    · exact h col ty (Or.inl href)
    · exact h col ty (Or.inr href)
  | i128 => exact h

variable {needleIdx : ℕ} {leaf : LeafCode}

theorem LeafShape.needles (h : LeafShape host columns snapshot op lhs rhs needleIdx leaf) :
    leaf.needles = [] ∨ ∃ needle, leaf.needles = [needle] := by
  cases h with
  | uuidScalar | textScalar | textLike => exact Or.inr ⟨_, rfl⟩
  | bool _ _ hleaf =>
    unfold compileBoolScalarLeaf at hleaf
    split at hleaf
    · cases hleaf
    · obtain rfl := Except.ok.inj hleaf
      exact Or.inl rfl
    · obtain rfl := Except.ok.inj hleaf
      exact Or.inl rfl
    · obtain ⟨off, -, heq⟩ := bind_ok.mp hleaf
      obtain rfl := Except.ok.inj heq
      exact Or.inl rfl
  | _ => exact Or.inl rfl

theorem compileBoolScalarLeaf_validity {literal : Bool}
    (h : compileBoolScalarLeaf columns snapshot op col literal = .ok leaf) : leaf.validity ⊆ [col] := by
  unfold compileBoolScalarLeaf at h
  split at h
  · cases h
  · obtain rfl := Except.ok.inj h
    exact nil_subset _
  · obtain rfl := Except.ok.inj h
    exact List.Subset.refl _
  · obtain ⟨off, -, heq⟩ := bind_ok.mp h
    obtain rfl := Except.ok.inj heq
    exact List.Subset.refl _

/-- A comparison adds at most one needle, at the index that its step names. -/
theorem Agrees.of_appended {needles : List Bytes} (h : Agrees final (needles ++ leaf.needles))
    (hshape : LeafShape host columns snapshot op lhs rhs needles.length leaf) :
    ∀ bytes ∈ leaf.needles, final[needles.length]? = none ∨ final[needles.length]? = some bytes := by
  intro bytes hbytes
  obtain hnone | ⟨needle, hone⟩ := hshape.needles
  · rw [hnone] at hbytes
    cases hbytes
  · rw [hone] at hbytes h
    rw [mem_singleton.mp hbytes]
    exact h needles.length needle (by simp)

theorem check_maskBinary (h : store.check final elem index (.mask :: .mask :: stack) [.maskBinary code] = .ok stack') :
    stack' = .mask :: stack := by
  simp only [check, validateSteps, validateStep, bind_ok, Except.ok.injEq, popMask,
    popExpected_ok] at h
  obtain ⟨_, ⟨_, _, _, hpop, _, hpop', rfl⟩, rfl⟩ := h
  obtain ⟨-, rfl⟩ := List.cons.inj hpop
  rw [(List.cons.inj hpop').2]

/-- The validity of a comparison is that of columns it references. -/
theorem LeafShape.validity_references (h : LeafShape host columns snapshot op lhs rhs needleIdx leaf) :
    ∀ col ∈ leaf.validity, (ResidentExpr.binary op lhs rhs).References col := by
  intro col hcol
  cases h with
  | uuidScalar _ hsides | timestampScalar _ hsides | dateScalar _ hsides | textScalar hsides
  | int8Scalar _ hsides =>
    rw [mem_singleton.mp hcol]
    exact hsides.references
  | uuidColumns _ hlhs hrhs | textColumns _ hlhs hrhs =>
    rw [hlhs, hrhs]
    rcases mem_pair.mp hcol with rfl | rfl
    · exact Or.inl rfl
    · exact Or.inr rfl
  | textLike _ hlhs =>
    rw [mem_singleton.mp hcol, hlhs]
    exact Or.inl rfl
  | bool hsides _ hleaf =>
    have hcols : leaf.validity ⊆ [_] := compileBoolScalarLeaf_validity hleaf
    rw [mem_singleton.mp (hcols hcol)]
    exact hsides.references
  | compareScalar _ hsides | compareScalarI64 _ hsides =>
    exact hsides.references_cell ((mem_collectExprColumns.mp hcol).resolve_left not_mem_nil)
  | compareBuffers =>
    rcases mem_collectExprColumns.mp hcol with hcol | href
    · exact Or.inl ((mem_collectExprColumns.mp hcol).resolve_left not_mem_nil)
    · exact Or.inr href

/-- **The compiler.**  The program of a predicate that passes the check at a width with the right strides leaves the
mask of the rows where the predicate is TRUE. -/
theorem predicate_sound {needles needles' : List Bytes}
    (hcompile : compilePredicateProgram host store.columns store.snapshot p needles = .ok (steps, needles'))
    (hwidth : WidthSafe store.columns elem p) (hsole : ∀ col, p.Names col → Unshared store.columns col)
    (hagree : Agrees final needles') (hcheck : store.check final elem index stack steps = .ok stack') :
    stack' = .mask :: stack ∧ PredicateSound store host final elem p steps := by
  induction p generalizing needles needles' steps index stack stack' with
  | column col =>
    simp only [compilePredicateProgram] at hcompile
    split at hcompile
    · rename_i hty
      simp only [bind_ok, Except.ok.injEq, Prod.mk.injEq] at hcompile
      obtain ⟨off, hoff, rfl, -⟩ := hcompile
      exact ⟨check_pushesMask rfl hcheck, .column (hsole col rfl) hty hoff⟩
    · cases hcompile
  | isNull col isNotNull =>
    simp only [compilePredicateProgram, bind_ok] at hcompile
    obtain ⟨validity, hoff, hcompile⟩ := hcompile
    have hsound := @PredicateSound.isNull host store elem final col validity isNotNull (hsole col rfl) hoff
    cases validity with
    | none | some off =>
      obtain ⟨rfl, -⟩ := Prod.mk.inj (Except.ok.inj hcompile)
      exact ⟨check_pushesMask rfl hcheck, hsound⟩
  | binary op lhs rhs ihl ihr =>
    simp only [compilePredicateProgram] at hcompile
    cases hop : booleanOpCode op with
    | some code =>
      simp only [hop, bind_ok, Except.ok.injEq, Prod.mk.injEq, Prod.exists] at hcompile
      obtain ⟨left, mid, hleft, right, last, hright, rfl, rfl⟩ := hcompile
      have hboolean : (booleanOpCode op).isSome := by rw [hop, isSome_some]
      obtain ⟨stackr, hcheckr, hchecko⟩ := validateSteps_append.mp hcheck
      obtain ⟨stackl, hcheckl, hcheckr⟩ := validateSteps_append.mp hcheckr
      obtain ⟨rfl, hsoundl⟩ := ihl hleft (hwidth.operand hboolean (Or.inl rfl))
        (fun col h => hsole col (Or.inl h))
        (hagree.of_isPrefix (compilePredicateProgram_needles hright)) hcheckl
      obtain ⟨rfl, hsoundr⟩ := ihr hright (hwidth.operand hboolean (Or.inr rfl))
        (fun col h => hsole col (Or.inr h)) hagree
        hcheckr
      exact ⟨check_maskBinary hchecko, hsoundl.boolean hop hsoundr⟩
    | none =>
      simp only [hop, bind_ok, emitLeaf, Except.ok.injEq, Prod.mk.injEq] at hcompile
      obtain ⟨leaf, hleaf, validity, hvalidity, rfl, rfl⟩ := hcompile
      have hshape := compileLeaf_ok hleaf
      have hreferences : ∀ col, (ResidentExpr.binary op lhs rhs).References col → Unshared store.columns col :=
        fun col h => hsole col h.names
      obtain ⟨stackl, hcheckl, hcheckv⟩ := validateSteps_append.mp hcheck
      obtain ⟨rfl, hsound⟩ := leaf_sound hshape hop hwidth hreferences (hagree.of_appended hshape) hcheckl
      refine ⟨validity_check hvalidity hcheckv, .leaf hop hsound (validity_ands ?_ hvalidity)⟩
      intro col hcol
      exact hreferences col (hshape.validity_references col hcol)
  | _ => cases hcompile

/-! ### The widths that the dispatch picks -/

section Widths

variable {columns : List RelationalColumn} {p : ResidentExpr}

theorem allOfTypes_collect : allOfTypes columns ofType (collectExprColumns p []) = true ↔
      ∀ col, p.References col → ∃ ty, columnType columns col = some ty ∧ ofType ty = true := by
  simp [allOfTypes, List.all_eq_true, mem_collectExprColumns, any_eq_true]

theorem scalarOnly_of_no_i64 (h : mentionsI64 columns p = false) : i64SectionLeavesScalarOnly columns p = true := by
  induction p with
  | column col =>
    simp only [i64SectionLeavesScalarOnly, h]
    rfl
  | binary op lhs rhs ihl ihr =>
    have hside : ∀ e, (∀ col, e.References col → (ResidentExpr.binary op lhs rhs).References col) →
        mentionsI64 columns e = false := by
      intro e href
      by_contra hmentions
      obtain ⟨col, ty, hcol, hty⟩ := mentionsI64_eq_true.mp (Bool.not_eq_false _ ▸ hmentions)
      exact Bool.false_ne_true (h.symm.trans (mentionsI64_eq_true.mpr ⟨col, ty, href col hcol, hty⟩))
    have hl := hside lhs fun _ => Or.inl
    have hr := hside rhs fun _ => Or.inr
    rw [i64SectionLeavesScalarOnly, ihl hl, ihr hr, hl, hr]
    simp
  | _ => rfl

/-- No column of the 8-byte section: every load is of 4 bytes. -/
theorem WidthSafe.of_no_i64 (h : ∀ col ty, p.References col → columnType columns col = some ty →
    isI64SectionType ty = false) : WidthSafe columns .i32 p := by
  apply scalarOnly_of_no_i64
  by_contra hmentions
  obtain ⟨col, ty, href, hty, hsection⟩ := mentionsI64_eq_true.mp (Bool.not_eq_false _ ▸ hmentions)
  exact Bool.false_ne_true ((h col ty href hty).symm.trans hsection)

theorem WidthSafe.of_allOfTypes_i32 (hof : ∀ ty, ofType ty = true → isI64SectionType ty = false)
    (h : allOfTypes columns ofType (collectExprColumns p []) = true) : WidthSafe columns .i32 p := by
  apply WidthSafe.of_no_i64
  intro col ty href hty
  obtain ⟨ty', hty', hofty⟩ := allOfTypes_collect.mp h col href
  obtain rfl := some.inj (hty.symm.trans hty')
  exact hof ty hofty

theorem WidthSafe.of_allOfTypes_i64 (hof : ∀ ty, ofType ty = true → payloadSection ty ≠ .int4)
    (h : allOfTypes columns ofType (collectExprColumns p []) = true) : WidthSafe columns .i64 p := by
  intro col ty href hty
  obtain ⟨ty', hty', hofty⟩ := allOfTypes_collect.mp h col href
  obtain rfl := some.inj (hty.symm.trans hty')
  exact hof ty hofty

theorem widthSafe_of_vmElemType (h : predicateVmElemType columns p = some elem) : WidthSafe columns elem p := by
  simp only [predicateVmElemType] at h
  split at h
  · rename_i hall
    obtain rfl := some.inj h
    exact WidthSafe.of_allOfTypes_i32 (fun ty h => by cases ty <;> first | rfl | cases h) hall
  · split at h
    · rename_i hall
      obtain rfl := some.inj h
      exact WidthSafe.of_allOfTypes_i64 (fun ty h => by rw [of_decide_eq_true h]; decide) hall
    · cases h

theorem widthSafe_of_mixed (h : mixedWidthI32Elem columns p = some elem) : WidthSafe columns elem p := by
  simp only [mixedWidthI32Elem] at h
  split at h
  · cases h
  · split at h
    · rename_i hall
      obtain rfl := some.inj h
      exact (Bool.and_eq_true_iff.mp hall).2
    · cases h

variable {ty : SqlType}

theorem i64Section_not_int4 (h : isI64SectionType ty = true) : payloadSection ty ≠ .int4 := by
  cases ty with
  | int8 | timestamp => decide
  | _ => cases h

theorem widthSafe_of_nullableGroup (h : nullableGroupElem columns p = some elem) : WidthSafe columns elem p := by
  simp only [nullableGroupElem] at h
  split at h
  · cases h
  · split at h
    · rename_i hall
      obtain rfl := some.inj h
      exact WidthSafe.of_allOfTypes_i32 (fun ty h => by cases ty <;> first | rfl | cases h) hall
    · split at h
      · rename_i hall
        obtain rfl := some.inj h
        exact WidthSafe.of_allOfTypes_i64 (fun ty h => i64Section_not_int4 h) hall
      · exact widthSafe_of_mixed h

section Binary

variable {op : ResidentBinaryOp} {lhs rhs : ResidentExpr}

/-- Neither side mentions a type: no column of the predicate has it. -/
theorem not_ofType_of_not_mentions {literal : ResidentExpr → Bool}
    (h : (exprMentions columns ofType literal lhs || exprMentions columns ofType literal rhs) = false)
    (href : (ResidentExpr.binary op lhs rhs).References col) (hty : columnType columns col = some ty) :
    ofType ty = false := by
  by_contra hof
  obtain ⟨hl, hr⟩ := Bool.or_eq_false_iff.mp h
  rcases href with href | href
  · exact Bool.false_ne_true (hl.symm.trans
      (exprMentions_of_references columns href hty (Bool.not_eq_false _ ▸ hof)))
  · exact Bool.false_ne_true (hr.symm.trans
      (exprMentions_of_references columns href hty (Bool.not_eq_false _ ▸ hof)))

theorem widthSafe_of_not_widthBound (h : mentionsWidthBound columns lhs rhs = false) :
    WidthSafe columns .i64 (.binary op lhs rhs) := by
  simp only [mentionsWidthBound, any_cons, any_nil, Bool.or_false, Bool.or_eq_false_iff] at h
  obtain ⟨hint4, hint2, -, -, hdate⟩ := h
  intro col ty href hty hsection
  have hnot := fun {t : SqlType} (h : (exprMentions columns (· = t) (fun _ => false) lhs
      || exprMentions columns (· = t) (fun _ => false) rhs) = false) =>
    of_decide_eq_false (not_ofType_of_not_mentions h href hty)
  cases ty with
  | int4 => exact hnot (Bool.or_eq_false_iff.mpr hint4) rfl
  | int2 => exact hnot (Bool.or_eq_false_iff.mpr hint2) rfl
  | date => exact hnot (Bool.or_eq_false_iff.mpr hdate) rfl
  | _ => cases hsection

/-- A `bigint` predicate that runs at all runs at 8 bytes without 4-byte columns. -/
theorem widthSafe_of_int8 (h : tryLowerInt8Predicate columns op lhs rhs = some (some route)) :
    WidthSafe columns route.elem (.binary op lhs rhs) := by
  simp only [tryLowerInt8Predicate] at h
  split at h
  · cases h
  · split at h
    · cases h
    · split at h
      · split at h
        · cases h
        · split at h
          · cases h
          · rename_i hbound
            obtain rfl := some.inj (some.inj h)
            exact widthSafe_of_not_widthBound (Bool.not_eq_true _ ▸ hbound)
      · rename_i hbound
        obtain rfl := some.inj (some.inj h)
        simp only [Bool.or_eq_true, not_or] at hbound
        exact widthSafe_of_not_widthBound (Bool.not_eq_true _ ▸ hbound.1.1)

/-- A predicate that the `bigint` path passes on has no `bigint` column, or runs at 4 bytes. -/
theorem tryLowerInt8Predicate_none (h : tryLowerInt8Predicate columns op lhs rhs = none) :
    (exprMentionsInt8 columns lhs || exprMentionsInt8 columns rhs) = false ∨
      (mixedWidthI32Elem columns (.binary op lhs rhs)).isSome := by
  simp only [tryLowerInt8Predicate] at h
  split at h
  · cases h
  · split at h
    · rename_i hmentions
      exact Or.inl (by simpa using hmentions)
    · split at h
      · split at h
        · rename_i hmixed
          exact Or.inr hmixed
        · split at h <;> cases h
      · cases h

theorem widthSafe_of_timestamp (h : tryLowerTimestampPredicate columns op lhs rhs = some (some route)) :
    WidthSafe columns route.elem (.binary op lhs rhs) := by
  simp only [tryLowerTimestampPredicate] at h
  split at h
  · cases h
  · split at h
    · cases h
    · split at h
      · rename_i hall
        obtain rfl := some.inj (some.inj h)
        exact WidthSafe.of_allOfTypes_i64 (fun ty h => i64Section_not_int4 h) hall.2
      · split at h <;> cases h

theorem tryLowerTimestampPredicate_none (h : tryLowerTimestampPredicate columns op lhs rhs = none) :
    (exprMentionsTimestamp columns lhs || exprMentionsTimestamp columns rhs) = false ∨
      (mixedWidthI32Elem columns (.binary op lhs rhs)).isSome := by
  simp only [tryLowerTimestampPredicate] at h
  split at h
  · rename_i hmentions
    exact Or.inl (by simpa using hmentions)
  · split at h
    · cases h
    · split at h
      · cases h
      · split at h
        · rename_i hmixed
          exact Or.inr hmixed
        · cases h

theorem widthSafe_of_isSome_mixed (h : (mixedWidthI32Elem columns p).isSome) : WidthSafe columns .i32 p := by
  obtain ⟨elem, helem⟩ := isSome_iff_exists.mp h
  have hsafe := widthSafe_of_mixed helem
  cases elem with
  | i32 => exact hsafe
  | i64 | i128 =>
    simp only [mixedWidthI32Elem] at helem
    split at helem
    · cases helem
    · split at helem <;> cases helem

theorem widthSafe_of_nonNull (h : lowerNonNull columns op lhs rhs = some route) :
    WidthSafe columns route.elem (.binary op lhs rhs) := by
  simp only [lowerNonNull] at h
  split at h
  · cases h
  · split at h
    · rename_i hint8
      exact widthSafe_of_int8 (h ▸ hint8)
    · rename_i hint8
      split at h
      · cases h
      · split at h
        · rename_i htime
          exact widthSafe_of_timestamp (h ▸ htime)
        · rename_i htime
          split at h
          · cases h
          · split at h
            · obtain rfl := some.inj h
              -- The program of 4-byte elements: what is of 8 bytes was passed on as a mix of widths.
              rcases tryLowerInt8Predicate_none hint8 with hno8 | hmixed
              · rcases tryLowerTimestampPredicate_none htime with hnots | hmixed
                · apply WidthSafe.of_no_i64
                  intro col ty href hty
                  have h8 := of_decide_eq_false (not_ofType_of_not_mentions hno8 href hty)
                  have hts := of_decide_eq_false (not_ofType_of_not_mentions hnots href hty)
                  cases ty with
                  | int8 => exact (h8 rfl).elim
                  | timestamp => exact (hts rfl).elim
                  | _ => rfl
                · exact widthSafe_of_isSome_mixed hmixed
              · exact widthSafe_of_isSome_mixed hmixed
            · cases h

end Binary

theorem widthSafe_of_nullable (h : lowerNullable columns p = some route) : WidthSafe columns route.elem p := by
  simp only [lowerNullable] at h
  split at h
  · rename_i helem
    obtain rfl := some.inj h
    exact widthSafe_of_vmElemType helem
  · split at h
    · cases h
    · split at h
      · obtain ⟨elem, helem, rfl⟩ := map_eq_some_iff.mp h
        exact widthSafe_of_nullableGroup helem
      · cases h
  · cases h

/-- **The dispatch.**  Whatever path sends a predicate to the stack machine, its width has the right strides. -/
theorem widthSafe_of_route {versioned : Bool}
    (h : lowerResidentPredicate columns snapshot versioned p = .ok (some route)) :
    WidthSafe columns route.elem p := by
  unfold lowerResidentPredicate at h
  split at h
  · obtain ⟨elem, helem, rfl⟩ := map_eq_some_iff.mp (Except.ok.inj h)
    cases hvm : predicateVmElemType columns p with
    | some elem' =>
      rw [hvm] at helem
      obtain rfl := some.inj helem
      exact widthSafe_of_vmElemType hvm
    | none =>
      rw [hvm] at helem
      exact widthSafe_of_mixed helem
  · split at h
    · cases h
    · cases h
    · obtain ⟨nullable, -, h⟩ := bind_ok.mp h
      split at h
      · exact widthSafe_of_nullable (Except.ok.inj h)
      · split at h
        · exact widthSafe_of_nonNull (Except.ok.inj h)
        · cases h

end Widths

/-! ### Visibility -/

/-- A row whose version stamps place it at the read snapshot. -/
def ResidentStore.visible (store : ResidentStore) : Option ResidentVisibility → ℕ → Bool
  | none, _ => true
  | some vis, r =>
    vis.deletedByOffset.all (fun off =>
      decide (vis.readTxnId.toInt < loadCell store.memory .i64 off r)) &&
    vis.createdByOffset.all (fun off =>
      decide (loadCell store.memory .i64 off r ≤ vis.readTxnId.toInt))

/-- One version stamp against the read snapshot. -/
theorem stamp_ands {cmp off : ℕ} {txn : Int64} : AndsMask store host final elem
    [.loadColumnI64 off, .compareScalarI64 cmp txn false, .maskBinary 0]
    fun r => cmpHolds cmp (compare (loadCell store.memory .i64 off r) txn.toInt) := by
  intro bits
  refine ⟨fun r => bits r && cmpHolds cmp (compare (loadCell store.memory .i64 off r) txn.toInt), ?_,
    fun _ _ => rfl⟩
  intro stack overflow
  simp [exec, execProgram, execStep, vmMask, sided, except_ok_bind]

theorem conjuncts_ands (vis : ResidentVisibility) :
    AndsMask store host final elem vis.pushConjuncts (store.visible (some vis)) := by
  obtain ⟨txn, deletedBy, createdBy⟩ := vis
  have hdeleted : AndsMask store host final elem (deletedBy.elim []
        fun off => [.loadColumnI64 off, .compareScalarI64 3 txn false, .maskBinary 0])
      fun r => deletedBy.all fun off => decide (txn.toInt < loadCell store.memory .i64 off r) := by
    cases deletedBy with
    | none => exact AndsMask.nil
    | some off =>
      rw [Option.elim_some]
      convert stamp_ands using 2 with r
      rw [all_some, cmpHolds, Bool.eq_iff_iff, decide_eq_true_eq, beq_iff_eq, compare_gt_iff_gt]
  have hcreated : AndsMask store host final elem (createdBy.elim []
        fun off => [.loadColumnI64 off, .compareScalarI64 2 txn false, .maskBinary 0])
      fun r => createdBy.all fun off => decide (loadCell store.memory .i64 off r ≤ txn.toInt) := by
    cases createdBy with
    | none => exact AndsMask.nil
    | some off =>
      rw [Option.elim_some]
      convert stamp_ands using 2 with r
      rw [all_some, cmpHolds, Bool.eq_iff_iff, decide_eq_true_eq, bne_iff_ne, compare_le_iff_le]
  simp only [ResidentVisibility.pushConjuncts, flatMap_cons, flatMap_nil, append_nil]
  cases deletedBy <;> cases createdBy <;> exact hdeleted.append hcreated

/-! ### The whole run -/

/-- A predicate's program, with the conjuncts of a versioned buffer behind its mask. -/
def whereProgram (steps : List ExprStep) (vis : Option ResidentVisibility) : List ExprStep :=
  steps ++ (vis.map ResidentVisibility.pushConjuncts).getD []

def VmRoute.textNeedles (route : VmRoute) (needles : List Bytes) : List Bytes :=
  if route.withText then needles else []

/-- A `WHERE` on its way to the device: the dispatch has picked a width, the compiler and the check have accepted,
and every column that the predicate names is told from the others by its name. -/
structure LoweredWhere (host : HostText) (store : ResidentStore) (vis : Option ResidentVisibility)
    (p : ResidentExpr) where
  route : VmRoute
  steps : List ExprStep
  needles : List Bytes
  routed : lowerResidentPredicate store.columns store.snapshot vis.isSome p = .ok (some route)
  compiled : compilePredicateProgram host store.columns store.snapshot p [] = .ok (steps, needles)
  checked : validateResidentArithProgram store.memory.length (route.textNeedles needles) store.rowCount route.elem
    (whereProgram steps vis) .mask = .ok ()
  unshared : ∀ col, p.Names col → Unshared store.columns col

namespace LoweredWhere

variable {vis : Option ResidentVisibility} {p : ResidentExpr}

section

variable (lowered : LoweredWhere host store vis p)

/-- The run of the program on the device. -/
def run : Except CudaRuntimeProbeError (List ℕ) :=
  runExprPredicateFilter host store.memory (lowered.route.textNeedles lowered.needles) store.rowCount
    lowered.route.elem (whereProgram lowered.steps vis)

/-- Some row, visible or not, makes the stored arithmetic overflow. -/
def overflows : Bool :=
  store.someRow fun row => predicateOverflows lowered.route.elem row p

end

/-- The rows where the predicate is TRUE, of those that are visible. -/
def selected (_ : LoweredWhere host store vis p) : List ℕ :=
  (List.range store.rowCount).filter fun r =>
    decide (sqlTruth host store.columns (store.row r) p = some (some true)) && store.visible vis r

variable (lowered : LoweredWhere host store vis p)

theorem agrees : Agrees (lowered.route.textNeedles lowered.needles) lowered.needles := by
  intro k bytes hk
  unfold VmRoute.textNeedles
  split
  · exact Or.inr hk
  · exact Or.inl (getElem?_nil)

theorem sound : PredicateSound store host (lowered.route.textNeedles lowered.needles) lowered.route.elem p
    lowered.steps := by
  obtain ⟨_, -, hchecked⟩ := bind_ok.mp lowered.checked
  obtain ⟨stack, hstack, -⟩ := bind_ok.mp hchecked
  obtain ⟨mid, hmid, -⟩ := validateSteps_append.mp hstack
  exact (predicate_sound lowered.compiled (widthSafe_of_route lowered.routed) lowered.unshared lowered.agrees
    hmid).2

/-- Where the stored arithmetic does not overflow the predicate has a meaning. -/
theorem exists_truth (hno : lowered.overflows = false) (hr : r < store.rowCount) :
    ∃ truth, sqlTruth host store.columns (store.row r) p = some truth := by
  obtain ⟨bits, -, htruth⟩ := lowered.sound
  have hrow : predicateOverflows lowered.route.elem (store.row r) p = false := Bool.eq_false_iff.mpr fun h => by
      have := any_eq_false.mp hno r (mem_range.mpr hr)
      exact this h
  obtain ⟨truth, heq, -⟩ := htruth r hr hrow
  exact ⟨truth, heq⟩

/-- The machine's final state: the flag, and the mask of the rows selected. -/
theorem exec_eq : ∃ bits, execProgram host store.memory (lowered.route.textNeedles lowered.needles) store.rowCount
      lowered.route.elem ⟨[], false⟩ (whereProgram lowered.steps vis)
      = .ok ⟨[.mask bits], lowered.overflows⟩ ∧
    (lowered.overflows = false → (List.range store.rowCount).filter bits = lowered.selected) := by
  obtain ⟨bits, hexec, htruth⟩ := lowered.sound
  have hands : AndsMask store host (lowered.route.textNeedles lowered.needles) lowered.route.elem
      ((vis.map ResidentVisibility.pushConjuncts).getD []) (store.visible vis) := by
    cases vis with
    | none => exact AndsMask.nil
    | some vis => exact conjuncts_ands vis
  obtain ⟨bits', hexec', hbits⟩ := hands bits
  refine ⟨bits', ?_, ?_⟩
  · rw [whereProgram, execProgram_append]
    have hstate := hexec ⟨[], false⟩
    rw [exec, Bool.false_or] at hstate
    rw [hstate, except_ok_bind]
    exact hexec' [] _
  · intro hno
    apply filter_congr
    intro r hr
    have hr := mem_range.mp hr
    have hrow : predicateOverflows lowered.route.elem (store.row r) p = false :=
      Bool.eq_false_iff.mpr (any_eq_false.mp hno r (mem_range.mpr hr))
    obtain ⟨truth, heq, hiff⟩ := htruth r hr hrow
    rw [hbits r hr, heq]
    congr 1
    rw [Bool.eq_iff_iff, hiff, decide_eq_true_eq, Option.some.injEq]

/-- **The run.**  It reports the overflow of any row, or returns the rows selected. -/
theorem run_eq : lowered.run = if lowered.overflows then .error lowered.route.elem.rangeError
    else .ok lowered.selected := by
  obtain ⟨bits, hexec, hbits⟩ := lowered.exec_eq
  unfold run runExprPredicateFilter
  by_cases hempty : store.rowCount = 0
  · have hno : lowered.overflows = false := by simp [overflows, someRow, hempty]
    rw [if_pos hempty, hno]
    simp [selected, hempty]
  · rw [if_neg hempty, runResidentArithProgram, lowered.checked, except_ok_bind, hexec, except_ok_bind]
    cases hflag : lowered.overflows with
    | true => simp [refuse, bind_error]
    | false =>
      simp [refuse, except_ok_bind, hbits hflag]

end LoweredWhere

/-- **WHERE semantics.**  A predicate that the dispatch, the compiler and the check accept selects, unless the run
reports an overflow, exactly the visible rows where it is TRUE in three-valued logic. -/
theorem compiled_where_selects_true_rows {vis : Option ResidentVisibility} {p : ResidentExpr}
    (lowered : LoweredWhere host store vis p) (hno : lowered.run ≠ .error lowered.route.elem.rangeError) :
    (∀ r < store.rowCount, ∃ truth, sqlTruth host store.columns (store.row r) p = some truth) ∧
      lowered.run = .ok ((List.range store.rowCount).filter fun r =>
        decide (sqlTruth host store.columns (store.row r) p = some (some true)) && store.visible vis r) := by
  rw [lowered.run_eq] at hno ⊢
  cases hflag : lowered.overflows with
  | true => simp [hflag] at hno
  | false =>
    refine ⟨fun r hr => lowered.exists_truth hflag hr, ?_⟩
    rw [if_neg Bool.false_ne_true]
    rfl

theorem unshared_singleton (column : RelationalColumn) (col : ℕ) : Unshared [column] col := by
  intro other _ _ hcol hother _
  have hcol := (getElem?_eq_some_iff.mp hcol).1
  have hother := (getElem?_eq_some_iff.mp hother).1
  simp only [length_singleton] at hcol hother
  omega

/-- A host that knows no dates and no patterns. -/
def plainHost : HostText := ⟨fun _ => none, fun _ => none, fun _ => none, fun _ _ => false⟩

/-- `a + 1 > 3 OR a IS NULL`. -/
def sampleWhere : ResidentExpr :=
  .binary .or (.binary .gt (.binary .add (.column 0) (.int4Literal 1)) (.int4Literal 3)) (.isNull 0 false)

/-- Three rows of one `int4` column, the second a `NULL`. -/
theorem compiled_where_selects_true_rows_sample : ∃ (store : ResidentStore)
    (lowered : LoweredWhere plainHost store none sampleWhere),
    store.rows = [[.int4 5], [.null], [.int4 1]] ∧ lowered.run ≠ .error lowered.route.elem.rangeError ∧
      lowered.run = .ok [0, 1] := by
  let store : ResidentStore :=
    { columns := [⟨"a", .int4⟩]
      rows := [[.int4 5], [.null], [.int4 1]]
      capacity := 3
      built := _
      tail := []
      laidOut := rfl
      typed := by
        intro values hvalues
        simp only [mem_cons, not_mem_nil, or_false] at hvalues
        rcases hvalues with rfl | rfl | rfl
        · exact .cons (Or.inr (.int4 5)) .nil
        · exact .cons (Or.inl rfl) .nil
        · exact .cons (Or.inr (.int4 1)) .nil }
  let lowered : LoweredWhere plainHost store none sampleWhere :=
    { route := ⟨.i32, true⟩
      steps := [.loadColumn 8, .scalarBinary 0 1 false, .compareScalar 3 3 false, .boolMask 20 false,
        .maskBinary 0, .boolMask 20 true, .maskBinary 1]
      needles := []
      routed := rfl
      compiled := rfl
      checked := by decide +kernel
      unshared := fun col _ => unshared_singleton _ col }
  have hrun : lowered.run ≠ .error lowered.route.elem.rangeError := by
    rw [lowered.run_eq, show lowered.overflows = false from by decide +kernel]
    simp
  exact ⟨store, lowered, rfl, hrun, (compiled_where_selects_true_rows lowered hrun).2.trans (by decide +kernel)⟩
end ThunderboltDb.Engine
