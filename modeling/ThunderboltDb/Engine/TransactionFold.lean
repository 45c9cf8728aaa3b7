import ThunderboltDb.Types

/-!
# Folding a transaction

At commit a transaction keeps, for each table, its row operations behind the last reset of the table, and of
these one net mutation for each row.

* `transaction_fold_preserves_effect` — the folded transaction has the effect of its statements.
-/

namespace ThunderboltDb.Engine

open Function List Option

variable {resets : String → Option ℕ} {operation : TransactionOperation} {table : String}
    {operations : List TransactionOperation} {rows rows' base : Rows} {seen : List BinaryTransactionMutation}
    {s : NetState}

/-- A row: its table and its entity number. -/
abbrev RowIdentity := String × UInt64

inductive BinaryTransactionMutation where
  | insert (table : String) (rowId : UInt64) (rowEncoded : String)
  | update (table : String) (rowId : UInt64) (oldRowEncoded newRowEncoded : String)
  | delete (table : String) (rowId : UInt64) (oldRowEncoded : String)
  deriving DecidableEq

open BinaryTransactionMutation

namespace BinaryTransactionMutation

def identity : BinaryTransactionMutation → RowIdentity
  | insert table rowId _ | update table rowId _ _ | delete table rowId _ => (table, rowId)

/-- The image that an update or a delete replaces. -/
def oldImage : BinaryTransactionMutation → Option String
  | insert _ _ _ => none
  | update _ _ old _ | delete _ _ old => some old

def newImage : BinaryTransactionMutation → Option String
  | insert _ _ new | update _ _ _ new => some new
  | delete _ _ _ => none

def isInsert : BinaryTransactionMutation → Bool
  | insert _ _ _ => true
  | _ => false

end BinaryTransactionMutation

/-- What a statement does to one row of its table. -/
inductive RowChange where
  | insert (rowId : UInt64) (rowEncoded : String)
  | update (rowId : UInt64) (oldRowEncoded newRowEncoded : String)
  | delete (rowId : UInt64) (oldRowEncoded : String)
  deriving DecidableEq

def RowChange.mutation (table : String) : RowChange → BinaryTransactionMutation
  | insert rowId row => .insert table rowId row
  | update rowId old new => .update table rowId old new
  | delete rowId old => .delete table rowId old

/-- One statement of a transaction: `Row` and `TypedInsert` change rows of one table. -/
inductive TransactionOperation where
  | row (table : String) (changes : List RowChange)
  | typedInsert (table : String) (rows : List (UInt64 × String))
  | tableReset (table : String)
  deriving DecidableEq

namespace TransactionOperation

/-- The table whose rows the operation changes. -/
def rowTable : TransactionOperation → Option String
  | row table _ | typedInsert table _ => some table
  | tableReset _ => none

def resetTable : TransactionOperation → Option String
  | tableReset table => some table
  | _ => none

def mutations : TransactionOperation → List BinaryTransactionMutation
  | row table changes => changes.map (RowChange.mutation table)
  | typedInsert table rows => rows.map fun row => .insert table row.1 row.2
  | tableReset _ => []

end TransactionOperation

/-! ### Reset folding -/

/-- What one operation does to the table of resets. -/
def noteReset (resets : String → Option ℕ) (ordinal : ℕ) (operation : TransactionOperation) :
    String → Option ℕ :=
  match operation.resetTable with
  | some table => update resets table (some ordinal)
  | none => resets

section

variable (operations : List TransactionOperation)

def lastResets : String → Option ℕ :=
  operations.zipIdx.foldl (fun resets entry => noteReset resets entry.2 entry.1) fun _ => none

/-- `is_none_or(|reset| ordinal > *reset)`. -/
def behindReset (reset : Option ℕ) (ordinal : ℕ) : Bool :=
  match reset with
  | none => true
  | some reset => reset < ordinal

variable (resets : String → Option ℕ) (entry : TransactionOperation × ℕ) (identity : RowIdentity)

/-- A row operation behind the last reset of its table. -/
def survivor : Option TransactionOperation :=
  match entry.1.rowTable with
  | some table => if behindReset (resets table) entry.2 then some entry.1 else none
  | none => none

def finalTransactionRowOperations : List TransactionOperation :=
  operations.zipIdx.filterMap (survivor (lastResets operations))

/-- A reset that is the last one of its table. -/
def lastReset : Option String :=
  match entry.1.resetTable with
  | some table => if resets table = some entry.2 then some table else none
  | none => none

/-- The resets of `final_transaction_operations`. -/
def finalResets : List String :=
  operations.zipIdx.filterMap (lastReset (lastResets operations))

/-! ### Coalescing -/

inductive NetMutation where
  | insert (row : String)
  | update (old new : String)
  | delete (old : String)
  deriving DecidableEq

def NetMutation.mutation : NetMutation → BinaryTransactionMutation
  | insert row => .insert identity.1 identity.2 row
  | update old new => .update identity.1 identity.2 old new
  | delete old => .delete identity.1 identity.2 old

/-- The two collections of the loop. -/
structure NetState where
  order : List RowIdentity
  net : RowIdentity → Option NetMutation

def NetState.empty : NetState := ⟨[], fun _ => none⟩

/-- A first mutation of a row. -/
def NetState.push (self : NetState) (identity : RowIdentity) (mutation : NetMutation) : NetState :=
  ⟨self.order ++ [identity], update self.net identity (some mutation)⟩

/-- Replace or remove the net mutation of a row. -/
def NetState.set (self : NetState) (identity : RowIdentity) (mutation : Option NetMutation) : NetState :=
  ⟨self.order, update self.net identity mutation⟩

def twoInitialVersions : EngineError :=
  .applyFailed (s!"transaction produced two initial versions for entity {identity.2} in relation \"" ++
    identity.1 ++ "\"")

def transactionChainMismatch : EngineError :=
  .applyFailed (s!"transaction private version chain for entity {identity.2} in relation \"" ++
    identity.1 ++ "\" is discontinuous")

/-- One round of the loop. -/
def netStep (s : NetState) (mutation : BinaryTransactionMutation) : Except EngineError NetState :=
  let identity := mutation.identity
  match mutation with
  | .insert _ _ row =>
    match s.net identity with
    | some _ => .error (twoInitialVersions identity)
    | none => .ok (s.push identity (.insert row))
  | .update _ _ old new =>
    match s.net identity with
    | some (.insert current) =>
      if current ≠ old then .error (transactionChainMismatch identity)
      else .ok (s.set identity (some (.insert new)))
    | some (.update first current) =>
      if current ≠ old then .error (transactionChainMismatch identity)
      else .ok (s.set identity (some (.update first new)))
    | some (.delete _) => .error (transactionChainMismatch identity)
    | none => .ok (s.push identity (.update old new))
  | .delete _ _ old =>
    match s.net identity with
    | some (.insert current) =>
      if current ≠ old then .error (transactionChainMismatch identity)
      else .ok (s.set identity none)
    | some (.update first current) =>
      if current ≠ old then .error (transactionChainMismatch identity)
      else .ok (s.set identity (some (.delete first)))
    | some (.delete _) => .error (transactionChainMismatch identity)
    | none => .ok (s.push identity (.delete old))

/-- The net mutations in the order of the first ones, each taken out of the table. -/
def drain : List RowIdentity → (RowIdentity → Option NetMutation) → List BinaryTransactionMutation
  | [], _ => []
  | identity :: order, net =>
    match net identity with
    | some mutation => mutation.mutation identity :: drain order (update net identity none)
    | none => drain order net

def coalesceTransactionMutations (mutations : List BinaryTransactionMutation) :
    Except EngineError (List BinaryTransactionMutation) := do
  let s ← mutations.foldlM netStep NetState.empty
  return drain s.order s.net

/-! ### What a transaction does -/

/-- The encoded rows of all tables. -/
abbrev Rows := RowIdentity → Option String

variable (rows : Rows)

/-- An insert needs a free row; an update and a delete need the image that they replace. -/
def applyMutation (mutation : BinaryTransactionMutation) : Option Rows :=
  if rows mutation.identity = mutation.oldImage
  then some (update rows mutation.identity mutation.newImage) else none

def runMutations (mutations : List BinaryTransactionMutation) : Option Rows :=
  mutations.foldlM applyMutation rows

def resetRows (table : String) : Rows :=
  fun identity => if identity.1 = table then none else rows identity

def applyOperation : TransactionOperation → Option Rows
  | .tableReset table => some (resetRows rows table)
  | operation => runMutations rows operation.mutations

/-- The statements, one after the other. -/
def runOperations (operations : List TransactionOperation) : Option Rows :=
  operations.foldlM applyOperation rows

/-- Every insert has a row identity that was not used before, neither in the base state nor by an earlier
mutation. -/
structure FreshInserts (base : Rows) (mutations : List BinaryTransactionMutation) : Prop where
  base : ∀ mutation ∈ mutations, mutation.isInsert → base mutation.identity = none
  earlier : mutations.Pairwise fun earlier later => later.isInsert → earlier.identity ≠ later.identity

/-- The base state behind the resets that are kept. -/
def afterResets (base : Rows) (operations : List TransactionOperation) : Rows :=
  (finalResets operations).foldl resetRows base

def finalMutations : List BinaryTransactionMutation :=
  (finalTransactionRowOperations operations).flatMap TransactionOperation.mutations

/-! ### The fold without ordinals -/

def resetTables : List String :=
  operations.filterMap TransactionOperation.resetTable

end

open NetMutation

/-- Row operations of tables that no later operation resets. -/
def survivors : List TransactionOperation → List TransactionOperation
  | [] => []
  | operation :: operations =>
    match operation.rowTable with
    | some table => if table ∈ resetTables operations then survivors operations
        else operation :: survivors operations
    | none => survivors operations

def keptResets : List TransactionOperation → List String
  | [] => []
  | operation :: operations =>
    match operation.resetTable with
    | some table => if table ∈ resetTables operations then keptResets operations
        else table :: keptResets operations
    | none => keptResets operations

/-- The loop of `lastResets`, from any ordinal on. -/
def lastResetsFrom (resets : String → Option ℕ) (start : ℕ) (operations : List TransactionOperation) :
    String → Option ℕ :=
  (operations.zipIdx start).foldl (fun resets entry => noteReset resets entry.2 entry.1) resets

theorem lastResetsFrom_cons (resets : String → Option ℕ) (start : ℕ) (operation : TransactionOperation)
    (operations : List TransactionOperation) :
    lastResetsFrom resets start (operation :: operations) =
      lastResetsFrom (noteReset resets start operation) (start + 1) operations := rfl

variable {ordinal : ℕ} {start : ℕ}

theorem noteReset_of_ne (h : operation.resetTable ≠ some table) :
    noteReset resets ordinal operation table = resets table := by
  rw [noteReset]
  cases hother : operation.resetTable with
  | none => rfl
  | some other =>
    have hne : table ≠ other := fun heq => h (heq ▸ hother)
    exact update_of_ne hne _ _

theorem noteReset_self (h : operation.resetTable = some table) :
    noteReset resets ordinal operation table = some ordinal := by
  rw [noteReset, h]
  exact update_self _ _ _

theorem mem_resetTables_cons : table ∈ resetTables (operation :: operations) ↔
      operation.resetTable = some table ∨ table ∈ resetTables operations := by
  rw [resetTables, resetTables, mem_filterMap, mem_filterMap]
  simp only [mem_cons, or_and_right, exists_or, exists_eq_left]

theorem lastResetsFrom_of_not_mem (h : table ∉ resetTables operations) :
    lastResetsFrom resets start operations table = resets table := by
  induction operations generalizing resets start with
  | nil => rfl
  | cons operation operations ih =>
    rw [mem_resetTables_cons, not_or] at h
    rw [lastResetsFrom_cons, ih h.2, noteReset_of_ne h.1]

theorem lastResetsFrom_of_mem (h : table ∈ resetTables operations) :
    ∃ ordinal, lastResetsFrom resets start operations table = some ordinal ∧ start ≤ ordinal := by
  induction operations generalizing resets start with
  | nil => cases h
  | cons operation operations ih =>
    rw [lastResetsFrom_cons]
    by_cases hlater : table ∈ resetTables operations
    · obtain ⟨ordinal, hordinal, hle⟩ := @ih (noteReset resets start operation) (start + 1) hlater
      exact ⟨ordinal, hordinal, by omega⟩
    · rw [lastResetsFrom_of_not_mem hlater]
      exact ⟨start, noteReset_self ((mem_resetTables_cons.mp h).resolve_right hlater), le_rfl⟩

section

variable {start : ℕ} (h : ∀ table ordinal, resets table = some ordinal → ordinal < start)
include h

theorem noteReset_lt (operation : TransactionOperation) :
    ∀ table ordinal, noteReset resets start operation table = some ordinal → ordinal < start + 1 := by
  intro table ordinal hnote
  by_cases hself : operation.resetTable = some table
  · rw [noteReset_self hself] at hnote
    cases hnote
    omega
  · rw [noteReset_of_ne hself] at hnote
    have hlt := h table ordinal hnote
    omega

/-- The ordinals decide as the recursion does. -/
theorem filterMap_survivor :
    (operations.zipIdx start).filterMap (survivor (lastResetsFrom resets start operations)) =
      survivors operations := by
  induction operations generalizing resets start with
  | nil => rfl
  | cons operation operations ih =>
    have hrest := ih (noteReset_lt h operation)
    rw [zipIdx_cons, filterMap_cons, survivors, lastResetsFrom_cons, hrest, survivor]
    cases hrow : operation.rowTable with
    | none => rfl
    | some table =>
      have hreset : operation.resetTable ≠ some table := by
        cases operation <;> simp [TransactionOperation.resetTable, TransactionOperation.rowTable] at hrow ⊢
      by_cases hlater : table ∈ resetTables operations
      · obtain ⟨ordinal, hordinal, hle⟩ :=
          @lastResetsFrom_of_mem (noteReset resets start operation) table operations (start + 1) hlater
        have hbefore : ¬ behindReset (some ordinal) start := by
          rw [behindReset, decide_eq_true_eq]
          omega
        simp only [hordinal, if_pos hlater, if_neg hbefore]
      · have hbehind : behindReset (resets table) start := by
          cases hfirst : resets table with
          | none => rfl
          | some ordinal => exact decide_eq_true (h table ordinal hfirst)
        simp only [lastResetsFrom_of_not_mem hlater, noteReset_of_ne hreset, if_neg hlater, if_pos hbehind]

end

theorem finalTransactionRowOperations_eq : finalTransactionRowOperations operations = survivors operations :=
  filterMap_survivor fun _ _ hnone => nomatch hnone

theorem filterMap_lastReset (resets : String → Option ℕ) (start : ℕ) (operations : List TransactionOperation) :
    (operations.zipIdx start).filterMap (lastReset (lastResetsFrom resets start operations)) =
      keptResets operations := by
  induction operations generalizing resets start with
  | nil => rfl
  | cons operation operations ih =>
    have hrest := ih (noteReset resets start operation) (start + 1)
    rw [zipIdx_cons, filterMap_cons, keptResets, lastResetsFrom_cons, hrest, lastReset]
    cases hreset : operation.resetTable with
    | none => rfl
    | some table =>
      by_cases hlater : table ∈ resetTables operations
      · obtain ⟨ordinal, hordinal, hle⟩ :=
          @lastResetsFrom_of_mem (noteReset resets start operation) table operations (start + 1) hlater
        have hne : some ordinal ≠ some start := by
          rw [Ne, Option.some.injEq]
          omega
        simp only [hordinal, if_pos hlater, if_neg hne]
      · simp only [lastResetsFrom_of_not_mem hlater, noteReset_self hreset, if_neg hlater, if_true]

theorem finalResets_eq : finalResets operations = keptResets operations :=
  filterMap_lastReset _ 0 operations

theorem mem_keptResets : table ∈ keptResets operations ↔ table ∈ resetTables operations := by
  induction operations with
  | nil => rfl
  | cons operation operations ih =>
    rw [mem_resetTables_cons, keptResets]
    split
    · rename_i other hother
      rw [hother, Option.some.injEq]
      split
      · rename_i hmem
        rw [ih]
        refine ⟨.inr, fun h => h.elim (fun heq => heq ▸ hmem) id⟩
      · rw [mem_cons, ih, eq_comm]
    · rename_i hnone
      rw [hnone, ih]
      simp

/-! ### Rows behind resets -/

/-- The rows of other tables. -/
def clear (tables : List String) (rows : Rows) : Rows :=
  fun identity => if identity.1 ∈ tables then none else rows identity

theorem foldl_resetRows (tables : List String) : tables.foldl resetRows rows = clear tables rows := by
  induction tables generalizing rows with
  | nil =>
    funext identity
    rw [clear, if_neg not_mem_nil]
    rfl
  | cons table tables ih =>
    rw [foldl_cons, ih]
    funext identity
    simp only [clear, resetRows, mem_cons]
    by_cases hmem : identity.1 ∈ tables
    · rw [if_pos hmem, if_pos (.inr hmem)]
    · simp [hmem]

theorem afterResets_eq : afterResets base operations = clear (resetTables operations) base := by
  rw [afterResets, foldl_resetRows, finalResets_eq]
  funext identity
  simp only [clear, mem_keptResets]

variable {mutation : BinaryTransactionMutation} {mutations : List BinaryTransactionMutation}

theorem applyMutation_eq_some :
    applyMutation rows mutation = some rows' ↔ rows mutation.identity = mutation.oldImage ∧
      rows' = update rows mutation.identity mutation.newImage := by
  rw [applyMutation]
  split
  · rename_i h
    rw [Option.some.injEq, eq_comm]
    exact (and_iff_right h).symm
  · rename_i h
    simp [h]

theorem runMutations_cons :
    runMutations rows (mutation :: mutations) = some rows' ↔ rows mutation.identity = mutation.oldImage ∧
      runMutations (update rows mutation.identity mutation.newImage) mutations = some rows' := by
  rw [runMutations, foldlM_cons, bind_eq_bind, bind_eq_some_iff]
  constructor
  · rintro ⟨next, hnext, hrest⟩
    obtain ⟨hold, rfl⟩ := applyMutation_eq_some.mp hnext
    exact ⟨hold, hrest⟩
  · rintro ⟨hold, hrest⟩
    exact ⟨_, applyMutation_eq_some.mpr ⟨hold, rfl⟩, hrest⟩

theorem runMutations_append {more : List BinaryTransactionMutation} :
    runMutations rows (mutations ++ more) = some rows' ↔
      ∃ middle, runMutations rows mutations = some middle ∧ runMutations middle more = some rows' := by
  rw [runMutations, foldlM_append, bind_eq_bind, bind_eq_some_iff]
  rfl

section

variable {tables : List String} {mutations : List BinaryTransactionMutation}
  (h : runMutations rows mutations = some rows')
include h

/-- Mutations of tables that are cleared leave no trace. -/
theorem clear_of_runMutations (htables : ∀ mutation ∈ mutations, mutation.identity.1 ∈ tables) :
    clear tables rows' = clear tables rows := by
  induction mutations generalizing rows with
  | nil =>
    cases h
    rfl
  | cons mutation mutations ih =>
    obtain ⟨hfirst, hothers⟩ := forall_mem_cons.mp htables
    obtain ⟨-, hrest⟩ := runMutations_cons.mp h
    rw [ih hrest hothers]
    funext identity
    rw [clear, clear]
    split
    · rfl
    · rename_i hmem
      have hne : identity ≠ mutation.identity := fun heq => hmem (heq ▸ hfirst)
      exact update_of_ne hne _ _

/-- Mutations of other tables do not see the clearing. -/
theorem runMutations_clear (htables : ∀ mutation ∈ mutations, mutation.identity.1 ∉ tables) :
    runMutations (clear tables rows) mutations = some (clear tables rows') := by
  induction mutations generalizing rows with
  | nil =>
    cases h
    rfl
  | cons mutation mutations ih =>
    obtain ⟨hfirst, hothers⟩ := forall_mem_cons.mp htables
    obtain ⟨hold, hrest⟩ := runMutations_cons.mp h
    refine runMutations_cons.mpr ⟨?_, ?_⟩
    · rw [clear, if_neg hfirst]
      exact hold
    · have hsame : update (clear tables rows) mutation.identity mutation.newImage =
          clear tables (update rows mutation.identity mutation.newImage) := by
        funext identity
        by_cases heq : identity = mutation.identity
        · rw [heq, update_self, clear, if_neg hfirst, update_self]
        · rw [update_of_ne heq, clear, clear, update_of_ne heq]
      rw [hsame]
      exact ih hrest hothers

end

theorem mutations_table
    (h : operation.rowTable = some table) : ∀ mutation ∈ operation.mutations, mutation.identity.1 = table := by
  intro mutation hmem
  cases operation with
  | tableReset other => cases h
  | row other changes =>
    cases h
    obtain ⟨change, -, rfl⟩ := mem_map.mp hmem
    cases change <;> rfl
  | typedInsert other rows =>
    cases h
    obtain ⟨row, -, rfl⟩ := mem_map.mp hmem
    rfl

theorem applyOperation_of_row (h : operation.rowTable = some table) :
    applyOperation rows operation = runMutations rows operation.mutations := by
  cases operation with
  | tableReset other => cases h
  | row other changes | typedInsert other rows => rfl

variable {final : Rows}

/-- **What is dropped is erased.**  The surviving row operations, behind the resets, lead to the state that all
operations lead to. -/
theorem run_survivors (h : runOperations rows operations = some final) :
    runMutations (clear (resetTables operations) rows)
      ((survivors operations).flatMap TransactionOperation.mutations) = some final := by
  induction operations generalizing rows with
  | nil =>
    cases h
    rfl
  | cons operation operations ih =>
    rw [runOperations, foldlM_cons, bind_eq_bind, bind_eq_some_iff] at h
    obtain ⟨next, hnext, hrest⟩ := h
    have hrun := ih hrest
    rw [survivors]
    cases hrow : operation.rowTable with
    | none =>
      cases operation with
      | row table changes | typedInsert table rows => cases hrow
      | tableReset table =>
        cases hnext
        have hclear : clear (resetTables (.tableReset table :: operations)) rows =
            clear (resetTables operations) (resetRows rows table) := by
          funext identity
          simp only [clear, resetRows, mem_resetTables_cons, TransactionOperation.resetTable, Option.some.injEq]
          by_cases hmem : identity.1 ∈ resetTables operations
          · rw [if_pos (.inr hmem), if_pos hmem]
          · simp [hmem, eq_comm]
        rw [hclear]
        exact hrun
    | some table =>
      rw [applyOperation_of_row hrow] at hnext
      have hreset : resetTables (operation :: operations) = resetTables operations := by
        cases operation with
        | tableReset other => cases hrow
        | row other changes | typedInsert other rows => rfl
      have htable := mutations_table hrow
      rw [hreset]
      dsimp only
      by_cases hlater : table ∈ resetTables operations
      · rw [if_pos hlater, ← clear_of_runMutations hnext fun mutation hmem => (htable mutation hmem) ▸ hlater]
        exact hrun
      · rw [if_neg hlater, flatMap_cons, runMutations_append]
        exact ⟨_, runMutations_clear hnext fun mutation hmem => (htable mutation hmem) ▸ hlater, hrun⟩

theorem survivors_sublist : ((survivors operations).flatMap TransactionOperation.mutations).Sublist
      (operations.flatMap TransactionOperation.mutations) := by
  induction operations with
  | nil => exact List.Sublist.refl _
  | cons operation operations ih =>
    rw [survivors, flatMap_cons]
    split
    · split
      · exact ih.trans (sublist_append_right _ _)
      · rw [flatMap_cons]
        exact ih.append_left _
    · exact ih.trans (sublist_append_right _ _)

/-! ### The net table -/

namespace NetMutation

def oldImage : NetMutation → Option String
  | insert _ => none
  | update old _ | delete old => some old

def newImage : NetMutation → Option String
  | insert new | update _ new => some new
  | delete _ => none

section

variable (identity : RowIdentity) (net : NetMutation)
include identity net

@[simp] theorem mutation_identity : (net.mutation identity).identity = identity := by
  cases net <;> rfl

@[simp] theorem mutation_oldImage : (net.mutation identity).oldImage = net.oldImage := by
  cases net <;> rfl

@[simp] theorem mutation_newImage : (net.mutation identity).newImage = net.newImage := by
  cases net <;> rfl

end

end NetMutation

/-- What the net table says about the rows: a net mutation leads from the base state to the present one, and
rows without one are as they were. -/
structure Nets (base rows : Rows) (seen : List BinaryTransactionMutation) (s : NetState) : Prop where
  net : ∀ identity net, s.net identity = some net → base identity = net.oldImage ∧ rows identity = net.newImage
  untouched : ∀ identity, s.net identity = none → rows identity = base identity
  order : ∀ identity net, s.net identity = some net → identity ∈ s.order
  seen : ∀ identity net, s.net identity = some net → ∃ mutation ∈ seen, mutation.identity = identity

theorem Nets.empty (base : Rows) : Nets base base [] NetState.empty := by
  refine ⟨?_, fun _ _ => rfl, ?_, ?_⟩ <;>
  · intro identity net h
    cases h

variable {order : List RowIdentity}

section

variable (h : Nets base rows seen s)
include h

/-- One row gets another net mutation, or none. -/
theorem Nets.update {entry : Option NetMutation} (horder : ∀ identity ∈ s.order, identity ∈ order)
    (hsome : ∀ net, entry = some net → base mutation.identity = net.oldImage ∧
      mutation.newImage = net.newImage ∧ mutation.identity ∈ order)
    (hnone : entry = none → mutation.newImage = base mutation.identity) :
    Nets base (Function.update rows mutation.identity mutation.newImage) (seen ++ [mutation])
      ⟨order, Function.update s.net mutation.identity entry⟩ := by
  have hcases : ∀ identity, identity = mutation.identity ∨
      (Function.update s.net mutation.identity entry identity = s.net identity ∧
        Function.update rows mutation.identity mutation.newImage identity = rows identity) := by
    intro identity
    by_cases heq : identity = mutation.identity
    · exact .inl heq
    · exact .inr ⟨update_of_ne heq _ _, update_of_ne heq _ _⟩
  constructor
  · intro identity net hnet
    dsimp only at hnet
    rcases hcases identity with rfl | ⟨htable, hrows⟩
    · rw [update_self] at hnet ⊢
      obtain ⟨hbase, hnew, -⟩ := hsome net hnet
      exact ⟨hbase, hnew⟩
    · rw [hrows]
      exact h.net identity net (htable.symm.trans hnet)
  · intro identity hnet
    dsimp only at hnet
    rcases hcases identity with rfl | ⟨htable, hrows⟩
    · rw [update_self] at hnet ⊢
      exact hnone hnet
    · rw [hrows]
      exact h.untouched identity (htable.symm.trans hnet)
  · intro identity net hnet
    dsimp only at hnet
    rcases hcases identity with rfl | ⟨htable, -⟩
    · rw [update_self] at hnet
      exact (hsome net hnet).2.2
    · exact horder identity (h.order identity net (htable.symm.trans hnet))
  · intro identity net hnet
    rcases hcases identity with rfl | ⟨htable, -⟩
    · exact ⟨mutation, mem_append_right _ mem_cons_self, rfl⟩
    · obtain ⟨earlier, hearlier, hidentity⟩ := h.seen identity net (htable.symm.trans hnet)
      exact ⟨earlier, mem_append_left _ hearlier, hidentity⟩

/-- A first mutation of a row. -/
theorem Nets.push {net : NetMutation}
    (hnone : s.net mutation.identity = none) (hold : rows mutation.identity = mutation.oldImage)
    (hnet : net.oldImage = mutation.oldImage ∧ net.newImage = mutation.newImage) :
    Nets base (Function.update rows mutation.identity mutation.newImage) (seen ++ [mutation])
      (s.push mutation.identity net) := by
  refine h.update (fun _ hmem => mem_append_left _ hmem) ?_ fun heq => nomatch heq
  intro entry heq
  cases heq
  refine ⟨?_, hnet.2.symm, mem_append_right _ mem_cons_self⟩
  rw [hnet.1, ← hold, h.untouched _ hnone]

/-- A further mutation of a row. -/
theorem Nets.replace {net next : NetMutation} (hnet : s.net mutation.identity = some net)
    (hnext : next.oldImage = net.oldImage ∧ next.newImage = mutation.newImage) :
    Nets base (Function.update rows mutation.identity mutation.newImage) (seen ++ [mutation])
      (s.set mutation.identity (some next)) := by
  refine h.update (fun _ hmem => hmem) ?_ fun heq => nomatch heq
  intro entry heq
  cases heq
  refine ⟨?_, hnext.2.symm, h.order _ net hnet⟩
  rw [hnext.1, (h.net _ net hnet).1]

/-- **One mutation.**  The loop does not fail on a mutation that applies, and the net table still says what the
transaction has done. -/
theorem Nets.step (hold : rows mutation.identity = mutation.oldImage)
    (hfresh : mutation.isInsert → ∀ earlier ∈ seen, earlier.identity ≠ mutation.identity) :
    ∃ s', netStep s mutation = .ok s' ∧
      Nets base (Function.update rows mutation.identity mutation.newImage) (seen ++ [mutation]) s' := by
  cases mutation with
  | insert table rowId row =>
    have hnone : s.net (table, rowId) = none := by
      cases hnet : s.net (table, rowId) with
      | none => rfl
      | some net =>
        obtain ⟨earlier, hmem, hidentity⟩ := h.seen _ net hnet
        exact absurd hidentity (hfresh rfl earlier hmem)
    refine ⟨s.push (table, rowId) (.insert row), ?_, h.push hnone hold ⟨rfl, rfl⟩⟩
    simp only [netStep, identity, hnone]
  | update table rowId old new =>
    cases hnet : s.net (table, rowId) with
    | none =>
      refine ⟨s.push (table, rowId) (.update old new), ?_, h.push hnet hold ⟨rfl, rfl⟩⟩
      simp only [netStep, identity, hnet]
    | some net =>
      have hcurrent : net.newImage = some old := (h.net _ net hnet).2.symm.trans hold
      cases net with
      | delete first => cases hcurrent
      | insert current =>
        obtain rfl : current = old := some.inj hcurrent
        refine ⟨s.set (table, rowId) (some (.insert new)), ?_, h.replace hnet ⟨rfl, rfl⟩⟩
        simp [netStep, identity, hnet]
      | update first current =>
        obtain rfl : current = old := some.inj hcurrent
        refine ⟨s.set (table, rowId) (some (.update first new)), ?_, h.replace hnet ⟨rfl, rfl⟩⟩
        simp [netStep, identity, hnet]
  | delete table rowId old =>
    cases hnet : s.net (table, rowId) with
    | none =>
      refine ⟨s.push (table, rowId) (.delete old), ?_, h.push hnet hold ⟨rfl, rfl⟩⟩
      simp only [netStep, identity, hnet]
    | some net =>
      obtain ⟨hbase, hrow⟩ := h.net _ net hnet
      have hcurrent : net.newImage = some old := hrow.symm.trans hold
      cases net with
      | delete first => cases hcurrent
      | insert current =>
        -- the row was not there before: nothing is left to do
        obtain rfl : current = old := some.inj hcurrent
        refine ⟨s.set (table, rowId) none, ?_, ?_⟩
        · simp [netStep, identity, hnet]
        · exact h.update (fun _ hmem => hmem) (fun entry heq => nomatch heq) fun _ => hbase.symm
      | update first current =>
        obtain rfl : current = old := some.inj hcurrent
        refine ⟨s.set (table, rowId) (some (.delete first)), ?_, h.replace hnet ⟨rfl, rfl⟩⟩
        simp [netStep, identity, hnet]

end

/-- The whole loop. -/
theorem Nets.run (h : Nets base rows seen s) (hrun : runMutations rows mutations = some final)
    (hfresh : (seen ++ mutations).Pairwise fun earlier later => later.isInsert →
      earlier.identity ≠ later.identity) :
    ∃ s', mutations.foldlM netStep s = .ok s' ∧ Nets base final (seen ++ mutations) s' := by
  induction mutations generalizing rows seen s with
  | nil =>
    cases hrun
    rw [append_nil]
    exact ⟨s, rfl, h⟩
  | cons mutation mutations ih =>
    obtain ⟨hold, hrest⟩ := runMutations_cons.mp hrun
    have hearlier : mutation.isInsert → ∀ earlier ∈ seen, earlier.identity ≠ mutation.identity :=
      fun hinsert earlier hmem =>
        (pairwise_append.mp hfresh).2.2 earlier hmem mutation mem_cons_self hinsert
    obtain ⟨next, hnext, hnets⟩ := h.step hold hearlier
    rw [← singleton_append, ← append_assoc] at hfresh ⊢
    obtain ⟨last, hlast, hfinal⟩ := ih hnets hrest hfresh
    refine ⟨last, ?_, hfinal⟩
    rw [singleton_append, foldlM_cons, hnext]
    exact hlast

/-! ### The net mutations -/

theorem mem_drain {net : RowIdentity → Option NetMutation} : mutation ∈ drain order net ↔
      ∃ identity entry, identity ∈ order ∧ net identity = some entry ∧ mutation = entry.mutation identity := by
  induction order generalizing net with
  | nil => simp [drain]
  | cons first order ih =>
    cases hfirst : net first with
    | none =>
      simp only [drain, hfirst]
      rw [ih]
      constructor
      · rintro ⟨identity, entry, hmem, hentry, rfl⟩
        exact ⟨identity, entry, mem_cons_of_mem _ hmem, hentry, rfl⟩
      · rintro ⟨identity, entry, hmem, hentry, rfl⟩
        rcases mem_cons.mp hmem with rfl | hmem
        · cases hfirst.symm.trans hentry
        · exact ⟨identity, entry, hmem, hentry, rfl⟩
    | some entry =>
      simp only [drain, hfirst]
      rw [mem_cons, ih]
      constructor
      · rintro (rfl | ⟨identity, other, hmem, hother, rfl⟩)
        · exact ⟨first, entry, mem_cons_self, hfirst, rfl⟩
        · have hne : identity ≠ first := by
            intro heq
            rw [heq, update_self] at hother
            cases hother
          rw [update_of_ne hne] at hother
          exact ⟨identity, other, mem_cons_of_mem _ hmem, hother, rfl⟩
      · rintro ⟨identity, other, hmem, hother, rfl⟩
        by_cases heq : identity = first
        · subst heq
          cases hfirst.symm.trans hother
          exact .inl rfl
        · right
          refine ⟨identity, other, (mem_cons.mp hmem).resolve_left heq, ?_, rfl⟩
          rw [update_of_ne heq]
          exact hother

theorem nodup_drain (net : RowIdentity → Option NetMutation) :
    ((drain order net).map identity).Nodup := by
  induction order generalizing net with
  | nil => exact nodup_nil
  | cons first order ih =>
    cases hfirst : net first with
    | none =>
      simp only [drain, hfirst]
      exact ih net
    | some entry =>
      simp only [drain, hfirst, map_cons, nodup_cons, mutation_identity]
      refine ⟨?_, ih _⟩
      intro hmem
      obtain ⟨mutation, hmutation, hidentity⟩ := mem_map.mp hmem
      obtain ⟨identity, other, -, hother, rfl⟩ := mem_drain.mp hmutation
      rw [mutation_identity] at hidentity
      rw [hidentity, update_self] at hother
      cases hother

/-- **Mutations of different rows** apply in any order, each to the row it finds at first. -/
theorem run_of_distinct (hdistinct : (mutations.map identity).Nodup)
    (hold : ∀ mutation ∈ mutations, rows mutation.identity = mutation.oldImage) :
    ∃ final, runMutations rows mutations = some final ∧
      (∀ mutation ∈ mutations, final mutation.identity = mutation.newImage) ∧
      ∀ identity, (∀ mutation ∈ mutations, mutation.identity ≠ identity) →
        final identity = rows identity := by
  induction mutations generalizing rows with
  | nil =>
    refine ⟨rows, rfl, ?_, fun _ _ => rfl⟩
    intro mutation hmem
    cases hmem
  | cons mutation mutations ih =>
    rw [map_cons, nodup_cons] at hdistinct
    obtain ⟨hfirst, hothers⟩ := forall_mem_cons.mp hold
    have hne : ∀ other ∈ mutations, other.identity ≠ mutation.identity :=
      fun other hmem heq => hdistinct.1 (mem_map.mpr ⟨other, hmem, heq⟩)
    obtain ⟨final, hrun, hnew, hrest⟩ := @ih (update rows mutation.identity mutation.newImage)
      hdistinct.2 fun other hmem => by
        rw [update_of_ne (hne other hmem)]
        exact hothers other hmem
    refine ⟨final, runMutations_cons.mpr ⟨hfirst, hrun⟩, ?_, ?_⟩
    · rw [forall_mem_cons]
      refine ⟨?_, hnew⟩
      rw [hrest _ hne, update_self]
    · intro identity hall
      obtain ⟨hself, hall⟩ := forall_mem_cons.mp hall
      rw [hrest identity hall, update_of_ne (Ne.symm hself)]

/-- What the net table lists leads from the base state to the present one. -/
theorem Nets.run_drain (h : Nets base rows seen s)
    (hperm : mutations.Perm (drain s.order s.net)) : runMutations base mutations = some rows := by
  have hmem : ∀ mutation ∈ mutations, ∃ identity net, identity ∈ s.order ∧ s.net identity = some net ∧
      mutation = net.mutation identity := fun mutation hmem => mem_drain.mp (hperm.mem_iff.mp hmem)
  have hdistinct : (mutations.map identity).Nodup :=
    (hperm.map _).nodup_iff.mpr (nodup_drain _)
  have hold : ∀ mutation ∈ mutations, base mutation.identity = mutation.oldImage := by
    intro mutation hmutation
    obtain ⟨identity, net, -, hnet, rfl⟩ := hmem mutation hmutation
    rw [mutation_identity, mutation_oldImage]
    exact (h.net identity net hnet).1
  obtain ⟨final, hrun, hnew, hrest⟩ := run_of_distinct hdistinct hold
  rw [hrun, Option.some.injEq]
  funext identity
  cases hnet : s.net identity with
  | some net =>
    have hin : net.mutation identity ∈ mutations :=
      hperm.mem_iff.mpr (mem_drain.mpr ⟨identity, net, h.order identity net hnet, hnet, rfl⟩)
    have himage := hnew _ hin
    rw [mutation_identity, mutation_newImage] at himage
    rw [himage]
    exact (h.net identity net hnet).2.symm
  | none =>
    rw [hrest identity ?_]
    · exact (h.untouched identity hnet).symm
    · intro mutation hmutation heq
      obtain ⟨other, net, -, hother, rfl⟩ := hmem mutation hmutation
      rw [mutation_identity] at heq
      rw [heq] at hother
      cases hnet.symm.trans hother

/-- **Folding keeps the effect of a transaction.**  From every base state and for every list of resets and row
statements that applies: the row operations behind the last resets can be coalesced, into one mutation for each
row at most, each with the image of the row behind the resets, and these mutations lead in any order from the
state behind the resets to the state that the statements lead to. -/
theorem transaction_fold_preserves_effect (base final : Rows) (operations : List TransactionOperation)
    (hrun : runOperations base operations = some final)
    (hfresh : FreshInserts base (operations.flatMap TransactionOperation.mutations)) :
    ∃ coalesced, coalesceTransactionMutations (finalMutations operations) = .ok coalesced ∧
      (coalesced.map identity).Nodup ∧
      (∀ mutation ∈ coalesced, ∀ old, mutation.oldImage = some old →
        afterResets base operations mutation.identity = some old) ∧
      ∀ mutations, mutations.Perm coalesced →
        runMutations (afterResets base operations) mutations = some final := by
  have hsurvivors := run_survivors hrun
  have hearlier := List.Pairwise.sublist (survivors_sublist) hfresh.earlier
  rw [afterResets_eq, finalMutations, finalTransactionRowOperations_eq]
  obtain ⟨s, hloop, hnets⟩ := (Nets.empty (clear (resetTables operations) base)).run hsurvivors hearlier
  refine ⟨drain s.order s.net, ?_, nodup_drain _, ?_, fun mutations hperm => hnets.run_drain hperm⟩
  · rw [coalesceTransactionMutations, hloop]
    rfl
  · intro mutation hmem old hold
    obtain ⟨identity, net, -, hnet, rfl⟩ := mem_drain.mp hmem
    rw [mutation_oldImage] at hold
    rw [mutation_identity, (hnets.net identity net hnet).1, hold]

/-- A row that is updated and then deleted, one that is inserted and updated, and a table that is filled and
then reset. -/
theorem transaction_fold_sample : ∃ coalesced, coalesceTransactionMutations (finalMutations
        [.row "a" [.update 1 "x" "y"], .typedInsert "b" [(7, "p")], .row "a" [.delete 1 "y"],
          .tableReset "b", .typedInsert "b" [(8, "q")], .row "b" [.update 8 "q" "r"]]) = .ok coalesced ∧
      runMutations (afterResets (fun identity => if identity = ("a", 1) then some "x" else none)
        [.row "a" [.update 1 "x" "y"], .typedInsert "b" [(7, "p")], .row "a" [.delete 1 "y"],
          .tableReset "b", .typedInsert "b" [(8, "q")], .row "b" [.update 8 "q" "r"]]) coalesced ≠ none := by
  obtain ⟨final, hfinal⟩ : ∃ final, runOperations
      (fun identity => if identity = ("a", 1) then some "x" else none)
      [.row "a" [.update 1 "x" "y"], .typedInsert "b" [(7, "p")], .row "a" [.delete 1 "y"],
        .tableReset "b", .typedInsert "b" [(8, "q")], .row "b" [.update 8 "q" "r"]] = some final :=
    ⟨_, rfl⟩
  obtain ⟨coalesced, hok, -, -, hrun⟩ :=
    transaction_fold_preserves_effect _ final _ hfinal ⟨by decide, by decide⟩
  refine ⟨coalesced, hok, ?_⟩
  rw [hrun coalesced (List.Perm.refl _)]
  exact some_ne_none _

end ThunderboltDb.Engine
