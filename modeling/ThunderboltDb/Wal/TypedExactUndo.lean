import ThunderboltDb.Wal.WalSafety

/-!
# Undoing and retrying a tentative typed exact append

A reservation goes through `append_typed_exact_tentative`, `rollback_typed_exact_append` and possibly a
second tentative append. `Reserved` is what `reserve_typed_exact_append` returns; the lemmas below give the
outcome of each call on such a reservation, for any state of the buffer.

* `undoAndRetry_iff_drifted` — so the whole contract holds exactly where the first guard refuses.
-/

namespace ThunderboltDb.Wal

open Lib

variable {ι : Type} [DecidableEq ι]

/-- A reservation as `reserve_typed_exact_append` returns it. -/
structure Reserved (r : WalTypedExactAppendReservation ι) (prepared : PreparedCanonicalWalRecord ι)
    (exact : ExactAuthority ι) : Prop where
  prepared_eq : r.prepared = some prepared
  exact_eq : prepared.exact = some exact
  txnId_eq : exact.stableTransactionId = prepared.record.txnId
  authority_eq : r.rollbackAuthority = some exact
  serializedLen_eq : r.expectedSerializedLen = exact.serializedRecord.length
  credit_eq : r.pendingGroupCredit = some exact.serializedRecord.length
  state_eq : r.state = .prepared

theorem triple_reserve_reserved (env : WalEnv ι) (io : SegmentIo) (prepared : PreparedCanonicalWalRecord ι) :
    Triple (fun _ => True) (reserveTypedExactAppend env io prepared)
      (fun r _ => ∃ exact, Reserved r prepared exact) (fun _ _ => True) := by
  unfold reserveTypedExactAppend
  refine .bind (Q := fun _ _ => True) (Triple.modify fun _ _ => trivial) fun _ =>
    Triple.get_bind fun w _ => ?_
  refine .ite (fun _ => .throw fun _ _ => trivial) fun _ => ?_
  match hexact : prepared.exact with
  | none => exact .throw fun _ _ => trivial
  | some exact =>
    unfold reserveExact
    refine .ite (fun _ => .throw fun _ _ => trivial) fun htxn => ?_
    have hany : ∀ {α : Type} (P : WalState ι → Prop) (m : WalM ι α),
        Triple P m (fun _ _ => True) (fun _ _ => True) := by
      intro α P m s _
      cases m s <;> trivial
    refine .bind (Q := fun _ _ => True) (hany _ _) fun _ => ?_
    refine .bind (Q := fun _ _ => True) (hany _ _) fun prior => ?_
    refine .get_bind fun w _ => .pure fun _ _ => ?_
    exact ⟨exact, rfl, hexact, not_not.mp htxn, rfl, rfl, rfl, rfl⟩

variable {w : WalState ι} {r : WalTypedExactAppendReservation ι}

theorem exists_reserved {env : WalEnv ι} {io : SegmentIo} {prepared : PreparedCanonicalWalRecord ι}
    {w' : WalState ι}
    (h : reserveTypedExactAppend env io prepared w = .ok r w') : ∃ exact, Reserved r prepared exact := by
  have htriple := triple_reserve_reserved env io prepared w trivial
  rw [h] at htriple
  exact htriple

section

variable {w : WalState ι} {r : WalTypedExactAppendReservation ι} {prepared : PreparedCanonicalWalRecord ι}
  {exact : ExactAuthority ι}

/-! ### The three outcomes of a tentative append -/

/-- What a refusal behind the first guard leaves: the record is gone and its credit released. -/
def lostReservation (w : WalState ι) (r : WalTypedExactAppendReservation ι) (credit : ℕ) :
    WalState ι × WalTypedExactAppendReservation ι :=
  ({ w with buffer := w.buffer.releaseCredits [credit] },
    { r with prepared := none, pendingGroupCredit := none })

/-- What a tentative append leaves of the reservation. -/
def tentativeReservation (w : WalState ι) (r : WalTypedExactAppendReservation ι) :
    WalTypedExactAppendReservation ι :=
  { r with
    prepared := none
    pendingGroupCredit := none
    state := .tentative w.buffer.records.length (w.buffer.generation + 1) }

theorem tentative_of_drifted (h : tentativeDrifted w.buffer r = true) :
    appendTypedExactTentative (w, r) = .error (.error (.durability
      "typed exact WAL append state drifted before tentative consumption")) (w, r) := by
  show (if tentativeDrifted w.buffer r then _ else _ : ReservationM ι Unit) (w, r) = _
  rw [if_pos h]
  rfl

/-- Behind the first guard: three comparisons, and a refusal by any of them loses record and credit. -/
theorem tentative_eq {credit : ℕ} (h : tentativeDrifted w.buffer r = false)
    (hprepared : r.prepared = some prepared) (hexact : prepared.exact = some exact)
    (hcredit : r.pendingGroupCredit = some credit) :
    appendTypedExactTentative (w, r) =
      if exact.serializedRecord.length ≠ r.expectedSerializedLen ∨
          exact.stableTransactionId ≠ prepared.record.txnId ∨
          r.rollbackAuthority.map (·.serializedRecord) ≠ some exact.serializedRecord then
        .error (.error (.durability "typed exact WAL record binding drifted before tentative append"))
          (lostReservation w r credit)
      else if w.buffer.durableIdentityBinding ≠ r.priorDurableIdentityBinding then
        .error (.error (.durability
          "typed exact WAL lineage verification frontier drifted before tentative append"))
          (lostReservation w r credit)
      else .ok () ({ w with buffer := w.buffer.pushTentative prepared exact credit },
        tentativeReservation w r) := by
  simp only [appendTypedExactTentative, bind, EStateM.bind, get, getThe, MonadStateOf.get, EStateM.get, h,
    hprepared, hcredit, hexact, Bool.false_eq_true, if_false]
  split
  · rfl
  · split
    · rfl
    · rfl

section

variable (hr : Reserved r prepared exact) (h : tentativeDrifted w.buffer r = false)
include hr h

theorem tentative_of_foreignBinding (hbinding : w.buffer.durableIdentityBinding ≠ r.priorDurableIdentityBinding) :
    appendTypedExactTentative (w, r) = .error (.error (.durability
      "typed exact WAL lineage verification frontier drifted before tentative append"))
      (lostReservation w r exact.serializedRecord.length) := by
  rw [tentative_eq h hr.prepared_eq hr.exact_eq hr.credit_eq, if_neg, if_pos hbinding]
  simp [hr.serializedLen_eq, hr.txnId_eq, hr.authority_eq]

theorem tentative_of_reserved (hbinding : w.buffer.durableIdentityBinding = r.priorDurableIdentityBinding) :
    appendTypedExactTentative (w, r) = .ok ()
      ({ w with buffer := w.buffer.pushTentative prepared exact exact.serializedRecord.length },
        tentativeReservation w r) := by
  rw [tentative_eq h hr.prepared_eq hr.exact_eq hr.credit_eq, if_neg, if_neg (not_not_intro hbinding)]
  simp [hr.serializedLen_eq, hr.txnId_eq, hr.authority_eq]

end

/-! ### Rollback -/

def rolledBackState (w : WalState ι) (r : WalTypedExactAppendReservation ι) : WalState ι :=
  { w with buffer := { w.buffer with
      canonicalCatalogTail := r.priorCatalogTail
      durableIdentityBinding := r.priorDurableIdentityBinding
      generation := w.buffer.generation + 2
      typedExactTentativeCount := 0 } }

/-- The reservation a rollback leaves: ready for another append, but without the authority. -/
def rolledBackReservation (w : WalState ι) (r : WalTypedExactAppendReservation ι)
    (prepared : PreparedCanonicalWalRecord ι) (exact : ExactAuthority ι)
    (h : exact.serializedRecord = encodedRecord prepared.record) : WalTypedExactAppendReservation ι :=
  { r with
    pendingGroupCredit := some exact.serializedRecord.length
    rollbackAuthority := none
    prepared := some (restoredRecord prepared.record prepared.tail exact h)
    state := .prepared
    expectedGeneration := w.buffer.generation + 2
    expectedRecordsLen := w.buffer.records.length
    expectedExactWireLen := w.buffer.exactTypedWireRecords.length }

omit [DecidableEq ι] in
theorem Reserved.serialized (hr : Reserved r prepared exact) :
    exact.serializedRecord = encodedRecord prepared.record := prepared.exact_serialized exact hr.exact_eq

omit [DecidableEq ι] in
theorem rollback_of_pushTentative (hr : Reserved r prepared exact) (h : tentativeDrifted w.buffer r = false) :
    rollbackTypedExactAppend
      ({ w with buffer := w.buffer.pushTentative prepared exact exact.serializedRecord.length },
        tentativeReservation w r) =
      .ok () (rolledBackState w r, rolledBackReservation w r prepared exact hr.serialized) := by
  simp only [tentativeDrifted, decide_eq_false_iff_not, not_or, not_not] at h
  obtain ⟨howner, -, hwires, -, -, -⟩ := h
  let pushed := w.buffer.pushTentative prepared exact exact.serializedRecord.length
  let wire : ExactTypedWireRecord := ⟨w.buffer.records.length, prepared.record.payload,
    exact.serializedRecord, .tentative, exact.serializedRecord.length⟩
  have hsettle : settleDrifted pushed (tentativeReservation w r) w.buffer.records.length
      (w.buffer.generation + 1) = false := by
    simp [pushed, settleDrifted, WalBuffer.pushTentative, WalBuffer.push, tentativeReservation, howner, hwires]
  have hwire : pushed.exactTypedWireRecords.getLast? = some wire := List.getLast?_concat
  have hrecord : pushed.records.getLast? = some prepared.record := List.getLast?_concat
  have htail : pushed.canonicalCatalogTail = .known (w.buffer.records.length + 1) (some prepared.tail) := rfl
  have hmatch : wire.recordIndex = w.buffer.records.length ∧ wire.state = .tentative ∧
      wire.serializedRecord.length = r.expectedSerializedLen ∧
      wire.packedPayload = prepared.record.payload ∧ wire.serializedRecord = exact.serializedRecord ∧
      exact.serializedRecord = encodedRecord prepared.record :=
    ⟨rfl, rfl, hr.serializedLen_eq.symm, rfl, rfl, hr.serialized⟩
  show (if settleDrifted pushed (tentativeReservation w r) w.buffer.records.length
      (w.buffer.generation + 1) then _ else _ : ReservationM ι Unit) _ = _
  rw [if_neg (by rw [hsettle]; decide), hwire, htail, hrecord]
  simp only [ne_eq, not_true_eq_false, if_false, tentativeReservation, hr.authority_eq]
  rw [dif_pos hmatch]
  simp [set, EStateM.set, WalBuffer.pushTentative, WalBuffer.push, rolledBackState, rolledBackReservation, wire]

/-- A second tentative append is refused behind the first guard, and loses record and credit: the
authority it compares was moved into the prepared record. -/
theorem tentative_of_rolledBack (hr : Reserved r prepared exact) (h : tentativeDrifted w.buffer r = false) :
    appendTypedExactTentative (rolledBackState w r, rolledBackReservation w r prepared exact hr.serialized) =
      .error (.error (.durability "typed exact WAL record binding drifted before tentative append"))
        (lostReservation (rolledBackState w r)
          (rolledBackReservation w r prepared exact hr.serialized) exact.serializedRecord.length) := by
  simp only [tentativeDrifted, decide_eq_false_iff_not, not_or, not_not] at h
  have hready : tentativeDrifted (rolledBackState w r).buffer
      (rolledBackReservation w r prepared exact hr.serialized) = false := by
    simp [tentativeDrifted, rolledBackState, rolledBackReservation, h.1]
  have hnone : (rolledBackReservation w r prepared exact hr.serialized).rollbackAuthority.map
      (·.serializedRecord) ≠ some exact.serializedRecord := (Option.some_ne_none _).symm
  rw [tentative_eq hready rfl rfl rfl, if_pos (Or.inr (Or.inr hnone))]

end

/-! ### The contract -/

/-- What a rollback restores of the buffer. -/
structure Restores (w w' : WalState ι) : Prop where
  records : w'.buffer.records = w.buffer.records
  wires : w'.buffer.exactTypedWireRecords = w.buffer.exactTypedWireRecords
  catalogTail : w'.buffer.canonicalCatalogTail = w.buffer.canonicalCatalogTail
  binding : w'.buffer.durableIdentityBinding = w.buffer.durableIdentityBinding
  credit : w'.buffer.preparedGroupArena = w.buffer.preparedGroupArena

/-- A tentative append in this state can be undone. -/
def CanUndo (w : WalState ι) (r : WalTypedExactAppendReservation ι) : Prop :=
  ∀ s', appendTypedExactTentative (w, r) = .ok () s' →
    ∃ s'', rollbackTypedExactAppend s' = .ok () s'' ∧ Restores w s''.1

/-- A tentative append in this state can be undone and then repeated, up to the generation counter, and a
refused one changes nothing. -/
structure UndoAndRetry (w : WalState ι) (r : WalTypedExactAppendReservation ι) : Prop where
  undo : CanUndo w r
  retry : ∀ s' s'', appendTypedExactTentative (w, r) = .ok () s' →
    rollbackTypedExactAppend s' = .ok () s'' →
    ∃ s₃, appendTypedExactTentative s'' = .ok () s₃ ∧
      s₃.1.buffer = { s'.1.buffer with generation := s₃.1.buffer.generation }
  refused : ∀ e s', appendTypedExactTentative (w, r) = .error e s' →
    s'.1.buffer = w.buffer ∧ s'.2.prepared = r.prepared ∧ s'.2.pendingGroupCredit = r.pendingGroupCredit

theorem undoAndRetry_of_drifted (h : tentativeDrifted w.buffer r = true) : UndoAndRetry w r where
  undo := by
    intro s' hs'
    rw [tentative_of_drifted h] at hs'
    cases hs'
  retry := by
    intro s' s'' hs'
    rw [tentative_of_drifted h] at hs'
    cases hs'
  refused := by
    intro e s' hs'
    rw [tentative_of_drifted h] at hs'
    cases hs'
    exact ⟨rfl, rfl, rfl⟩

section

variable {w : WalState ι} {r : WalTypedExactAppendReservation ι} {prepared : PreparedCanonicalWalRecord ι}
  {exact : ExactAuthority ι}

theorem canUndo_of_reserved (hr : Reserved r prepared exact)
    (htail : w.buffer.canonicalCatalogTail = r.priorCatalogTail) : CanUndo w r := by
  intro s' hs'
  cases hdrift : tentativeDrifted w.buffer r with
  | true =>
    rw [tentative_of_drifted hdrift] at hs'
    cases hs'
  | false =>
    by_cases hbinding : w.buffer.durableIdentityBinding = r.priorDurableIdentityBinding
    · rw [tentative_of_reserved hr hdrift hbinding] at hs'
      cases hs'
      exact ⟨_, rollback_of_pushTentative hr hdrift, rfl, rfl, htail.symm, hbinding.symm, rfl⟩
    · rw [tentative_of_foreignBinding hr hdrift hbinding] at hs'
      cases hs'

theorem not_undoAndRetry_of_reserved (hr : Reserved r prepared exact)
    (hdrift : tentativeDrifted w.buffer r = false) : ¬ UndoAndRetry w r := by
  intro h
  by_cases hbinding : w.buffer.durableIdentityBinding = r.priorDurableIdentityBinding
  · obtain ⟨s₃, hs₃, -⟩ := h.retry _ _ (tentative_of_reserved hr hdrift hbinding)
      (rollback_of_pushTentative hr hdrift)
    rw [tentative_of_rolledBack hr hdrift] at hs₃
    cases hs₃
  · obtain ⟨-, hprepared, -⟩ := h.refused _ _ (tentative_of_foreignBinding hr hdrift hbinding)
    rw [hr.prepared_eq] at hprepared
    cases hprepared

end

/-- **Undo and retry.**  For every reservation that `reserve_typed_exact_append` returned and every state of
the buffer: a tentative append is undone by a rollback whenever the catalog-tail cache is the one the
reservation saw; but the whole contract, retry and harmless refusal included, holds exactly in the states
in which the first guard refuses the append. -/
theorem undoAndRetry_iff_drifted (env : WalEnv ι) (io : SegmentIo)
    (prepared : PreparedCanonicalWalRecord ι) (w₀ w₁ w : WalState ι)
    (r : WalTypedExactAppendReservation ι)
    (h : reserveTypedExactAppend env io prepared w₀ = .ok r w₁) :
    (w.buffer.canonicalCatalogTail = r.priorCatalogTail → CanUndo w r) ∧
      (UndoAndRetry w r ↔ tentativeDrifted w.buffer r = true) := by
  obtain ⟨exact, hr⟩ := exists_reserved h
  refine ⟨canUndo_of_reserved hr, ?_, undoAndRetry_of_drifted⟩
  intro hcontract
  by_contra hdrift
  exact not_undoAndRetry_of_reserved hr (Bool.not_eq_true _ ▸ hdrift) hcontract

/-- A record with one payload byte, sealed. -/
def sealedRecord : PreparedCanonicalWalRecord Unit where
  record := ⟨7, [1], by decide⟩
  tail := ⟨(), 0, []⟩
  exact := some ⟨(), 7, encodedRecord ⟨7, [1], by decide⟩⟩
  exact_serialized := by
    intro e he
    rw [Option.mem_some_iff] at he
    rw [← he]

/-- On a fresh log the record is reserved and the append is not refused. -/
theorem exists_reservation : ∃ r w₁, reserveTypedExactAppend plainEnv {} sealedRecord freshSystem.wal = .ok r
    w₁ ∧
      tentativeDrifted w₁.buffer r = false ∧
      w₁.buffer.durableIdentityBinding = r.priorDurableIdentityBinding ∧
      w₁.buffer.canonicalCatalogTail = r.priorCatalogTail := by
  have hok : (match reserveTypedExactAppend plainEnv {} sealedRecord freshSystem.wal with
    | .ok r w₁ => !tentativeDrifted w₁.buffer r &&
        decide (w₁.buffer.durableIdentityBinding = r.priorDurableIdentityBinding) &&
        decide (w₁.buffer.canonicalCatalogTail = r.priorCatalogTail)
    | .error _ _ => false) = true := by decide +kernel
  cases hres : reserveTypedExactAppend plainEnv {} sealedRecord freshSystem.wal with
  | error e w₁ =>
    rw [hres] at hok
    cases hok
  | ok r w₁ =>
    rw [hres] at hok
    simp only [Bool.and_eq_true, Bool.not_eq_true', decide_eq_true_eq] at hok
    exact ⟨r, w₁, rfl, hok.1.1, hok.1.2, hok.2⟩

theorem undoAndRetry_iff_drifted_fresh : ∃ r w₁,
    reserveTypedExactAppend plainEnv {} sealedRecord freshSystem.wal = .ok r w₁ ∧ CanUndo w₁ r := by
  obtain ⟨r, w₁, hres, -, -, htail⟩ := exists_reservation
  exact ⟨r, w₁, hres, (undoAndRetry_iff_drifted plainEnv {} sealedRecord _ w₁ w₁ r hres).1 htail⟩

/-- Reserve, append, roll back and append again on a fresh log: the second append is refused, and the
reservation has lost its record and its credit. -/
theorem rolled_back_record_is_not_retried : ∃ r w₁ s₂ s₃ s₄,
    reserveTypedExactAppend plainEnv {} sealedRecord freshSystem.wal = .ok r w₁ ∧
      appendTypedExactTentative (w₁, r) = .ok () s₂ ∧ rollbackTypedExactAppend s₂ = .ok () s₃ ∧
      appendTypedExactTentative s₃ = .error (.error (.durability
        "typed exact WAL record binding drifted before tentative append")) s₄ ∧
      s₄.2.prepared = none ∧ s₄.2.pendingGroupCredit = none ∧ ¬ UndoAndRetry w₁ r := by
  obtain ⟨r, w₁, hres, hdrift, hbinding, -⟩ := exists_reservation
  obtain ⟨exact, hr⟩ := exists_reserved hres
  exact ⟨r, w₁, _, _, _, hres, tentative_of_reserved hr hdrift hbinding,
    rollback_of_pushTentative hr hdrift, tentative_of_rolledBack hr hdrift, rfl, rfl,
    not_undoAndRetry_of_reserved hr hdrift⟩

end ThunderboltDb.Wal
