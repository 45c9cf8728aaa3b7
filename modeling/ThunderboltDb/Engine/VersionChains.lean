import ThunderboltDb.Engine.TransactionFold
import ThunderboltDb.Lib.ByteCodec

/-!
# The version chains that are coalesced

`coalesce_transaction_mutations` forgets a row once its insert and its delete cancel, so it does not see that an
update or a delete behind them finds no row.

* `coalesced_applies_iff` — the accepted lists that apply to some base state.
-/

namespace ThunderboltDb.Engine

open Lib Function List

variable {rows rows' : Rows} {mutation first : BinaryTransactionMutation} {s s' : NetState}
  {mutations : List BinaryTransactionMutation} {identity : RowIdentity}

def nextOf (identity : RowIdentity) (mutations : List BinaryTransactionMutation) : Option BinaryTransactionMutation :=
  mutations.find? (·.identity = identity)

/-- Behind a delete of a row, the next mutation of it is an insert. -/
def Reinserts : List BinaryTransactionMutation → Prop
  | [] => True
  | mutation :: mutations =>
    (mutation.newImage = none → ∀ next ∈ nextOf mutation.identity mutations, next.oldImage = none) ∧
      Reinserts mutations

theorem nextOf_self : nextOf mutation.identity (mutation :: mutations) = some mutation :=
  find?_cons_of_pos (decide_eq_true rfl)

theorem nextOf_of_ne (h : identity ≠ mutation.identity) :
    nextOf identity (mutation :: mutations) = nextOf identity mutations :=
  find?_cons_of_neg (by simpa using h.symm)

theorem oldImage_of_run (h : runMutations rows mutations = some rows')
    (hfirst : nextOf identity mutations = some first) : rows identity = first.oldImage := by
  induction mutations generalizing rows with
  | nil => cases hfirst
  | cons mutation mutations ih =>
    obtain ⟨hold, hrest⟩ := runMutations_cons.mp h
    by_cases heq : identity = mutation.identity
    · rw [heq, nextOf_self] at hfirst
      rw [heq, hold, Option.some.inj hfirst]
    · rw [nextOf_of_ne heq] at hfirst
      rw [← ih hrest hfirst, update_of_ne heq]

theorem reinserts_of_run (h : runMutations rows mutations = some rows') : Reinserts mutations := by
  induction mutations generalizing rows with
  | nil => trivial
  | cons mutation mutations ih =>
    obtain ⟨-, hrest⟩ := runMutations_cons.mp h
    refine ⟨fun hdelete next hnext => ?_, ih hrest⟩
    rw [← oldImage_of_run hrest hnext, update_self, hdelete]

/-- **One round.**  It replaces the net mutation of its row, by one that leaves the mutation's new image or, at a
delete, by none; and a net mutation that was there left the old one. -/
theorem netStep_ok (h : netStep s mutation = .ok s') : ∃ entry,
    s'.net = Function.update s.net mutation.identity entry ∧ (entry = none → mutation.newImage = none) ∧
      (∀ net, entry = some net → net.newImage = mutation.newImage) ∧
      ∀ net, s.net mutation.identity = some net → net.newImage = mutation.oldImage := by
  cases hnet : s.net mutation.identity with
  | none =>
    cases mutation <;>
    · simp only [netStep, hnet, Except.ok.injEq] at h
      subst h
      exact ⟨_, rfl, by simp, by rintro _ ⟨⟩; rfl, by simp⟩
  | some net =>
    cases mutation <;> cases net <;> simp only [netStep, hnet, reduceCtorEq, ne_eq, ite_not] at h
    all_goals
      split at h
      · rename_i hold
        cases h
        subst hold
        exact ⟨_, rfl, by simp [BinaryTransactionMutation.newImage], by rintro _ ⟨⟩ <;> rfl,
          by rintro _ ⟨⟩; rfl⟩
      · cases h

/-- A row with a net mutation is as that one left it, and any other one is as its next mutation wants it. -/
structure Expects (rows : Rows) (s : NetState) (mutations : List BinaryTransactionMutation) : Prop where
  net : ∀ identity net, s.net identity = some net → rows identity = net.newImage
  next : ∀ identity, s.net identity = none → ∀ next ∈ nextOf identity mutations, rows identity = next.oldImage

/-- The loop: a row that a delete takes out of the table is gone, and an insert comes next. -/
theorem Expects.run (h : Expects rows s mutations) (hchain : Reinserts mutations)
    (hrun : mutations.foldlM netStep s = .ok s') : ∃ rows', runMutations rows mutations = some rows' := by
  induction mutations generalizing rows s with
  | nil => exact ⟨rows, rfl⟩
  | cons mutation mutations ih =>
    obtain ⟨s₁, hnext, hrest⟩ := bind_ok.mp hrun
    obtain ⟨entry, htable, hgone, hnew, hold⟩ := netStep_ok hnext
    have himage : rows mutation.identity = mutation.oldImage := by
      cases hnet : s.net mutation.identity with
      | none => exact h.next _ hnet _ nextOf_self
      | some net => rw [h.net _ net hnet, hold net hnet]
    have hkept : Expects (Function.update rows mutation.identity mutation.newImage) s₁ mutations := by
      constructor <;> intro identity
      · intro net hnet
        rw [htable] at hnet
        by_cases heq : identity = mutation.identity
        · subst heq
          rw [update_self] at hnet ⊢
          exact (hnew net hnet).symm
        · rw [update_of_ne heq] at hnet ⊢
          exact h.net identity net hnet
      · intro hnet next hmem
        rw [htable] at hnet
        by_cases heq : identity = mutation.identity
        · subst heq
          rw [update_self] at hnet ⊢
          rw [hgone hnet, hchain.1 (hgone hnet) next hmem]
        · rw [update_of_ne heq] at hnet ⊢
          exact h.next identity hnet next (by rwa [nextOf_of_ne heq])
    obtain ⟨rows', hrows'⟩ := ih hkept hchain.2 hrest
    exact ⟨rows', runMutations_cons.mpr ⟨himage, hrows'⟩⟩

/-- An accepted list applies to some base state exactly when no row is updated or deleted right behind a delete of
it. -/
theorem coalesced_applies_iff (mutations coalesced : List BinaryTransactionMutation)
    (h : coalesceTransactionMutations mutations = .ok coalesced) :
    (∃ base final, runMutations base mutations = some final) ↔ Reinserts mutations := by
  constructor
  · rintro ⟨base, final, hrun⟩
    exact reinserts_of_run hrun
  · intro hchain
    obtain ⟨s, hloop, -⟩ := bind_ok.mp h
    -- the base state that every row's first mutation asks for
    refine ⟨fun identity => (nextOf identity mutations).elim none (·.oldImage), ?_⟩
    refine Expects.run ⟨fun _ _ hnet => (by cases hnet), fun identity _ next hnext => ?_⟩ hchain hloop
    rw [hnext]
    rfl

theorem coalesced_applies_reinserted : ∃ base final, runMutations base
    [.insert "t" 1 "a", .delete "t" 1 "a", .insert "t" 1 "b"] = some final := by
  refine (coalesced_applies_iff _ [.insert "t" 1 "b"] rfl).mpr ⟨nofun, fun _ _ hnext => ?_, nofun, trivial⟩
  cases hnext
  rfl

/-- An update behind an insert and a delete that cancel is accepted, and finds no row. -/
theorem coalesces_discontinuous_chain :
    coalesceTransactionMutations [.insert "t" 1 "a", .delete "t" 1 "a", .update "t" 1 "b" "c"] =
        .ok [.update "t" 1 "b" "c"] ∧
      ¬ ∃ base final, runMutations base [.insert "t" 1 "a", .delete "t" 1 "a", .update "t" 1 "b" "c"] =
        some final := by
  refine ⟨rfl, ?_⟩
  rintro ⟨base, final, h⟩
  exact nomatch (reinserts_of_run h).2.1 rfl _ rfl

end ThunderboltDb.Engine
