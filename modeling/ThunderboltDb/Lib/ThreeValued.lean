import Mathlib.Tactic

/-!
# Three-valued logic

Truth values of a logic with an UNKNOWN are `Option Bool`, where `none` is UNKNOWN. `kleeneAnd` and `kleeneOr`
are Kleene's connectives. A formula built from them is TRUE exactly when the two-valued formula over "is
TRUE" is, so a filter that keeps the TRUE rows may forget which of the others are UNKNOWN.
-/

namespace ThunderboltDb.Lib

/-- Kleene's conjunction: FALSE if a side is FALSE, TRUE if both are TRUE. -/
def kleeneAnd : Option Bool → Option Bool → Option Bool
  | some false, _ => some false
  | _, some false => some false
  | some true, some true => some true
  | _, _ => none

/-- Kleene's disjunction: TRUE if a side is TRUE, FALSE if both are FALSE. -/
def kleeneOr : Option Bool → Option Bool → Option Bool
  | some true, _ => some true
  | _, some true => some true
  | some false, some false => some false
  | _, _ => none

variable {a b : Option Bool}

theorem kleeneAnd_eq_true : kleeneAnd a b = some true ↔ a = some true ∧ b = some true := by
  rcases a with _ | _ | _ <;> rcases b with _ | _ | _ <;> simp [kleeneAnd]

theorem kleeneOr_eq_true : kleeneOr a b = some true ↔ a = some true ∨ b = some true := by
  rcases a with _ | _ | _ <;> rcases b with _ | _ | _ <;> simp [kleeneOr]

end ThunderboltDb.Lib
