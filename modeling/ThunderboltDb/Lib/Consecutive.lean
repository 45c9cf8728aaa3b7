import Mathlib

/-!
# Lists keyed by consecutive numbers

`Consecutive key first l` says that the keys of `l` are `first, first + 1, …`. Filters by a bound on the
key are then prefixes and suffixes, a search by key is an index, and sorting by key changes nothing.
-/

namespace ThunderboltDb.Lib

open List

variable {α : Type*} {key : α → ℕ}

/-- The keys of the list are `first`, `first + 1`, and so on. -/
def Consecutive (key : α → ℕ) : ℕ → List α → Prop
  | _, [] => True
  | first, a :: l => key a = first ∧ Consecutive key (first + 1) l

namespace Consecutive

variable {first : ℕ} {l : List α} {a : α}

@[simp] theorem nil (first : ℕ) : Consecutive key first [] := trivial

@[simp] theorem cons_iff : Consecutive key first (a :: l) ↔ key a = first ∧ Consecutive key (first + 1) l := Iff.rfl

section

variable (h : Consecutive key first l)
include h

theorem key_getElem? {i : ℕ} (hi : l[i]? = some a) : key a = first + i := by
  induction l generalizing first i with
  | nil => simp at hi
  | cons b l ih =>
    cases i with
    | zero =>
      simp only [getElem?_cons_zero, Option.some.injEq] at hi
      rw [← hi, h.1, Nat.add_zero]
    | succ i =>
      rw [getElem?_cons_succ] at hi
      rw [ih h.2 hi]
      omega

theorem key_bounds (ha : a ∈ l) : first ≤ key a ∧ key a < first + l.length := by
  obtain ⟨i, hi⟩ := List.mem_iff_getElem?.mp ha
  have hlt : i < l.length := (List.getElem?_eq_some_iff.mp hi).1
  rw [h.key_getElem? hi]
  omega

/-- Elements of the same key are equal. -/
theorem unique {b : α} (ha : a ∈ l) (hb : b ∈ l) (hkey : key a = key b) : a = b := by
  obtain ⟨i, hi⟩ := mem_iff_getElem?.mp ha
  obtain ⟨j, hj⟩ := mem_iff_getElem?.mp hb
  rw [h.key_getElem? hi, h.key_getElem? hj] at hkey
  obtain rfl : i = j := by omega
  exact Option.some.inj (hi.symm.trans hj)

theorem append {l' : List α} (h' : Consecutive key (first + l.length) l') : Consecutive key first (l ++ l') := by
  induction l generalizing first with
  | nil => simpa using h'
  | cons a l ih =>
    refine ⟨h.1, ih h.2 ?_⟩
    rw [length_cons] at h'
    rwa [show first + 1 + l.length = first + (l.length + 1) by omega]

end

section

variable (h : Consecutive key first l)
include h

theorem snoc (ha : key a = first + l.length) : Consecutive key first (l ++ [a]) := h.append ⟨ha, trivial⟩

variable (k : ℕ)

theorem take : Consecutive key first (l.take k) := by
  induction l generalizing first k with
  | nil => simp
  | cons a l ih =>
    cases k with
    | zero => simp
    | succ k => exact ⟨h.1, ih h.2 k⟩

theorem drop : Consecutive key (first + k) (l.drop k) := by
  induction l generalizing first k with
  | nil => simp
  | cons a l ih =>
    cases k with
    | zero => exact h
    | succ k =>
      rw [drop_succ_cons, show first + (k + 1) = first + 1 + k by omega]
      exact ih h.2 k

/-- The elements below a key are a prefix. -/
theorem filter_lt : l.filter (fun a => key a < k) = l.take (k - first) := by
  induction l generalizing first with
  | nil => simp
  | cons a l ih =>
    by_cases hk : first < k
    · rw [filter_cons_of_pos (by simpa [h.1] using hk), ih h.2,
        show k - first = k - (first + 1) + 1 by omega, take_succ_cons]
    · rw [filter_cons_of_neg (by simpa [h.1] using hk), ih h.2, show k - first = 0 by omega,
        show k - (first + 1) = 0 by omega, take_zero, take_zero]

theorem filter_le : l.filter (fun a => key a ≤ k) = l.take (k + 1 - first) := by
  rw [← h.filter_lt (k + 1)]
  congr 1
  funext a
  rw [decide_eq_decide]
  omega

/-- The elements above a key are a suffix. -/
theorem filter_gt : l.filter (fun a => k < key a) = l.drop (k + 1 - first) := by
  induction l generalizing first with
  | nil => simp
  | cons a l ih =>
    by_cases hk : k < first
    · rw [filter_cons_of_pos (by simpa [h.1] using hk), ih h.2, show k + 1 - first = 0 by omega,
        show k + 1 - (first + 1) = 0 by omega, drop_zero, drop_zero]
    · rw [filter_cons_of_neg (by simpa [h.1] using hk), ih h.2,
        show k + 1 - first = k + 1 - (first + 1) + 1 by omega, drop_succ_cons]

/-- The element of a key, by position. -/
theorem find?_eq {k : ℕ} (hk : first ≤ k) : l.find? (fun a => key a = k) = l[k - first]? := by
  induction l generalizing first with
  | nil => simp
  | cons a l ih =>
    by_cases heq : first = k
    · rw [find?_cons_of_pos (by simpa [h.1] using heq), heq, Nat.sub_self, getElem?_cons_zero]
    · rw [find?_cons_of_neg (by simpa [h.1] using heq), ih h.2 (by omega),
        show k - first = k - (first + 1) + 1 by omega, getElem?_cons_succ]

/-- The last key, with a value for the empty list. -/
theorem getLast?_getD (hl : l ≠ []) (d : ℕ) : (l.getLast?.map key).getD d + 1 = first + l.length := by
  have hpos := length_pos_iff.mpr hl
  rw [getLast?_eq_some_getLast hl]
  have hlast : l[l.length - 1]? = some (l.getLast hl) := by
    rw [← getLast?_eq_getElem?, getLast?_eq_some_getLast hl]
  simp only [Option.map_some, Option.getD_some]
  rw [h.key_getElem? hlast]
  omega

theorem sorted : l.Pairwise fun a b => key a ≤ key b := by
  induction l generalizing first with
  | nil => exact List.Pairwise.nil
  | cons a l ih =>
    refine List.Pairwise.cons (fun b hb => ?_) (ih h.2)
    have := (h.2.key_bounds hb).1
    rw [h.1]
    omega

end

end Consecutive

end ThunderboltDb.Lib
