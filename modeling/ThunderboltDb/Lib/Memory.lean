import Mathlib

/-!
# Memories and what they hold

A memory is a function from addresses to cells. `write` replaces the cells of one extent and
`Holds m off cells` says that the extent from `off` on reads `cells`. The rules are the two that extents
need: a write is read back (`holds_write`), and it keeps every extent it does not meet
(`Holds.write_of_disjoint`); `holds_append` cuts an extent in two.
-/

namespace ThunderboltDb.Lib

/-- Cells of type `β` at every address. -/
abbrev Memory (β : Type*) := ℕ → β

namespace Memory

variable {β γ : Type*} {m : Memory β} {off off' : ℕ} {cells cells' : List β}

/-- Replace the cells from `off` on by `cells`. -/
def write (m : Memory β) (off : ℕ) (cells : List β) : Memory β := fun a =>
  if off ≤ a then (cells[a - off]?).getD (m a) else m a

/-- The `n` cells from `off` on. -/
def read (m : Memory β) (off n : ℕ) : List β := (List.range n).map fun i => m (off + i)

/-- The extent from `off` on reads `cells`. -/
def Holds (m : Memory β) (off : ℕ) (cells : List β) : Prop :=
  ∀ i c, cells[i]? = some c → m (off + i) = c

@[simp] theorem length_read (m : Memory β) (off n : ℕ) : (m.read off n).length = n := by simp [read]

@[simp] theorem holds_nil : m.Holds off [] := by
  intro i c h
  simp at h

theorem holds_write : (m.write off cells).Holds off cells := by
  intro i c h
  simp [write, h]

/-- A write keeps an extent that it does not meet. -/
theorem Holds.write_of_disjoint (h : m.Holds off cells)
    (hd : off + cells.length ≤ off' ∨ off' + cells'.length ≤ off) :
    (m.write off' cells').Holds off cells := by
  intro i c hc
  have hi : i < cells.length := (List.getElem?_eq_some_iff.mp hc).1
  have hread := h i c hc
  by_cases hle : off' ≤ off + i
  · have hout : cells'[off + i - off']? = none := List.getElem?_eq_none (by omega)
    simp [write, hle, hout, hread]
  · simp [write, hle, hread]

theorem holds_append : m.Holds off (cells ++ cells') ↔ m.Holds off cells ∧ m.Holds (off + cells.length) cells' := by
  constructor
  · intro h
    constructor
    · intro i c hc
      have hi : i < cells.length := (List.getElem?_eq_some_iff.mp hc).1
      exact h i c (by rw [List.getElem?_append_left hi, hc])
    · intro i c hc
      have := h (cells.length + i) c (by simp [List.getElem?_append_right, hc])
      rw [← Nat.add_assoc] at this
      exact this
  · rintro ⟨hl, hr⟩ i c hc
    by_cases hi : i < cells.length
    · rw [List.getElem?_append_left hi] at hc
      exact hl i c hc
    · rw [List.getElem?_append_right (by omega)] at hc
      have := hr _ c hc
      rwa [show off + cells.length + (i - cells.length) = off + i by omega] at this

/-- An extent is read back as its cells. -/
theorem Holds.read_eq (h : m.Holds off cells) : m.read off cells.length = cells := by
  apply List.ext_getElem?
  intro i
  by_cases hi : i < cells.length
  · have hcell := h i _ (List.getElem?_eq_getElem hi)
    simp [read, hi, hcell]
  · simp [read, hi]

end Memory

end ThunderboltDb.Lib
