import ThunderboltDb.Lib.LittleEndian

/-!
# Sections laid down in a buffer

`Stands buf off cells` says that `cells` are found in `buf` from `off` on. A buffer that is written as one
chunk after the other is `chunks.flatten`, and the chunk with index `i` starts at `chunkStart chunks i`:

* `stands_flatten` — every chunk stands at its start, and `chunkStart_uniform` is its start when all chunks
  are of one length;
* `apart_groups` — in a buffer of groups of chunks no two chunks share a cell;
* `bitAt_packBits` — bits packed into words of 32 are read back.
-/

namespace ThunderboltDb.Lib

open List

variable {β γ : Type*}

/-- `cells` stand in `buf` from `off` on. -/
def Stands (buf : List β) (off : ℕ) (cells : List β) : Prop :=
  ∃ before after, buf = before ++ (cells ++ after) ∧ before.length = off

/-- The `n` cells of `buf` from `off` on, when there are so many. -/
def window (buf : List β) (off n : ℕ) : Option (List β) :=
  if off + n ≤ buf.length then some ((buf.drop off).take n) else none

/-- A window is still there when the buffer grows at its end. -/
theorem window_append {buf cells : List β} {off n : ℕ} (h : window buf off n = some cells) (more : List β) :
    window (buf ++ more) off n = some cells := by
  unfold window at h ⊢
  split at h
  · rename_i hle
    rw [if_pos (by rw [length_append]; omega), ← h, drop_append_of_le_length (by omega),
      take_append_of_le_length (by rw [length_drop]; omega)]
  · cases h

namespace Stands

variable {buf mid cells xs ys : List β} {off o : ℕ}

section

variable (h : Stands buf off cells)
include h

theorem le : off + cells.length ≤ buf.length := by
  obtain ⟨before, after, rfl, rfl⟩ := h
  simp only [length_append]
  omega

theorem window_eq : window buf off cells.length = some cells := by
  rw [window, if_pos h.le]
  obtain ⟨before, after, rfl, rfl⟩ := h
  rw [drop_left, take_left]

theorem append_right (more : List β) : Stands (buf ++ more) off cells := by
  obtain ⟨before, after, rfl, hlen⟩ := h
  exact ⟨before, after ++ more, by simp only [append_assoc], hlen⟩

theorem append_left (before : List β) : Stands (before ++ buf) (before.length + off) cells := by
  obtain ⟨first, after, rfl, rfl⟩ := h
  exact ⟨before ++ first, after, by simp only [append_assoc], length_append⟩

end

/-- What stands in a part of the buffer stands in the buffer. -/
theorem trans (h : Stands buf off mid) (hin : Stands mid o cells) : Stands buf (off + o) cells := by
  obtain ⟨before, after, rfl, rfl⟩ := h
  exact (hin.append_right after).append_left before

theorem left (h : Stands buf off (xs ++ ys)) : Stands buf off xs := h.trans ⟨[], ys, rfl, rfl⟩

theorem right (h : Stands buf off (xs ++ ys)) : Stands buf (off + xs.length) ys :=
  h.trans ⟨xs, [], by rw [append_nil], rfl⟩

end Stands

/-! ### Chunks -/

/-- Where the chunk with index `i` starts. -/
def chunkStart (chunks : List (List β)) (i : ℕ) : ℕ := (chunks.take i).flatten.length

variable {chunks : List (List β)} {i j : ℕ} {c : List β}

theorem chunkStart_succ (h : chunks[i]? = some c) : chunkStart chunks (i + 1) = chunkStart chunks i + c.length := by
  rw [chunkStart, take_add_one, h, Option.toList_some, flatten_append, length_append,
    flatten_singleton]
  rfl

theorem chunkStart_mono (h : i ≤ j) : chunkStart chunks i ≤ chunkStart chunks j := by
  obtain ⟨d, rfl⟩ := Nat.exists_eq_add_of_le h
  rw [chunkStart, chunkStart, take_add, flatten_append, length_append]
  exact Nat.le_add_right _ _

theorem chunkStart_le (chunks : List (List β)) (i : ℕ) : chunkStart chunks i ≤ chunks.flatten.length := by
  have hle := @chunkStart_mono _ chunks i (max i chunks.length) (le_max_left _ _)
  rwa [chunkStart, chunkStart, take_of_length_le (le_max_right _ _)] at hle

theorem chunkStart_le_of_lt (h : chunks[i]? = some c) (hij : i < j) :
    chunkStart chunks i + c.length ≤ chunkStart chunks j := by
  rw [← chunkStart_succ h]
  exact chunkStart_mono hij

theorem chunkStart_uniform {w : ℕ} (hw : ∀ c ∈ chunks, c.length = w) (hi : i ≤ chunks.length) :
    chunkStart chunks i = i * w := by
  induction i with
  | zero => rw [chunkStart, take_zero, flatten_nil, length_nil, Nat.zero_mul]
  | succ i ih =>
    have hget := getElem?_eq_getElem hi
    rw [chunkStart_succ hget, ih (Nat.le_of_succ_le hi), hw _ (getElem_mem hi), Nat.succ_mul]

theorem stands_flatten (h : chunks[i]? = some c) : Stands chunks.flatten (chunkStart chunks i) c := by
  obtain ⟨hi, rfl⟩ := List.getElem?_eq_some_iff.mp h
  refine ⟨(chunks.take i).flatten, (chunks.drop (i + 1)).flatten, ?_, rfl⟩
  rw [← List.flatten_cons, ← List.drop_eq_getElem_cons hi, ← List.flatten_append, List.take_append_drop]

/-- The cell with index `i` of a run of cells that all take `w`. -/
theorem stands_flatMap {xs : List γ} {x : γ} {f : γ → List β} {w : ℕ} (hw : ∀ x ∈ xs, (f x).length = w)
    (hx : xs[i]? = some x) : Stands (xs.flatMap f) (i * w) (f x) := by
  have hi : i < xs.length := (List.getElem?_eq_some_iff.mp hx).1
  have hall : ∀ c ∈ xs.map f, c.length = w := by
    intro c hc
    obtain ⟨y, hy, rfl⟩ := List.mem_map.mp hc
    exact hw y hy
  have hstands : Stands (xs.map f).flatten (chunkStart (xs.map f) i) (f x) := by
    apply stands_flatten
    rw [List.getElem?_map, hx, Option.map_some]
  rw [chunkStart_uniform hall (by rw [List.length_map]; exact hi.le)] at hstands
  rw [List.flatMap_def]
  exact hstands

/-! ### Groups of chunks -/

/-- Two extents share no cell. -/
def Apart (a b : ℕ × ℕ) : Prop := a.1 + a.2 ≤ b.1 ∨ b.1 + b.2 ≤ a.1

variable {a b : ℕ × ℕ}

theorem Apart.symm (h : Apart a b) : Apart b a := Or.symm h

/-- An extent inside another one keeps away from what that one keeps away from. -/
theorem Apart.inside {a' b' : ℕ × ℕ} (h : Apart a b) (ha : a.1 ≤ a'.1) (ha' : a'.1 + a'.2 ≤ a.1 + a.2)
    (hb : b.1 ≤ b'.1) (hb' : b'.1 + b'.2 ≤ b.1 + b.2) : Apart a' b' := by
  unfold Apart at *
  omega

section

variable (groups : List (List (List β)))

def groupStart (g k : ℕ) : ℕ :=
  chunkStart (groups.map flatten) g + chunkStart (groups.getD g []) k

/-- The chunk `k` of the group `g`. -/
def groupChunk (g k : ℕ) : Option (List β) := (groups.getD g [])[k]?

/-- The groups one after the other. -/
def joinGroups : List β := (groups.map flatten).flatten

end

section Groups

variable {groups : List (List (List β))} {g g' k k' : ℕ} {c c' : List β}

theorem getElem?_flatten_of_groupChunk (h : groupChunk groups g k = some c) :
    (groups.map flatten)[g]? = some (groups.getD g []).flatten := by
  cases hg : groups[g]? with
  | none => simp [groupChunk, getD_eq_getElem?_getD, hg] at h
  | some group => simp [getD_eq_getElem?_getD, hg]

theorem chunkStart_groups_succ (groups : List (List (List β))) (g : ℕ) :
    chunkStart (groups.map flatten) (g + 1)
      = chunkStart (groups.map flatten) g + (groups.getD g []).flatten.length := by
  cases hg : groups[g]? with
  | none => simp [chunkStart, getD_eq_getElem?_getD, hg, take_add_one]
  | some group =>
    rw [@chunkStart_succ _ _ g group.flatten (by rw [getElem?_map, hg, Option.map_some]),
      getD_eq_getElem?_getD, hg, Option.getD_some]

theorem stands_joinGroups (h : groupChunk groups g k = some c) :
    Stands (joinGroups groups) (groupStart groups g k) c :=
  (stands_flatten (getElem?_flatten_of_groupChunk h)).trans (stands_flatten h)

section

variable (h : groupChunk groups g k = some c) (h' : groupChunk groups g' k' = some c')
include h h'

theorem groupStart_le_of_lt (hlt : g < g' ∨ (g = g' ∧ k < k')) :
    groupStart groups g k + c.length ≤ groupStart groups g' k' := by
  rcases hlt with hg | ⟨rfl, hk⟩
  · have hin := (stands_flatten h).le
    have hnext := chunkStart_le_of_lt (getElem?_flatten_of_groupChunk h) hg
    unfold groupStart
    omega
  · have hnext := chunkStart_le_of_lt h hk
    unfold groupStart
    omega

/-- Different chunks do not overlap. -/
theorem apart_groups (hne : ¬ (g = g' ∧ k = k')) :
    Apart (groupStart groups g k, c.length) (groupStart groups g' k', c'.length) := by
  by_cases hlt : g < g' ∨ (g = g' ∧ k < k')
  · exact Or.inl (groupStart_le_of_lt h h' hlt)
  · exact Or.inr (groupStart_le_of_lt h' h (by omega))

end

end Groups

/-! ### Bits in words of 32 -/

/-- The bit with index `i`, the first one lowest in the first word. -/
def bitAt (words : List UInt32) (i : ℕ) : Bool := (words.getD (i / 32) 0).toNat.testBit (i % 32)

/-- `words[i / 32] |= 1u32 << (i % 32)`. -/
def setBit (words : List UInt32) (i : ℕ) : List UInt32 :=
  words.modify (i / 32) fun word => word ||| 1 <<< UInt32.ofNat (i % 32)

/-- Set the bits with indices from `i` on that are `true`. -/
def setBits : List UInt32 → ℕ → List Bool → List UInt32
  | words, _, [] => words
  | words, i, bit :: bits => setBits (if bit then setBit words i else words) (i + 1) bits

/-- The bits in `count` words. -/
def packBits (count : ℕ) (bits : List Bool) : List UInt32 := setBits (replicate count 0) 0 bits

@[simp] theorem length_setBit (words : List UInt32) : (setBit words i).length = words.length :=
  length_modify _ _ _

variable {i : ℕ} {words : List UInt32}

theorem testBit_or_shift (word : UInt32) {j : ℕ} (hi : i < 32) :
    (word ||| 1 <<< UInt32.ofNat i).toNat.testBit j = (word.toNat.testBit j || decide (i = j)) := by
  have hi' : (UInt32.ofNat i).toNat = i := by
    rw [UInt32.toNat_ofNat']
    exact Nat.mod_eq_of_lt (by omega)
  have hlt : 2 ^ i < 2 ^ 32 := Nat.pow_lt_pow_right (by decide) hi
  have hshift : ((1 : UInt32) <<< UInt32.ofNat i).toNat = 2 ^ i := by
    rw [UInt32.toNat_shiftLeft, hi', Nat.mod_eq_of_lt hi, Nat.shiftLeft_eq]
    show 1 * 2 ^ i % 2 ^ 32 = 2 ^ i
    rw [Nat.one_mul, Nat.mod_eq_of_lt hlt]
  rw [UInt32.toNat_or, Nat.testBit_or, hshift, Nat.testBit_two_pow]

theorem bitAt_setBit (hi : i / 32 < words.length) :
    bitAt (setBit words i) j = (bitAt words j || decide (i = j)) := by
  by_cases hword : i / 32 = j / 32
  · have hbit : i % 32 = j % 32 ↔ i = j := by omega
    have hj : j / 32 < words.length := by omega
    simp only [bitAt, setBit, hword, getD_eq_getElem?_getD, getElem?_modify, getElem?_eq_getElem hj]
    show (words[j / 32] ||| 1 <<< UInt32.ofNat (i % 32)).toNat.testBit (j % 32) = _
    rw [testBit_or_shift _ (Nat.mod_lt _ (by decide))]
    simp only [hbit, Option.getD_some]
  · have hne : i ≠ j := by
      intro h
      exact hword (by rw [h])
    simp [bitAt, setBit, getD_eq_getElem?_getD, hword, hne]

theorem length_setBits (bits : List Bool) : (setBits words i bits).length = words.length := by
  induction bits generalizing words i with
  | nil => rfl
  | cons bit bits ih =>
    rw [setBits, ih]
    split <;> simp

variable {bits : List Bool}

theorem bitAt_setBits (hroom : i + bits.length ≤ 32 * words.length) :
    bitAt (setBits words i bits) j = (bitAt words j || (decide (i ≤ j) && bits.getD (j - i) false)) := by
  induction bits generalizing words i with
  | nil => simp [setBits]
  | cons bit bits ih =>
    rw [length_cons] at hroom
    have hword : i / 32 < words.length := by omega
    have hstep : bitAt (if bit then setBit words i else words) j = (bitAt words j || (bit && decide (i = j))) := by
      cases bit
      · simp
      · rw [if_pos rfl, bitAt_setBit hword, Bool.true_and]
    have hlen : (if bit then setBit words i else words).length = words.length := by
      split <;> simp
    rw [setBits, ih (by rw [hlen]; omega), hstep]
    rcases Nat.lt_trichotomy i j with hlt | rfl | hgt
    · have hsub : j - i = (j - (i + 1)) + 1 := by omega
      have hne : i ≠ j := by omega
      rw [hsub, getD_cons_succ]
      simp [hne, hlt.le, Nat.succ_le_of_lt hlt]
    · simp
    · have hne : i ≠ j := by omega
      have h₁ : ¬ i ≤ j := by omega
      have h₂ : ¬ i + 1 ≤ j := by omega
      simp [hne, h₁, h₂]

@[simp] theorem length_packBits (count : ℕ) (bits : List Bool) : (packBits count bits).length = count := by
  rw [packBits, length_setBits, length_replicate]

theorem bitAt_packBits {count : ℕ} (hroom : bits.length ≤ 32 * count) (j : ℕ) :
    bitAt (packBits count bits) j = bits.getD j false := by
  have hzero : bitAt (replicate count 0) j = false := by
    rw [bitAt, getD_eq_getElem?_getD, getElem?_replicate]
    split <;> simp
  rw [packBits, bitAt_setBits (by rw [length_replicate]; omega), hzero]
  simp

end ThunderboltDb.Lib
