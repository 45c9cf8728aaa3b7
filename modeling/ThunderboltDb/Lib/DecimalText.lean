import Mathlib

/-!
# Line-oriented text with decimal numbers

Small control files hold one decimal number per line. This file has the text functions such files
are read and written with, over `List Char`:

* `decimalText` — the decimal form of a number;
* `parseUnsigned` — parsing below a bound, as `str::parse` does for an unsigned machine integer: an
  optional `+`, at least one digit, digits only, no overflow;
* `signedText`, `parseSigned` — the same for signed numbers;
* `textLines` — `str::lines`: split at `\n`, drop one `\r` before it, no line after a final `\n`.

`parseUnsigned_decimalText` and `textLines_append_newline` are the round-trip rules.
-/

namespace ThunderboltDb.Lib

open List

def decimalText (n : ℕ) : List Char := Nat.toDigits 10 n

/-- The digits of an unsigned number, after the optional sign. -/
def unsignedDigits : List Char → List Char
  | '+' :: cs => cs
  | cs => cs

/-- `str::parse` for an unsigned integer type with values below `bound`. -/
def parseUnsigned (bound : ℕ) (cs : List Char) : Option ℕ :=
  let ds := unsignedDigits cs
  if ds ≠ [] ∧ ds.all Char.isDigit then
    let n := Nat.ofDigitChars 10 ds 0
    if n < bound then some n else none
  else none

theorem decimalText_ne_nil (n : ℕ) : decimalText n ≠ [] := Nat.toDigits_ne_nil

variable {n : ℕ} {c : Char} {bound : ℕ}

theorem isDigit_of_mem_decimalText (h : c ∈ decimalText n) : c.isDigit := by
  exact Nat.isDigit_of_mem_toDigits (by decide) (by decide) h

theorem unsignedDigits_decimalText (n : ℕ) : unsignedDigits (decimalText n) = decimalText n := by
  -- a digit is never the sign that is stripped
  unfold unsignedDigits
  split
  · rename_i cs hcs
    have hplus : '+' ∈ decimalText n := by rw [hcs]; exact mem_cons_self
    exact absurd (isDigit_of_mem_decimalText hplus) (by decide)
  · rfl

theorem parseUnsigned_decimalText (h : n < bound) : parseUnsigned bound (decimalText n) = some n := by
  have hall : (decimalText n).all Char.isDigit := by
    rw [all_eq_true]
    exact fun c hc => isDigit_of_mem_decimalText hc
  have hval : Nat.ofDigitChars 10 (decimalText n) 0 = n := by
    simp [decimalText]
  simp only [parseUnsigned, unsignedDigits_decimalText]
  rw [if_pos ⟨decimalText_ne_nil n, hall⟩, hval, if_pos h]

/-- The decimal form of an integer. -/
def signedText (n : ℤ) : List Char :=
  if n < 0 then '-' :: decimalText n.natAbs else decimalText n.natAbs

/-- `str::parse` for a signed integer type with values from `-bound` to below `bound`. -/
def parseSigned (bound : ℕ) : List Char → Option ℤ
  | '-' :: ds =>
    if ds ≠ [] ∧ ds.all Char.isDigit then
      let n := Nat.ofDigitChars 10 ds 0
      if n ≤ bound then some (-n) else none
    else none
  | cs => (parseUnsigned bound cs).map Int.ofNat

theorem parseSigned_of_head {cs : List Char} (h : '-' ∉ cs) :
    parseSigned bound cs = (parseUnsigned bound cs).map Int.ofNat := by
  unfold parseSigned
  split
  · rename_i ds
    exact absurd mem_cons_self h
  · rfl

theorem parseSigned_signedText {n : ℤ} (hlow : -bound ≤ n) (hhigh : n < bound) :
    parseSigned bound (signedText n) = some n := by
  rw [signedText]
  split
  · rename_i hneg
    have hall : (decimalText n.natAbs).all Char.isDigit := by
      rw [all_eq_true]
      exact fun c hc => isDigit_of_mem_decimalText hc
    have hval : Nat.ofDigitChars 10 (decimalText n.natAbs) 0 = n.natAbs := by simp [decimalText]
    show (if decimalText n.natAbs ≠ [] ∧ _ then _ else _) = _
    rw [if_pos ⟨decimalText_ne_nil _, hall⟩, hval, if_pos (by omega)]
    exact congrArg some (by omega)
  · rename_i hpos
    have hminus : '-' ∉ decimalText n.natAbs :=
      fun h => absurd (isDigit_of_mem_decimalText h) (by decide)
    rw [parseSigned_of_head hminus, parseUnsigned_decimalText (by omega), Option.map_some]
    exact congrArg some (by simp only [Int.ofNat_eq_natCast]; omega)

/-- The characters of a number: digits and the sign. -/
theorem mem_signedText {n : ℤ} (h : c ∈ signedText n) : c.isDigit ∨ c = '-' := by
  rw [signedText] at h
  split at h
  · rcases mem_cons.mp h with rfl | hc
    · exact Or.inr rfl
    · exact Or.inl (isDigit_of_mem_decimalText hc)
  · exact Or.inl (isDigit_of_mem_decimalText h)

/-- Drop one trailing carriage return. -/
def stripCr (cs : List Char) : List Char := if cs.getLast? = some '\r' then cs.dropLast else cs

/-- The lines of a text, `cur` being the reversed start of the current line. -/
def textLinesFrom : List Char → List Char → List (List Char)
  | [], [] => []
  | [], cur => [cur.reverse]
  | c :: cs, cur =>
    if c = '\n' then stripCr cur.reverse :: textLinesFrom cs [] else textLinesFrom cs (c :: cur)

/-- `str::lines`. -/
def textLines (cs : List Char) : List (List Char) := textLinesFrom cs []

theorem textLinesFrom_append_newline (line rest cur : List Char) (h : '\n' ∉ line) :
    textLinesFrom (line ++ '\n' :: rest) cur = stripCr (cur.reverse ++ line) :: textLines rest := by
  induction line generalizing cur with
  | nil => simp [textLinesFrom, textLines]
  | cons c cs ih =>
    have hc : c ≠ '\n' := fun heq => h (by rw [heq]; exact mem_cons_self)
    have hcs : '\n' ∉ cs := fun hmem => h (mem_cons_of_mem c hmem)
    rw [cons_append, textLinesFrom, if_neg hc, ih (c :: cur) hcs]
    simp

theorem textLines_append_newline {line rest : List Char} (hnl : '\n' ∉ line) (hcr : '\r' ∉ line) :
    textLines (line ++ '\n' :: rest) = line :: textLines rest := by
  have hstrip : stripCr line = line := by
    refine if_neg fun hlast => hcr ?_
    exact mem_of_getLast? hlast
  rw [textLines, textLinesFrom_append_newline line rest [] hnl]
  simp [hstrip]

theorem newline_not_mem_decimalText (n : ℕ) : '\n' ∉ decimalText n :=
  fun h => absurd (isDigit_of_mem_decimalText h) (by decide)

theorem return_not_mem_decimalText (n : ℕ) : '\r' ∉ decimalText n :=
  fun h => absurd (isDigit_of_mem_decimalText h) (by decide)

end ThunderboltDb.Lib
