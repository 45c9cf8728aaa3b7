import ThunderboltDb.Lib.DecimalText

/-!
# Text files: UTF-8, lines, hexadecimal digits and the last occurrence of a word

* `utf8Bytes` / `utf8Text` — a text as file bytes and back (`fs::read_to_string`), with the rule that only
  ASCII characters have bytes below 128;
* `trimText` — `str::trim`;
* `unlines` — every line behind its newline, with `textLines_unlines`;
* `paddedText` — a decimal number padded with zeros, injective in the number;
* `parseNatural`, `parseFailure` — reading a number and the text of the failure;
* `hexText` — two lower-case digits for each byte;
* `rfind` — `str::rfind` for a word, with the rule that a word is found where it stands when no later
  character can start it.
-/

namespace ThunderboltDb.Lib

open List

/-! ### UTF-8 -/

def utf8Bytes (cs : List Char) : List UInt8 := (String.ofList cs).toUTF8.data.toList

/-- The text of a file, when its bytes are valid UTF-8. -/
def utf8Text (bytes : List UInt8) : Option (List Char) :=
  (String.fromUTF8? ⟨bytes.toArray⟩).map String.toList

theorem utf8Text_utf8Bytes (cs : List Char) : utf8Text (utf8Bytes cs) = some cs := by
  have hvalid : String.fromUTF8? (String.ofList cs).toUTF8 = some (String.ofList cs) :=
    dif_pos (String.ofList cs).isValidUTF8
  rw [utf8Text, utf8Bytes]
  rw [hvalid, Option.map_some, String.toList_ofList]

variable {bytes : List UInt8} {cs : List Char} {c : Char}

theorem utf8Bytes_of_utf8Text (h : utf8Text bytes = some cs) : utf8Bytes cs = bytes := by
  obtain ⟨s, hs, rfl⟩ := Option.map_eq_some_iff.mp h
  rw [String.fromUTF8?] at hs
  split at hs
  · cases hs
    rw [utf8Bytes, String.ofList_toList]
    rfl
  · cases hs

theorem utf8Bytes_eq_flatMap (cs : List Char) : utf8Bytes cs = cs.flatMap String.utf8EncodeChar := by
  show (utf8Encode cs).data.toList = _
  rw [utf8Encode, data_toByteArray]

theorem utf8Bytes_append (cs ds : List Char) : utf8Bytes (cs ++ ds) = utf8Bytes cs ++ utf8Bytes ds := by
  rw [utf8Bytes_eq_flatMap, utf8Bytes_eq_flatMap, utf8Bytes_eq_flatMap, flatMap_append]

theorem utf8EncodeChar_ascii (h : c.toNat ≤ 127) : String.utf8EncodeChar c = [UInt8.ofNat c.toNat] := if_pos h

/-- Every byte of another character is at least 128. -/
theorem le_of_mem_utf8EncodeChar (h : 127 < c.toNat) {b : UInt8}
    (hb : b ∈ String.utf8EncodeChar c) : 128 ≤ b.toNat := by
  have hval : ¬ c.val.toNat ≤ 127 := not_le.mpr h
  rw [String.utf8EncodeChar, if_neg hval] at hb
  split at hb
  · simp only [mem_cons, not_mem_nil, or_false] at hb
    rcases hb with rfl | rfl <;> simp only [UInt8.toNat_ofNat'] <;> omega
  · split at hb
    · simp only [mem_cons, not_mem_nil, or_false] at hb
      rcases hb with rfl | rfl | rfl <;> simp only [UInt8.toNat_ofNat'] <;> omega
    · simp only [mem_cons, not_mem_nil, or_false] at hb
      rcases hb with rfl | rfl | rfl | rfl <;> simp only [UInt8.toNat_ofNat'] <;> omega

/-! ### White space -/

def isWhiteSpace (c : Char) : Bool :=
  let n := c.toNat
  (0x09 ≤ n && n ≤ 0x0d) || n == 0x20 || n == 0x85 || n == 0xa0 || n == 0x1680 ||
    (0x2000 ≤ n && n ≤ 0x200a) || n == 0x2028 || n == 0x2029 || n == 0x202f || n == 0x205f || n == 0x3000

/-- `str::trim`. -/
def trimText (cs : List Char) : List Char := (cs.dropWhile isWhiteSpace).rdropWhile isWhiteSpace

/-- A text without white space at its ends is not trimmed. -/
theorem trimText_eq {d : Char} (hc : isWhiteSpace c = false)
    (hd : isWhiteSpace d = false) : trimText (c :: (cs ++ [d])) = c :: (cs ++ [d]) := by
  rw [trimText, dropWhile_cons_of_neg (by simp [hc]), ← cons_append]
  exact rdropWhile_concat_neg _ _ _ (by simp [hd])

/-! ### Lines -/

/-- Every line followed by a newline. -/
def unlines (lines : List (List Char)) : List Char := lines.flatMap fun line => line ++ ['\n']

/-- A line that `str::lines` gives back as it was written. -/
def IsLine (line : List Char) : Prop := '\n' ∉ line ∧ line.getLast? ≠ some '\r'

theorem textLines_unlines {lines : List (List Char)} (h : ∀ line ∈ lines, IsLine line) :
    textLines (unlines lines) = lines := by
  induction lines with
  | nil => rfl
  | cons line lines ih =>
    obtain ⟨⟨hnewline, hreturn⟩, hlines⟩ := forall_mem_cons.mp h
    have hcons : unlines (line :: lines) = line ++ '\n' :: unlines lines := by
      rw [unlines, flatMap_cons, append_assoc]
      rfl
    have hstrip : stripCr line = line := if_neg hreturn
    rw [hcons, textLines, textLinesFrom_append_newline line _ [] hnewline, reverse_nil,
      nil_append, hstrip, ih hlines]

variable {line : List Char} {cur : List Char}

theorem isLine_append_decimalText (h : '\n' ∉ line) (n : ℕ) : IsLine (line ++ decimalText n) := by
  constructor
  · rw [mem_append, not_or]
    exact ⟨h, newline_not_mem_decimalText n⟩
  · rw [getLast?_append_of_ne_nil _ (decimalText_ne_nil n)]
    intro hlast
    exact return_not_mem_decimalText n (mem_of_getLast? hlast)

/-- The first line starts the text. -/
theorem head?_textLinesFrom (h : (textLinesFrom cs cur).head? = some line) : line <+: cur.reverse ++ cs := by
  induction cs generalizing cur with
  | nil =>
    cases cur with
    | nil => cases h
    | cons c cur =>
      cases h
      simp
  | cons c cs ih =>
    rw [textLinesFrom] at h
    split at h
    · cases h
      refine List.IsPrefix.trans ?_ (prefix_append _ _)
      rw [stripCr]
      split
      · exact dropLast_prefix _
      · exact prefix_rfl
    · have hpre := ih h
      rwa [reverse_cons, append_assoc, singleton_append] at hpre

theorem head?_textLines (h : (textLines cs).head? = some line) : line <+: cs := head?_textLinesFrom h

theorem newline_not_mem_textLinesFrom (h : '\n' ∉ cur) : ∀ line ∈ textLinesFrom cs cur, '\n' ∉ line := by
  induction cs generalizing cur with
  | nil =>
    cases cur with
    | nil => simp [textLinesFrom]
    | cons c cur => simpa [textLinesFrom, and_comm] using h
  | cons c cs ih =>
    rw [textLinesFrom]
    split
    · rw [forall_mem_cons]
      refine ⟨?_, ih (by simp)⟩
      intro hmem
      rw [stripCr] at hmem
      split at hmem
      · exact h (mem_reverse.mp (dropLast_subset _ hmem))
      · exact h (mem_reverse.mp hmem)
    · refine ih ?_
      rw [mem_cons, not_or]
      exact ⟨fun heq => ‹¬ c = '\n'› heq.symm, h⟩

theorem newline_not_mem_textLines (h : line ∈ textLines cs) : '\n' ∉ line :=
  newline_not_mem_textLinesFrom (by simp) line h

/-! ### Numbers -/

/-- `{:0width}` of a number. -/
def paddedText (width n : ℕ) : List Char :=
  List.replicate (width - (decimalText n).length) '0' ++ decimalText n

theorem ofDigitChars_zeros (k : ℕ) (ds : List Char) :
    Nat.ofDigitChars 10 (List.replicate k '0' ++ ds) 0 = Nat.ofDigitChars 10 ds 0 := by
  induction k with
  | zero => rfl
  | succ k ih =>
    rw [replicate_succ, cons_append]
    exact ih

theorem ofDigitChars_paddedText (width n : ℕ) : Nat.ofDigitChars 10 (paddedText width n) 0 = n := by
  rw [paddedText, ofDigitChars_zeros]
  simp [decimalText]

variable {width n : ℕ}

theorem paddedText_inj {m : ℕ} (h : paddedText width m = paddedText width n) : m = n := by
  rw [← ofDigitChars_paddedText width m, h, ofDigitChars_paddedText]

theorem isDigit_of_mem_paddedText (h : c ∈ paddedText width n) : c.isDigit := by
  rcases mem_append.mp h with hzero | hdigit
  · rw [eq_of_mem_replicate hzero]
    decide
  · exact isDigit_of_mem_decimalText hdigit

/-- `str::parse` for an unsigned number without an upper bound. -/
def parseNatural (cs : List Char) : Option ℕ :=
  let ds := unsignedDigits cs
  if ds ≠ [] ∧ ds.all Char.isDigit then some (Nat.ofDigitChars 10 ds 0) else none

theorem parseNatural_decimalText (n : ℕ) : parseNatural (decimalText n) = some n := by
  have hall : (decimalText n).all Char.isDigit := by
    rw [all_eq_true]
    exact fun c hc => isDigit_of_mem_decimalText hc
  simp only [parseNatural, unsignedDigits_decimalText]
  rw [if_pos ⟨decimalText_ne_nil n, hall⟩]
  simp [decimalText]

/-- The text of the error of `str::parse`: the first character that is no digit or makes the number too
large, `acc` being the number before it. -/
def parseFailureFrom (tooLarge : ℕ → Bool) : ℕ → List Char → String
  | _, [] => "invalid digit found in string"
  | acc, c :: cs =>
    if c.isDigit then
      let next := 10 * acc + (c.toNat - '0'.toNat)
      if tooLarge next then "number too large to fit in target type" else parseFailureFrom tooLarge next cs
    else "invalid digit found in string"

def parseFailure (tooLarge : ℕ → Bool) (cs : List Char) : String :=
  if cs = [] then "cannot parse integer from empty string"
  else parseFailureFrom tooLarge 0 (unsignedDigits cs)

/-- `{byte:02x}`. -/
def hexByte (byte : UInt8) : List Char := [(byte.toNat / 16).digitChar, (byte.toNat % 16).digitChar]

def hexText (bytes : List UInt8) : List Char := bytes.flatMap hexByte

/-- `char::is_ascii_hexdigit`. -/
def isHexDigit (c : Char) : Bool :=
  c.isDigit || ('a' ≤ c && c ≤ 'f') || ('A' ≤ c && c ≤ 'F')

theorem isHexDigit_digitChar (h : n < 16) : isHexDigit n.digitChar := by
  interval_cases n <;> decide

theorem isHexDigit_of_mem_hexText (h : c ∈ hexText bytes) : isHexDigit c := by
  obtain ⟨byte, -, hc⟩ := mem_flatMap.mp h
  have hlt : byte.toNat < 256 := byte.toNat_lt
  rcases mem_cons.mp hc with rfl | hc
  · exact isHexDigit_digitChar (by omega)
  · rw [mem_singleton.mp hc]
    exact isHexDigit_digitChar (by omega)

theorem length_hexText (bytes : List UInt8) : (hexText bytes).length = 2 * bytes.length := by
  induction bytes with
  | nil => rfl
  | cons byte bytes ih =>
    rw [hexText, flatMap_cons, length_append, ← hexText, ih, length_cons]
    simp only [hexByte, length_cons, length_nil]
    omega

/-! ### The last occurrence of a word -/

/-- `str::rfind`: the last position at which `word` starts. -/
def rfind (word : List Char) : List Char → Option ℕ
  | [] => if word = [] then some 0 else none
  | c :: cs =>
    match rfind word cs with
    | some i => some (i + 1)
    | none => if word <+: c :: cs then some 0 else none

variable {word : List Char}

theorem rfind_append {i : ℕ} (h : rfind word cs = some i) (pre : List Char) :
    rfind word (pre ++ cs) = some (pre.length + i) := by
  induction pre with
  | nil => rw [nil_append, h, length_nil, Nat.zero_add]
  | cons c pre ih =>
    rw [cons_append, rfind, ih, length_cons]
    simp only [Option.some.injEq]
    omega

/-- A word does not occur in a text without its first character. -/
theorem rfind_of_not_mem (h : c ∉ cs) : rfind (c :: word) cs = none := by
  induction cs with
  | nil => exact if_neg (cons_ne_nil _ _)
  | cons d cs ih =>
    rw [mem_cons, not_or] at h
    have hpre : ¬ (c :: word) <+: d :: cs := fun hp => h.1 (cons_prefix_cons.mp hp).1
    rw [rfind, ih h.2]
    exact if_neg hpre

/-- A word is found at its own place when its first character does not occur later. -/
theorem rfind_self (h : c ∉ word ++ cs) : rfind (c :: word) (c :: (word ++ cs)) = some 0 := by
  have hpre : (c :: word) <+: c :: (word ++ cs) := by
    rw [cons_prefix_cons]
    exact ⟨rfl, prefix_append _ _⟩
  rw [rfind, rfind_of_not_mem h]
  exact if_pos hpre

end ThunderboltDb.Lib
