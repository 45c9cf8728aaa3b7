import Mathlib

/-!
# Unix paths and a flat file store

A path is modelled by its components, which is how `std::path::Path` compares, strips and joins paths:
where it starts (the root, an explicit `.`, or nothing) and the names behind it. Empty and interior `.`
components do not exist in a value.

* `UnixPath.text` / `UnixPath.ofText` — the text of a path and the path of a text, with
  `ofText_text`;
* `parent`, `join`, `stripPrefix`, `fileName`, `withFileName` — the operations;
* `UnixPath.file` — the file a path names: a leading `.` makes no difference;
* `FileStore` — file contents by file, with `install` for the create-temporary-then-rename idiom.

Symbolic links, `..` resolution and the relation of absolute to relative paths are not modelled: two
paths name one file when they start alike and have the same names.
-/

namespace ThunderboltDb.Lib

open List

/-- A path component other than `/` and `.`. -/
structure PathName where
  chars : List Char
  nonempty : chars ≠ []
  ne_dot : chars ≠ ['.']
  no_slash : '/' ∉ chars
  deriving DecidableEq

open PathName

inductive PathStart where
  | root
  | current
  | nothing
  deriving DecidableEq

structure UnixPath where
  start : PathStart
  names : List PathName
  deriving DecidableEq

namespace UnixPath

def empty : UnixPath := ⟨.nothing, []⟩

/-- The path `.`. -/
def dot : UnixPath := ⟨.current, []⟩

variable (self : UnixPath)

def isAbsolute : Bool := self.start = .root

def parent : Option UnixPath :=
  match self.names, self.start with
  | _ :: _, start => some ⟨start, self.names.dropLast⟩
  | [], .current => some empty
  | [], _ => none

def join (self other : UnixPath) : UnixPath :=
  if other.isAbsolute ∨ self = empty then other else ⟨self.start, self.names ++ other.names⟩

/-- `Path::strip_prefix`. -/
def stripPrefix (self base : UnixPath) : Option UnixPath :=
  if base = empty then some self
  else if base.start = self.start then
    (base.names.isPrefixOf? self.names).map fun rest => ⟨.nothing, rest⟩
  else none

/-- `Path::file_name`: the last component, unless it is `..`. -/
def fileName : Option PathName :=
  self.names.getLast?.filter fun name => name.chars ≠ ['.', '.']

variable (name : PathName)

/-- `Path::with_file_name`. -/
def withFileName : UnixPath :=
  if self.fileName.isSome then ⟨self.start, self.names.dropLast ++ [name]⟩
  else ⟨self.start, self.names ++ [name]⟩

def text : List Char :=
  let names := ['/'].intercalate (self.names.map chars)
  match self.start, self.names with
  | .root, _ => '/' :: names
  | .current, [] => ['.']
  | .current, _ :: _ => '.' :: '/' :: names
  | .nothing, _ => names

/-- The component a piece of text between slashes stands for, if any. -/
def nameOf (piece : List Char) : Option PathName :=
  if h : piece ≠ [] ∧ piece ≠ ['.'] ∧ '/' ∉ piece then some ⟨piece, h.1, h.2.1, h.2.2⟩ else none

def ofText (cs : List Char) : UnixPath :=
  let pieces := cs.splitOn '/'
  { start := if cs.head? = some '/' then .root
      else if pieces.head? = some ['.'] then .current else .nothing
    names := pieces.filterMap nameOf }

/-- The file a path names. -/
def file : Bool × List PathName := (self.isAbsolute, self.names)

/-! ### Stripping and joining -/

/-- What a strip leaves leads back to the path it was taken from. -/
theorem resolve_stripPrefix {self base rest : UnixPath} (h : stripPrefix self base = some rest) :
    (if rest.isAbsolute then rest else base.join rest) = self := by
  rw [stripPrefix] at h
  split at h
  · rename_i hbase
    cases h
    rw [join]
    split <;> simp [hbase]
  · rename_i hbase
    split at h
    · rename_i hstart
      obtain ⟨names, hnames, rfl⟩ := Option.map_eq_some_iff.mp h
      have happend := isPrefixOf?_eq_some_iff_append_eq.mp hnames
      have hrelative : ¬ (⟨.nothing, names⟩ : UnixPath).isAbsolute := by simp [isAbsolute]
      rw [if_neg hrelative, join, if_neg (not_or.mpr ⟨hrelative, hbase⟩), happend, hstart]
    · cases h

/-! ### Text -/

theorem nameOf_chars : nameOf name.chars = some name :=
  dif_pos ⟨name.nonempty, name.ne_dot, name.no_slash⟩

theorem filterMap_nameOf (names : List PathName) : (names.map chars).filterMap nameOf = names := by
  induction names with
  | nil => rfl
  | cons name names ih => rw [map_cons, filterMap_cons_some (nameOf_chars name), ih]

variable {names : List PathName}

theorem splitOn_names (hne : names ≠ []) :
    (['/'].intercalate (names.map chars)).splitOn '/' = names.map chars := by
  refine splitOn_intercalate '/' ?_ (by simpa using hne)
  intro piece hmem
  obtain ⟨name, -, rfl⟩ := mem_map.mp hmem
  exact name.no_slash

variable {piece cs : List Char}

/-- The piece before the first slash. -/
theorem splitOn_piece (h : '/' ∉ piece) : (piece ++ '/' :: cs).splitOn '/' = piece :: cs.splitOn '/' := by
  refine splitOnP_append_cons_of_forall_mem ?_ '/' (by decide) cs
  intro c hc
  rw [beq_eq_false_iff_ne]
  rintro rfl
  exact h hc

/-- A text that starts with a name does not start with a slash. -/
theorem head?_names (names : List PathName) :
    (['/'].intercalate ((name :: names).map chars)).head? ≠ some '/' := by
  obtain ⟨c, cs, hchars⟩ := exists_cons_of_ne_nil name.nonempty
  have hslash : c ≠ '/' := by
    rintro rfl
    exact name.no_slash (hchars ▸ mem_cons_self)
  cases names with
  | nil => simpa [hchars] using hslash
  | cons other names => simpa [hchars, intercalate_cons_cons] using hslash

/-- The text of a path is read back as the path. -/
theorem ofText_text : ofText self.text = self := by
  obtain ⟨start, names⟩ := self
  cases names with
  | nil => cases start <;> rfl
  | cons name names =>
    have hne : name :: names ≠ [] := cons_ne_nil _ _
    have hnames := filterMap_nameOf (name :: names)
    cases start with
    | root =>
      have hsplit := @splitOn_piece [] (['/'].intercalate ((name :: names).map chars)) (by simp)
      rw [nil_append, splitOn_names hne] at hsplit
      simp only [ofText, text, hsplit, head?_cons, if_true]
      rw [filterMap_cons_none rfl, hnames]
    | current =>
      have hsplit := @splitOn_piece ['.'] (['/'].intercalate ((name :: names).map chars)) (by decide)
      rw [singleton_append, splitOn_names hne] at hsplit
      simp only [ofText, text, hsplit, head?_cons, Option.some.injEq, if_true]
      rw [filterMap_cons_none rfl, hnames]
      rfl
    | nothing =>
      have hhead := head?_names name names
      have hdot : ((name :: names).map chars).head? ≠ some ['.'] := by
        simp [name.ne_dot]
      simp only [ofText, text, splitOn_names hne, if_neg hhead, if_neg hdot, hnames]

/-! ### The characters of a path -/

variable {c : Char}

theorem mem_names_text
    (h : c ∈ ['/'].intercalate (names.map chars)) : c = '/' ∨ ∃ name ∈ names, c ∈ name.chars := by
  induction names with
  | nil => simp at h
  | cons name names ih =>
    cases names with
    | nil => exact .inr ⟨name, mem_cons_self, by simpa using h⟩
    | cons other names =>
      rw [map_cons, map_cons, intercalate_cons_cons, mem_append, mem_append, mem_singleton, ← map_cons] at h
      rcases h with (hname | hslash) | hrest
      · exact .inr ⟨name, mem_cons_self, hname⟩
      · exact .inl hslash
      · rcases ih hrest with hslash | ⟨found, hmem, hc⟩
        · exact .inl hslash
        · exact .inr ⟨found, mem_cons_of_mem _ hmem, hc⟩

/-- The characters of a path's text. -/
theorem mem_text {self : UnixPath} (h : c ∈ self.text) :
    c = '/' ∨ c = '.' ∨ ∃ name ∈ self.names, c ∈ name.chars := by
  have hnames : c ∈ ['/'].intercalate (self.names.map chars) →
      c = '/' ∨ c = '.' ∨ ∃ name ∈ self.names, c ∈ name.chars :=
    fun hmem => (mem_names_text hmem).imp_right Or.inr
  obtain ⟨start, names⟩ := self
  rw [text] at h
  cases start with
  | root => exact (mem_cons.mp h).elim Or.inl hnames
  | current =>
    cases names with
    | nil => exact .inr (.inl (mem_singleton.mp h))
    | cons name names =>
      rcases mem_cons.mp h with hdot | h
      · exact .inr (.inl hdot)
      · exact (mem_cons.mp h).elim Or.inl hnames
  | nothing => exact hnames h

theorem mem_intercalate {α : Type} {sep piece : List α} {pieces : List (List α)} {a : α}
    (hpiece : piece ∈ pieces) (h : a ∈ piece) : a ∈ sep.intercalate pieces := by
  induction pieces with
  | nil => cases hpiece
  | cons first pieces ih =>
    cases pieces with
    | nil =>
      rw [mem_singleton.mp hpiece] at h
      simpa using h
    | cons second pieces =>
      rw [intercalate_cons_cons, mem_append, mem_append]
      rcases mem_cons.mp hpiece with rfl | hrest
      · exact .inl (.inl h)
      · exact .inr (ih hrest)

/-- The pieces between separators are parts of the text. -/
theorem mem_of_mem_splitOn {sep : Char} (hpiece : piece ∈ cs.splitOn sep) (h : c ∈ piece) : c ∈ cs := by
  have hjoin : [sep].intercalate (cs.splitOn sep) = cs := intercalate_splitOn sep
  exact hjoin ▸ mem_intercalate hpiece h

/-- The names of a text's path are pieces of the text. -/
theorem mem_of_mem_names_ofText {name : PathName}
    (hname : name ∈ (ofText cs).names) (h : c ∈ name.chars) : c ∈ cs := by
  obtain ⟨piece, hpiece, hof⟩ := mem_filterMap.mp hname
  rw [nameOf] at hof
  split at hof
  · cases hof
    exact mem_of_mem_splitOn hpiece h
  · cases hof

end UnixPath

abbrev FileStore := Bool × List PathName → Option (List UInt8)

namespace FileStore

/-- Create `tmp` with `bytes`, then rename it to `path`. -/
def install (self : FileStore) (tmp path : UnixPath) (bytes : List UInt8) : FileStore :=
  Function.update (Function.update self tmp.file none) path.file (some bytes)

end FileStore

end ThunderboltDb.Lib
