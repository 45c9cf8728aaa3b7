import ThunderboltDb.Lib.UnixPath

/-!
# Programs that change files one step at a time

A program looks at the files, performs steps and returns or fails. What a crash leaves behind is the disk
after some prefix of the steps.

* `Naming` — the directory entry that a path names. Several paths may name one entry (relative and absolute
  ones, `..`, linked directories); an entry has one name.
* `FileStep`, `Naming.run` — single changes and a sequence of them.
* `FileM` — programs, with the steps they have performed.
* `Naming.Crashes`, `Naming.Stops` — the disks that a crash between two steps can leave, and a crash or an error
  anywhere.
-/

namespace ThunderboltDb.Lib

open Function List

/-- File contents by directory entry. -/
abbrev Disk (ι : Type) := ι → Option (List UInt8)

/-- A name other than `..`. -/
def PathName.Ordinary (self : PathName) : Prop := self.chars ≠ ['.', '.']

instance (self : PathName) : Decidable self.Ordinary := inferInstanceAs (Decidable (_ ≠ _))

/-- Which directory entry a path names. -/
structure Naming (ι : Type) where
  entry : Bool × List PathName → ι
  name_eq : ∀ {root root' : Bool} {dir dir' : List PathName} {x y : PathName}, x.Ordinary → y.Ordinary →
    entry (root, dir ++ [x]) = entry (root', dir' ++ [y]) → x = y

/-- Relative paths start at a working directory. -/
def Naming.workingDirectory (cwd : List PathName) : Naming (List PathName) where
  entry file := if file.1 then file.2 else cwd ++ file.2
  name_eq := by
    intro root root' dir dir' x y _ _ h
    have hlast := congrArg List.getLast? h
    cases root <;> cases root' <;> simpa using hlast

/-- One change. -/
inductive FileStep where
  /-- Create or truncate a file and write it. -/
  | write (path : UnixPath) (bytes : List UInt8)
  | rename (source target : UnixPath)
  /-- Remove a file; it is no error if there is none. -/
  | remove (path : UnixPath)

/-- Create a temporary file and rename it into place. -/
def installSteps (tmp path : UnixPath) (bytes : List UInt8) : List FileStep :=
  [.write tmp bytes, .rename tmp path]

namespace Naming

variable {ι : Type} [DecidableEq ι] (N : Naming ι)

omit [DecidableEq ι] in
theorem entry_ne {root root' : Bool} {dir dir' : List PathName} {x y : PathName} (hx : x.Ordinary)
    (hy : y.Ordinary) (h : x ≠ y) : N.entry (root, dir ++ [x]) ≠ N.entry (root', dir' ++ [y]) :=
  fun heq => h (N.name_eq hx hy heq)

/-- The entry of a path. -/
def of (path : UnixPath) : ι := N.entry path.file

section

variable (disk : Disk ι)

/-- File contents by path. -/
def view : FileStore := fun file => disk (N.entry file)

def step : FileStep → Disk ι
  | .write path bytes => Function.update disk (N.of path) (some bytes)
  | .rename source target =>
    Function.update (Function.update disk (N.of source) none) (N.of target) (disk (N.of source))
  | .remove path => Function.update disk (N.of path) none

def run (steps : List FileStep) : Disk ι := steps.foldl N.step disk

@[simp] theorem run_nil : N.run disk [] = disk := rfl

@[simp] theorem run_cons (step : FileStep) (steps : List FileStep) :
    N.run disk (step :: steps) = N.run (N.step disk step) steps := rfl

theorem run_append (steps more : List FileStep) :
    N.run disk (steps ++ more) = N.run (N.run disk steps) more := foldl_append

end

def Changes (i : ι) : FileStep → Prop
  | .write path _ => i = N.of path
  | .rename source target => i = N.of source ∨ i = N.of target
  | .remove path => i = N.of path

variable {disk : Disk ι} {i : ι} {steps : List FileStep}

theorem step_of_not_changes {step : FileStep} (h : ¬ N.Changes i step) : N.step disk step i = disk i := by
  cases step with
  | write path bytes | remove path => exact update_of_ne h _ _
  | rename source target =>
    obtain ⟨hsource, htarget⟩ := not_or.mp h
    rw [Naming.step, update_of_ne htarget, update_of_ne hsource]

theorem run_of_not_changes (h : ∀ step ∈ steps, ¬ N.Changes i step)
    (disk : Disk ι) : N.run disk steps i = disk i := by
  induction steps generalizing disk with
  | nil => rfl
  | cons step steps ih =>
    obtain ⟨hstep, hsteps⟩ := forall_mem_cons.mp h
    rw [run_cons, ih hsteps, N.step_of_not_changes hstep]

/-! ### Installing a file -/

theorem run_install (disk : Disk ι) (tmp path : UnixPath) (bytes : List UInt8) :
    N.run disk (installSteps tmp path bytes) =
      Function.update (Function.update disk (N.of tmp) none) (N.of path) (some bytes) := by
  rw [installSteps, run_cons, run_cons, run_nil, step, step, update_self, update_idem]

theorem run_install_self (disk : Disk ι) (tmp path : UnixPath) (bytes : List UInt8) :
    N.run disk (installSteps tmp path bytes) (N.of path) = some bytes := by
  rw [run_install, update_self]

variable {tmp path : UnixPath} {bytes : List UInt8}

theorem run_install_other (htmp : i ≠ N.of tmp) (hpath : i ≠ N.of path) :
    N.run disk (installSteps tmp path bytes) i = disk i := by
  rw [run_install, update_of_ne hpath, update_of_ne htmp]

/-- The disks that a crash of a step sequence can leave. -/
def Crashes (disk : Disk ι) (steps : List FileStep) (left : Disk ι) : Prop :=
  ∃ k, left = N.run disk (steps.take k)

variable {left : Disk ι} {more : List FileStep}

theorem crashes_append : N.Crashes disk (steps ++ more) left ↔
      N.Crashes disk steps left ∨ N.Crashes (N.run disk steps) more left := by
  constructor
  · rintro ⟨k, rfl⟩
    rw [take_append, run_append]
    rcases Nat.le_total k steps.length with hle | hle
    · left
      rw [Nat.sub_eq_zero_of_le hle]
      exact ⟨k, rfl⟩
    · right
      rw [take_of_length_le hle]
      exact ⟨_, rfl⟩
  · rintro (⟨k, rfl⟩ | ⟨k, rfl⟩)
    · refine ⟨min k steps.length, ?_⟩
      rw [take_append_of_le_length (Nat.min_le_right _ _), take_eq_take_min]
    · refine ⟨steps.length + k, ?_⟩
      rw [take_length_add_append, run_append]

theorem Crashes.all (disk : Disk ι) (steps : List FileStep) : N.Crashes disk steps (N.run disk steps) := by
  refine ⟨steps.length, ?_⟩
  rw [take_length]

/-- The disks that a crash or a failing step can leave: behind a number of whole steps, or in the middle of a
write, whose file then has any content or is removed again. -/
def Stops (disk : Disk ι) (steps : List FileStep) (left : Disk ι) : Prop :=
  N.Crashes disk steps left ∨ ∃ before path bytes behind content,
    steps = before ++ .write path bytes :: behind ∧
      left = Function.update (N.run disk before) (N.of path) content

variable {N}

theorem Stops.cases_append (h : N.Stops disk (steps ++ more) left) :
    N.Stops disk steps left ∨ N.Stops (N.run disk steps) more left := by
  rcases h with hcrash | ⟨before, path, bytes, behind, content, hsteps, rfl⟩
  · exact ((N.crashes_append).mp hcrash).imp .inl .inl
  · rcases append_eq_append_iff.mp hsteps with ⟨middle, rfl, hmore⟩ | ⟨middle, rfl, hbehind⟩
    · right
      rw [N.run_append]
      exact .inr ⟨middle, path, bytes, behind, content, hmore, rfl⟩
    · cases middle with
      | nil =>
        right
        rw [append_nil]
        exact .inr ⟨[], path, bytes, behind, content, hbehind.symm, rfl⟩
      | cons step middle =>
        obtain ⟨rfl, -⟩ := List.cons.inj hbehind
        exact .inl (.inr ⟨before, path, bytes, middle, content, rfl, rfl⟩)

/-- What no step changes stays also when they stop. -/
theorem Stops.of_not_changes
    (h : N.Stops disk steps left) (hkeep : ∀ step ∈ steps, ¬ N.Changes i step) : left i = disk i := by
  rcases h with ⟨k, rfl⟩ | ⟨before, path, bytes, behind, content, rfl, rfl⟩
  · exact N.run_of_not_changes (fun step hstep => hkeep step (mem_of_mem_take hstep)) disk
  · have hpath : i ≠ N.of path := hkeep _ (mem_append_right _ mem_cons_self)
    rw [update_of_ne hpath]
    exact N.run_of_not_changes (fun step hstep => hkeep step (mem_append_left _ hstep)) disk

/-- Where an install can stop. -/
theorem Stops.cases_install (h : N.Stops disk (installSteps tmp path bytes) left) :
    (∃ content, left = Function.update disk (N.of tmp) content) ∨
      left = N.run disk (installSteps tmp path bytes) := by
  rcases h with ⟨k, rfl⟩ | ⟨before, other, written, behind, content, hsteps, rfl⟩
  · match k with
    | 0 => exact .inl ⟨disk (N.of tmp), (update_eq_self _ _).symm⟩
    | 1 => exact .inl ⟨some bytes, rfl⟩
    | k + 2 =>
      right
      rw [take_of_length_le (Nat.le_add_left 2 k)]
  · left
    match before, hsteps with
    | [], hsteps =>
      obtain ⟨hwrite, -⟩ := List.cons.inj hsteps
      cases hwrite
      exact ⟨content, rfl⟩
    | [_], hsteps =>
      obtain ⟨-, hsteps⟩ := List.cons.inj hsteps
      obtain ⟨hrename, -⟩ := List.cons.inj hsteps
      cases hrename
    | _ :: _ :: before, hsteps =>
      have hlength := congrArg List.length hsteps
      simp [installSteps] at hlength

end Naming

/-! ### Programs -/

/-- A program that changes files: what it performs on a disk, and its result. -/
def FileM {ι : Type} (_N : Naming ι) (ε α : Type) : Type := Disk ι → List FileStep × Except ε α

namespace FileM

variable {ι : Type} [DecidableEq ι] {N : Naming ι} {ε α β : Type}

instance : Monad (FileM N ε) where
  pure a := fun _ => ([], .ok a)
  bind m f := fun disk =>
    match m disk with
    | (steps, .ok a) => (steps ++ (f a (N.run disk steps)).1, (f a (N.run disk steps)).2)
    | (steps, .error e) => (steps, .error e)

/-- The files as they are. -/
def look : FileM N ε FileStore := fun disk => ([], .ok (N.view disk))

def ofExcept (x : Except ε α) : FileM N ε α := fun _ => ([], x)

def perform (steps : List FileStep) : FileM N ε Unit := fun _ => (steps, .ok ())

theorem look_bind (f : FileStore → FileM N ε β) (disk : Disk ι) : (look >>= f) disk = f (N.view disk) disk := rfl

theorem ok_bind (a : α) (f : α → FileM N ε β) : (ofExcept (.ok a) >>= f : FileM N ε β) = f a := rfl

theorem perform_bind (steps : List FileStep) (f : Unit → FileM N ε β) (disk : Disk ι) :
    (perform steps >>= f) disk =
      (steps ++ (f () (N.run disk steps)).1, (f () (N.run disk steps)).2) := rfl

theorem pure_bind (a : α) (f : α → FileM N ε β) : (pure a >>= f : FileM N ε β) = f a := rfl

theorem bind_assoc {γ : Type} (m : FileM N ε α) (f : α → FileM N ε β) (g : β → FileM N ε γ) :
    (m >>= f) >>= g = m >>= fun a => f a >>= g := by
  funext disk
  simp only [bind]
  cases m disk with
  | mk steps result =>
    cases result with
    | error e => rfl
    | ok a =>
      simp only
      cases f a (N.run disk steps) with
      | mk more result =>
        cases result with
        | error e => rfl
        | ok b => simp only [Naming.run_append, append_assoc]

end FileM

end ThunderboltDb.Lib
