import Mathlib
import ThunderboltDb.Lib.LittleEndian

/-!
# Byte readers and fixed-buffer writers

A `Reader ε α` consumes a prefix of the bytes it is given or fails. Every primitive has one rule that
says exactly when it succeeds, in the form

  `r.Reads bs a rest ↔ bs = (bytes of a) ++ rest ∧ …`,

so a sequence of reads is described, in both directions at once, by the concatenation of what its parts
read: the rules are a simp set (`reads_bind`, `reads_array`, …) that turns a reader into the equation
its input satisfies.

A `BufferWriter ε α` fills a buffer of fixed length from the left. Consecutive writes are one write of the
concatenation (`put_put`), so a fixed layout reduces to a single `put`, and `fill_put` says what a
complete layout leaves in the buffer.
-/

namespace ThunderboltDb.Lib

open List

variable {ε α β : Type} {u : Unit} {b : β} {f : α → Except ε β} {x : Except ε α} {xs : List α}
  {ys : List β}
  {n : ℕ} {image : α → Bytes} {as : List α}

/-! ### Fallible computations -/

/-- Fail with `e` when `c` holds. -/
def refuse (c : Prop) [Decidable c] (e : ε) : Except ε Unit := if c then .error e else .ok ()

@[simp] theorem refuse_eq_ok {c : Prop} [Decidable c] {e : ε} : refuse c e = .ok u ↔ ¬ c := by
  by_cases h : c <;> simp [refuse, h]

theorem bind_ok : (x >>= f) = .ok b ↔ ∃ a, x = .ok a ∧ f a = .ok b := by
  cases x with
  | error e | ok a => simp [Bind.bind, Except.bind]

theorem except_ok_bind {ε α β : Type} (a : α) (f : α → Except ε β) : (Except.ok a >>= f) = f a := rfl

theorem bind_error {ε α β : Type} {x : Except ε α} {f : α → Except ε β} {e : ε} :
    x >>= f = .error e ↔ x = .error e ∨ ∃ a, x = .ok a ∧ f a = .error e := by
  cases x with
  | error e' | ok a => simp [Bind.bind, Except.bind]

/-- A check, then the rest. -/
theorem except_seq_ok {x : Except ε Unit} {f : Unit → Except ε β} :
    (x >>= f) = .ok b ↔ x = .ok () ∧ f () = .ok b := by
  rw [bind_ok]
  exact ⟨fun ⟨_, hx, hf⟩ => ⟨hx, hf⟩, fun ⟨hx, hf⟩ => ⟨(), hx, hf⟩⟩

theorem except_map_ok {f : α → β} : (f <$> x) = .ok b ↔ ∃ a, x = .ok a ∧ f a = b := by
  cases x with
  | error e | ok a => simp [Functor.map, Except.map]

/-- A mapped list succeeds when every element does, and the results stand in the same order. -/
theorem mapM_ok_iff_forall₂ : xs.mapM f = .ok ys ↔ List.Forall₂ (fun x y => f x = .ok y) xs ys := by
  induction xs generalizing ys with
  | nil =>
    rw [mapM_nil]
    constructor
    · intro h
      cases h
      exact .nil
    · intro h
      cases h
      rfl
  | cons x xs ih =>
    rw [mapM_cons, bind_ok]
    simp only [bind_ok, ih, pure, Except.pure, Except.ok.injEq]
    constructor
    · rintro ⟨y, hy, ys', hys', rfl⟩
      exact .cons hy hys'
    · intro h
      cases h with
      | cons hy hys => exact ⟨_, hy, _, hys, rfl⟩

/-- Element by element. -/
theorem mapM_ok_get (h : xs.mapM f = .ok ys) (i : ℕ) :
    (∀ x, xs[i]? = some x → ∃ y, ys[i]? = some y ∧ f x = .ok y) ∧
      ∀ y, ys[i]? = some y → ∃ x, xs[i]? = some x ∧ f x = .ok y := by
  have hall := mapM_ok_iff_forall₂.mp h
  have hlen := hall.length_eq
  constructor
  · intro x hx
    obtain ⟨hi, rfl⟩ := List.getElem?_eq_some_iff.mp hx
    exact ⟨_, List.getElem?_eq_getElem (hlen ▸ hi), hall.get hi (hlen ▸ hi)⟩
  · intro y hy
    obtain ⟨hi, rfl⟩ := List.getElem?_eq_some_iff.mp hy
    exact ⟨_, List.getElem?_eq_getElem (hlen ▸ hi), hall.get (hlen ▸ hi) hi⟩

/-! ### Readers -/

/-- A reader passes on the bytes it did not read. -/
abbrev Reader (ε α : Type) := StateT Bytes (Except ε) α

namespace Reader

/-- The next `n` bytes. -/
def take (short : ε) (n : ℕ) : Reader ε Bytes := fun bs =>
  if n ≤ bs.length then .ok (bs.take n, bs.drop n) else .error short

variable (short : ε)

/-- The next `n` bytes as an array of that length. -/
def array (n : ℕ) : Reader ε (List.Vector UInt8 n) := fun bs =>
  if h : n ≤ bs.length then .ok (⟨bs.take n, length_take_of_le h⟩, bs.drop n)
  else .error short

def u8 : Reader ε UInt8 := fun bs =>
  match bs with
  | [] => .error short
  | b :: rest => .ok (b, rest)

def u16 : Reader ε UInt16 := do return u16OfLe (← take short 2)

def u32 : Reader ε UInt32 := do return u32OfLe (← take short 4)

def u64 : Reader ε UInt64 := do return u64OfLe (← take short 8)

/-- The number of bytes not yet read. -/
def remaining : Reader ε ℕ := fun bs => .ok (bs.length, bs)

/-- Fail unless every byte was read. -/
def finish (trailing : ε) : Reader ε Unit := fun bs =>
  match bs with
  | [] => .ok ((), [])
  | _ :: _ => .error trailing

/-- Read the fixed bytes `v`. -/
def expect (short wrong : ε) (v : Bytes) : Reader ε Unit := do
  let bytes ← take short v.length
  refuse (bytes ≠ v) wrong

/-- Read `n` values, one after another. -/
def times (r : Reader ε α) : ℕ → Reader ε (List α)
  | 0 => pure []
  | n + 1 => do
    let a ← r
    let as ← times r n
    return a :: as

/-- Run a reader on a whole byte string and drop what it leaves. -/
def on (r : Reader ε α) (bs : Bytes) : Except ε α := r.run' bs

/-! ### When a reader succeeds -/

/-- `r` accepts `bs`, returns `a` and leaves `rest`. -/
def Reads (r : Reader ε α) (bs : Bytes) (a : α) (rest : Bytes) : Prop :=
  r.run bs = .ok (a, rest)

variable {bs rest : Bytes} {e : ε} {a : α} {r : Reader ε α} {v : Bytes}

@[simp] theorem reads_pure {b : α} : Reads (Pure.pure a : Reader ε α) bs b rest ↔ a = b ∧ bs = rest := by
  simp [Reads, StateT.run, Pure.pure, StateT.pure, Except.pure]

@[simp] theorem reads_bind {f : α → Reader ε β} : Reads (r >>= f) bs b rest ↔
      ∃ a mid, r.Reads bs a mid ∧ (f a).Reads mid b rest := by
  rw [Reads, StateT.run_bind, bind_ok, Prod.exists]
  rfl

@[simp] theorem reads_lift : Reads (liftM x : Reader ε α) bs a rest ↔ x = .ok a ∧ bs = rest := by
  cases x with
  | error e => simp [Reads, Bind.bind, Except.bind]
  | ok a => simp [Reads, Bind.bind, Except.bind, Pure.pure, Except.pure]

theorem reads_take : (take e n).Reads bs v rest ↔ bs = v ++ rest ∧ v.length = n := by
  rw [Reads, StateT.run, take]
  constructor
  · intro h
    split at h
    · cases h
      exact ⟨(take_append_drop n bs).symm, length_take_of_le ‹_›⟩
    · cases h
  · rintro ⟨rfl, rfl⟩
    simp

@[simp] theorem reads_array {v : List.Vector UInt8 n} : (array e n).Reads bs v rest ↔ bs = v.toList ++ rest := by
  rw [Reads, StateT.run, array]
  constructor
  · intro h
    split at h
    · cases h
      exact (take_append_drop n bs).symm
    · cases h
  · rintro rfl
    rw [dif_pos (by simp)]
    have hv : (v.toList ++ rest).take n = v.toList := take_left' v.toList_length
    have hrest : (v.toList ++ rest).drop n = rest := drop_left' v.toList_length
    simp only [hv, hrest]
    rfl

@[simp] theorem reads_u8 {v : UInt8} : (u8 e).Reads bs v rest ↔ bs = v :: rest := by
  cases bs with
  | nil | cons b bs => simp [Reads, StateT.run, u8]

@[simp] theorem reads_u16 {v : UInt16} : (u16 e).Reads bs v rest ↔ bs = u16ToLe v ++ rest := by
  simp only [u16, reads_bind, reads_take, reads_pure]
  constructor
  · rintro ⟨a, mid, ⟨rfl, ha⟩, rfl, rfl⟩
    rw [u16ToLe_u16OfLe ha]
  · rintro rfl
    exact ⟨_, _, ⟨rfl, length_u16ToLe v⟩, u16OfLe_u16ToLe v, rfl⟩

@[simp] theorem reads_u32 {v : UInt32} : (u32 e).Reads bs v rest ↔ bs = u32ToLe v ++ rest := by
  simp only [u32, reads_bind, reads_take, reads_pure]
  constructor
  · rintro ⟨a, mid, ⟨rfl, ha⟩, rfl, rfl⟩
    rw [u32ToLe_u32OfLe ha]
  · rintro rfl
    exact ⟨_, _, ⟨rfl, length_u32ToLe v⟩, u32OfLe_u32ToLe v, rfl⟩

@[simp] theorem reads_u64 {v : UInt64} : (u64 e).Reads bs v rest ↔ bs = u64ToLe v ++ rest := by
  simp only [u64, reads_bind, reads_take, reads_pure]
  constructor
  · rintro ⟨a, mid, ⟨rfl, ha⟩, rfl, rfl⟩
    rw [u64ToLe_u64OfLe ha]
  · rintro rfl
    exact ⟨_, _, ⟨rfl, length_u64ToLe v⟩, u64OfLe_u64ToLe v, rfl⟩

@[simp] theorem reads_remaining : (remaining : Reader ε ℕ).Reads bs n rest ↔ bs.length = n ∧ bs = rest := by
  simp [Reads, StateT.run, remaining]

@[simp] theorem reads_finish : (finish e).Reads bs u rest ↔ bs = [] ∧ rest = [] := by
  cases bs with
  | nil => simp [Reads, StateT.run, finish, eq_comm]
  | cons b bs => simp [Reads, StateT.run, finish]

@[simp] theorem reads_expect {wrong : ε} : (expect e wrong v).Reads bs u rest ↔ bs = v ++ rest := by
  simp only [expect, reads_bind, reads_take, reads_lift, refuse_eq_ok, not_not]
  constructor
  · rintro ⟨a, mid, ⟨rfl, -⟩, rfl, rfl⟩
    rfl
  · rintro rfl
    exact ⟨v, rest, ⟨rfl, rfl⟩, rfl, rfl⟩

/-- A repeated reader reads the concatenation of what one round reads. -/
theorem reads_times {good : α → Prop} (h : ∀ bs a rest, r.Reads bs a rest ↔ bs = image a ++ rest ∧ good a)
    (n : ℕ) :
    (times r n).Reads bs as rest ↔ bs = as.flatMap image ++ rest ∧ as.length = n ∧ ∀ a ∈ as, good a := by
  induction n generalizing bs as rest with
  | zero =>
    simp only [times, reads_pure, length_eq_zero_iff]
    constructor
    · rintro ⟨rfl, rfl⟩
      simp
    · rintro ⟨rfl, rfl, -⟩
      simp
  | succ n ih =>
    simp only [times, reads_bind, reads_pure, h, ih]
    constructor
    · rintro ⟨a, mid, ⟨rfl, ha⟩, as', mid', ⟨rfl, rfl, has⟩, rfl, rfl⟩
      simp only [flatMap_cons, append_assoc, length_cons, forall_mem_cons, true_and]
      exact ⟨ha, has⟩
    · rintro ⟨rfl, hlen, hgood⟩
      obtain ⟨a, as', rfl⟩ := exists_cons_of_length_eq_add_one hlen
      obtain ⟨ha, has⟩ := forall_mem_cons.mp hgood
      refine ⟨a, as'.flatMap image ++ rest, ⟨by simp, ha⟩, as', rest, ⟨rfl, ?_, has⟩, rfl, rfl⟩
      simpa using hlen

theorem on_eq_ok : r.on bs = .ok a ↔ ∃ rest, r.Reads bs a rest := by
  rw [on, StateT.run', except_map_ok, Prod.exists]
  exact ⟨fun ⟨b, rest, h, hb⟩ => ⟨rest, hb ▸ h⟩, fun ⟨rest, h⟩ => ⟨a, rest, h, rfl⟩⟩

/-- Decode a whole byte string, then check the value. -/
theorem on_check_ok {check : α → Except ε Unit} : (do let b ← r.on bs; check b; return b) = .ok a ↔
      (∃ rest, r.Reads bs a rest) ∧ check a = .ok () := by
  simp only [bind_ok, on_eq_ok, pure, Except.pure, Except.ok.injEq]
  constructor
  · rintro ⟨b, hread, _, hcheck, rfl⟩
    exact ⟨hread, hcheck⟩
  · rintro ⟨hread, hcheck⟩
    exact ⟨a, hread, (), hcheck, rfl⟩

end Reader

/-! ### Fixed buffers -/

/-- Replace the bytes of `buf` from `pos` on by `value`. -/
def overwrite (buf : Bytes) (pos : ℕ) (value : Bytes) : Bytes :=
  buf.take pos ++ value ++ buf.drop (pos + value.length)

variable {buf value : Bytes} {pos : ℕ}

theorem length_overwrite (h : pos + value.length ≤ buf.length) : (overwrite buf pos value).length = buf.length := by
  simp only [overwrite, length_append, length_take, length_drop]
  omega

@[simp] theorem overwrite_nil (buf : Bytes) (pos : ℕ) : overwrite buf pos [] = buf := by
  simp [overwrite]

/-- A write of the whole buffer. -/
theorem overwrite_all (h : value.length = buf.length) : overwrite buf 0 value = value := by
  simp [overwrite, h]

/-- A write leaves what lies behind it. -/
theorem drop_overwrite (h : pos + value.length ≤ buf.length)
    (hn : n = pos + value.length) : (overwrite buf pos value).drop n = buf.drop n := by
  have hpre : (buf.take pos ++ value).length = n := by
    rw [length_append, length_take]
    omega
  rw [overwrite, drop_left' hpre, hn]

/-- Two adjacent writes are one. -/
theorem overwrite_overwrite {a b : Bytes} {q : ℕ} (hq : q = pos + a.length) (h : q + b.length ≤ buf.length) :
    overwrite (overwrite buf pos a) q b = overwrite buf pos (a ++ b) := by
  have hpre : (buf.take pos ++ a).length = q := by
    rw [length_append, length_take]
    omega
  have htake : (overwrite buf pos a).take q = buf.take pos ++ a := take_left' hpre
  have hdrop : (overwrite buf pos a).drop (q + b.length) = buf.drop (q + b.length) := by
    rw [← drop_drop, drop_overwrite (by omega) hq, drop_drop]
  rw [overwrite, htake, hdrop, overwrite, length_append, hq]
  simp only [append_assoc, Nat.add_assoc]

/-- A buffer of fixed length and the position of the next write. -/
structure FixedBuffer where
  bytes : Bytes
  position : ℕ
  position_le : position ≤ bytes.length

/-- A writer advances through a fixed buffer or fails. -/
abbrev BufferWriter (ε α : Type) := StateT FixedBuffer (Except ε) α

namespace BufferWriter

/-- Write `value` at the position, when it fits. -/
def put (full : ε) (value : Bytes) : BufferWriter ε Unit := fun b =>
  if h : b.position + value.length ≤ b.bytes.length then
    .ok ((), ⟨overwrite b.bytes b.position value, b.position + value.length,
      (length_overwrite h).symm ▸ h⟩)
  else .error full

/-- Let `f` replace the next `n` bytes. -/
def window (full : ε) (n : ℕ) (f : Bytes → Except ε Bytes) : BufferWriter ε Unit := fun b =>
  if b.position + n ≤ b.bytes.length then do
    let value ← f ((b.bytes.drop b.position).take n)
    put full value b
  else .error full

/-- Run a writer over `out` from its start; it must end exactly at the buffer's end. -/
def fill (unfilled : ε) (out : Bytes) (w : BufferWriter ε Unit) : Except ε Bytes := do
  let (_, b) ← w.run ⟨out, 0, Nat.zero_le _⟩
  refuse (b.position ≠ b.bytes.length) unfilled
  return b.bytes

variable {full unfilled : ε}

theorem put_nil : put full [] = pure () := by
  funext b
  have h : b.position + ([] : Bytes).length ≤ b.bytes.length := b.position_le
  simp only [put, dif_pos h, overwrite_nil]
  rfl

/-- Two writes in a row are one write of the concatenation. -/
theorem put_put (v w : Bytes) : (put full v >>= fun _ => put full w) = put full (v ++ w) := by
  funext b
  show ((put full v) b >>= fun p => (put full w) p.2) = put full (v ++ w) b
  by_cases hv : b.position + v.length ≤ b.bytes.length
  · by_cases hw : b.position + v.length + w.length ≤ b.bytes.length
    · simp only [put, dif_pos hv, Bind.bind, Except.bind, length_overwrite hv,
        overwrite_overwrite rfl hw, length_append, Nat.add_assoc]
    · have hvw : ¬ b.position + (v ++ w).length ≤ b.bytes.length := by
        rw [length_append]
        omega
      simp only [put, dif_pos hv, dif_neg hvw, Bind.bind, Except.bind, length_overwrite hv, dif_neg hw]
  · have hvw : ¬ b.position + (v ++ w).length ≤ b.bytes.length := by
      rw [length_append]
      omega
    simp only [put, dif_neg hv, dif_neg hvw, Bind.bind, Except.bind]

/-- A window that always gets the same bytes is a write of them. -/
theorem window_eq_put {f : Bytes → Except ε Bytes}
    (hlen : value.length = n) (hf : ∀ out, out.length = n → f out = .ok value) :
    window full n f = put full value := by
  funext b
  rw [window]
  split
  · rename_i hfits
    have hslice : ((b.bytes.drop b.position).take n).length = n := by
      rw [length_take, length_drop]
      omega
    rw [hf _ hslice]
    rfl
  · rename_i hfull
    rw [put, dif_neg (hlen.symm ▸ hfull)]

/-- A check that passes leaves no trace in a writer. -/
theorem lift_ok_bind (a : α) (k : α → BufferWriter ε β) :
    ((liftM (Except.ok a : Except ε α) : BufferWriter ε α) >>= k) = k a := rfl

/-- A loop of writes is one write. -/
theorem forM_put {w : α → BufferWriter ε Unit}
    (h : ∀ a ∈ as, w a = put full (image a)) : forM as w = put full (as.flatMap image) := by
  induction as with
  | nil => exact put_nil.symm
  | cons a as ih =>
    obtain ⟨ha, has⟩ := forall_mem_cons.mp h
    rw [forM_cons, ha, ih has, flatMap_cons]
    exact put_put _ _

/-- A single write succeeds exactly when it fills the buffer. -/
theorem fill_put {out bs : Bytes} :
    fill unfilled out (put full value) = .ok bs ↔ value.length = out.length ∧ value = bs := by
  have hover : overwrite out 0 value = value ++ out.drop value.length := by
    simp [overwrite]
  rw [fill, bind_ok]
  constructor
  · rintro ⟨⟨u, b⟩, hput, hrest⟩
    rw [StateT.run, put] at hput
    split at hput
    · rename_i hle
      cases hput
      simp only [bind_ok, refuse_eq_ok, not_not, zero_add, length_overwrite hle, pure,
        Except.pure, Except.ok.injEq] at hrest
      obtain ⟨-, hlen, rfl⟩ := hrest
      refine ⟨hlen, ?_⟩
      rw [hover, hlen, drop_length, append_nil]
    · cases hput
  · rintro ⟨hlen, rfl⟩
    have hle : 0 + value.length ≤ out.length := by omega
    refine ⟨_, dif_pos hle, ?_⟩
    simp only [zero_add, hover, hlen, drop_length, append_nil, ne_eq, not_true_eq_false]
    rfl

end BufferWriter

end ThunderboltDb.Lib
