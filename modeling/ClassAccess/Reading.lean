import ClassAccess.BigEndian
import ClassAccess.Fault

/-!
# Reading a class file from front to back

A reading step takes a source -- the bytes that are left, and the offset at which they start -- and
gives a value and the source behind it, or a fault. Steps are put together with `do`.

* `Reading.byte`, `Reading.word16`, `Reading.word32`, `Reading.bytes` -- the steps that take bytes;
  when too few are left, each reports the offset at which it started;
* `Reading.times` -- a table: one step, done a number of times;
* `times_zero`, `times_succ` -- a table is its first row and the table of the others.

Because a source is a value, a part of a file can be read twice: once as a block that is skipped,
once through a source kept from the front of the block.
-/

namespace ClassAccess

/-- The bytes that are left to read and the offset of the first of them. -/
structure Source where
  offset : Nat
  rest : Bytes
  deriving DecidableEq, Repr

/-- The whole of some bytes, from their front. -/
def Source.ofBytes (data : Bytes) : Source := ⟨0, data⟩

/-- The source from an offset on. Behind the end nothing is left. -/
def Source.from (data : Bytes) (offset : Nat) : Source := ⟨offset, data.drop offset⟩

/-- A step that takes a value from the front of a source. -/
abbrev Reading (α : Type) := StateT Source (Except Fault) α

namespace Reading

/-! ## 1. Single values -/

/-- The offset of the next byte. -/
def offset : Reading Nat := fun s => .ok (s.offset, s)

/-- The source itself; nothing is taken. -/
def source : Reading Source := fun s => .ok (s, s)

/-- One byte. -/
def byte : Reading UInt8 := fun s =>
  match s.rest with
  | a :: rest => .ok (a, ⟨s.offset + 1, rest⟩)
  | [] => .error (.unexpectedEnd s.offset)

/-- A word of two bytes. -/
def word16 : Reading UInt16 := fun s =>
  match s.rest with
  | a :: b :: rest => .ok (BigEndian.word16 a b, ⟨s.offset + 2, rest⟩)
  | _ => .error (.unexpectedEnd s.offset)

/-- A word of four bytes. -/
def word32 : Reading UInt32 := fun s =>
  match s.rest with
  | a :: b :: c :: d :: rest => .ok (BigEndian.word32 a b c d, ⟨s.offset + 4, rest⟩)
  | _ => .error (.unexpectedEnd s.offset)

/-- A word of eight bytes, read as two halves. -/
def word64 : Reading UInt64 := do
  let upper ← word32
  let lower ← word32
  return BigEndian.word64 upper lower

/-- A block of `n` bytes, all of them or none. -/
def bytes (n : Nat) : Reading Bytes := fun s =>
  let block := s.rest.take n
  if block.length = n then .ok (block, ⟨s.offset + n, s.rest.drop n⟩)
  else .error (.unexpectedEnd s.offset)

/-- A result that needs no bytes. -/
def check {α : Type} (result : Except Fault α) : Reading α := fun s =>
  match result with
  | .ok a => .ok (a, s)
  | .error fault => .error fault

/-- Stops with a fault. -/
def fail {α : Type} (fault : Fault) : Reading α := fun _ => .error fault

/-! ## 2. Tables -/

/-- `n` values, gathered in front of those already read, the last one first. -/
def gather {α : Type} (row : Reading α) : Nat → List α → Reading (List α)
  | 0, acc, s => .ok (acc, s)
  | n + 1, acc, s =>
    match row s with
    | .ok (a, s') => gather row n (a :: acc) s'
    | .error fault => .error fault

/-- A table of `n` rows, in order. -/
def times {α : Type} (n : Nat) (row : Reading α) : Reading (List α) := fun s =>
  match gather row n [] s with
  | .ok (rows, s') => .ok (rows.reverse, s')
  | .error fault => .error fault

/-- A table of two-byte words whose number stands in front of it. -/
def counted {α : Type} (row : Reading α) : Reading (List α) := do
  let n ← word16
  times n.toNat row

/-! ## 3. Running the steps -/

theorem run_bind {α β : Type} (r : Reading α) (f : α → Reading β) (s : Source) :
    (r >>= f) s = match r s with
      | .ok (a, s') => f a s'
      | .error fault => .error fault := by
  show (r s >>= fun p => f p.1 p.2) = _
  cases r s <;> rfl

@[simp] theorem run_pure {α : Type} (a : α) (s : Source) :
    (pure a : Reading α) s = .ok (a, s) := rfl

theorem gather_eq {α : Type} (row : Reading α) : ∀ (n : Nat) (acc : List α) (s : Source),
    gather row n acc s = match gather row n [] s with
      | .ok (rows, s') => .ok (rows ++ acc, s')
      | .error fault => .error fault
  | 0, acc, s => by simp [gather]
  | n + 1, acc, s => by
    simp only [gather]
    cases row s with
    | error fault => rfl
    | ok p =>
      obtain ⟨a, s'⟩ := p
      simp only
      rw [gather_eq row n (a :: acc) s', gather_eq row n [a] s']
      cases gather row n [] s' with
      | error fault => rfl
      | ok q => simp

@[simp] theorem times_zero {α : Type} (row : Reading α) : times 0 row = pure [] := rfl

/-- **A table is its first row and the table of the others.** -/
theorem times_succ {α : Type} (n : Nat) (row : Reading α) :
    times (n + 1) row = (do
      let a ← row
      let rest ← times n row
      return a :: rest) := by
  funext s
  rw [run_bind]
  simp only [times, gather]
  cases row s with
  | error fault => rfl
  | ok p =>
    obtain ⟨a, s'⟩ := p
    simp only
    rw [run_bind, gather_eq row n [a] s']
    simp only [times]
    cases gather row n [] s' with
    | error fault => rfl
    | ok q => simp

end Reading

end ClassAccess
