import ClassAccess.Machine

/-!
# A file read on a machine

On a machine a file is one row of bytes, and what is left of it is told by the place of the next
byte. A scan starts at a place of a file and gives a value and the place behind it.

* `Scan.byte`, `Scan.word16`, `Scan.word32`, `Scan.bytes` -- the steps that take bytes: whether
  there are enough is looked at first, then the bytes are taken by their places;
* `Scan.elsewhere` -- a part of the file that is read a second time, from its own front;
* `Scan.times`, `Scan.counted` -- tables.
-/

namespace ClassAccess.Machine

/-- Steps that take a value from a place of a file. -/
abbrev Scan (α : Type) := ReaderT Bytes (StateT Nat Machine) α

namespace Scan

variable {α : Type} [Words]

/-! ## 1. Single values -/

/-- What needs no bytes. -/
def check (m : Machine α) : Scan α := fun _ place => do return (← m, place)

/-- The place of the next byte. -/
def offset : Scan Nat := fun _ place => return (place, place)

/-- One byte. -/
def byte : Scan UInt8 := fun data place =>
  match data[place]? with
  | none => failed (.unexpectedEnd place)
  | some b => do return (b, ← sum place 1)

/-- A block of `n` bytes. The place behind it is looked at before the block is taken. -/
def bytes (n : Nat) : Scan Bytes := fun data place =>
  let finish := place + n
  if finish < words ∧ finish ≤ data.length then do return (← slice data place finish, finish)
  else failed (.unexpectedEnd place)

/-- A word of two bytes. -/
def word16 : Scan UInt16 := do
  let b ← bytes 2
  check do return BigEndian.word16 (← nth b 0) (← nth b 1)

/-- A word of four bytes. -/
def word32 : Scan UInt32 := do
  let b ← bytes 4
  check do return BigEndian.word32 (← nth b 0) (← nth b 1) (← nth b 2) (← nth b 3)

/-- A word of eight bytes, read as two halves. -/
def word64 : Scan UInt64 := do
  let upper ← word32
  let lower ← word32
  return BigEndian.word64 upper lower

/-- A value that stands elsewhere in the file. The place of the next byte stays. -/
def elsewhere (place : Nat) (scan : Scan α) : Scan α := fun data here => do
  return ((← scan data place).1, here)

/-! ## 2. Tables -/

/-- A table of `n` rows, in order. -/
def times : Nat → Scan α → Scan (List α)
  | 0, _ => return []
  | n + 1, row => do
    let a ← row
    let rest ← times n row
    return a :: rest

/-- A table whose number of rows stands in front of it. -/
def counted (row : Scan α) : Scan (List α) := do
  let n ← word16
  times n.toNat row

end Scan

end ClassAccess.Machine
