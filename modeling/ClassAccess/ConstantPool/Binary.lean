import ClassAccess.ConstantPool

/-!
# The constant pool in a file

A pool is written as the number of its slots and its entries, in order; the slots that cannot be
used are not written.

* `ConstantPool.bytesFrom` -- the entries from a slot on;
* `ConstantPool.reading` -- the pool read back.

A last entry that takes two slots where the count leaves room for one makes the pool invalid.
-/

namespace ClassAccess.ConstantPool

/-- The entries from a slot on, as they are written. -/
def bytesFrom (pool : ConstantPool) (first : Nat) : Except Fault Bytes := do
  let entries ← (pool.slots.toList.drop first).mapM Constant.bytes
  return entries.flatten

/-- Reads entries until `missing` slots are filled, behind the slots read so far. `count` is the
    number of all slots, which only a fault shows. -/
def fill (count : UInt16) : (missing : Nat) → Array Constant → Reading (Array Constant)
  | 0, slots, s => .ok (slots, s)
  | 1, slots, s =>
    match Constant.reading s with
    | .error fault => .error fault
    | .ok (constant, s') =>
      if constant.isWide then .error (.invalidIndex count) else .ok (slots.push constant, s')
  | missing + 2, slots, s =>
    match Constant.reading s with
    | .error fault => .error fault
    | .ok (constant, s') =>
      if constant.isWide then fill count missing ((slots.push constant).push .unusable) s'
      else fill count (missing + 1) (slots.push constant) s'

/-- A pool: the number of its slots, then its entries. -/
def reading : Reading ConstantPool := do
  let count ← Reading.word16
  let slots ← fill count (count.toNat - 1) #[.unusable]
  return ⟨slots⟩

/-- The pool that starts at an offset of some bytes, and the offset behind it. -/
def ofBytes (data : Bytes) (offset : Nat) : Except Fault (ConstantPool × Nat) := do
  let (pool, rest) ← reading (Source.from data offset)
  return (pool, rest.offset)

end ClassAccess.ConstantPool
