import ClassAccess.ClassFile.Member
import ClassAccess.ConstantPool.Constant

/-!
# The constant pool

Every name, descriptor and reference of a class stands once, in its constant pool, and is meant by
its number there. The first slot is never used, so a number of zero is free to mean "none".

* `ConstantPool.get` and the readings built on it (`text`, `className`, `nameAndType`, `member`)
  follow numbers, and say which entry of which kind is missing;
* `ConstantPool.push` puts an entry at the end; `ConstantPool.intern` does so only when no equal
  entry is there yet;
* a pool has room for as many slots as a two-byte count can tell, 65535.
-/

namespace ClassAccess

/-- The slots of a constant pool, from the unused first one on. -/
structure ConstantPool where
  slots : Array Constant := #[.unusable]
  deriving DecidableEq, Repr

namespace ConstantPool

/-- The largest number of slots. -/
def capacity : Nat := 0xFFFF

/-- The number of slots: one more than the highest number of an entry. -/
def count (pool : ConstantPool) : Nat := pool.slots.size

/-! ## 1. Following numbers -/

/-- The entry with a number. -/
def get (pool : ConstantPool) (index : UInt16) : Except Fault Constant :=
  match pool.slots[index.toNat]? with
  | none | some .unusable => .error (.invalidIndex index)
  | some constant => .ok constant

/-- The text with a number. -/
def text (pool : ConstantPool) (index : UInt16) : Except Fault String := do
  match ← pool.get index with
  | .text value => return value
  | _ => .error (.mismatch index .text)

/-- The name of the class with a number. -/
def className (pool : ConstantPool) (index : UInt16) : Except Fault String := do
  match ← pool.get index with
  | .classEntry name => pool.text name
  | _ => .error (.mismatch index .classEntry)

/-- The name of the class with a number, where zero means that there is none. -/
def className? (pool : ConstantPool) (index : UInt16) : Except Fault (Option String) :=
  if index = 0 then .ok none else some <$> pool.className index

/-- The text with a number, where zero means that there is none. -/
def text? (pool : ConstantPool) (index : UInt16) : Except Fault (Option String) :=
  if index = 0 then .ok none else some <$> pool.text index

/-- The name and the descriptor with a number. -/
def nameAndType (pool : ConstantPool) (index : UInt16) : Except Fault (String × String) := do
  match ← pool.get index with
  | .nameAndType name descriptor => return (← pool.text name, ← pool.text descriptor)
  | _ => .error (.mismatch index .nameAndType)

/-- The member that an owner and a name with descriptor make up. -/
def memberOf (pool : ConstantPool) (owner nameAndType : UInt16) (onInterface : Bool) :
    Except Fault Member := do
  let owner ← pool.className owner
  let (name, descriptor) ← pool.nameAndType nameAndType
  return { owner, name, descriptor, onInterface }

/-- The field or method that the reference with a number names. -/
def member (pool : ConstantPool) (index : UInt16) : Except Fault Member := do
  match ← pool.get index with
  | .field owner nameAndType => pool.memberOf owner nameAndType false
  | .method owner nameAndType => pool.memberOf owner nameAndType false
  | .interfaceMethod owner nameAndType => pool.memberOf owner nameAndType true
  | _ => .error (.mismatch index .memberReference)

/-! ## 2. Adding entries -/

/-- The number of the first entry equal to `constant`. -/
def find? (pool : ConstantPool) (constant : Constant) : Option UInt16 :=
  match pool.slots.findIdx? (· == constant) with
  | none | some 0 => none
  | some i => some i.toUInt16

/-- The fault of a pool that has no room for an entry. -/
def overflow? (pool : ConstantPool) (constant : Constant) : Option Fault :=
  let needed := pool.count + constant.slots
  if capacity < needed then some (.poolOverflow needed) else none

/-- The pool with an entry at its end. -/
def add (pool : ConstantPool) (constant : Constant) : ConstantPool :=
  if constant.isWide then ⟨(pool.slots.push constant).push .unusable⟩
  else ⟨pool.slots.push constant⟩

/-- Puts an entry at the end and gives its number, if there is room. -/
def push (pool : ConstantPool) (constant : Constant) : Except Fault (UInt16 × ConstantPool) :=
  match pool.overflow? constant with
  | some fault => .error fault
  | none => .ok (pool.count.toUInt16, pool.add constant)

/-- Gives the number of an entry equal to `constant`, putting it at the end if there is none. -/
def intern (pool : ConstantPool) (constant : Constant) : Except Fault (UInt16 × ConstantPool) :=
  match pool.find? constant with
  | some index => .ok (index, pool)
  | none => pool.push constant

end ConstantPool

/-! ## 3. Entries made of entries -/

/-- A step that may add entries to a pool. When it fails, the entries added so far stay. -/
abbrev Interning (α : Type) := EStateM Fault ConstantPool α

namespace Interning

/-- An entry that is added whether or not an equal one is there. -/
def fresh (c : Constant) : Interning UInt16 := fun pool =>
  match pool.overflow? c with
  | some fault => .error fault pool
  | none => .ok pool.count.toUInt16 (pool.add c)

/-- An entry, which is added if no equal one is there. -/
def constant (c : Constant) : Interning UInt16 := fun pool =>
  match pool.find? c with
  | some index => .ok index pool
  | none => fresh c pool

/-- **An entry is found or added as `ConstantPool.intern` does**, and a pool without room stays as
    it is. -/
theorem constant_eq (c : Constant) (pool : ConstantPool) :
    constant c pool = match pool.intern c with
      | .ok (index, pool') => .ok index pool'
      | .error fault => .error fault pool := by
  unfold constant ConstantPool.intern
  cases pool.find? c with
  | some index => rfl
  | none =>
    simp only [fresh, ConstantPool.push]
    cases pool.overflow? c <;> rfl

/-- A text. -/
def text (value : String) : Interning UInt16 := constant (.text value)

/-- A class, after its name. -/
def classNamed (name : String) : Interning UInt16 := do
  constant (.classEntry (← text name))

/-- A name with a descriptor, after the two texts. -/
def nameAndType (name descriptor : String) : Interning UInt16 := do
  constant (.nameAndType (← text name) (← text descriptor))

end Interning

end ClassAccess
