import ClassAccess.ModifiedUtf8
import ClassAccess.Reading

/-!
# Constants

A constant is one entry of the constant pool of a class. Floating-point constants are kept as the
bits that stand in the file.

* `Constant.bytes` -- the entry as it is written: a tag and what the tag asks for;
* `Constant.reading` -- the entry read back.

`unusable` is no entry of a file: it stands in the first slot of every pool and behind every entry
that takes two slots.
-/

namespace ClassAccess

/-- One slot of a constant pool. Numbers of other slots are called by what stands there. -/
inductive Constant
  | text (value : String)
  | integer (value : Int32)
  | float (bits : UInt32)
  | long (value : Int64)
  | double (bits : UInt64)
  | classEntry (name : UInt16)
  | string (text : UInt16)
  | field (owner nameAndType : UInt16)
  | method (owner nameAndType : UInt16)
  | interfaceMethod (owner nameAndType : UInt16)
  | nameAndType (name descriptor : UInt16)
  | methodHandle (kind : UInt8) (reference : UInt16)
  | methodType (descriptor : UInt16)
  | dynamic (bootstrap nameAndType : UInt16)
  | callSite (bootstrap nameAndType : UInt16)
  | moduleEntry (name : UInt16)
  | packageEntry (name : UInt16)
  | unusable
  deriving DecidableEq, Repr, Inhabited

namespace Constant

/-- Whether the entry takes two slots. -/
def isWide : Constant → Bool
  | long _ | double _ => true
  | _ => false

/-- The number of slots the entry takes. -/
def slots (c : Constant) : Nat := if c.isWide then 2 else 1

/-! ## 1. Writing -/

/-- A tag and one number. -/
def tagged (tag : UInt8) (a : UInt16) : Bytes := tag :: BigEndian.bytes16 a

/-- A tag and two numbers. -/
def tagged2 (tag : UInt8) (a b : UInt16) : Bytes :=
  tag :: (BigEndian.bytes16 a ++ BigEndian.bytes16 b)

/-- The entry as it is written. Only a text can fail: its length has to fit two bytes. -/
def bytes : Constant → Except Fault Bytes
  | text value =>
    let spelled := ModifiedUtf8.encode value
    if spelled.length < 0x10000 then
      .ok (1 :: (BigEndian.bytes16 spelled.length.toUInt16 ++ spelled))
    else .error (.unsupported (.longText spelled.length))
  | integer value => .ok (3 :: BigEndian.bytes32 value.toUInt32)
  | float bits => .ok (4 :: BigEndian.bytes32 bits)
  | long value => .ok (5 :: BigEndian.bytes64 value.toUInt64)
  | double bits => .ok (6 :: BigEndian.bytes64 bits)
  | classEntry name => .ok (tagged 7 name)
  | string value => .ok (tagged 8 value)
  | field owner member => .ok (tagged2 9 owner member)
  | method owner member => .ok (tagged2 10 owner member)
  | interfaceMethod owner member => .ok (tagged2 11 owner member)
  | nameAndType name descriptor => .ok (tagged2 12 name descriptor)
  | methodHandle kind reference => .ok (15 :: kind :: BigEndian.bytes16 reference)
  | methodType descriptor => .ok (tagged 16 descriptor)
  | dynamic bootstrap member => .ok (tagged2 17 bootstrap member)
  | callSite bootstrap member => .ok (tagged2 18 bootstrap member)
  | moduleEntry name => .ok (tagged 19 name)
  | packageEntry name => .ok (tagged 20 name)
  | unusable => .ok []

/-! ## 2. Reading -/

/-- What stands behind a tag at `start`. A text is checked once all of its bytes are there. -/
def body (tag : UInt8) (start : Nat) : Reading Constant :=
  match tag.toNat with
  | 1 => do
    let length ← Reading.word16
    let first ← Reading.offset
    let spelled ← Reading.bytes length.toNat
    let value ← Reading.check (ModifiedUtf8.decode first spelled)
    return text value
  | 3 => return integer (← Reading.word32).toInt32
  | 4 => return float (← Reading.word32)
  | 5 => return long (← Reading.word64).toInt64
  | 6 => return double (← Reading.word64)
  | 7 => return classEntry (← Reading.word16)
  | 8 => return string (← Reading.word16)
  | 9 => return field (← Reading.word16) (← Reading.word16)
  | 10 => return method (← Reading.word16) (← Reading.word16)
  | 11 => return interfaceMethod (← Reading.word16) (← Reading.word16)
  | 12 => return nameAndType (← Reading.word16) (← Reading.word16)
  | 15 => return methodHandle (← Reading.byte) (← Reading.word16)
  | 16 => return methodType (← Reading.word16)
  | 17 => return dynamic (← Reading.word16) (← Reading.word16)
  | 18 => return callSite (← Reading.word16) (← Reading.word16)
  | 19 => return moduleEntry (← Reading.word16)
  | 20 => return packageEntry (← Reading.word16)
  | _ => Reading.fail (.invalidTag tag start)

/-- One entry. -/
def reading : Reading Constant := do
  let start ← Reading.offset
  let tag ← Reading.byte
  body tag start

end Constant

end ClassAccess
