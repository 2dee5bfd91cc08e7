import ClassAccess.BigEndian
import ClassAccess.Fault

/-!
# Instructions and their lengths

The code of a method is a row of instructions without separators, so finding the next instruction
means knowing the length of this one.

* `Shape.ofOpcode` -- how the length of an instruction follows from its opcode;
* `lengthAt` -- the length of the instruction that starts some bytes at a place of the code;
* `length` -- the same, for a place in the whole code.

Most instructions have a length of their own. `wide` takes the one of the instruction it widens, and
the two switches carry tables, in front of which zero to three bytes fill up the code to a multiple
of four.
-/

namespace ClassAccess.Instruction

/-! ## 1. Shapes -/

/-- How the length of an instruction is found. -/
inductive Shape
  | fixed (length : Nat)
  | wide
  | tableSwitch
  | lookupSwitch
  deriving DecidableEq, Repr

/-- Whether an opcode lies between two others, both included. -/
def within (low high op : UInt8) : Bool := low ≤ op && op ≤ high

/-- Whether an opcode loads or stores the local variable that the byte behind it names. -/
def accessesLocal (op : UInt8) : Bool := within 0x15 0x19 op || within 0x36 0x3A op

/-- The shape of the instructions with an opcode; there are none with a number beyond 0xC9. -/
def Shape.ofOpcode (op : UInt8) : Option Shape :=
  if op = 0x10 || op = 0x12 || op = 0xBC || op = 0xA9 || accessesLocal op then some (.fixed 2)
  else if op = 0x11 || op = 0x13 || op = 0x14 || op = 0x84 then some (.fixed 3)
  else if within 0x99 0xA8 op || op = 0xC6 || op = 0xC7 then some (.fixed 3)
  else if within 0xB2 0xB8 op then some (.fixed 3)
  else if op = 0xBB || op = 0xBD || op = 0xC0 || op = 0xC1 then some (.fixed 3)
  else if op = 0xC5 then some (.fixed 4)
  else if op = 0xB9 || op = 0xBA || op = 0xC8 || op = 0xC9 then some (.fixed 5)
  else if op = 0xC4 then some .wide
  else if op = 0xAA then some .tableSwitch
  else if op = 0xAB then some .lookupSwitch
  else if op ≤ 0xC3 then some (.fixed 1)
  else none

/-- The length of a widened instruction, `wide` itself included. -/
def wideLength? (op : UInt8) : Option Nat :=
  if op = 0x84 then some 6
  else if accessesLocal op || op = 0xA9 then some 4
  else none

/-- The number of bytes from a switch at `pc` to its operands: the opcode and the fill up to the
    next multiple of four. -/
def switchStart (pc : Nat) : Nat := 4 - pc % 4

/-- The signed word that stands `n` bytes behind the front. -/
def wordAt? (code : Bytes) (n : Nat) : Option Int :=
  match code.drop n with
  | a :: b :: c :: d :: _ => some (BigEndian.word32 a b c d).toInt32.toInt
  | _ => none

/-! ## 2. Lengths -/

/-- The length that the front of `code` announces, whether or not as many bytes are there. `code`
    is what stands from `pc` on. -/
def announcedLength (pc : Nat) (code : Bytes) : Except Fault Nat :=
  match code with
  | [] => .error (.truncatedInstruction pc)
  | op :: rest =>
    match Shape.ofOpcode op with
    | none => .error (.invalidOpcode op pc)
    | some (.fixed n) => .ok n
    | some .wide =>
      match rest with
      | [] => .error (.truncatedInstruction pc)
      | widened :: _ =>
        match wideLength? widened with
        | some n => .ok n
        | none => .error (.invalidOpcode widened (pc + 1))
    | some .tableSwitch =>
      match wordAt? code (switchStart pc + 4), wordAt? code (switchStart pc + 8) with
      | some low, some high =>
        if high < low then .error (.invalidOpcode op pc)
        else .ok (switchStart pc + 12 + (high - low + 1).toNat * 4)
      | _, _ => .error (.truncatedInstruction pc)
    | some .lookupSwitch =>
      match wordAt? code (switchStart pc + 4) with
      | some pairs =>
        if pairs < 0 then .error (.invalidOpcode op pc)
        else .ok (switchStart pc + 8 + pairs.toNat * 8)
      | none => .error (.truncatedInstruction pc)

/-- The length of the instruction that starts `code`, where `code` is what stands from `pc` on.
    All of the instruction has to be there. -/
def lengthAt (pc : Nat) (code : Bytes) : Except Fault Nat :=
  match announcedLength pc code with
  | .error fault => .error fault
  | .ok n => if (code.take n).length = n then .ok n else .error (.truncatedInstruction pc)

/-- The length of the instruction at `pc`. -/
def length (code : Bytes) (pc : Nat) : Except Fault Nat := lengthAt pc (code.drop pc)

end ClassAccess.Instruction
