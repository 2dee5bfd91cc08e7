import ClassAccess.Instruction

/-!
# The forms of instructions

What instructions consist of, told the way round in which code is written:

* `operandCounts` -- the number of operand bytes of every opcode that has a number of its own, in
  the order of the opcodes;
* `Form` -- an instruction, and `Form.bytes` -- how it is written;
* `Form.Fits` -- that an instruction may stand at a place of the code: a switch aligns its operands
  to a multiple of four;
* `Assembled` -- a row of instructions, one behind the other, from a place of the code on.
-/

namespace ClassAccess.Instruction

/-! ## 1. Operands -/

/-- The numbers of operand bytes, in runs of opcodes from zero on. Switches and the instruction that
    widens others have none of their own. -/
def operandRuns : List (Nat × Option Nat) :=
  [(16, some 0), (1, some 1), (1, some 2), (1, some 1), (2, some 2), (5, some 1), (28, some 0),
    (5, some 1), (73, some 0), (1, some 2), (20, some 0), (16, some 2), (1, some 1), (2, none),
    (6, some 0), (7, some 2), (2, some 4), (1, some 2), (1, some 1), (1, some 2), (2, some 0),
    (2, some 2), (2, some 0), (1, none), (1, some 3), (2, some 2), (2, some 4)]

/-- The numbers of operand bytes, by opcodes. -/
def operandCounts : List (Option Nat) :=
  operandRuns.flatMap fun run => List.replicate run.1 run.2

/-- The number of operand bytes that every instruction with an opcode has, if there is one. -/
def operandCount? (op : UInt8) : Option Nat := (operandCounts[op.toNat]?).join

/-- The opcodes that name a local variable in one byte, and in two when they are widened. -/
def localOpcodes : List UInt8 :=
  [0x15, 0x16, 0x17, 0x18, 0x19, 0x36, 0x37, 0x38, 0x39, 0x3A, 0xA9]

/-! ## 2. Forms -/

/-- An instruction. `fill` is what stands in front of the operands of a switch; the targets of a
    switch are distances, and those of a table belong to the numbers from `low` on. -/
inductive Form
  | plain (opcode : UInt8) (operands : Bytes)
  | wideLocal (opcode : UInt8) (slot : UInt16)
  | wideIncrement (slot amount : UInt16)
  | tableSwitch (fill : Bytes) (otherwise : UInt32) (low high : Int32) (targets : List UInt32)
  | lookupSwitch (fill : Bytes) (otherwise : UInt32) (pairs : List (UInt32 × UInt32))
  deriving DecidableEq, Repr

namespace Form

/-- The opcode of the instruction. -/
def opcode : Form → UInt8
  | plain opcode _ => opcode
  | wideLocal .. | wideIncrement .. => 0xC4
  | tableSwitch .. => 0xAA
  | lookupSwitch .. => 0xAB

/-- The instruction as it is written. -/
def bytes : Form → Bytes
  | plain opcode operands => opcode :: operands
  | wideLocal opcode slot => 0xC4 :: opcode :: BigEndian.bytes16 slot
  | wideIncrement slot amount =>
    0xC4 :: 0x84 :: (BigEndian.bytes16 slot ++ BigEndian.bytes16 amount)
  | tableSwitch fill otherwise low high targets =>
    0xAA :: (fill ++ BigEndian.bytes32 otherwise ++ BigEndian.bytes32 low.toUInt32
      ++ BigEndian.bytes32 high.toUInt32 ++ targets.flatMap BigEndian.bytes32)
  | lookupSwitch fill otherwise pairs =>
    0xAB :: (fill ++ BigEndian.bytes32 otherwise ++ BigEndian.bytes32 pairs.length.toUInt32
      ++ pairs.flatMap fun p => BigEndian.bytes32 p.1 ++ BigEndian.bytes32 p.2)

/-- Whether `fill` takes a switch at `pc` to the next multiple of four. -/
def Fills (pc : Nat) (fill : Bytes) : Prop := fill.length < 4 ∧ (pc + 1 + fill.length) % 4 = 0

/-- **Whether the instruction may stand at `pc`**: as many operands as its opcode asks for, a switch
    aligned, and as many targets as its bounds or its number say. -/
def Fits (pc : Nat) : Form → Prop
  | plain opcode operands => operandCount? opcode = some operands.length
  | wideLocal opcode _ => opcode ∈ localOpcodes
  | wideIncrement .. => True
  | tableSwitch fill _ low high targets =>
    Fills pc fill ∧ low.toInt ≤ high.toInt
      ∧ (targets.length : Int) = high.toInt - low.toInt + 1
  | lookupSwitch fill _ pairs => Fills pc fill ∧ pairs.length < 0x80000000

end Form

/-! ## 3. Code -/

/-- Instructions one behind the other, the first of them at `pc`. -/
inductive Assembled : Nat → List Form → Prop
  | nil {pc : Nat} : Assembled pc []
  | cons {pc : Nat} {form : Form} {rest : List Form} :
      form.Fits pc → Assembled (pc + form.bytes.length) rest → Assembled pc (form :: rest)

/-- The code that instructions make up. -/
def codeOf (forms : List Form) : Bytes := forms.flatMap Form.bytes

/-- Where instructions start, the first of them at `pc`. -/
def starts (pc : Nat) : List Form → List Nat
  | [] => []
  | form :: rest => pc :: starts (pc + form.bytes.length) rest

theorem length_operandCounts : operandCounts.length = 0xCA := by decide +kernel

theorem Form.bytes_ne_nil (form : Form) : form.bytes ≠ [] := by
  cases form <;> simp [Form.bytes]

end ClassAccess.Instruction
