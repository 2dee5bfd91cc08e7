import ClassAccess.Instruction

/-!
# The calls in a piece of code

Of all instructions of a method, only those that call something are of interest. They are found by
stepping from instruction to instruction, so that no operand is taken for an opcode.

* `callAt?` -- the call that starts some bytes, if they start with one;
* `calls` -- every call of the code, in order, or the fault of the first instruction that is none.
-/

namespace ClassAccess.Code

/-- A call as it stands in the file: where its opcode stands, the opcode, and the constant that is
    its operand. -/
structure CallBytes where
  offset : Nat
  opcode : UInt8
  index : UInt16
  deriving DecidableEq, Repr

/-- The opcode of dynamic calls. -/
def dynamicOpcode : UInt8 := 0xBA

/-- Whether an opcode is that of a call, dynamic or not. -/
def isCall (op : UInt8) : Bool := Instruction.within 0xB6 dynamicOpcode op

/-- The call that starts `code`, which starts at an offset of the file. -/
def callAt? (offset : Nat) (code : Bytes) : Option CallBytes :=
  match code with
  | op :: a :: b :: _ => if isCall op then some ⟨offset, op, BigEndian.word16 a b⟩ else none
  | _ => none

/-- Steps through what is left of the code from `pc` on, gathering the calls with the last one
    first. The code as a whole starts at offset `start` of the file. -/
def callsFrom (start pc : Nat) (acc : List CallBytes) : Bytes → Except Fault (List CallBytes)
  | [] => .ok acc
  | op :: rest =>
    match Instruction.lengthAt pc (op :: rest) with
    | .error fault => .error fault
    | .ok n =>
      callsFrom start (pc + n) ((callAt? (start + pc) (op :: rest)).toList ++ acc)
        (rest.drop (n - 1))
termination_by code => code.length
decreasing_by simp only [List.length_drop, List.length_cons]; omega

/-- The calls of a piece of code that starts at an offset of the file. -/
def calls (start : Nat) (code : Bytes) : Except Fault (List CallBytes) :=
  match callsFrom start 0 [] code with
  | .ok found => .ok found.reverse
  | .error fault => .error fault

end ClassAccess.Code
