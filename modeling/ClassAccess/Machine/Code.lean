import ClassAccess.ClassFile.Code
import ClassAccess.Machine

/-!
# Code stepped through on a machine

* `Machine.lengthAt` -- the length of the instruction at a place of the code, or of no instruction
  where there is no code;
* `Machine.callAt` -- the call at a place where an instruction stands, with the operand behind its
  opcode;
* `Machine.calls` -- every call of the code.
-/

namespace ClassAccess.Machine

open Instruction

variable [Words]

/-! ## 1. Lengths -/

/-- The place of the operands of a switch at `pc`: the next multiple of four. -/
def switchOperands (pc : Nat) : Machine Nat := do
  let above ← sum pc 4
  return above / 4 * 4

/-- The signed word at a place of the code. `pc` is the instruction that it belongs to. -/
def signedAt (code : Bytes) (place pc : Nat) : Machine Int := do
  let finish ← sum place 4
  if finish ≤ code.length then
    let b ← slice code place finish
    return (BigEndian.word32 (← nth b 0) (← nth b 1) (← nth b 2) (← nth b 3)).toInt32.toInt
  else failed (.truncatedInstruction pc)

/-- The length that the instruction with opcode `op` at `pc` announces. -/
def announced (code : Bytes) (pc : Nat) (op : UInt8) : Machine Nat :=
  match Shape.ofOpcode op with
  | none => failed (.invalidOpcode op pc)
  | some (.fixed n) => return n
  | some .wide => do
    let next ← sum pc 1
    match code[next]? with
    | none => failed (.truncatedInstruction pc)
    | some widened =>
      match wideLength? widened with
      | some n => return n
      | none => failed (.invalidOpcode widened next)
  | some .tableSwitch => do
    let base ← switchOperands pc
    let low ← signedAt code (← sum base 4) pc
    let high ← signedAt code (← sum base 8) pc
    if high < low then failed (.invalidOpcode op pc)
    else
      let entries ← unsigned (← signed ((← signed (high - low)) + 1))
      sum (← sum (← difference base pc) 12) (← product entries 4)
  | some .lookupSwitch => do
    let base ← switchOperands pc
    let pairs ← signedAt code (← sum base 4) pc
    if pairs < 0 then failed (.invalidOpcode op pc)
    else sum (← sum (← difference base pc) 8) (← product (← unsigned pairs) 8)

/-- The length of the instruction at `pc`, whatever number `pc` is. -/
def lengthAt (code : Bytes) (pc : Nat) : Machine Nat :=
  match code[pc]? with
  | none => failed (.truncatedInstruction pc)
  | some op => do
    let n ← announced code pc op
    if code.length < (← sum pc n) then failed (.truncatedInstruction pc) else return n

/-! ## 2. Calls -/

/-- The call at `pc`, if there is one. The code starts at offset `start` of the file. -/
def callAt (start : Nat) (code : Bytes) (pc : Nat) : Machine (Option Code.CallBytes) := do
  let op ← nth code pc
  if Code.isCall op then
    let offset ← sum start pc
    let a ← nth code (← sum pc 1)
    let b ← nth code (← sum pc 2)
    return some ⟨offset, op, BigEndian.word16 a b⟩
  else return none

/-- Steps from instruction to instruction, at most as often as told, gathering the calls with the
    last one first. -/
def callsFrom (start : Nat) (code : Bytes) :
    (turns pc : Nat) → List Code.CallBytes → Machine (List Code.CallBytes)
  | 0, pc, found => if pc < code.length then trapped .endless else return found
  | turns + 1, pc, found =>
    if pc < code.length then do
      let n ← lengthAt code pc
      let call ← callAt start code pc
      callsFrom start code turns (← sum pc n) (call.toList ++ found)
    else return found

/-- The calls of a piece of code that starts at an offset of the file. -/
def calls (start : Nat) (code : Bytes) : Machine (List Code.CallBytes) := do
  let found ← callsFrom start code code.length 0 []
  return found.reverse

end ClassAccess.Machine
