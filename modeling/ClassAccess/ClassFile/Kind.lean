/-!
# Kinds of calls and of method handles

* `CallKind` -- the four instructions that call a method by its name, each with its opcode;
* `HandleKind` -- the nine things a method handle can do with its target, numbered from 1.

Both numberings are read back by `ofOpcode?` and `ofCode?`, which know no other numbers.
-/

namespace ClassAccess

/-! ## 1. Calls -/

/-- How a call instruction finds the method it runs. -/
inductive CallKind
  | virtual
  | special
  | static
  | interface
  deriving DecidableEq, Repr, Inhabited

namespace CallKind

/-- The opcode of the instruction. -/
def opcode : CallKind → UInt8
  | virtual => 0xB6
  | special => 0xB7
  | static => 0xB8
  | interface => 0xB9

/-- The call an opcode stands for. -/
def ofOpcode? (op : UInt8) : Option CallKind :=
  if op = 0xB6 then some virtual
  else if op = 0xB7 then some special
  else if op = 0xB8 then some static
  else if op = 0xB9 then some interface
  else none

/-- The kind as messages name it. -/
def name : CallKind → String
  | virtual => "Virtual"
  | special => "Special"
  | static => "Static"
  | interface => "Interface"

/-- Whether the instruction is an opcode and a constant index and nothing else. Only instructions
    of this form can stand in for each other without moving the code behind them. -/
def isPlain : CallKind → Bool
  | interface => false
  | _ => true

@[simp] theorem ofOpcode?_opcode (k : CallKind) : ofOpcode? k.opcode = some k := by
  cases k <;> rfl

theorem opcode_injective {j k : CallKind} (h : j.opcode = k.opcode) : j = k := by
  have := congrArg ofOpcode? h
  simpa using this

end CallKind

/-! ## 2. Method handles -/

/-- What a method handle does with the member it refers to. -/
inductive HandleKind
  | getField
  | getStatic
  | putField
  | putStatic
  | invokeVirtual
  | invokeStatic
  | invokeSpecial
  | newInvokeSpecial
  | invokeInterface
  deriving DecidableEq, Repr, Inhabited

namespace HandleKind

/-- The number of the kind in a class file. -/
def code : HandleKind → UInt8
  | getField => 1
  | getStatic => 2
  | putField => 3
  | putStatic => 4
  | invokeVirtual => 5
  | invokeStatic => 6
  | invokeSpecial => 7
  | newInvokeSpecial => 8
  | invokeInterface => 9

/-- The kind with a number. -/
def ofCode? (n : UInt8) : Option HandleKind :=
  [getField, getStatic, putField, putStatic, invokeVirtual, invokeStatic, invokeSpecial,
    newInvokeSpecial, invokeInterface].find? (·.code == n)

/-- Whether the handle reads or writes a field. -/
def isField : HandleKind → Bool
  | getField | getStatic | putField | putStatic => true
  | _ => false

@[simp] theorem ofCode?_code (k : HandleKind) : ofCode? k.code = some k := by
  cases k <;> rfl

theorem code_injective {j k : HandleKind} (h : j.code = k.code) : j = k := by
  have := congrArg ofCode? h
  simpa using this

end HandleKind

end ClassAccess
