import ClassAccess.ClassFile.Kind
import ClassAccess.Text.Hex

/-!
# What can go wrong with a class file

`Fault` names every reason for which a class file is not read, not built or not revised. A fault
holds its cause; `Fault.message` is the one place where causes become text.

* `Expected` -- what a constant pool entry should have been;
* `Disorder` -- how a sequence of events departs from the class it should describe;
* `Unsupported` -- what a revision may not change, and what a class file has no room for.
-/

namespace ClassAccess

/-! ## 1. Causes -/

/-- What was looked for in a constant pool entry. -/
inductive Expected
  | text
  | classEntry
  | nameAndType
  | memberReference
  | methodReference
  | callSite
  | methodHandle
  | knownMethodHandle
  deriving DecidableEq, Repr

/-- The declarations and instructions that a revision counts. -/
inductive Counted
  | innerClass
  | field
  | method
  | instruction
  deriving DecidableEq, Repr

/-- How a sequence of events departs from the sequence the class gives. -/
inductive Disorder
  | headerMissing
  | headerTwice
  | miscounted (what : Counted) (seen present : Nat)
  | extraInnerClass (name : String)
  | extraField (name : String)
  | extraMethod (name descriptor : String)
  | extraInstruction (method descriptor : String)
  | instructionOutsideMethod
  | callForDynamic (owner name : String)
  | dynamicForCall (name : String)
  deriving DecidableEq, Repr

/-- A change that cannot be made in place, or a table that does not fit its length field. -/
inductive Unsupported
  | header (name : String)
  | innerClass (name : String)
  | field (name : String)
  | method (name descriptor : String)
  | target (owner name descriptor : String)
  | virtualCallOnInterface (owner name descriptor : String)
  | width (before after : CallKind)
  | dynamicCall (name descriptor : String)
  | argument (name : String)
  | handleTarget (owner name descriptor : String)
  | virtualHandleOnInterface (owner name descriptor : String)
  | conflict (offset : Nat)
  | longText (bytes : Nat)
  | longTable (entries : Nat)
  | longAttribute (bytes : Nat)
  deriving DecidableEq, Repr

/-- Why a class file is not read, built or revised. -/
inductive Fault
  | unexpectedEnd (offset : Nat)
  | invalidMagic (found : UInt32)
  | invalidTag (tag : UInt8) (offset : Nat)
  | invalidIndex (index : UInt16)
  | mismatch (index : UInt16) (expected : Expected)
  | poolOverflow (entries : Nat)
  | invalidText (offset : Nat)
  | invalidOpcode (opcode : UInt8) (offset : Nat)
  | truncatedInstruction (offset : Nat)
  | invalidBootstrap (index : UInt16)
  | disorder (cause : Disorder)
  | unsupported (cause : Unsupported)
  deriving DecidableEq, Repr

/-! ## 2. Texts -/

/-- The wanted entry as messages name it. -/
def Expected.name : Expected → String
  | text => "Utf8"
  | classEntry => "Class"
  | nameAndType => "NameAndType"
  | memberReference => "member reference"
  | methodReference => "method reference"
  | callSite => "InvokeDynamic"
  | methodHandle => "MethodHandle"
  | knownMethodHandle => "MethodHandle with a valid reference kind"

/-- The counted thing as messages name it. -/
def Counted.name : Counted → String
  | innerClass => "inner class"
  | field => "field"
  | method => "method"
  | instruction => "instruction"

/-- The text of a departure from the expected sequence. -/
def Disorder.message : Disorder → String
  | headerMissing => "class header was never visited"
  | headerTwice => "class header visited twice"
  | miscounted what seen present =>
    s!"visited {seen} " ++ what.name ++ s!" events, class has {present}"
  | extraInnerClass name => s!"unexpected inner class record {name}"
  | extraField name => s!"unexpected field {name}"
  | extraMethod name descriptor => s!"unexpected method {name}{descriptor}"
  | extraInstruction method descriptor => s!"unexpected instruction in {method}{descriptor}"
  | instructionOutsideMethod => "instruction outside of a method"
  | callForDynamic owner name => s!"expected invokedynamic, got invocation of {owner}.{name}"
  | dynamicForCall name => s!"expected method invocation, got invokedynamic {name}"

/-- The text of an impossible change. -/
def Unsupported.message : Unsupported → String
  | header name => s!"class header of {name} changed beyond access flags"
  | innerClass name => s!"inner class record {name} renamed"
  | field name => s!"field {name} renamed"
  | method name descriptor => s!"method {name}{descriptor} renamed"
  | target owner name descriptor => s!"invocation target {owner}.{name}{descriptor} changed"
  | virtualCallOnInterface owner name descriptor =>
    s!"invokevirtual on interface method {owner}.{name}{descriptor}"
  | width before after => "cannot rewrite " ++ before.name ++ " to " ++ after.name ++ " in place"
  | dynamicCall name descriptor => s!"invokedynamic {name}{descriptor} changed"
  | argument name => s!"bootstrap argument of {name} changed"
  | handleTarget owner name descriptor => s!"method handle {owner}.{name}{descriptor} retargeted"
  | virtualHandleOnInterface owner name descriptor =>
    s!"REF_invokeVirtual on interface method {owner}.{name}{descriptor}"
  | conflict offset => "conflicting rewrites at offset " ++ Hex.shown offset
  | longText bytes => s!"string of {bytes} bytes"
  | longTable entries => s!"table of {entries} entries"
  | longAttribute bytes => s!"attribute of {bytes} bytes"

/-- The text of a fault. -/
def Fault.message : Fault → String
  | unexpectedEnd offset => "Unexpected end of class data at offset " ++ Hex.shown offset
  | invalidMagic found =>
    "Invalid magic: expected 0xCAFEBABE, found " ++ Hex.padded 8 found.toNat
  | invalidTag tag offset => s!"Invalid constant pool tag {tag} at offset " ++ Hex.shown offset
  | invalidIndex index => s!"Constant pool index {index} out of range"
  | mismatch index expected => s!"Constant pool entry {index} is not a " ++ expected.name
  | poolOverflow entries => s!"Constant pool overflow: {entries} entries"
  | invalidText offset => "Invalid MUTF-8 encoding at offset " ++ Hex.shown offset
  | invalidOpcode opcode offset =>
    "Invalid opcode " ++ Hex.padded 2 opcode.toNat ++ s!" at code offset {offset}"
  | truncatedInstruction offset => s!"Truncated instruction at code offset {offset}"
  | invalidBootstrap index => s!"Bootstrap method index {index} out of range"
  | disorder cause => "Visitor event mismatch: " ++ cause.message
  | unsupported cause => "Unsupported edit: " ++ cause.message

end ClassAccess
