import ClassAccess.ClassFile.Kind
import ClassAccess.ClassFile.Member

/-!
# Events: what a class file says, in order

A class is told as a sequence of events: its header, the records of inner classes, the fields, and
each method followed by the calls in its body. What the events leave out -- other instructions,
other attributes -- no revision of the class can touch.

* the declarations: `Header`, `InnerClass`, `FieldDeclaration`, `MethodDeclaration`;
* the calls: `Call` names a method directly, `DynamicCall` a bootstrap method and its arguments;
* `Event` -- any of them.
-/

namespace ClassAccess

/-- Access and property flags, one bit each. Bits without a meaning are kept. -/
abbrev AccessFlags := UInt16

/-- The version of the class file format. -/
structure Version where
  major : UInt16
  minor : UInt16
  deriving DecidableEq, Repr, Inhabited

/-! ## 1. Declarations -/

/-- What a class says about itself. -/
structure Header where
  version : Version
  access : AccessFlags
  name : String
  superName : Option String
  interfaces : List String
  deriving DecidableEq, Repr

/-- What a class says about a class that is declared inside another one. -/
structure InnerClass where
  name : String
  outerName : Option String
  innerName : Option String
  access : AccessFlags
  deriving DecidableEq, Repr

/-- A field of the class. -/
structure FieldDeclaration where
  access : AccessFlags
  name : String
  descriptor : String
  deriving DecidableEq, Repr

/-- A method of the class. -/
structure MethodDeclaration where
  access : AccessFlags
  name : String
  descriptor : String
  deriving DecidableEq, Repr

/-! ## 2. Calls -/

/-- An instruction that calls a method. -/
structure Call where
  kind : CallKind
  target : Member
  deriving DecidableEq, Repr

/-- A method handle: what to do with which member. -/
structure Handle where
  kind : HandleKind
  target : Member
  deriving DecidableEq, Repr

/-- A fixed argument of a bootstrap method. Constants other than handles and method types are told
    by their number. -/
inductive BootstrapArgument
  | handle (handle : Handle)
  | methodType (descriptor : String)
  | constant (index : UInt16)
  deriving DecidableEq, Repr

/-- An instruction that calls what a bootstrap method finds. -/
structure DynamicCall where
  name : String
  descriptor : String
  bootstrap : Handle
  arguments : List BootstrapArgument
  deriving DecidableEq, Repr

/-! ## 3. Events -/

/-- One thing a class file says. -/
inductive Event
  | header (header : Header)
  | innerClass (record : InnerClass)
  | field (declaration : FieldDeclaration)
  | method (declaration : MethodDeclaration)
  | call (call : Call)
  | dynamicCall (call : DynamicCall)
  | finish
  deriving DecidableEq, Repr

end ClassAccess
