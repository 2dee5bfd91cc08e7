import ClassAccess.ClassFile.Assembly
import ClassAccess.Instruction.Form

/-!
# Requests, and what a class says that was assembled from them

A class is assembled by making requests, any number of them, in any order. Some may fail, and the
assembly goes on with the next one.

* `Request`, `Request.perform` -- what can be asked for, and how it is done;
* `performAll`, `History` -- requests one after the other; the history has those that succeeded,
  each with its answer;
* `History.events` -- **the events that a class with this history says**, told from the requests
  alone, where `forms` tells the instructions that the body of a method consists of;
* `History.Sound` -- what is expected of method bodies and of the bootstrap methods they use.
-/

namespace ClassAccess

open Instruction

/-! ## 1. Requests -/

/-- What can be asked of a class that is being assembled. -/
inductive Request
  | setVersion (version : Version)
  | addInterface (name : String)
  | addField (declaration : FieldDeclaration)
  | addMethod (declaration : MethodDeclaration) (body : Option Body)
  | addInnerClass (record : InnerClass)
  | classReference (name : String)
  | fieldReference (owner name descriptor : String)
  | methodReference (target : Member)
  | methodHandle (handle : Handle)
  | methodType (descriptor : String)
  | string (value : String)
  | addBootstrap (handle : UInt16) (arguments : List UInt16)
  | callSite (bootstrap : UInt16) (name descriptor : String)
  deriving DecidableEq, Repr

/-- Does what is asked for. The answer is the number of what was added, or zero where a declaration
    is added that has none. -/
def Request.perform : Request → Assembling UInt16
  | setVersion version => do Assembly.setVersion version; return 0
  | addInterface name => do Assembly.addInterface name; return 0
  | addField d => do Assembly.addField d.access d.name d.descriptor; return 0
  | addMethod d body => do Assembly.addMethod d.access d.name d.descriptor body; return 0
  | addInnerClass record => do Assembly.addInnerClass record; return 0
  | classReference name => Assembly.classReference name
  | fieldReference owner name descriptor =>
    Assembly.interning (Assembly.fieldReference owner name descriptor)
  | methodReference target => Assembly.interning (Assembly.methodReference target)
  | methodHandle handle => Assembly.interning (Assembly.methodHandle handle)
  | methodType descriptor => Assembly.interning (Assembly.methodType descriptor)
  | string value => Assembly.interning (Assembly.string value)
  | addBootstrap handle arguments => Assembly.addBootstrap handle arguments
  | callSite bootstrap name descriptor =>
    Assembly.interning (Assembly.callSite bootstrap name descriptor)

/-- The requests that succeeded, in order, each with its answer. -/
abbrev History := List (Request × UInt16)

/-- Makes requests one after the other, whether or not those before succeeded. -/
def performAll : List Request → Assembly → History × Assembly
  | [], a => ([], a)
  | request :: rest, a =>
    match request.perform a with
    | .ok answer a' => ((request, answer) :: (performAll rest a').1, (performAll rest a').2)
    | .error _ a' => performAll rest a'

/-! ## 2. What was declared -/

/-- The declarations of a class, as they were asked for. -/
structure Declared where
  version : Version := Assembly.defaultVersion
  interfaces : List String := []
  fields : List FieldDeclaration := []
  methods : List (MethodDeclaration × Option Body) := []
  innerClasses : List InnerClass := []
  bootstraps : List BootstrapRow := []
  deriving DecidableEq

/-- One more request, which may be a declaration. -/
def Declared.note (d : Declared) : Request → Declared
  | .setVersion version => { d with version }
  | .addInterface name => { d with interfaces := d.interfaces ++ [name] }
  | .addField declaration => { d with fields := d.fields ++ [declaration] }
  | .addMethod declaration body => { d with methods := d.methods ++ [(declaration, body)] }
  | .addInnerClass record => { d with innerClasses := d.innerClasses ++ [record] }
  | .addBootstrap handle arguments =>
    { d with bootstraps := d.bootstraps ++ [{ handle, arguments }] }
  | _ => d

/-- A handle as it can be told: a reference to a field does not say whether its owner is an
    interface. -/
def Handle.told (handle : Handle) : Handle :=
  if handle.kind.isField then { handle with target := { handle.target with onInterface := false } }
  else handle

namespace Request

/-- The method that is referred to. -/
def target? : Request → Option Member
  | methodReference target => some target
  | _ => none

/-- The handle, as it can be told. -/
def handle? : Request → Option Handle
  | methodHandle handle => some handle.told
  | _ => none

/-- The method type. -/
def methodType? : Request → Option String
  | methodType descriptor => some descriptor
  | _ => none

/-- The number of the bootstrap method, the name and the descriptor of a call site. -/
def callSite? : Request → Option (UInt16 × String × String)
  | callSite bootstrap name descriptor => some (bootstrap, name, descriptor)
  | _ => none

end Request

/-! ## 3. What the class says -/

namespace History

/-- What was declared, in order. -/
def declared (h : History) : Declared := (h.map Prod.fst).foldl Declared.note {}

/-- What was asked for with this answer. -/
def asked {α : Type} (h : History) (what : Request → Option α) (answer : UInt16) : Option α :=
  h.findSome? fun p => if p.2 = answer then what p.1 else none

/-- An argument of a bootstrap method: a handle or a method type that was asked for, or else a
    number. -/
def argument (h : History) (index : UInt16) : BootstrapArgument :=
  match h.asked Request.handle? index, h.asked Request.methodType? index with
  | some handle, _ => .handle handle
  | none, some descriptor => .methodType descriptor
  | none, none => .constant index

/-- The dynamic call whose call site was asked for with this answer. -/
def dynamicCall? (h : History) (index : UInt16) : Option DynamicCall := do
  let (bootstrap, name, descriptor) ← h.asked Request.callSite? index
  let row ← h.declared.bootstraps[bootstrap.toNat]?
  let bootstrap ← h.asked Request.handle? row.handle
  return { name, descriptor, bootstrap, arguments := row.arguments.map h.argument }

/-- The event of an instruction, if the instruction is a call. -/
def event? (h : History) : Form → Option Event
  | .plain opcode (a :: b :: _) =>
    if opcode = Code.dynamicOpcode then
      (h.dynamicCall? (BigEndian.word16 a b)).map .dynamicCall
    else do
      let kind ← CallKind.ofOpcode? opcode
      let target ← h.asked Request.target? (BigEndian.word16 a b)
      return .call { kind, target }
  | _ => none

/-- The events of a method: its declaration, and the calls among the instructions of its body. -/
def methodEvents (h : History) (forms : Bytes → List Form)
    (m : MethodDeclaration × Option Body) : List Event :=
  .method m.1 :: m.2.toList.flatMap fun body => (forms body.code).filterMap h.event?

/-- **The events of a class with this history.** -/
def events (h : History) (forms : Bytes → List Form) (access : AccessFlags) (name : String)
    (superName : Option String) : List Event :=
  let d := h.declared
  .header { version := d.version, access, name, superName, interfaces := d.interfaces }
    :: d.innerClasses.map .innerClass ++ d.fields.map .field
    ++ d.methods.flatMap (h.methodEvents forms) ++ [.finish]

/-! ## 4. What is expected of bodies -/

/-- A body that a method was given. -/
def HasBody (h : History) (body : Body) : Prop :=
  ∃ declaration, (declaration, some body) ∈ h.declared.methods

/-- Bodies are made of whole instructions; calls have operands that were asked for, and those of
    dynamic calls lead to a bootstrap method whose handle was asked for and whose arguments are
    entries of the pool. -/
structure Sound (h : History) (forms : Bytes → List Form) (pool : ConstantPool) : Prop where
  assembled : ∀ body, h.HasBody body →
    codeOf (forms body.code) = body.code ∧ Assembled 0 (forms body.code)
  direct : ∀ body, h.HasBody body → ∀ (kind : CallKind) (operands : Bytes),
    .plain kind.opcode operands ∈ forms body.code →
      ∃ target index rest, (.methodReference target, index) ∈ h ∧
        operands = BigEndian.bytes16 index ++ rest
  dynamic : ∀ body, h.HasBody body → ∀ operands : Bytes,
    .plain Code.dynamicOpcode operands ∈ forms body.code →
      ∃ bootstrap name descriptor index rest row handle,
        (.callSite bootstrap name descriptor, index) ∈ h ∧
        operands = BigEndian.bytes16 index ++ rest ∧
        h.declared.bootstraps[bootstrap.toNat]? = some row ∧
        (.methodHandle handle, row.handle) ∈ h ∧
        ∀ argument ∈ row.arguments, ∃ c, pool.get argument = .ok c

end History

end ClassAccess
