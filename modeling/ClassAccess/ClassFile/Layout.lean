import ClassAccess.ClassFile.Code
import ClassAccess.ClassFile.Event
import ClassAccess.ConstantPool.Binary
import ClassAccess.Text.Quoted

/-!
# The layout of a class file

Reading a class file gives its layout: what the file says, and where it says those things that a
revision may change.

* `Placed` -- a value and the offset of the bytes that hold its changeable part;
* `Layout` -- the whole file: header, inner classes, fields, methods with their calls, bootstrap
  methods;
* `Layout.ofBytes` -- the layout of a class file, or the first fault met on the way through it;
* `Layout.events` -- what the file says, in order.

Every name an event needs is looked up while reading, so nothing can fail afterwards. The calls are
looked up last, since the bootstrap methods stand at the end of the file.
-/

namespace ClassAccess

/-! ## 1. Parts -/

/-- A value and the offset of its changeable bytes: the access flags of a declaration, the opcode
    of a call, the constant number of a bootstrap method or argument. -/
structure Placed (α : Type) where
  value : α
  offset : Nat
  deriving DecidableEq, Repr

/-- One row of the table of bootstrap methods, as the numbers of constants. -/
structure BootstrapEntry where
  handle : Placed UInt16
  arguments : List (Placed UInt16)
  deriving DecidableEq, Repr

/-- A call in the body of a method. A dynamic call comes with its row of the table of bootstrap
    methods, where its handles are changed. -/
inductive PlacedCall
  | direct (call : Placed Call)
  | dynamic (call : DynamicCall) (entry : BootstrapEntry)
  deriving DecidableEq, Repr

/-- A method and the calls in its body. -/
structure MethodLayout where
  declaration : Placed MethodDeclaration
  calls : List PlacedCall
  deriving DecidableEq, Repr

/-- A class file that was read. `poolEnd` is the offset behind the constant pool. -/
structure Layout where
  data : Bytes
  pool : ConstantPool
  poolEnd : Nat
  header : Placed Header
  innerClasses : List (Placed InnerClass)
  fields : List (Placed FieldDeclaration)
  methods : List MethodLayout
  bootstraps : List BootstrapEntry
  deriving DecidableEq, Repr

/-! ## 2. What the file says -/

/-- A call as an event. -/
def PlacedCall.event : PlacedCall → Event
  | direct call => .call call.value
  | dynamic call _ => .dynamicCall call

/-- A method as its declaration and its calls. -/
def MethodLayout.events (m : MethodLayout) : List Event :=
  .method m.declaration.value :: m.calls.map PlacedCall.event

/-- What the file says, in order. -/
def Layout.events (l : Layout) : List Event :=
  .header l.header.value :: l.innerClasses.map (.innerClass ·.value)
    ++ l.fields.map (.field ·.value) ++ l.methods.flatMap MethodLayout.events ++ [.finish]

/-- The name of the class. -/
def Layout.name (l : Layout) : String := l.header.value.name

/-- The class in one line: its name and the number of bytes of the file. -/
def Layout.summary (l : Layout) : String :=
  "ClassReader \x7b name: " ++ Quoted.quote l.name ++ s!", size: {l.data.length} \x7d"

/-! ## 3. Attributes -/

/-- An attribute: its name, the source at the front of its body, and the length of the body. -/
structure Attribute where
  name : String
  body : Source
  length : Nat

namespace Attribute

/-- The attribute of a method that holds its code. -/
def code : String := "Code"

/-- The attribute of a class that holds the records of inner classes. -/
def innerClasses : String := "InnerClasses"

/-- The attribute of a class that holds the table of bootstrap methods. -/
def bootstrapMethods : String := "BootstrapMethods"

/-- An attribute, whose body is skipped as a block. -/
def reading (pool : ConstantPool) : Reading Attribute := do
  let name ← Reading.check (pool.text (← Reading.word16))
  let length ← Reading.word32
  let body ← Reading.source
  let _ ← Reading.bytes length.toNat
  return ⟨name, body, length.toNat⟩

/-- The offset behind the body. -/
def finish (a : Attribute) : Nat := a.body.offset + a.length

/-- Reads the body. What is read may not reach beyond the end of the body; whether it does is only
    looked at afterwards, so a fault inside of it comes first. -/
def contents {α : Type} (a : Attribute) (r : Reading α) : Except Fault α :=
  match r a.body with
  | .error fault => .error fault
  | .ok (value, s) =>
    if a.finish < s.offset then .error (.unexpectedEnd a.finish) else .ok value

end Attribute

/-! ## 4. Reading the parts -/

namespace Layout

/-- The number that starts every class file. -/
def magic : UInt32 := 0xCAFEBABE

/-- Magic number, version and constant pool, with the offset behind them. -/
def preamble : Reading (Version × ConstantPool × Nat) := do
  let found ← Reading.word32
  if found ≠ magic then Reading.fail (.invalidMagic found)
  let minor ← Reading.word16
  let major ← Reading.word16
  let pool ← ConstantPool.reading
  let poolEnd ← Reading.offset
  return (⟨major, minor⟩, pool, poolEnd)

/-- The header of the class. -/
def headerReading (version : Version) (pool : ConstantPool) : Reading (Placed Header) := do
  let offset ← Reading.offset
  let access ← Reading.word16
  let name ← Reading.check (pool.className (← Reading.word16))
  let superName ← Reading.check (pool.className? (← Reading.word16))
  let interfaces ← Reading.counted do Reading.check (pool.className (← Reading.word16))
  return ⟨{ version, access, name, superName, interfaces }, offset⟩

/-- A field. Nothing in its attributes matters. -/
def fieldReading (pool : ConstantPool) : Reading (Placed FieldDeclaration) := do
  let offset ← Reading.offset
  let access ← Reading.word16
  let name ← Reading.check (pool.text (← Reading.word16))
  let descriptor ← Reading.check (pool.text (← Reading.word16))
  let _ ← Reading.counted (Attribute.reading pool)
  return ⟨{ access, name, descriptor }, offset⟩

/-- The front of a code attribute: two sizes that do not matter, and the code with its offset. -/
def codeReading : Reading (Nat × Bytes) := do
  let _ ← Reading.bytes 4
  let length ← Reading.word32
  let start ← Reading.offset
  let code ← Reading.bytes length.toNat
  return (start, code)

/-- The calls in an attribute of a method; there are none unless it holds code. -/
def attributeCalls (a : Attribute) : Except Fault (List Code.CallBytes) :=
  if a.name = Attribute.code then
    match a.contents codeReading with
    | .ok (start, code) => Code.calls start code
    | .error fault => .error fault
  else .ok []

/-- A method and the calls in its body, which are not looked up yet. -/
def methodReading (pool : ConstantPool) :
    Reading (Placed MethodDeclaration × List Code.CallBytes) := do
  let offset ← Reading.offset
  let access ← Reading.word16
  let name ← Reading.check (pool.text (← Reading.word16))
  let descriptor ← Reading.check (pool.text (← Reading.word16))
  let calls ← Reading.counted do
    let a ← Attribute.reading pool
    Reading.check (attributeCalls a)
  return (⟨{ access, name, descriptor }, offset⟩, calls.flatten)

/-- A record of an inner class. -/
def innerClassReading (pool : ConstantPool) : Reading (Placed InnerClass) := do
  let name ← Reading.check (pool.className (← Reading.word16))
  let outerName ← Reading.check (pool.className? (← Reading.word16))
  let innerName ← Reading.check (pool.text? (← Reading.word16))
  let offset ← Reading.offset
  let access ← Reading.word16
  return ⟨{ name, outerName, innerName, access }, offset⟩

/-- The number of a constant and where it stands. -/
def indexReading : Reading (Placed UInt16) := do
  let offset ← Reading.offset
  let index ← Reading.word16
  return ⟨index, offset⟩

/-- A row of the table of bootstrap methods. -/
def bootstrapReading : Reading BootstrapEntry := do
  let handle ← indexReading
  let arguments ← Reading.counted indexReading
  return ⟨handle, arguments⟩

/-- The tables in an attribute of the class: inner classes and bootstrap methods. Attributes of
    other names have neither. -/
def attributeTables (pool : ConstantPool) (a : Attribute) :
    Except Fault (List (Placed InnerClass) × List BootstrapEntry) :=
  if a.name = Attribute.innerClasses then
    (·, []) <$> a.contents (Reading.counted (innerClassReading pool))
  else if a.name = Attribute.bootstrapMethods then
    ([], ·) <$> a.contents (Reading.counted bootstrapReading)
  else .ok ([], [])

/-! ## 5. Looking up the calls -/

/-- The handle with a number. -/
def handleAt (pool : ConstantPool) (index : UInt16) : Except Fault Handle := do
  match ← pool.get index with
  | .methodHandle kind reference =>
    match HandleKind.ofCode? kind with
    | some kind => return ⟨kind, ← pool.member reference⟩
    | none => .error (.mismatch index .knownMethodHandle)
  | _ => .error (.mismatch index .methodHandle)

/-- The argument with a number. -/
def argumentAt (pool : ConstantPool) (index : UInt16) : Except Fault BootstrapArgument := do
  match ← pool.get index with
  | .methodHandle .. => return .handle (← handleAt pool index)
  | .methodType descriptor => return .methodType (← pool.text descriptor)
  | _ => return .constant index

/-- The dynamic call whose operand is the constant with a number. -/
def dynamicCallAt (pool : ConstantPool) (bootstraps : List BootstrapEntry) (index : UInt16) :
    Except Fault PlacedCall := do
  match ← pool.get index with
  | .callSite bootstrap signature =>
    match bootstraps[bootstrap.toNat]? with
    | none => .error (.invalidBootstrap bootstrap)
    | some entry =>
      let (name, descriptor) ← pool.nameAndType signature
      let handle ← handleAt pool entry.handle.value
      let arguments ← entry.arguments.mapM fun a => argumentAt pool a.value
      return .dynamic { name, descriptor, bootstrap := handle, arguments } entry
  | _ => .error (.mismatch index .callSite)

/-- The call that names the constant with a number. A field is no target. -/
def directCallAt (pool : ConstantPool) (c : Code.CallBytes) : Except Fault PlacedCall := do
  match ← pool.get c.index with
  | .field .. => .error (.mismatch c.index .methodReference)
  | _ =>
    let target ← pool.member c.index
    match CallKind.ofOpcode? c.opcode with
    | some kind => return .direct ⟨⟨kind, target⟩, c.offset⟩
    | none => .error (.invalidOpcode c.opcode c.offset)

/-- A call, looked up. -/
def resolve (pool : ConstantPool) (bootstraps : List BootstrapEntry) (c : Code.CallBytes) :
    Except Fault PlacedCall :=
  if c.opcode = Code.dynamicOpcode then dynamicCallAt pool bootstraps c.index
  else directCallAt pool c

/-- A method with its calls looked up. -/
def resolveMethod (pool : ConstantPool) (bootstraps : List BootstrapEntry)
    (m : Placed MethodDeclaration × List Code.CallBytes) : Except Fault MethodLayout := do
  let calls ← m.2.mapM (resolve pool bootstraps)
  return ⟨m.1, calls⟩

/-! ## 6. The whole file -/

/-- The layout of the class file whose bytes are `data`, read from the front of `data`. -/
def reading (data : Bytes) : Reading Layout := do
  let (version, pool, poolEnd) ← preamble
  let header ← headerReading version pool
  let fields ← Reading.counted (fieldReading pool)
  let methods ← Reading.counted (methodReading pool)
  let tables ← Reading.counted do
    let a ← Attribute.reading pool
    Reading.check (attributeTables pool a)
  let innerClasses := tables.flatMap Prod.fst
  let bootstraps := tables.flatMap Prod.snd
  let methods ← Reading.check (methods.mapM (resolveMethod pool bootstraps))
  return { data, pool, poolEnd, header, innerClasses, fields, methods, bootstraps }

/-- **The layout of a class file.** Bytes behind the last attribute do not matter. -/
def ofBytes (data : Bytes) : Except Fault Layout :=
  match reading data (Source.ofBytes data) with
  | .ok (layout, _) => .ok layout
  | .error fault => .error fault

end Layout

end ClassAccess
