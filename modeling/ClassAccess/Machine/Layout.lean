import ClassAccess.ClassFile.Layout
import ClassAccess.Machine.Code
import ClassAccess.Machine.Scan
import ClassAccess.Machine.Text

/-!
# Class files read on a machine

The same parts in the same order as in `Layout.ofBytes`, each of them scanned. What is read twice is
a block of bytes with its place; a dynamic call keeps the number of its row instead of the row.

* `Scan.pool` -- the constant pool: entries until there are as many slots as the count says;
* `Scan.block`, `Block.reaches` -- an attribute, and what is read of it held against its end;
* `Scan.codeCalls`, `Scan.tables` -- what is read of the body of an attribute;
* `IndexedLayout.ofBytes` -- the whole file.
-/

namespace ClassAccess

open Machine (Scan)

variable [Words]

/-! ## 1. Constants -/

namespace Machine.Scan

/-- What stands behind a tag at `start`. A text is decoded once all of its bytes are there. -/
def constantBody (tag : UInt8) (start : Nat) : Scan Constant :=
  match tag.toNat with
  | 1 => do
    let length ← word16
    let first ← offset
    let spelled ← bytes length.toNat
    let value ← check (decode first spelled)
    return .text value
  | 3 => return .integer (← word32).toInt32
  | 4 => return .float (← word32)
  | 5 => return .long (← word64).toInt64
  | 6 => return .double (← word64)
  | 7 => return .classEntry (← word16)
  | 8 => return .string (← word16)
  | 9 => return .field (← word16) (← word16)
  | 10 => return .method (← word16) (← word16)
  | 11 => return .interfaceMethod (← word16) (← word16)
  | 12 => return .nameAndType (← word16) (← word16)
  | 15 => return .methodHandle (← byte) (← word16)
  | 16 => return .methodType (← word16)
  | 17 => return .dynamic (← word16) (← word16)
  | 18 => return .callSite (← word16) (← word16)
  | 19 => return .moduleEntry (← word16)
  | 20 => return .packageEntry (← word16)
  | _ => check (failed (.invalidTag tag start))

/-- One entry. -/
def constant : Scan Constant := do
  let start ← offset
  let tag ← byte
  constantBody tag start

/-- Adds entries to a pool until it has `count` slots, at most as many entries as told. -/
def entries (count : Nat) : (turns : Nat) → ConstantPool → Scan ConstantPool
  | 0, pool => if pool.count < count then check (trapped .endless) else return pool
  | turns + 1, pool =>
    if pool.count < count then do
      let entry ← constant
      entries count turns (pool.add entry)
    else return pool

/-- A pool: the number of its slots, then its entries. A last entry may take a slot too many. -/
def pool : Scan ConstantPool := do
  let count ← word16
  let pool ← entries count.toNat count.toNat {}
  if max count.toNat 1 < pool.count then check (failed (.invalidIndex count)) else return pool

end Machine.Scan

/-! ## 2. Parts -/

/-- An attribute: its name, the place of its body, and its body. -/
structure Block where
  name : String
  place : Nat
  body : Bytes
  deriving DecidableEq, Repr

/-- Fails if a place lies behind the end of the block. -/
def Block.reaches (b : Block) (place : Nat) : Machine Unit := do
  let finish ← Machine.sum b.place b.body.length
  if finish < place then .failed (.unexpectedEnd finish) else return ()

/-- A call in the body of a method. A dynamic call comes with the number of its row. -/
inductive IndexedCall
  | direct (call : Placed Call)
  | dynamic (call : DynamicCall) (row : UInt16)
  deriving DecidableEq, Repr

/-- A method and the calls in its body. -/
structure IndexedMethod where
  declaration : Placed MethodDeclaration
  calls : List IndexedCall
  deriving DecidableEq, Repr

/-- A class file that was read. -/
structure IndexedLayout where
  data : Bytes
  pool : ConstantPool
  poolEnd : Nat
  header : Placed Header
  innerClasses : List (Placed InnerClass)
  fields : List (Placed FieldDeclaration)
  methods : List IndexedMethod
  bootstraps : List BootstrapEntry
  deriving DecidableEq, Repr

/-! ## 3. What the file says -/

/-- A call as an event. -/
def IndexedCall.event : IndexedCall → Event
  | direct call => .call call.value
  | dynamic call _ => .dynamicCall call

/-- A method as its declaration and its calls. -/
def IndexedMethod.events (m : IndexedMethod) : List Event :=
  .method m.declaration.value :: m.calls.map IndexedCall.event

/-- What the file says, in order. -/
def IndexedLayout.events (n : IndexedLayout) : List Event :=
  .header n.header.value :: n.innerClasses.map (.innerClass ·.value)
    ++ n.fields.map (.field ·.value) ++ n.methods.flatMap IndexedMethod.events ++ [.finish]

/-! ## 4. Scanning the parts -/

namespace Machine.Scan

/-- Magic number, version and constant pool, with the place behind them. -/
def preamble : Scan (Version × ConstantPool × Nat) := do
  let found ← word32
  if found ≠ Layout.magic then check (failed (.invalidMagic found))
  let minor ← word16
  let major ← word16
  let pool ← pool
  let poolEnd ← offset
  return (⟨major, minor⟩, pool, poolEnd)

/-- The header of the class. -/
def header (version : Version) (pool : ConstantPool) : Scan (Placed Header) := do
  let place ← offset
  let access ← word16
  let name ← check (of (pool.className (← word16)))
  let superName ← check (of (pool.className? (← word16)))
  let interfaces ← counted do check (of (pool.className (← word16)))
  return ⟨{ version, access, name, superName, interfaces }, place⟩

/-- An attribute, whose body is skipped as a block. -/
def block (pool : ConstantPool) : Scan Block := do
  let name ← check (of (pool.text (← word16)))
  let length ← word32
  let place ← offset
  let body ← bytes length.toNat
  return ⟨name, place, body⟩

/-- A field. -/
def field (pool : ConstantPool) : Scan (Placed FieldDeclaration) := do
  let place ← offset
  let access ← word16
  let name ← check (of (pool.text (← word16)))
  let descriptor ← check (of (pool.text (← word16)))
  let _ ← counted (block pool)
  return ⟨{ access, name, descriptor }, place⟩

/-- The front of a code attribute: two sizes that do not matter, and the code with its place. -/
def code : Scan (Nat × Bytes) := do
  let _ ← bytes 4
  let length ← word32
  let start ← offset
  let code ← bytes length.toNat
  return (start, code)

/-- The calls in the code that a block holds. -/
def codeCalls (b : Block) : Scan (List Code.CallBytes) := elsewhere b.place do
  let (start, code) ← code
  check do
    b.reaches (← sum start code.length)
    calls start code

/-- A method and the calls in its body, which are not looked up yet. -/
def method (pool : ConstantPool) : Scan (Placed MethodDeclaration × List Code.CallBytes) := do
  let place ← offset
  let access ← word16
  let name ← check (of (pool.text (← word16)))
  let descriptor ← check (of (pool.text (← word16)))
  let calls ← counted do
    let b ← block pool
    if b.name = Attribute.code then codeCalls b else return []
  return (⟨{ access, name, descriptor }, place⟩, calls.flatten)

/-- A record of an inner class. -/
def innerClass (pool : ConstantPool) : Scan (Placed InnerClass) := do
  let name ← check (of (pool.className (← word16)))
  let outerName ← check (of (pool.className? (← word16)))
  let innerName ← check (of (pool.text? (← word16)))
  let place ← offset
  let access ← word16
  return ⟨{ name, outerName, innerName, access }, place⟩

/-- The number of a constant and where it stands. -/
def index : Scan (Placed UInt16) := do
  let place ← offset
  let value ← word16
  return ⟨value, place⟩

/-- A row of the table of bootstrap methods. -/
def bootstrap : Scan BootstrapEntry := do
  let handle ← index
  let arguments ← counted index
  return ⟨handle, arguments⟩

/-- The tables in the body of an attribute, by its name: inner classes and bootstrap methods. -/
def found (pool : ConstantPool) (name : String) :
    Scan (List (Placed InnerClass) × List BootstrapEntry) :=
  if name = Attribute.innerClasses then (·, []) <$> counted (innerClass pool)
  else if name = Attribute.bootstrapMethods then ([], ·) <$> counted bootstrap
  else return ([], [])

/-- The tables that a block holds. -/
def tables (pool : ConstantPool) (b : Block) :
    Scan (List (Placed InnerClass) × List BootstrapEntry) := elsewhere b.place do
  let found ← found pool b.name
  let place ← offset
  check do
    b.reaches place
    return found

end Machine.Scan

/-! ## 5. Looking up the calls -/

namespace IndexedLayout

/-- The dynamic call whose operand is the constant with a number. -/
def dynamicCallAt (pool : ConstantPool) (bootstraps : List BootstrapEntry) (index : UInt16) :
    Except Fault IndexedCall := do
  match ← pool.get index with
  | .callSite bootstrap signature =>
    match bootstraps[bootstrap.toNat]? with
    | none => .error (.invalidBootstrap bootstrap)
    | some entry =>
      let (name, descriptor) ← pool.nameAndType signature
      let handle ← Layout.handleAt pool entry.handle.value
      let arguments ← entry.arguments.mapM fun a => Layout.argumentAt pool a.value
      return .dynamic { name, descriptor, bootstrap := handle, arguments } bootstrap
  | _ => .error (.mismatch index .callSite)

/-- The call that names the constant with a number. A field is no target. -/
def directCallAt (pool : ConstantPool) (c : Code.CallBytes) : Except Fault IndexedCall := do
  match ← pool.get c.index with
  | .field .. => .error (.mismatch c.index .methodReference)
  | _ =>
    let target ← pool.member c.index
    match CallKind.ofOpcode? c.opcode with
    | some kind => return .direct ⟨⟨kind, target⟩, c.offset⟩
    | none => .error (.invalidOpcode c.opcode c.offset)

/-- A call, looked up. -/
def resolve (pool : ConstantPool) (bootstraps : List BootstrapEntry) (c : Code.CallBytes) :
    Except Fault IndexedCall :=
  if c.opcode = Code.dynamicOpcode then dynamicCallAt pool bootstraps c.index
  else directCallAt pool c

/-- A method with its calls looked up. -/
def resolveMethod (pool : ConstantPool) (bootstraps : List BootstrapEntry)
    (m : Placed MethodDeclaration × List Code.CallBytes) : Except Fault IndexedMethod := do
  let calls ← m.2.mapM (resolve pool bootstraps)
  return ⟨m.1, calls⟩

/-! ## 6. The whole file -/

/-- The layout of the class file whose bytes are `data`. -/
def scan (data : Bytes) : Scan IndexedLayout := do
  let (version, pool, poolEnd) ← Scan.preamble
  let header ← Scan.header version pool
  let fields ← Scan.counted (Scan.field pool)
  let methods ← Scan.counted (Scan.method pool)
  let tables ← Scan.counted do
    let b ← Scan.block pool
    Scan.tables pool b
  let innerClasses := tables.flatMap Prod.fst
  let bootstraps := tables.flatMap Prod.snd
  let methods ← Scan.check (.of (methods.mapM (resolveMethod pool bootstraps)))
  return { data, pool, poolEnd, header, innerClasses, fields, methods, bootstraps }

/-- The layout of a class file, read on a machine. -/
def ofBytes (data : Bytes) : Machine IndexedLayout := do return (← scan data data 0).1

end IndexedLayout

end ClassAccess
