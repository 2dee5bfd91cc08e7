import ClassAccess.ClassFile.Layout

/-!
# Assembling a class file

A class file is put together from nothing: names and references go into the constant pool as they
are met, declarations into tables, and `Assembly.bytes` writes it all down. Method bodies are taken
as they are.

* `Assembling` -- a step that adds to an assembly; when one fails, the constants it added so far
  stay, and no declaration is added;
* `Assembly.bytes` -- the class file. The names of the attributes it needs are added last.
-/

namespace ClassAccess

/-! ## 1. What is being assembled -/

/-- The body of a method: two sizes and the code. -/
structure Body where
  maxStack : UInt16
  maxLocals : UInt16
  code : Bytes := []
  deriving DecidableEq, Repr

/-- A field or method, by the numbers of its name and descriptor. A field has no body. -/
structure MemberRow where
  access : AccessFlags
  name : UInt16
  descriptor : UInt16
  body : Option Body
  deriving DecidableEq, Repr

/-- A record of an inner class, by numbers; zero stands for a name that is left out. -/
structure InnerClassRow where
  name : UInt16
  outerName : UInt16
  innerName : UInt16
  access : AccessFlags
  deriving DecidableEq, Repr

/-- A bootstrap method and its arguments, by numbers. -/
structure BootstrapRow where
  handle : UInt16
  arguments : List UInt16
  deriving DecidableEq, Repr

/-- The declarations of a class, by numbers. -/
structure Tables where
  version : Version
  access : AccessFlags
  thisClass : UInt16
  superClass : UInt16
  interfaces : Array UInt16 := #[]
  fields : Array MemberRow := #[]
  methods : Array MemberRow := #[]
  innerClasses : Array InnerClassRow := #[]
  bootstraps : Array BootstrapRow := #[]

/-- A class being assembled. -/
structure Assembly where
  pool : ConstantPool
  tables : Tables

/-- A step that adds to an assembly. -/
abbrev Assembling (α : Type) := EStateM Fault Assembly α

namespace Assembly

/-- Adds constants. -/
def interning {α : Type} (step : Interning α) : Assembling α := fun ⟨pool, tables⟩ =>
  match step pool with
  | .ok a pool => .ok a ⟨pool, tables⟩
  | .error fault pool => .error fault ⟨pool, tables⟩

/-- Changes the tables. -/
def modifyTables (f : Tables → Tables) : Assembling Unit := fun ⟨pool, tables⟩ =>
  .ok () ⟨pool, f tables⟩

/-- A class, where none has the number zero. -/
def classNamed? : Option String → Interning UInt16
  | some name => Interning.classNamed name
  | none => return 0

/-- A text, where none has the number zero. -/
def text? : Option String → Interning UInt16
  | some value => Interning.text value
  | none => return 0

/-- The version of a class that asks for none. -/
def defaultVersion : Version := ⟨61, 0⟩

/-- A class without members. -/
def start (access : AccessFlags) (name : String) (superName : Option String) :
    Except Fault Assembly :=
  let names : Interning (UInt16 × UInt16) := do
    return (← Interning.classNamed name, ← classNamed? superName)
  match names {} with
  | .ok (thisClass, superClass) pool =>
    .ok ⟨pool, { version := defaultVersion, access, thisClass, superClass }⟩
  | .error fault _ => .error fault

/-! ## 2. Declarations -/

/-- Sets the version. -/
def setVersion (version : Version) : Assembling Unit :=
  modifyTables fun t => { t with version }

/-- Adds an interface the class implements. -/
def addInterface (name : String) : Assembling Unit := do
  let index ← interning (Interning.classNamed name)
  modifyTables fun t => { t with interfaces := t.interfaces.push index }

/-- The row of a field or method. -/
def memberRow (access : AccessFlags) (name descriptor : String) (body : Option Body) :
    Assembling MemberRow := do
  let name ← interning (Interning.text name)
  let descriptor ← interning (Interning.text descriptor)
  return { access, name, descriptor, body }

/-- Adds a field. -/
def addField (access : AccessFlags) (name descriptor : String) : Assembling Unit := do
  let row ← memberRow access name descriptor none
  modifyTables fun t => { t with fields := t.fields.push row }

/-- Adds a method, with a body or without. -/
def addMethod (access : AccessFlags) (name descriptor : String) (body : Option Body) :
    Assembling Unit := do
  let row ← memberRow access name descriptor body
  modifyTables fun t => { t with methods := t.methods.push row }

/-- Adds the record of an inner class. -/
def addInnerClass (record : InnerClass) : Assembling Unit := do
  let name ← interning (Interning.classNamed record.name)
  let outerName ← interning (classNamed? record.outerName)
  let innerName ← interning (text? record.innerName)
  let row : InnerClassRow := { name, outerName, innerName, access := record.access }
  modifyTables fun t => { t with innerClasses := t.innerClasses.push row }

/-! ## 3. Constants -/

/-- A reference to a class. -/
def classReference (name : String) : Assembling UInt16 := interning (Interning.classNamed name)

/-- A reference to a field. -/
def fieldReference (owner name descriptor : String) : Interning UInt16 := do
  let owner ← Interning.classNamed owner
  Interning.constant (.field owner (← Interning.nameAndType name descriptor))

/-- A reference to a method. -/
def methodReference (target : Member) : Interning UInt16 := do
  let owner ← Interning.classNamed target.owner
  let signature ← Interning.nameAndType target.name target.descriptor
  Interning.constant
    (if target.onInterface then .interfaceMethod owner signature else .method owner signature)

/-- A method handle. -/
def methodHandle (handle : Handle) : Interning UInt16 := do
  let target := handle.target
  let reference ←
    if handle.kind.isField then fieldReference target.owner target.name target.descriptor
    else methodReference target
  Interning.constant (.methodHandle handle.kind.code reference)

/-- A method type. -/
def methodType (descriptor : String) : Interning UInt16 := do
  Interning.constant (.methodType (← Interning.text descriptor))

/-- A string. -/
def string (value : String) : Interning UInt16 := do
  Interning.constant (.string (← Interning.text value))

/-- Adds a bootstrap method and gives its number, which has to fit two bytes. -/
def addBootstrap (handle : UInt16) (arguments : List UInt16) : Assembling UInt16 :=
  fun ⟨pool, tables⟩ =>
    let index := tables.bootstraps.size
    if index < 0x10000 then
      let row : BootstrapRow := { handle, arguments }
      .ok index.toUInt16 ⟨pool, { tables with bootstraps := tables.bootstraps.push row }⟩
    else .error (.invalidBootstrap 0xFFFF) ⟨pool, tables⟩

/-- The call of what a bootstrap method finds. -/
def callSite (bootstrap : UInt16) (name descriptor : String) : Interning UInt16 := do
  Interning.constant (.callSite bootstrap (← Interning.nameAndType name descriptor))

/-! ## 4. Writing -/

/-- A table of rows behind their number, which has to fit two bytes. -/
def table {α : Type} (row : α → Except Fault Bytes) (rows : List α) : Except Fault Bytes :=
  if rows.length < 0x10000 then do
    return BigEndian.bytes16 rows.length.toUInt16 ++ (← rows.mapM row).flatten
  else .error (.unsupported (.longTable rows.length))

/-- An attribute: the number of its name, and its contents behind their length, which has to fit
    four bytes. -/
def attributeBytes (name : UInt16) (contents : Bytes) : Except Fault Bytes :=
  if contents.length < 0x100000000 then
    .ok (BigEndian.bytes16 name ++ BigEndian.bytes32 contents.length.toUInt32 ++ contents)
  else .error (.unsupported (.longAttribute contents.length))

/-- The contents of a code attribute, without exception handlers and attributes of its own. -/
def codeBytes (body : Body) : Bytes :=
  BigEndian.bytes16 body.maxStack ++ BigEndian.bytes16 body.maxLocals
    ++ BigEndian.bytes32 body.code.length.toUInt32 ++ body.code ++ [0, 0, 0, 0]

/-- A row of the fields or methods. `codeName` is the number of the name of code attributes. -/
def memberBytes (codeName : UInt16) (m : MemberRow) : Except Fault Bytes := do
  let attributes ← table (fun body => attributeBytes codeName (codeBytes body)) m.body.toList
  return BigEndian.bytes16 m.access ++ BigEndian.bytes16 m.name
    ++ BigEndian.bytes16 m.descriptor ++ attributes

/-- A row of the inner classes. -/
def innerClassBytes (r : InnerClassRow) : Except Fault Bytes :=
  .ok (BigEndian.bytes16 r.name ++ BigEndian.bytes16 r.outerName
    ++ BigEndian.bytes16 r.innerName ++ BigEndian.bytes16 r.access)

/-- The number of a constant, as a row of its own. -/
def indexBytes (index : UInt16) : Except Fault Bytes := .ok (BigEndian.bytes16 index)

/-- A row of the bootstrap methods. -/
def bootstrapBytes (r : BootstrapRow) : Except Fault Bytes := do
  return BigEndian.bytes16 r.handle ++ (← table indexBytes r.arguments)

/-- The numbers of the names of the attributes that are written. -/
structure AttributeNames where
  code : UInt16
  innerClasses : UInt16
  bootstrapMethods : UInt16

/-- Adds the names of the attributes that are written; the others get the number zero. -/
def attributeNames (t : Tables) : Interning AttributeNames := do
  let code ← text? (if t.methods.any (·.body.isSome) then some Attribute.code else none)
  let innerClasses ← text? (if t.innerClasses.isEmpty then none else some Attribute.innerClasses)
  let bootstrapMethods ←
    text? (if t.bootstraps.isEmpty then none else some Attribute.bootstrapMethods)
  return { code, innerClasses, bootstrapMethods }

/-- The attributes of the class: a table of inner classes and one of bootstrap methods, each if it
    has rows. -/
def attributesBytes (names : AttributeNames) (t : Tables) : Except Fault Bytes := do
  let innerClasses ←
    if t.innerClasses.isEmpty then pure []
    else do
      let rows ← table innerClassBytes t.innerClasses.toList
      pure [← attributeBytes names.innerClasses rows]
  let bootstraps ←
    if t.bootstraps.isEmpty then pure []
    else do
      let rows ← table bootstrapBytes t.bootstraps.toList
      pure [← attributeBytes names.bootstrapMethods rows]
  table .ok (innerClasses ++ bootstraps)

/-- What stands behind the constant pool. -/
def tablesBytes (names : AttributeNames) (t : Tables) : Except Fault Bytes := do
  let interfaces ← table indexBytes t.interfaces.toList
  let fields ← table (memberBytes 0) t.fields.toList
  let methods ← table (memberBytes names.code) t.methods.toList
  let attributes ← attributesBytes names t
  return BigEndian.bytes16 t.access ++ BigEndian.bytes16 t.thisClass
    ++ BigEndian.bytes16 t.superClass ++ interfaces ++ fields ++ methods ++ attributes

/-- **The class file**, if everything fits. -/
def bytes (a : Assembly) : Except Fault Bytes :=
  match attributeNames a.tables a.pool with
  | .error fault _ => .error fault
  | .ok names pool => do
    let constants ← pool.bytesFrom 1
    let rest ← tablesBytes names a.tables
    return BigEndian.bytes32 Layout.magic ++ BigEndian.bytes16 a.tables.version.minor
      ++ BigEndian.bytes16 a.tables.version.major ++ BigEndian.bytes16 pool.count.toUInt16
      ++ constants ++ rest

end Assembly

end ClassAccess
