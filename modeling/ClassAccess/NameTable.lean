import ClassAccess.Descriptor
import ClassAccess.Notice

/-!
# Name tables

A name table tells what the classes of a program, and their fields and methods, are called in
several namespaces. Namespaces are numbered from zero; an empty name means that there is none.

* `NameTable.addClass`, `NameTable.addField`, `NameTable.addMethod` -- how a table grows;
* `NameTable.className?`, `NameTable.fieldName?`, `NameTable.methodName?` -- a name in one
  namespace, looked up by the one in another.

In no namespace do two classes share a name. The descriptor of a method is stored in the names of
the first namespace; it is compared in those of the namespace that is asked about.
-/

namespace ClassAccess

/-! ## 1. Faults -/

/-- Why a table does not grow, or does not know a namespace. -/
inductive NameFault
  | duplicateNamespace (name : String)
  | noNamespaces
  | nameCount (expected found : Nat)
  | duplicateClass (name : String)
  | unknownClass (index : Nat)
  | unknownNamespace (name : String)
  deriving DecidableEq, Repr

/-- The text of a fault. -/
def NameFault.message : NameFault → String
  | duplicateNamespace name => s!"Duplicate namespace: {name}"
  | noNamespaces => "A mapping tree needs at least one namespace"
  | nameCount expected found => s!"Expected {expected} names (one per namespace), got {found}"
  | duplicateClass name => s!"Class {name} is already mapped"
  | unknownClass index => s!"Class id {index} does not belong to this tree"
  | unknownNamespace name => s!"Unknown namespace: {name}"

/-! ## 2. Tables -/

/-- A method: its descriptor in the first namespace and its names. -/
structure MethodNames where
  descriptor : String
  names : List String
  deriving DecidableEq, Repr

/-- A class: its names, those of its fields, and its methods. -/
structure ClassNames where
  names : List String
  fields : List (List String) := []
  methods : List MethodNames := []
  deriving DecidableEq, Repr

/-- The names of a program. -/
structure NameTable where
  namespaces : List String
  classes : List ClassNames := []
  deriving DecidableEq, Repr

namespace NameTable

/-- The first name that has occurred before. -/
def firstRepeated? (seen : List String) : List String → Option String
  | [] => none
  | name :: rest => if seen.contains name then some name else firstRepeated? (name :: seen) rest

/-- A table without classes. -/
def ofNamespaces (namespaces : List String) : Except NameFault NameTable :=
  if namespaces.isEmpty then .error .noNamespaces
  else
    match firstRepeated? [] namespaces with
    | some name => .error (.duplicateNamespace name)
    | none => .ok { namespaces }

/-- The number of a namespace. -/
def namespace? (t : NameTable) (name : String) : Option Nat := t.namespaces.findIdx? (· == name)

/-- Fails unless there is one name per namespace. -/
def checkNames (t : NameTable) (names : List String) : Except NameFault Unit :=
  if names.length = t.namespaces.length then .ok ()
  else .error (.nameCount t.namespaces.length names.length)

/-! ## 3. Looking up -/

/-- The class with a name. -/
def classNamed? (t : NameTable) (name : String) (space : Nat) : Option ClassNames :=
  if name.isEmpty then none else t.classes.find? (·.names[space]? == some name)

/-- A name in a namespace, unless it is empty. -/
def nameIn? (names : List String) (space : Nat) : Option String :=
  names[space]?.filter (!·.isEmpty)

/-- What a class that `source` calls `name` is called in `target`. -/
def className? (t : NameTable) (name : String) (source target : Nat) : Option String := do
  nameIn? (← t.classNamed? name source).names target

/-- A descriptor of the first namespace in another one. -/
def descriptorIn (t : NameTable) (descriptor : String) (space : Nat) : String :=
  if space = 0 then descriptor
  else Descriptor.rename (fun name => t.className? name 0 space) descriptor

/-- What a field that `source` calls `name` is called in `target`. Of several fields of one name the
    first counts. -/
def fieldName? (t : NameTable) (owner name : String) (source target : Nat) : Option String := do
  let names ← (← t.classNamed? owner source).fields.find? (·[source]? == some name)
  nameIn? names target

/-- What a method that `source` calls `name`, with a descriptor of `source`, is called in
    `target`. -/
def methodName? (t : NameTable) (owner name descriptor : String) (source target : Nat) :
    Option String := do
  let method ← (← t.classNamed? owner source).methods.find? fun m =>
    m.names[source]? == some name && t.descriptorIn m.descriptor source == descriptor
  nameIn? method.names target

/-! ## 4. Growing -/

/-- The first of some names that a class of the table has in the same namespace, with the number of
    the namespace. `space` is the number of the first name's. -/
def taken? (t : NameTable) (space : Nat) : List String → Option (Nat × String)
  | [] => none
  | name :: rest =>
    if (t.classNamed? name space).isSome then some (space, name) else taken? t (space + 1) rest

/-- Adds a class and gives its number. -/
def addClass (t : NameTable) (names : List String) : Except NameFault (Nat × NameTable) := do
  t.checkNames names
  match t.taken? 0 names with
  | some (_, name) => .error (.duplicateClass name)
  | none => return (t.classes.length, { t with classes := t.classes ++ [{ names }] })

/-- What there is to tell when a class is added. -/
def addClassNotices (t : NameTable) (names : List String) : List Notice :=
  match t.checkNames names with
  | .error _ => []
  | .ok () =>
    match t.taken? 0 names with
    | some (space, name) => [.classTaken name (t.namespaces[space]?.getD "")]
    | none => []

/-- Changes the class with a number. -/
def modifyClass (t : NameTable) (index : Nat) (f : ClassNames → ClassNames) :
    Except NameFault NameTable :=
  if index < t.classes.length then .ok { t with classes := t.classes.modify index f }
  else .error (.unknownClass index)

/-- Adds a field to the class with a number. -/
def addField (t : NameTable) (index : Nat) (names : List String) : Except NameFault NameTable := do
  t.checkNames names
  t.modifyClass index fun c => { c with fields := c.fields ++ [names] }

/-- Adds a method to the class with a number. The descriptor is one of the first namespace. -/
def addMethod (t : NameTable) (index : Nat) (descriptor : String) (names : List String) :
    Except NameFault NameTable := do
  t.checkNames names
  t.modifyClass index fun c => { c with methods := c.methods ++ [{ descriptor, names }] }

end NameTable

end ClassAccess
