import ClassAccess.Listing
import ClassAccess.NameTable

/-!
# Name tables with an index

To find a class without looking at all of them, a table has an index for each namespace: the numbers
of its classes under their names.

* `IndexedTable.classNamed?` and the lookups that are built on it;
* `IndexedTable.addClass`, `addField`, `addMethod` -- how such a table grows, in place: first what
  is asked for is checked, then the indexes are changed one after the other, then the classes;
* `Addition`, `IndexedTable.run` -- additions to a table, one after the other. The next one is made
  whether or not the one before it failed, to the table that this one left.
-/

namespace ClassAccess

/-- A name table with an index for each namespace. -/
structure IndexedTable extends NameTable where
  index : List (Listing String Nat)
  deriving DecidableEq

/-- A step that makes a table grow. When it fails, what it has changed so far stays changed. -/
abbrev Growing (α : Type) := EStateM NameFault IndexedTable α

namespace IndexedTable

/-- A table without classes. -/
def ofNamespaces (namespaces : List String) : Except NameFault IndexedTable := do
  let t ← NameTable.ofNamespaces namespaces
  return { t with index := namespaces.map fun _ => ∅ }

/-! ## 1. Looking up -/

/-- The number of the class with a name. -/
def number? (t : IndexedTable) (name : String) (space : Nat) : Option Nat := do
  (← t.index[space]?).get? name

/-- The class with a name. -/
def classNamed? (t : IndexedTable) (name : String) (space : Nat) : Option ClassNames := do
  t.classes[← t.number? name space]?

/-- What a class that `source` calls `name` is called in `target`. -/
def className? (t : IndexedTable) (name : String) (source target : Nat) : Option String := do
  NameTable.nameIn? (← t.classNamed? name source).names target

/-- A descriptor of the first namespace in another one. -/
def descriptorIn (t : IndexedTable) (descriptor : String) (space : Nat) : String :=
  if space = 0 then descriptor
  else Descriptor.rename (fun name => t.className? name 0 space) descriptor

/-- What a field that `source` calls `name` is called in `target`. -/
def fieldName? (t : IndexedTable) (owner name : String) (source target : Nat) : Option String := do
  let names ← (← t.classNamed? owner source).fields.find? (·[source]? == some name)
  NameTable.nameIn? names target

/-- What a method that `source` calls `name`, with a descriptor of `source`, is called in
    `target`. -/
def methodName? (t : IndexedTable) (owner name descriptor : String) (source target : Nat) :
    Option String := do
  let method ← (← t.classNamed? owner source).methods.find? fun m =>
    m.names[source]? == some name && t.descriptorIn m.descriptor source == descriptor
  NameTable.nameIn? method.names target

/-! ## 2. Growing -/

/-- Fails unless there is one name per namespace. -/
def checkNames (names : List String) : Growing Unit := fun t =>
  match t.toNameTable.checkNames names with
  | .ok () => .ok () t
  | .error fault => .error fault t

/-- Fails if one of some names is in the index of its namespace. `space` is the number of the first
    name's. -/
def checkFree (space : Nat) : List String → Growing Unit
  | [] => pure ()
  | name :: rest => do
    if !name.isEmpty && ((← get).number? name space).isSome then throw (.duplicateClass name)
    checkFree (space + 1) rest

/-- Puts a number under some names, each in the index of its namespace. -/
def enter (number space : Nat) : List String → Growing Unit
  | [] => pure ()
  | name :: rest => do
    if !name.isEmpty then
      modify fun t => { t with index := t.index.modify space (·.insert name number) }
    enter number (space + 1) rest

/-- Adds a class and gives its number. -/
def addClass (names : List String) : Growing Nat := do
  checkNames names
  checkFree 0 names
  let number := (← get).classes.length
  enter number 0 names
  modify fun t => { t with classes := t.classes ++ [{ names }] }
  return number

/-- Changes the class with a number. -/
def modifyClass (number : Nat) (f : ClassNames → ClassNames) : Growing Unit := fun t =>
  match t.classes[number]? with
  | some c => .ok () { t with classes := t.classes.set number (f c) }
  | none => .error (.unknownClass number) t

/-- Adds a field to the class with a number. -/
def addField (number : Nat) (names : List String) : Growing Unit := do
  checkNames names
  modifyClass number fun c => { c with fields := c.fields ++ [names] }

/-- Adds a method to the class with a number. The descriptor is one of the first namespace. -/
def addMethod (number : Nat) (descriptor : String) (names : List String) : Growing Unit := do
  checkNames names
  modifyClass number fun c => { c with methods := c.methods ++ [{ descriptor, names }] }

end IndexedTable

/-! ## 3. Additions one after the other -/

/-- Something that is to be added to a table. -/
inductive Addition
  | ofClass (names : List String)
  | ofField (number : Nat) (names : List String)
  | ofMethod (number : Nat) (descriptor : String) (names : List String)
  deriving DecidableEq, Repr

namespace Addition

/-- Adds it to a table. -/
def make : Addition → Growing Unit
  | ofClass names => do let _ ← IndexedTable.addClass names
  | ofField number names => IndexedTable.addField number names
  | ofMethod number descriptor names => IndexedTable.addMethod number descriptor names

/-- Adds it to a table without indexes. -/
def grow (t : NameTable) : Addition → Except NameFault NameTable
  | ofClass names => Prod.snd <$> t.addClass names
  | ofField number names => t.addField number names
  | ofMethod number descriptor names => t.addMethod number descriptor names

/-- The names of the class that is added, if it is one. -/
def names? : Addition → Option (List String)
  | ofClass names => some names
  | ofField .. | ofMethod .. => none

end Addition

/-- Makes some additions, each to the table that the one before it left, and gives the names of the
    classes that were added, in order. -/
def IndexedTable.run : List Addition → IndexedTable → List (List String) × IndexedTable
  | [], t => ([], t)
  | a :: rest, t =>
    match a.make t with
    | .ok () t' =>
      let (added, last) := run rest t'
      (a.names?.toList ++ added, last)
    | .error _ t' => run rest t'

end ClassAccess
