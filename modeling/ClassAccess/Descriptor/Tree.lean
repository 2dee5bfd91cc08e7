import ClassAccess.Descriptor

/-!
# What descriptors describe

The descriptor of a field tells its type, that of a method the types of its parameters and of its
result.

* `ValueType`, `TypeTree` -- types and what descriptors describe with them;
* `TypeTree.text` -- the descriptor;
* `TypeTree.names` -- the names of classes in it, in order;
* `TypeTree.mapNames` -- the same types with other names; `TypeTree.mapNamesM` -- the same, where
  asking for another name is a step.
-/

namespace ClassAccess.Descriptor

/-- A type without parts. -/
inductive Primitive
  | byte
  | char
  | double
  | float
  | int
  | long
  | short
  | boolean
  deriving DecidableEq, Repr

/-- The letter for a type without parts. -/
def Primitive.letter : Primitive → Char
  | byte => 'B'
  | char => 'C'
  | double => 'D'
  | float => 'F'
  | int => 'I'
  | long => 'J'
  | short => 'S'
  | boolean => 'Z'

/-! ## 1. Types -/

/-- The type of a value. -/
inductive ValueType
  | primitive (type : Primitive)
  | named (name : String)
  | array (items : ValueType)
  deriving DecidableEq, Repr

namespace ValueType

/-- The descriptor of a type. -/
def chars : ValueType → List Char
  | primitive type => [type.letter]
  | named name => 'L' :: name.toList ++ [';']
  | array items => '[' :: items.chars

/-- The name in a type. -/
def names : ValueType → List String
  | primitive _ => []
  | named name => [name]
  | array items => items.names

/-- The type with its name replaced. -/
def mapNames (f : String → String) : ValueType → ValueType
  | primitive type => primitive type
  | named name => named (f name)
  | array items => array (items.mapNames f)

/-- The type with its name replaced, if asking for another name is a step. -/
def mapNamesM {m : Type → Type} [Monad m] (f : String → m String) : ValueType → m ValueType
  | primitive type => return primitive type
  | named name => return named (← f name)
  | array items => return array (← items.mapNamesM f)

/-- Whether the names in a type are names: not empty and without a semicolon. -/
def WellNamed (t : ValueType) : Prop := ∀ name ∈ t.names, name ≠ "" ∧ ';' ∉ name.toList

end ValueType

/-! ## 2. Fields and methods -/

/-- What a descriptor describes. A method without a result is `void`. -/
inductive TypeTree
  | field (type : ValueType)
  | method (parameters : List ValueType) (result : Option ValueType)
  deriving DecidableEq, Repr

namespace TypeTree

/-- The types in order. -/
def types : TypeTree → List ValueType
  | field type => [type]
  | method parameters result => parameters ++ result.toList

/-- The characters of the descriptor. -/
def chars : TypeTree → List Char
  | field type => type.chars
  | method parameters result =>
    '(' :: parameters.flatMap ValueType.chars ++ ')' :: (result.map ValueType.chars).getD ['V']

/-- The descriptor. -/
def text (t : TypeTree) : String := String.ofList t.chars

/-- The names of classes, in order, as often as they occur. -/
def names (t : TypeTree) : List String := t.types.flatMap ValueType.names

/-- The same types with other names. -/
def mapNames (f : String → String) : TypeTree → TypeTree
  | field type => field (type.mapNames f)
  | method parameters result =>
    method (parameters.map (ValueType.mapNames f)) (result.map (ValueType.mapNames f))

/-- The same types with other names, if asking for another name is a step. The parameters come
    before the result, each type in its place. -/
def mapNamesM {m : Type → Type} [Monad m] (f : String → m String) : TypeTree → m TypeTree
  | field type => return field (← type.mapNamesM f)
  | method parameters result => do
    let parameters ← parameters.mapM (ValueType.mapNamesM f)
    let result ← result.mapM (ValueType.mapNamesM f)
    return method parameters result

/-- Whether all names are names: not empty and without a semicolon. -/
def WellNamed (t : TypeTree) : Prop := ∀ type ∈ t.types, type.WellNamed

end TypeTree

end ClassAccess.Descriptor
