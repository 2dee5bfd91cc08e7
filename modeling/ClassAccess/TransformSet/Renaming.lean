import ClassAccess.NameTable
import ClassAccess.TransformSet.Directive

/-!
# Transform sets in other namespaces

A transform set names classes and members as one namespace of a name table does. Renaming gives the
set that asks for the same in the names of another namespace.

* `NameTable.target` -- a target of a class in other names;
* `TransformSet.rename` -- a set in other names, namespaces given by their numbers;
* `TransformSet.renameBetween`, `TransformSet.renameTextBetween` -- the same, namespaces given by
  their names.

A name that the table does not know stays as it is. Requests that fall together are merged.
-/

namespace ClassAccess

namespace NameTable

/-- The name of a class in another namespace, or the same name. -/
def className (t : NameTable) (source target : Nat) (name : String) : String :=
  (t.className? name source target).getD name

/-- A descriptor in another namespace. -/
def descriptor (t : NameTable) (source target : Nat) (descriptor : String) : String :=
  Descriptor.rename (fun name => t.className? name source target) descriptor

/-- A target of a class in another namespace. -/
def target (t : NameTable) (source target : Nat) (owner : String) : Target → Target
  | .field name => .field ((t.fieldName? owner name source target).getD name)
  | .method s =>
    .method
      ⟨(t.methodName? owner s.name s.descriptor source target).getD s.name,
        t.descriptor source target s.descriptor⟩
  | other => other

/-- What there is to tell about a target that has no name in the other namespace, which is called
    `space`. -/
def targetNotices (t : NameTable) (source target : Nat) (space owner : String) :
    Target → List Notice
  | .field name =>
    if (t.fieldName? owner name source target).isSome then [] else [.noFieldName space owner name]
  | .method s =>
    if (t.methodName? owner s.name s.descriptor source target).isSome then []
    else [.noMethodName space owner s.name s.descriptor]
  | _ => []

end NameTable

namespace TransformSet

/-- The requests for a class, in other names, added to those for another class. -/
def renameClass (t : NameTable) (source target : Nat) (owner : String)
    (requests : List (Target × Transform)) (c : ClassTransforms) : ClassTransforms :=
  requests.foldl (fun c r => c.merge (t.target source target owner r.1) r.2) c

/-- **A set in other names.** -/
def rename (s : TransformSet) (t : NameTable) (source target : Nat) : TransformSet :=
  s.classes.entries.foldl
    (fun out e =>
      out.updateClass (t.className source target e.1)
        (renameClass t source target e.1 e.2.requests)) {}

/-- The number of a namespace. -/
def space (t : NameTable) (name : String) : Except NameFault Nat :=
  match t.namespace? name with
  | some index => .ok index
  | none => .error (.unknownNamespace name)

/-- A set in the names of another namespace. In its own namespace a set stays as it is. -/
def renameBetween (s : TransformSet) (t : NameTable) (source target : String) :
    Except NameFault TransformSet := do
  let source ← space t source
  let target ← space t target
  if source = target then return s else return s.rename t source target

/-- A text of directives in the names of another namespace. -/
def renameTextBetween (text : String) (t : NameTable) (source target : String) :
    Except NameFault String := do
  return (← (ofText text).renameBetween t source target).text

/-- What there is to tell when a class is renamed. -/
def renameClassNotices (t : NameTable) (source target : Nat) (space owner : String)
    (c : ClassTransforms) : List Notice :=
  (if (t.className? owner source target).isSome then [] else [.noClassName space owner])
    ++ c.requests.flatMap fun r => t.targetNotices source target space owner r.1

/-- What there is to tell when a set is renamed. -/
def renameBetweenNotices (s : TransformSet) (t : NameTable) (source target : String) :
    List Notice :=
  match space t source, space t target with
  | .ok i, .ok j =>
    if i = j then []
    else
      s.classes.entries.flatMap (fun e => renameClassNotices t i j target e.1 e.2)
        ++ [.classesRenamed (s.rename t i j).size source target]
  | _, _ => []

end TransformSet

end ClassAccess
