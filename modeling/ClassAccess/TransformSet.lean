import ClassAccess.Access.Transform
import ClassAccess.Listing

/-!
# Sets of access transforms

A transform set holds requests for classes and their members. A request concerns a class itself, all
of its fields, all of its methods, one field or one method: its `Target`.

* `ClassTransforms.get`, `ClassTransforms.merge` -- what is asked for a target, and asking for more;
* `ClassTransforms.requests` -- everything that is stored, target by target;
* `TransformSet.merge` -- all requests of two sets;
* `TransformSet.same` -- two sets that ask for the same.

A request for nothing may be stored, and so may a class without requests. Neither makes a difference
to what a set asks for, but both are kept.
-/

namespace ClassAccess

/-! ## 1. Targets -/

/-- A method of a class, by name and descriptor. -/
structure Signature where
  name : String
  descriptor : String
  deriving DecidableEq, Repr, Inhabited

namespace Signature

/-- Signatures are ordered by name, those of one name by descriptor. -/
instance : Ord Signature := ⟨compareLex (compareOn name) (compareOn descriptor)⟩

instance : Std.TransOrd Signature :=
  inferInstanceAs (Std.TransCmp (compareLex (compareOn name) (compareOn descriptor)))

instance : Std.LawfulEqOrd Signature where
  eq_of_compare := by
    intro a b h
    have h' : (compare a.name b.name).then (compare a.descriptor b.descriptor) = .eq := h
    rw [Ordering.then_eq_eq] at h'
    cases a
    cases b
    simp_all

/-- The signature as text. -/
def text (s : Signature) : String := s.name ++ s.descriptor

/-- The signature that a text spells: the descriptor starts at the first parenthesis. -/
def ofText? (text : String) : Option Signature :=
  match text.toList.span (· ≠ '(') with
  | (_, []) => none
  | (name, descriptor) => some ⟨String.ofList name, String.ofList descriptor⟩

end Signature

/-- What a request concerns, within a class. -/
inductive Target
  | self
  | allFields
  | allMethods
  | field (name : String)
  | method (signature : Signature)
  deriving DecidableEq, Repr, Inhabited

/-! ## 2. One class -/

/-- The requests for one class. -/
structure ClassTransforms where
  self : Transform := {}
  allFields : Transform := {}
  allMethods : Transform := {}
  fields : Listing String Transform := ∅
  methods : Listing Signature Transform := ∅
  deriving DecidableEq, Inhabited

namespace ClassTransforms

/-- What is asked for a field by its name. -/
def field (c : ClassTransforms) (name : String) : Transform := (c.fields.get? name).getD {}

/-- What is asked for a method by its signature. -/
def method (c : ClassTransforms) (signature : Signature) : Transform :=
  (c.methods.get? signature).getD {}

/-- What is asked for a target, and for that target alone. -/
def get (c : ClassTransforms) : Target → Transform
  | .self => c.self
  | .allFields => c.allFields
  | .allMethods => c.allMethods
  | .field name => c.field name
  | .method signature => c.method signature

/-- What becomes of a field: what is asked for it and for all fields. -/
def effectiveField (c : ClassTransforms) (name : String) : Transform :=
  c.allFields.merge (c.field name)

/-- What becomes of a method: what is asked for it and for all methods. -/
def effectiveMethod (c : ClassTransforms) (signature : Signature) : Transform :=
  c.allMethods.merge (c.method signature)

/-- Asks for more at a target. -/
def merge (c : ClassTransforms) (target : Target) (t : Transform) : ClassTransforms :=
  let stored (old : Option Transform) : Transform := (old.getD {}).merge t
  match target with
  | .self => { c with self := c.self.merge t }
  | .allFields => { c with allFields := c.allFields.merge t }
  | .allMethods => { c with allMethods := c.allMethods.merge t }
  | .field name => { c with fields := c.fields.update name stored }
  | .method signature => { c with methods := c.methods.update signature stored }

/-- Everything that is stored: the class itself, all fields, all methods, then single fields and
    single methods, each in order. -/
def requests (c : ClassTransforms) : List (Target × Transform) :=
  [(.self, c.self), (.allFields, c.allFields), (.allMethods, c.allMethods)]
    ++ c.fields.entries.map (fun e => (.field e.1, e.2))
    ++ c.methods.entries.map (fun e => (.method e.1, e.2))

/-- Asks for everything another class is asked for. -/
def mergeAll (c other : ClassTransforms) : ClassTransforms :=
  other.requests.foldl (fun c r => c.merge r.1 r.2) c

/-- Whether nothing is asked for. -/
def isEmpty (c : ClassTransforms) : Bool := c.requests.all (·.2.isNone)

/-- The transform, unless it asks for nothing. -/
def nonempty? (t : Transform) : Option Transform := if t.isNone then none else some t

/-- The same requests without those stored for nothing. -/
def visible (c : ClassTransforms) : ClassTransforms :=
  { c with fields := c.fields.filterMap nonempty?, methods := c.methods.filterMap nonempty? }

/-- Whether two classes are asked for the same. -/
def same (c d : ClassTransforms) : Bool := c.visible = d.visible

end ClassTransforms

/-! ## 3. All classes -/

/-- Requests for classes, under their names. -/
structure TransformSet where
  classes : Listing String ClassTransforms := ∅
  deriving DecidableEq, Inhabited

namespace TransformSet

/-- The requests for a class, if it is stored. -/
def get? (s : TransformSet) (name : String) : Option ClassTransforms := s.classes.get? name

/-- The requests for a class; a class that is not stored is asked for nothing. -/
def get (s : TransformSet) (name : String) : ClassTransforms := (s.get? name).getD {}

/-- The number of stored classes. -/
def size (s : TransformSet) : Nat := s.classes.size

/-- Whether no class is stored. -/
def isEmpty (s : TransformSet) : Bool := s.classes.isEmpty

/-- The set with the requests for one class changed; a class that is not stored starts with none. -/
def updateClass (s : TransformSet) (name : String) (f : ClassTransforms → ClassTransforms) :
    TransformSet :=
  ⟨s.classes.update name fun old => f (old.getD {})⟩

/-- Asks for more at a target of a class. -/
def mergeAt (s : TransformSet) (className : String) (target : Target) (t : Transform) :
    TransformSet :=
  s.updateClass className (·.merge target t)

/-- All requests of two sets. -/
def merge (s other : TransformSet) : TransformSet :=
  other.classes.entries.foldl (fun s e => s.updateClass e.1 (·.mergeAll e.2)) s

/-- The requests of a set without those stored for nothing, and without classes that are asked for
    nothing. -/
def visible (s : TransformSet) : TransformSet :=
  ⟨s.classes.filterMap fun c => if c.isEmpty then none else some c.visible⟩

/-- **Whether two sets ask for the same.** -/
def same (s t : TransformSet) : Bool := s.visible = t.visible

end TransformSet

end ClassAccess
