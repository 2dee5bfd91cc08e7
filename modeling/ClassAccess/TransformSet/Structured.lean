import ClassAccess.Structured.Yaml
import ClassAccess.Text.Quoted
import ClassAccess.TransformSet

/-!
# Transform sets as structured values

A transform set is exchanged as a record of classes, each of them a record of what is asked for:
`class`, `all_fields`, `all_methods`, and the records `fields` and `methods` of single members.
Requests for nothing are left out, except those stored for single members. The name of a method is
told in two pieces, its name and its descriptor.

* `TransformSet.toTold` -- what a format is told of a set; `TransformSet.value` -- the value of
  that; `TransformSet.yaml` -- the same as YAML;
* `TransformSet.ofValue` -- the set of a value, or the first reason why it is none.

Reading ignores names it does not know. It takes a list for a record when the values stand in the
order given above.
-/

namespace ClassAccess

/-- Why a structured value is no transform set. -/
inductive LoadFault
  | malformed
  | missingDescriptor (key : String)
  deriving DecidableEq, Repr

/-- The text of a fault, for those that have one of their own. -/
def LoadFault.message? : LoadFault → Option String
  | malformed => none
  | missingDescriptor key => some ("missing descriptor in " ++ Quoted.quote key)

/-! ## 1. Writing -/

namespace Transform

/-- What is told of a request. -/
def toTold (t : Transform) : Told :=
  .record [(["access"], .word t.visibility.name), (["modifier"], .word t.finality.name)]

/-- A request under a name, unless it asks for nothing. -/
def namedTold (name : String) (t : Transform) : List (List String × Told) :=
  if t.isNone then [] else [([name], t.toTold)]

end Transform

/-- The pieces of the text of a signature. -/
def Signature.pieces (m : Signature) : List String := [m.name, m.descriptor]

namespace ClassTransforms

/-- A record under a name, unless it is empty. -/
def namedRecord (name : String) (fields : List (List String × Told)) : List (List String × Told) :=
  if fields.isEmpty then [] else [([name], .record fields)]

/-- What is told of the requests for single fields. -/
def fieldsTold (c : ClassTransforms) : List (List String × Told) :=
  c.fields.entries.map fun e => ([e.1], e.2.toTold)

/-- What is told of the requests for single methods. -/
def methodsTold (c : ClassTransforms) : List (List String × Told) :=
  c.methods.entries.map fun e => (e.1.pieces, e.2.toTold)

/-- What is told of the requests for one class, part by part. -/
def toldParts (c : ClassTransforms) : List (List String × Told) :=
  c.self.namedTold "class" ++ c.allFields.namedTold "all_fields"
    ++ c.allMethods.namedTold "all_methods" ++ namedRecord "fields" c.fieldsTold
    ++ namedRecord "methods" c.methodsTold

/-- What is told of the requests for one class. -/
def toTold (c : ClassTransforms) : Told := .record c.toldParts

end ClassTransforms

namespace TransformSet

/-- What is told of a set. -/
def toTold (s : TransformSet) : Told := .record (s.classes.entries.map fun e => ([e.1], e.2.toTold))

/-- A set as a structured value. -/
def value (s : TransformSet) : Value := s.toTold.value

/-- The fields of the record of a set. -/
def fields (s : TransformSet) : List (String × Value) := s.value.fields

/-- A set as YAML. -/
def yaml (s : TransformSet) : String := Yaml.render s.toTold.marked.fields

end TransformSet

/-! ## 2. Reading -/

namespace LoadFault

/-- The value of a step that finds nothing when the input is malformed. -/
def ofOption {α : Type} : Option α → Except LoadFault α
  | some a => .ok a
  | none => .error malformed

/-- The named values of a record. Of a list, the names are `names`, in order; a list has no
    further values. -/
def named (names : List String) : Value → Except LoadFault (List (String × Value))
  | .record fields => .ok fields
  | .list items => .ok (names.zip items)
  | _ => .error malformed

/-- Whether a list has values beyond those that have names. -/
def overfull (names : List String) : Value → Bool
  | .list items => names.length < items.length
  | _ => false

/-- A name out of a fixed choice, as a text or as the name of the only field of a record, which
    then holds nothing. -/
def choice : Value → Except LoadFault String
  | .text name => .ok name
  | .record [(name, .null)] => .ok name
  | _ => .error malformed

/-- The values of a record by their names, each made by `key` and `value`, in order. -/
def entries {κ ν : Type} (key : String → Except LoadFault κ) (value : Value → Except LoadFault ν) :
    Value → Except LoadFault (List (κ × ν))
  | .record fields => fields.mapM fun e => do return (← key e.1, ← value e.2)
  | _ => .error malformed

end LoadFault

namespace Transform

/-- The names of the two parts of a request. -/
def partNames : List String := ["access", "modifier"]

/-- The request of a value. Both parts have to be there. -/
def ofValue (v : Value) : Except LoadFault Transform := do
  let parts ← LoadFault.named partNames v
  let visibility ← LoadFault.choice (← LoadFault.ofOption (parts.lookup "access"))
  let finality ← LoadFault.choice (← LoadFault.ofOption (parts.lookup "modifier"))
  if LoadFault.overfull partNames v then .error .malformed
  else
    return {
      visibility := ← LoadFault.ofOption (Visibility.ofName? visibility)
      finality := ← LoadFault.ofOption (Finality.ofName? finality) }

end Transform

namespace ClassTransforms

/-- The names of the parts of the requests for a class. -/
def partNames : List String := ["class", "all_fields", "all_methods", "fields", "methods"]

/-- The requests for a class with one named part read. -/
def readPart (c : ClassTransforms) (part : String × Value) : Except LoadFault ClassTransforms :=
  if part.1 = "class" then do
    return { c with self := ← Transform.ofValue part.2 }
  else if part.1 = "all_fields" then do
    return { c with allFields := ← Transform.ofValue part.2 }
  else if part.1 = "all_methods" then do
    return { c with allMethods := ← Transform.ofValue part.2 }
  else if part.1 = "fields" then do
    return { c with fields := Listing.ofList (← LoadFault.entries .ok Transform.ofValue part.2) }
  else if part.1 = "methods" then do
    let key (text : String) : Except LoadFault Signature :=
      match Signature.ofText? text with
      | some signature => .ok signature
      | none => .error (.missingDescriptor text)
    return { c with methods := Listing.ofList (← LoadFault.entries key Transform.ofValue part.2) }
  else return c

/-- The requests for a class of a value. Parts that are missing ask for nothing. -/
def ofValue (v : Value) : Except LoadFault ClassTransforms := do
  let parts ← LoadFault.named partNames v
  let c ← parts.foldlM readPart {}
  if LoadFault.overfull partNames v then .error .malformed else return c

end ClassTransforms

/-- **The set of a structured value**, or the first reason why it is none. -/
def TransformSet.ofValue (v : Value) : Except LoadFault TransformSet := do
  return ⟨Listing.ofList (← LoadFault.entries .ok ClassTransforms.ofValue v)⟩

end ClassAccess
