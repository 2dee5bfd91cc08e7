import ClassAccess.Structured.Value

/-!
# What formats are told

A format is told what to write: words, and records whose names come in the pieces that they are put
together of. How it writes that as a text, and how it reads the text, is left open.

* `Told` -- what a format is told; `Told.value` -- the value of that;
* `tag?` -- pieces that a format with tags takes for a tag; `Told.marked` -- the value that such a
  format writes, and `Told.kept` -- the value that is left when its tags are not looked at;
* `Format` -- a format; `Format.Carries` -- **it gives back what it is told**, tags apart.
-/

namespace ClassAccess

/-- What a format is told. -/
inductive Told
  | word (text : String)
  | record (fields : List (List String × Told))

namespace Told

/-! ## 1. Values -/

/-- A record with a single name. -/
def single (pieces : List String) (value : Value) : Value := .record [(String.join pieces, value)]

mutual

/-- The value of what is told, if a record with a single name is made by `lone`. -/
def asValue (lone : List String → Value → Value) : Told → Value
  | .word text => .text text
  | .record [(pieces, told)] => lone pieces (asValue lone told)
  | .record fields => .record (asFields lone fields)

/-- The values under the names of a record. -/
def asFields (lone : List String → Value → Value) :
    List (List String × Told) → List (String × Value)
  | [] => []
  | (pieces, told) :: rest => (String.join pieces, asValue lone told) :: asFields lone rest

end

/-- The value of what is told. -/
def value (told : Told) : Value := told.asValue single

/-! ## 2. Tags -/

/-- The tag that the pieces of a name make: an exclamation mark that is a piece of its own, and what
    is behind it. Empty pieces do not count, and there has to be something behind the mark. -/
def tag? (pieces : List String) : Option String :=
  match pieces.filter (· ≠ "") with
  | "!" :: piece :: rest => some (String.join (piece :: rest))
  | _ => none

/-- The value that a format with tags writes. The single name of a record becomes a tag of its value
    if it can. -/
def marked (told : Told) : Value :=
  told.asValue fun pieces value =>
    (tag? pieces).elim (single pieces value) fun tag => .tagged tag value

/-- The value that is left when the tags are not looked at. -/
def kept (told : Told) : Value :=
  told.asValue fun pieces value => if (tag? pieces).isSome then value else single pieces value

end Told

/-! ## 3. Formats -/

/-- A format: how it writes what it is told, which may fail, how it reads that, and whether it takes
    the single name of a record for a tag. -/
structure Format where
  Text : Type
  write : Told → Option Text
  read : Text → Option Value
  tags : Bool

namespace Format

/-- What is left of something told when it is written and read. -/
def form (f : Format) (told : Told) : Value := if f.tags then told.kept else told.value

/-- **A format carries what it is told** if it can write it and reads it again, tags apart. -/
def Carries (f : Format) (told : Told) : Prop :=
  ∃ text, f.write told = some text ∧ f.read text = some (f.form told)

end Format

end ClassAccess
