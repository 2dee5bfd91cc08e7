import ClassAccess.TransformSet.Directive

/-!
# What directives can say

Not every request can be written as a directive: a blank in a name would end the word, a number sign
would start a comment, and a name with a parenthesis would be taken for a method.

* `WordText`, `MemberText`, `DescriptorText` -- texts that can name a class, a member, the types of
  a method;
* `Target.Representable` -- a target whose word means it;
* `TransformSet.Representable` -- a set whose every request for something has a class name and
  a target of that kind.
-/

namespace ClassAccess

/-- Whether a character can stand in a word. -/
def wordChar (c : Char) : Prop := Blank.isBlank c = false ∧ c ≠ '#'

/-- Whether a text can be the name of a class in a directive. -/
def WordText (s : String) : Prop := s ≠ "" ∧ ∀ c ∈ s.toList, wordChar c

/-- Whether a text can be the name of a member in a directive. It may be empty. -/
def MemberText (s : String) : Prop :=
  (∀ c ∈ s.toList, wordChar c) ∧ '(' ∉ s.toList ∧ s.toList.head? ≠ some '*'

/-- Whether a text can be the descriptor of a method in a directive. -/
def DescriptorText (s : String) : Prop :=
  (∀ c ∈ s.toList, wordChar c) ∧ s.toList.head? = some '(' ∧ s ≠ "()"

/-- Whether a word means a target. -/
def Target.Representable : Target → Prop
  | field name => name ≠ "" ∧ MemberText name
  | method signature => MemberText signature.name ∧ DescriptorText signature.descriptor
  | _ => True

/-- **Whether directives can say what is asked for a class.** -/
def ClassTransforms.Representable (c : ClassTransforms) : Prop :=
  ∀ r ∈ c.requests, r.2 ≠ Transform.none → r.1.Representable

/-- **Whether a text of directives can say what a set asks for.** A class that is asked for nothing
    does not matter. -/
def TransformSet.Representable (s : TransformSet) : Prop :=
  ∀ e ∈ s.classes.entries, e.2.isEmpty = false → WordText e.1 ∧ e.2.Representable

end ClassAccess
