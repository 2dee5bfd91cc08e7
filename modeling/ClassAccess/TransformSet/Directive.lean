import ClassAccess.Notice
import ClassAccess.Text.Blank
import ClassAccess.Text.Utf8
import ClassAccess.TransformSet

/-!
# Directives

A transform set is written as a text of directives, one per line:

    # a comment
    public net/example/Foo                 # the class itself
    public-f net/example/Foo someField     # a field
    protected net/example/Foo foo(I)V      # a method
    public net/example/Foo *               # every field
    public net/example/Foo *()             # every method

* `DirectiveLine.ofChars` -- what a line says, if it is none of blank, comment and misfit;
* `TransformSet.readText`, `TransformSet.readBytes` -- a set with the directives of a text added;
* `TransformSet.directives`, `TransformSet.text` -- the directives of a set and their text: classes
  in order, each with its requests in the order of `ClassTransforms.requests`, as far as they ask
  for something.
-/

namespace ClassAccess

/-! ## 1. Targets in text -/

/-- The word for a target, which the class itself has none of. -/
def Target.word? : Target → Option String
  | self => none
  | allFields => some "*"
  | allMethods => some "*()"
  | field name => some name
  | method signature => some signature.text

/-- The target a word means. With a parenthesis it is a method, whose descriptor starts there;
    without one it is a field. A name that starts with a star means all of them, and so does
    a descriptor without a return type. -/
def Target.ofWord (word : List Char) : Target :=
  let (name, descriptor) := word.span (· ≠ '(')
  if descriptor.isEmpty then
    if name.head? = some '*' then .allFields else .field (String.ofList name)
  else if name.head? = some '*' || descriptor = ['(', ')'] then .allMethods
  else .method ⟨String.ofList name, String.ofList descriptor⟩

/-! ## 2. Lines -/

/-- A request for a target of a class. -/
structure Directive where
  transform : Transform
  className : String
  target : Target
  deriving DecidableEq

/-- The directive as a line, without the line end. -/
def Directive.line (d : Directive) : String :=
  match d.target.word? with
  | none => d.transform.token ++ " " ++ d.className
  | some word => d.transform.token ++ " " ++ d.className ++ " " ++ word

/-- What a line says. A misfit has too few or too many words. -/
inductive DirectiveLine
  | blank
  | misfit (words : Nat)
  | directive (token : String) (className : String) (target : Target)
  deriving DecidableEq

namespace DirectiveLine

/-- What a line says in front of the comment: the request, the class, and the target unless it is
    the class itself. -/
def ofChars (line : List Char) : DirectiveLine :=
  match Blank.words (line.takeWhile (· ≠ '#')) with
  | [] => .blank
  | [token, className] => .directive (String.ofList token) (String.ofList className) .self
  | [token, className, target] =>
    .directive (String.ofList token) (String.ofList className) (Target.ofWord target)
  | words => .misfit words.length

/-- The set with what a line asks for added. -/
def apply (s : TransformSet) : DirectiveLine → TransformSet
  | directive token className target => s.mergeAt className target (Transform.ofToken token)
  | _ => s

/-- What there is to tell about the line with a number. -/
def notices (number : Nat) : DirectiveLine → List Notice
  | blank => []
  | misfit words => [.lineSkipped number words]
  | directive token _ _ => (Transform.unknownKeyword? token).toList.map .unknownKeyword

end DirectiveLine

/-! ## 3. Reading -/

namespace TransformSet

/-- The set with the directives of some lines added. -/
def readLines (s : TransformSet) (lines : List (List Char)) : TransformSet :=
  lines.foldl (fun s line => (DirectiveLine.ofChars line).apply s) s

/-- The set with the directives of a text added. -/
def readText (s : TransformSet) (text : String) : TransformSet :=
  s.readLines (Line.ofText text.toList)

/-- The set of the directives of a text. -/
def ofText (text : String) : TransformSet := readText {} text

/-- The set with the directives of a file added, up to the first line that is no text. -/
def readBytes (s : TransformSet) (data : Bytes) : TransformSet × Option FileFault :=
  let (lines, fault) := Utf8.lines data
  (s.readLines lines, fault)

/-- What there is to tell about some lines, of which the first has a number. -/
def lineNotices (number : Nat) : List (List Char) → List Notice
  | [] => []
  | line :: rest => (DirectiveLine.ofChars line).notices number ++ lineNotices (number + 1) rest

/-- What there is to tell about the directives of a text. -/
def textNotices (text : String) : List Notice := lineNotices 1 (Line.ofText text.toList)

/-- What there is to tell about the directives of a file. -/
def bytesNotices (data : Bytes) : List Notice := lineNotices 1 (Utf8.lines data).1

/-! ## 4. Writing -/

/-- The directives for one class. -/
def classDirectives (className : String) (c : ClassTransforms) : List Directive :=
  (c.requests.filter (!·.2.isNone)).map fun r => ⟨r.2, className, r.1⟩

/-- The directives of a set. -/
def directives (s : TransformSet) : List Directive :=
  s.classes.entries.flatMap fun e => classDirectives e.1 e.2

/-- The text of a set: one directive per line, each line ended. -/
def text (s : TransformSet) : String :=
  String.join (s.directives.map (·.line ++ "\n"))

end TransformSet

end ClassAccess
