import ClassAccess.Manifest

/-!
# Writing manifests

How a main section may be written: long values are folded into several lines, lines end in either of
two ways, and lines that are no attributes may stand in between.

* `Section.Piece` -- the rest of one line;
* `Section.Entry` -- an attribute over one or more lines, or a line that is none;
* `Section.chars` -- the text of entries; `Section.attributes` -- the attributes in it.
-/

namespace ClassAccess.Manifest.Section

/-- The end of a line. -/
inductive LineEnd
  | feed
  | returnAndFeed
  deriving DecidableEq, Repr

/-- The characters of a line end. -/
def LineEnd.chars : LineEnd → List Char
  | feed => ['\n']
  | returnAndFeed => ['\r', '\n']

/-- What stands in a line behind its front, and how the line ends. -/
structure Piece where
  value : List Char
  lineEnd : LineEnd
  deriving DecidableEq, Repr

/-- The characters of a piece. -/
def Piece.chars (p : Piece) : List Char := p.value ++ p.lineEnd.chars

/-- An attribute whose value is cut into pieces, one per line, or a line that is no attribute with
    what continues it. -/
inductive Entry
  | pair (name : List Char) (first : Piece) (more : List Piece)
  | misfit (line : Piece) (more : List Piece)
  deriving DecidableEq, Repr

/-- Pieces that continue a line: each in a line of its own, behind a space. -/
def continued (more : List Piece) : List Char := more.flatMap fun p => ' ' :: p.chars

/-- The lines of an entry. -/
def Entry.chars : Entry → List Char
  | pair name first more => name ++ ':' :: ' ' :: first.chars ++ continued more
  | misfit line more => line.chars ++ continued more

/-- The text of entries. -/
def chars (entries : List Entry) : List Char := entries.flatMap Entry.chars

/-- The attribute that an entry is. -/
def Entry.attribute? : Entry → Option (List Char × List Char)
  | pair name first more => some (name, first.value ++ more.flatMap Piece.value)
  | misfit .. => none

/-- The attributes among entries, in order. -/
def attributes (entries : List Entry) : List (List Char × List Char) :=
  entries.filterMap Entry.attribute?

/-! ## 1. Which texts are entries -/

/-- Whether a text stays in its line. -/
def Inline (text : List Char) : Prop := '\n' ∉ text ∧ '\r' ∉ text

/-- Whether a text holds a colon that a space follows. -/
def HoldsColon (text : List Char) : Prop := ∃ before after, text = before ++ ':' :: ' ' :: after

/-- Whether an entry is read back as it is written: nothing in it ends a line, its line does not
    start with a space, the name of an attribute ends at the first colon, and a line that is no
    attribute is not empty and has no colon. What continues such a line does not matter. -/
def Entry.Legible : Entry → Prop
  | pair name first more =>
    Inline name ∧ name.head? ≠ some ' ' ∧ ¬ HoldsColon name
      ∧ ∀ p ∈ first :: more, Inline p.value
  | misfit line more =>
    line.value ≠ [] ∧ line.value.head? ≠ some ' ' ∧ ¬ HoldsColon line.value ∧ Inline line.value
      ∧ ∀ p ∈ more, '\n' ∉ p.value

end ClassAccess.Manifest.Section
