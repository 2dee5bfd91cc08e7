/-!
# Lines

A line ends with a line feed, and a carriage return in front of the line feed belongs to the end.
Behind the last line feed stands one more line, unless nothing does; a carriage return at its end is
part of it.

* `Line.split` -- the lines of a sequence of characters or bytes, without their ends;
* `Line.ofText` -- the lines of a text;
* `Line.pieces` -- the lines of a sequence as they stand in it, with their line feeds.
-/

namespace ClassAccess.Line

variable {α : Type} [DecidableEq α]

/-- A line whose characters come last one first, without a carriage return at its end. -/
def close (cr : α) : List α → List α
  | c :: line => if c = cr then line.reverse else (c :: line).reverse
  | [] => []

/-- The lines behind a begun one, whose characters come last one first. -/
def splitFrom (lf cr : α) (begun : List α) : List α → List (List α)
  | [] => if begun.isEmpty then [] else [begun.reverse]
  | c :: rest =>
    if c = lf then close cr begun :: splitFrom lf cr [] rest
    else splitFrom lf cr (c :: begun) rest

/-- The lines of a sequence in which `lf` and `cr` are the line feed and the carriage return. -/
def split (lf cr : α) (text : List α) : List (List α) := splitFrom lf cr [] text

/-- The lines of a text. -/
def ofText (text : List Char) : List (List Char) := split '\n' '\r' text

/-- The lines as they stand in a sequence, each with its line feed; the last one may have none. -/
def pieces (lf : α) : List α → List (List α)
  | [] => []
  | c :: rest =>
    if c = lf then [c] :: pieces lf rest
    else
      match pieces lf rest with
      | [] => [[c]]
      | piece :: others => (c :: piece) :: others

end ClassAccess.Line
