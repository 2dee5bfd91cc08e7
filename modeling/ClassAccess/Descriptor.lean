/-!
# Names in descriptors

The descriptor of a field or method tells its types in short: a class stands as its name between the
letter `L` and a semicolon, all other types are single letters. Only the names of classes matter
here, so a descriptor is looked at as pieces: names, and the letters between them.

* `Descriptor.pieces` -- the pieces of any text, whether or not it is a descriptor;
* `Descriptor.chars` -- the text of pieces; `chars_pieces` -- nothing is lost;
* `Descriptor.rename` -- a text with every name replaced; `Descriptor.names` -- the names, in order;
* `Descriptor.renameM` -- the same, where asking for a new name is a step that may do more.

A name without a semicolon is none: it stands as it is, up to the end of the text.
-/

namespace ClassAccess.Descriptor

/-- A piece of a descriptor. `tail` is all that follows a letter `L` when no semicolon does. -/
inductive Piece
  | letter (c : Char)
  | name (chars : List Char)
  | tail (chars : List Char)
  deriving DecidableEq, Repr

/-- The text of a piece. -/
def Piece.chars : Piece → List Char
  | letter c => [c]
  | name chars => 'L' :: chars ++ [';']
  | tail chars => 'L' :: chars

/-- The text of pieces. -/
def chars (pieces : List Piece) : List Char := pieces.flatMap Piece.chars

/-- The pieces of a text. -/
def pieces : List Char → List Piece
  | [] => []
  | c :: rest =>
    if c = 'L' then
      match _h : rest.dropWhile (· ≠ ';') with
      | [] => [.tail rest]
      | _ :: after => .name (rest.takeWhile (· ≠ ';')) :: pieces after
    else .letter c :: pieces rest
termination_by text => text.length
decreasing_by
  · have : (rest.dropWhile (· ≠ ';')).length ≤ rest.length :=
      (List.dropWhile_sublist _).length_le
    rw [_h] at this
    simp only [List.length_cons] at this ⊢
    omega
  · simp

/-- A piece with its name replaced; `map` tells the new name of some. -/
def Piece.rename (map : String → Option String) : Piece → Piece
  | name chars =>
    match map (String.ofList chars) with
    | some new => name new.toList
    | none => name chars
  | other => other

/-- **A text with every name replaced** by what `map` tells for it, if it tells something. -/
def rename (map : String → Option String) (text : String) : String :=
  String.ofList (chars ((pieces text.toList).map (Piece.rename map)))

/-- The name that a piece is. -/
def Piece.name? : Piece → Option String
  | name chars => some (String.ofList chars)
  | _ => none

/-- The names in a text, in order, as often as they occur. -/
def names (text : String) : List String := (pieces text.toList).filterMap Piece.name?

/-- A piece with its name replaced, if asking for the new name is a step. -/
def Piece.renameM {m : Type → Type} [Monad m] (ask : String → m (Option String)) :
    Piece → m Piece
  | name chars => do
    let new ← ask (String.ofList chars)
    return name (new.getD (String.ofList chars)).toList
  | other => return other

/-- **A text with every name replaced**, if asking what a name becomes is a step that may do more
    than answer. One name is asked for after the other, in order. -/
def renameM {m : Type → Type} [Monad m] (ask : String → m (Option String)) (text : String) :
    m String := do
  let renamed ← (pieces text.toList).mapM (Piece.renameM ask)
  return String.ofList (chars renamed)

/-- **The pieces of a text make up the text.** -/
theorem chars_pieces (text : List Char) : chars (pieces text) = text := by
  fun_induction pieces text with
  | case1 => rfl
  | case2 rest h =>
    have := List.takeWhile_append_dropWhile (p := (· ≠ ';')) (l := rest)
    simp [chars, Piece.chars]
  | case3 rest c after h ih =>
    have hc : c = ';' := by
      have := List.head?_dropWhile_not (· ≠ ';') rest
      rw [h] at this
      simpa using this
    have := List.takeWhile_append_dropWhile (p := (· ≠ ';')) (l := rest)
    rw [h, hc] at this
    simp only [chars, List.flatMap_cons, Piece.chars] at ih ⊢
    rw [ih]
    simpa using this
  | case4 c rest hc ih =>
    simp only [chars, List.flatMap_cons, Piece.chars] at ih ⊢
    rw [ih]
    rfl

end ClassAccess.Descriptor
