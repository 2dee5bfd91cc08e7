import ClassAccess.Structured.Told
import ClassAccess.Structured.Yaml.Scalar

/-!
# YAML

Records of records and texts are written as YAML mappings in block style, each value indented by two
spaces under its key.

* `Yaml.mapping` -- a record at some indentation, piece by piece;
* `Yaml.render` -- a record as a document;
* `Yaml.format` -- YAML as a format, with tags. How documents are read is left open.

A key of more than one line or of more than 128 bytes cannot share its line with the value: it
stands behind a question mark, and the value follows behind a colon in a line of its own.
-/

namespace ClassAccess.Yaml

/-- The largest number of bytes of a key that shares its line with the value. -/
def keyLimit : Nat := 128

/-- Whether a key shares its line with the value. -/
def isSimpleKey (key : String) : Bool :=
  !key.toList.any isBreak && key.utf8ByteSize ≤ keyLimit

/-- The spaces in front of a line. -/
def padding (indent : Nat) : String := String.ofList (margin indent)

/-- A new line. -/
def newLine (indent : Nat) : String := "\n" ++ padding indent

/-- A key with the colon behind it. A literal block has ended its last line when the text did. -/
def keyText (indent : Nat) (key : String) : String :=
  if isSimpleKey key then scalar indent key ++ ":"
  else
    let text := scalar (indent + 2) key
    "? " ++ text ++ (if text.toList.getLast?.any isBreak then padding indent else newLine indent)
      ++ ":"

mutual

/-- What stands behind the colon of a key. Under a simple key a record starts in a line of its own,
    behind the colon of another key it starts beside it. -/
def valuePieces (indent : Nat) (beside : Bool) : Value → List String
  | .record [] => [" \x7b\x7d"]
  | .record fields =>
    (if beside then " " else newLine (indent + 2)) :: mapping (indent + 2) fields
  | .tagged word value => " " :: tag word :: valuePieces indent false value
  | .text value => [" ", scalar (indent + 2) value]
  | _ => []

/-- A record, key by key. -/
def mapping (indent : Nat) : List (String × Value) → List String
  | [] => []
  | (key, value) :: rest =>
    keyText indent key :: (valuePieces indent (!isSimpleKey key) value
      ++ (if rest.isEmpty then "" else newLine indent) :: mapping indent rest)

end

/-- A record as a document. -/
def render (fields : List (String × Value)) : String :=
  if fields.isEmpty then "\x7b\x7d\n" else String.join (mapping 0 fields) ++ "\n"

/-- YAML as a format, given how documents are read. -/
def format (read : String → Option Value) : Format where
  Text := String
  write told := some (render told.marked.fields)
  read := read
  tags := true

end ClassAccess.Yaml
