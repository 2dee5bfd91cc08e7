import ClassAccess.BigEndian
import ClassAccess.FileFault
import ClassAccess.Text.Line

/-!
# Text files

Text files hold UTF-8.

* `Utf8.encode`, `Utf8.decode?` -- a text as bytes and back;
* `Utf8.lines` -- the lines of a file up to the first one that is no text.
-/

namespace ClassAccess.Utf8

/-- The bytes of a text. -/
def encode (s : String) : Bytes := s.toUTF8.data.toList

/-- The text of some bytes, if they are UTF-8. -/
def decode? (data : Bytes) : Option String := String.fromUTF8? ⟨data.toArray⟩

/-- Whether some bytes are UTF-8. -/
def isText (data : Bytes) : Bool := (decode? data).isSome

/-- The texts in front of the first bytes that are none, and the fault of those. -/
def decodeAll : List Bytes → List (List Char) × Option FileFault
  | [] => ([], none)
  | line :: rest =>
    match decode? line with
    | none => ([], some .notText)
    | some text =>
      let (texts, fault) := decodeAll rest
      (text.toList :: texts, fault)

/-- The lines of a file in front of the first one that is no text, and the fault of that one.
    Neither a line feed nor a carriage return is part of another character, so the file is cut into
    lines first. -/
def lines (data : Bytes) : List (List Char) × Option FileFault :=
  decodeAll (Line.split 0x0A 0x0D data)

end ClassAccess.Utf8
