import ClassAccess.Listing
import ClassAccess.Notice
import ClassAccess.Text.Blank
import ClassAccess.Text.Line

/-!
# Manifests

The manifest of an archive is a text of attributes, one per line, with a name and a value. A line
that starts with a space continues the value before it. An empty line ends the main section.

* `Manifest.lines` -- the lines of the main section, sorted by what they are;
* `Manifest.mainAttributes` -- the attributes, of one name the last;
* `Manifest.attribute?` -- the value of an attribute, whatever the case of its name;
* `Manifest.transformPaths` -- the files of access transforms that a manifest lists.
-/

namespace ClassAccess.Manifest

/-! ## 1. Lines -/

/-- A line of the main section. -/
inductive ManifestLine
  | entry (name value : List Char)
  | continuation (value : List Char)
  | misfit (line : List Char)
  deriving DecidableEq

/-- A text cut at the first colon that a space follows. -/
def splitAttribute? : List Char → Option (List Char × List Char)
  | ':' :: ' ' :: value => some ([], value)
  | c :: rest => (splitAttribute? rest).map fun (name, value) => (c :: name, value)
  | [] => none

/-- What a line is. -/
def ManifestLine.ofChars : List Char → ManifestLine
  | ' ' :: value => continuation value
  | line =>
    match splitAttribute? line with
    | some (name, value) => entry name value
    | none => misfit line

/-- A line without a carriage return at its end. -/
def stripReturn (line : List Char) : List Char := Line.close '\r' line.reverse

/-- The lines of the main section. Each may end with one more carriage return than lines do. -/
def lines (text : String) : List ManifestLine :=
  (((Line.ofText text.toList).map stripReturn).takeWhile (!·.isEmpty)).map ManifestLine.ofChars

/-! ## 2. Attributes -/

/-- The attributes of lines, behind an attribute that has begun. A continuation without an attribute
    in front of it is dropped. -/
def gather (begun : Option (List Char × List Char)) :
    List ManifestLine → List (List Char × List Char)
  | [] => begun.toList
  | .continuation more :: rest =>
    gather (begun.map fun (name, value) => (name, value ++ more)) rest
  | .entry name value :: rest => begun.toList ++ gather (some (name, value)) rest
  | .misfit _ :: rest => begun.toList ++ gather none rest

/-- The attributes of the main section, in order. -/
def attributes (text : String) : List (String × String) :=
  (gather none (lines text)).map fun (name, value) => (String.ofList name, String.ofList value)

/-- **The attributes of the main section by their names.** -/
def mainAttributes (text : String) : Listing String String := Listing.ofList (attributes text)

/-- What there is to tell about the main section. -/
def notices (text : String) : List Notice :=
  (lines text).filterMap fun
    | .misfit line => some (.attributeIgnored (String.ofList line))
    | _ => none

/-- A name with its letters in lower case, as far as they are letters of ASCII. -/
def folded (name : String) : List Char := name.toList.map Char.toLower

/-- The value of an attribute, whatever the case of its name. Of names that differ in case only, the
    first in order counts. -/
def attribute? (attributes : Listing String String) (name : String) : Option String :=
  (attributes.entries.find? fun e => folded e.1 = folded name).map Prod.snd

/-! ## 3. Access transforms -/

/-- The attribute that lists files of access transforms. -/
def transformAttribute : String := "FMLAT"

/-- Where an archive keeps its access transforms when its manifest lists none. -/
def defaultPath : String := "META-INF/accesstransformer.cfg"

/-- **The files of access transforms that a manifest lists.** -/
def transformPaths (text : String) : List String :=
  match attribute? (mainAttributes text) transformAttribute with
  | some value => (Blank.words value.toList).map fun name => "META-INF/" ++ String.ofList name
  | none => []

end ClassAccess.Manifest
