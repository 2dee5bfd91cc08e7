import ClassAccess.CommandLine.FileSystem
import ClassAccess.Listing

/-!
# Directories

A file system of the files below one directory and the folders they are in. It has no links, so a
path leads where its parts say.

* `Directory.place` -- where a path leads;
* `Directory.blocked?` -- what stands in the way;
* `Directory.opened`, `Directory.write` -- a file opened and a file written.

Each part of a path is looked for in the place that the parts before it lead to, and this has to be
a folder, also when the part is a single dot or leads back. So has the place of a path that ends
with a slash. A folder has no bytes and cannot be written.
-/

namespace ClassAccess

/-- Files under their places, and the places of folders. -/
structure Directory where
  files : Listing String Bytes := ∅
  folders : List String := []

namespace Directory

/-! ## 1. Paths -/

/-- The parts of a path. -/
def parts (path : String) : List String := (Path.split path).filter (· ≠ "")

/-- Goes on by one part from a place, whose parts come last one first. Two dots lead back by one
    part. The root leads back to itself. -/
def step (absolute : Bool) (reached : List String) (part : String) : List String :=
  if part = "." then reached
  else if part = ".." then
    if reached.head?.any (· ≠ "..") then reached.tail
    else if absolute then reached else part :: reached
  else part :: reached

/-- The place that parts lead to, as the path that names it. -/
def placeOf (absolute : Bool) (parts : List String) : String :=
  (if absolute then "/" else "") ++ "/".intercalate (parts.foldl (step absolute) []).reverse

/-- **The place that a path leads to.** -/
def place (path : String) : String := placeOf (Path.isAbsolute path) (parts path)

/-- The places that the parts of a path are looked for in. -/
def passed (path : String) : List String :=
  (List.range (parts path).length).map fun n => placeOf (Path.isAbsolute path) ((parts path).take n)

/-- Whether a path ends with a slash. -/
def endsWithSlash (path : String) : Bool := path.toList.getLast? = some '/'

/-! ## 2. Files and folders -/

/-- The directory that holds some files, and the folders it takes to hold them. -/
def ofFiles (files : List (String × Bytes)) : Directory where
  files := Listing.ofList (files.map fun f => (place f.1, f.2))
  folders := files.flatMap fun f => passed f.1

/-- Whether a place is a folder. The directory itself, what it lies in and the root are folders. -/
def isFolder (d : Directory) (place : String) : Bool :=
  (parts place).all (· = "..") || d.folders.contains place

/-- What stands in the way of a path, if anything does: the first place it passes that is no
    folder. Nothing is found under the empty path. -/
def blocked? (d : Directory) (path : String) : Option FileFault :=
  if path = "" then some .missing
  else
    ((passed path).find? fun place => !d.isFolder place).map fun place =>
      if (d.files.get? place).isSome then .notFolder else .missing

/-- What a path opens. -/
def opened (d : Directory) (path : String) : Except FileFault OpenFile :=
  match d.blocked? path with
  | some fault => .error fault
  | none =>
    if d.isFolder (place path) then .ok .folder
    else
      match d.files.get? (place path) with
      | none => .error .missing
      | some data => if endsWithSlash path then .error .notFolder else .ok (.holding data)

/-- The directory with a file written, or why it cannot be. -/
def write (d : Directory) (path : String) (data : Bytes) : Directory × Option FileFault :=
  match d.blocked? path with
  | some fault => (d, some fault)
  | none =>
    if d.isFolder (place path) || endsWithSlash path then (d, some .folder)
    else ({ d with files := d.files.insert (place path) data }, none)

/-- Two paths lead to one file when they lead to one place. -/
instance : FileSystem Directory where
  opened := opened
  write := write
  SameFile _ path q := place path = place q

/-- The bytes of a file. -/
def read? (d : Directory) (path : String) : Option Bytes := FileSystem.read? d path

end Directory

end ClassAccess
