import ClassAccess.BigEndian
import ClassAccess.FileFault

/-!
# File systems

What a command sees of the world: files that it opens and writes by their paths. How the files are
kept is left open.

* `FileSystem` -- what can be done with files; `OpenFile` -- a file that was opened;
* `LawfulFileSystem` -- what is relied on: **what was written is read back, and other files stay as
  they are**;
* `Path.compared` -- what is compared of two paths to find them equal.
-/

namespace ClassAccess

/-! ## 1. Files -/

/-- A file that was opened: its bytes when it is read, and its bytes when it is mapped into memory.
    What can be mapped can be read, and gives the same bytes. -/
structure OpenFile where
  read : Except FileFault Bytes
  map : Except FileFault Bytes
  agree : ∀ data, map = .ok data → read = .ok data

namespace OpenFile

/-- A file that holds some bytes. -/
def holding (data : Bytes) : OpenFile := ⟨.ok data, .ok data, fun _ h => h⟩

/-- A folder. It can be opened, but it has no bytes. -/
def folder : OpenFile := ⟨.error .folder, .error .noDevice, nofun⟩

end OpenFile

/-- **A file system.** Writing a file tells what is left of the file system and why the file could
    not be written, if it could not. -/
class FileSystem (σ : Type) where
  opened : σ → String → Except FileFault OpenFile
  write : σ → String → Bytes → σ × Option FileFault
  /-- Whether two paths lead to one file. -/
  SameFile : σ → String → String → Prop

namespace FileSystem

variable {σ : Type} [FileSystem σ]

/-- The bytes of a file that can be read. -/
def read? (d : σ) (path : String) : Option Bytes := (opened d path).toOption.bind (·.read.toOption)

/-- The bytes of a file that can be mapped. -/
def map? (d : σ) (path : String) : Option Bytes := (opened d path).toOption.bind (·.map.toOption)

end FileSystem

/-! ## 2. Paths -/

namespace Path

/-- Whether a path starts at the root of all paths. -/
def isAbsolute (path : String) : Bool := path.toList.head? = some '/'

/-- The texts between the slashes of a path. -/
def split (path : String) : List String := (path.toList.splitOn '/').map String.ofList

/-- What counts when two paths are compared: whether they are absolute, and their parts. Empty parts
    and parts that are a single dot do not count, except a dot at the start. -/
def compared (path : String) : Bool × List String :=
  (isAbsolute path, ((split path).take 1).filter (· ≠ "") ++
    ((split path).drop 1).filter fun part => part ≠ "" && part ≠ ".")

end Path

/-! ## 3. Laws -/

/-- **What a file system has to do.** A file that was written has the bytes that were written.
    Paths that do not lead there open what they opened before; where they open nothing, they may do
    so for another reason, since a file may now stand in their way. A path that can be written opens
    what an equal path opens. -/
class LawfulFileSystem (σ : Type) [FileSystem σ] : Prop where
  opened_written {d d' : σ} {path : String} {data : Bytes}
    (h : FileSystem.write d path data = (d', none)) :
    FileSystem.opened d' path = .ok (.holding data)
  opened_others {d d' : σ} {path q : String} {data : Bytes} {file : OpenFile}
    (h : FileSystem.write d path data = (d', none)) (hq : ¬ FileSystem.SameFile d path q) :
    FileSystem.opened d' q = .ok file ↔ FileSystem.opened d q = .ok file
  opened_equal {d d' : σ} {path q : String} {data : Bytes} {file : OpenFile}
    (h : FileSystem.write d path data = (d', none)) (hq : Path.compared path = Path.compared q)
    (hfile : FileSystem.opened d q = .ok file) : FileSystem.opened d path = .ok file

end ClassAccess
