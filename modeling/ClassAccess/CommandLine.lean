import ClassAccess.CommandLine.Command
import ClassAccess.CommandLine.Directory
import ClassAccess.Manifest
import ClassAccess.TransformSet.Application
import ClassAccess.TransformSet.Directive
import ClassAccess.TransformSet.Structured

/-!
# Running a command

A command reads files of a file system and gives an exit code, two texts and the file system it
leaves.

* `Failure` -- why a command fails, with the file in question;
* `Command.run` -- the outcome of a command. A command that fails exits with 1 and shows its
  failure. Unless it fails at writing a file, it leaves the file system as it is.

Files are read in the order in which they are named, so the first one that cannot be read is the one
that is shown.
-/

namespace ClassAccess

/-! ## 1. Failures -/

/-- Why a command fails. -/
inductive Failure
  | opening (path : String) (fault : FileFault)
  | reading (path : String) (fault : FileFault)
  | mapping (path : String) (fault : FileFault)
  | transforming (path : String) (fault : Fault)
  | writing (path : String) (fault : FileFault)
  deriving DecidableEq, Repr

/-- The text of a failure. -/
def Failure.message : Failure → String
  | opening path fault => s!"Error opening {path}: " ++ fault.message
  | reading path fault => s!"Error reading {path}: " ++ fault.message
  | mapping path fault => s!"Error mapping {path}: " ++ fault.message
  | transforming path fault => s!"Error: {path}: " ++ fault.message
  | writing path fault => s!"Error writing {path}: " ++ fault.message

/-! ## 2. Outcomes -/

/-- What a command leaves: its exit code, what it shows, and the file system. -/
structure Outcome (σ : Type) where
  exitCode : UInt32 := 0
  stdout : String := ""
  stderr : String := ""
  directory : σ

namespace Outcome

variable {σ : Type}

/-- The outcome of a command that fails and leaves a file system. -/
def failed (d : σ) (failure : Failure) : Outcome σ :=
  { exitCode := 1, stderr := failure.message ++ "\n", directory := d }

/-- The outcome of what a command does to a file system. -/
def of (d : σ) : Except Failure (Outcome σ) → Outcome σ
  | .ok outcome => outcome
  | .error failure => failed d failure

end Outcome

/-! ## 3. Commands -/

namespace Command

variable {σ : Type} [FileSystem σ]

/-- The directives of some files, added to a set. -/
def load (d : σ) : List String → TransformSet → Except Failure TransformSet
  | [], s => .ok s
  | path :: rest, s => do
    let file ← (FileSystem.opened d path).mapError (.opening path)
    let data ← file.read.mapError (.reading path)
    match s.readBytes data with
    | (s, none) => load d rest s
    | (_, some fault) => .error (.reading path fault)

/-- A class file before and after the directives of some files. -/
def transformed (d : σ) (transforms : List String) (input : String) :
    Except Failure (Bytes × Bytes) := do
  let set ← load d transforms {}
  let file ← (FileSystem.opened d input).mapError (.opening input)
  let data ← file.map.mapError (.mapping input)
  let bytes ← (set.transform data).mapError (.transforming input)
  return (data, bytes)

/-- Applies directives to a class file and writes it where it is asked for. A class that stays as it
    is and where it is is not written. -/
def applied (d : σ) (transforms : List String) (input : String) (output : Option String) :
    Except Failure (Outcome σ) := do
  let (before, after) ← transformed d transforms input
  let path := output.getD input
  if before = after ∧ Path.compared path = Path.compared input then
    return { directory := d }
  else
    match FileSystem.write d path after with
    | (d, none) => return { directory := d }
    | (d, some fault) => return .failed d (.writing path fault)

/-- Tells whether directives would change a class file. -/
def checked (d : σ) (transforms : List String) (input : String) :
    Except Failure (Outcome σ) := do
  let (before, after) ← transformed d transforms input
  if before = after then return { directory := d }
  else return { exitCode := 1, stdout := input ++ ": would be modified\n", directory := d }

/-- The files of directives that a manifest lists, or else the one that is usual. -/
def listed (d : σ) (input : String) : Except Failure (Outcome σ) := do
  let file ← (FileSystem.opened d input).mapError (.reading input)
  let data ← file.read.mapError (.reading input)
  match Utf8.decode? data with
  | none => .error (.reading input .notText)
  | some text =>
    let paths := Manifest.transformPaths text
    let shown := if paths.isEmpty then [Manifest.defaultPath] else paths
    return { stdout := String.join (shown.map (· ++ "\n")), directory := d }

/-- **The outcome of a command in a file system.** -/
def run (d : σ) (command : Command) : Outcome σ :=
  Outcome.of d <|
    match command with
    | fmt files => do
      return { stdout := (← load d files {}).text, directory := d }
    | dump files => do
      return { stdout := (← load d files {}).yaml, directory := d }
    | apply transforms input output false => applied d transforms input output
    | apply transforms input _ true => checked d transforms input
    | manifest input => listed d input

/-- The files that a command reads. -/
def inputs : Command → List String
  | fmt files => files
  | dump files => files
  | apply transforms input _ _ => transforms ++ [input]
  | manifest input => [input]

end Command

end ClassAccess
