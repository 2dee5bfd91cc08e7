import ClassAccess.CommandLine

/-!
# The program

The command line of this library. The files a command reads are read first; then the outcome is
computed, and what it writes is written.
-/

namespace ClassAccess

/-- The files of a command as they were found, and the file that it writes. -/
structure Snapshot where
  found : Listing String (Except FileFault OpenFile) := ∅
  written : Option (String × Bytes) := none

namespace Snapshot

/-- Files that were not looked for are missing, and a file is written in the end. Of paths that are
    not equal it is not known whether they lead to one file. -/
instance : FileSystem Snapshot where
  opened s path := (s.found.get? path).getD (.error .missing)
  write s path data := ({ s with written := some (path, data) }, none)
  SameFile _ path q := path = q

/-- The fault that the system reports. -/
def faultOf : IO.Error → FileFault
  | .noFileOrDirectory .. => .missing
  | error => .other (toString error)

/-- What an open file holds. -/
def contents (handle : IO.FS.Handle) : IO OpenFile := do
  try
    return .holding (← handle.readBinToEnd).data.toList
  catch error =>
    return ⟨.error (faultOf error), .error (faultOf error), nofun⟩

/-- What a path opens. -/
def lookFor (path : String) : IO (Except FileFault OpenFile) := do
  try
    return .ok (← contents (← IO.FS.Handle.mk path .read))
  catch error =>
    return .error (faultOf error)

/-- What the files of a command open. -/
def take (command : Command) : IO Snapshot := do
  let mut found := ∅
  for path in command.inputs do
    found := found.insert path (← lookFor path)
  return { found }

end Snapshot

/-- Writes the file that a command writes, if there is one to write. -/
def writeOutput (outcome : Outcome Snapshot) : IO UInt32 := do
  let some (path, data) := outcome.directory.written | return outcome.exitCode
  try
    IO.FS.writeBinFile path ⟨data.toArray⟩
    return outcome.exitCode
  catch error =>
    IO.eprintln (Failure.writing path (Snapshot.faultOf error)).message
    return 1

/-- Runs the command that some arguments make. -/
def runArguments (args : List String) : IO UInt32 := do
  match Command.parse? args with
  | none =>
    IO.eprintln "usage: (fmt|dump) FILE... | apply --at FILE [-o FILE|--check] FILE | manifest FILE"
    return 2
  | some command =>
    let outcome := command.run (← Snapshot.take command)
    IO.print outcome.stdout
    IO.eprint outcome.stderr
    writeOutput outcome

end ClassAccess

/-- The program. -/
def main (args : List String) : IO UInt32 := ClassAccess.runArguments args
