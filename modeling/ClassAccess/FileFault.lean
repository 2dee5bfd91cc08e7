/-!
# What can go wrong with a file

The contents of class files aside, a file cannot be read or written when it or a folder on the way
to it is not there, when a file stands where a folder should or a folder where a file should, or
when it should hold text and does not. A system may have other reasons, each with a text of its own.
-/

namespace ClassAccess

/-- Why a file cannot be read or written. -/
inductive FileFault
  | missing
  | notFolder
  | folder
  | noDevice
  | notText
  | other (text : String)
  deriving DecidableEq, Repr

/-- The text of a fault. -/
def FileFault.message : FileFault → String
  | missing => "No such file or directory (os error 2)"
  | notFolder => "Not a directory (os error 20)"
  | folder => "Is a directory (os error 21)"
  | noDevice => "No such device (os error 19)"
  | notText => "stream did not contain valid UTF-8"
  | other text => text

end ClassAccess
