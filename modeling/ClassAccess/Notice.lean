import ClassAccess.Text.Quoted

/-!
# Notices

Besides its result an operation may have things to tell that change nothing: a directive that was
skipped, a name that could not be found, a call that was changed. `Notice` names them all;
`Notice.level` says how much they matter and `Notice.text` how they are worded.
-/

namespace ClassAccess

/-- How much a notice matters. -/
inductive Level
  | warning
  | detail
  | trace
  deriving DecidableEq, Repr

/-- Something an operation tells beside its result. -/
inductive Notice
  | classRead (name : String) (fields methods constants : Nat)
  | classWritten (name : String) (patches added : Nat)
  | interfaceCallKept (className name descriptor : String)
  | callWidened (className name descriptor : String)
  | handleWidened (className name descriptor : String)
  | callsWidened (className : String) (count : Nat)
  | unknownKeyword (keyword : String)
  | lineSkipped (number fields : Nat)
  | classTaken (name space : String)
  | noClassName (space name : String)
  | noFieldName (space owner name : String)
  | noMethodName (space owner name descriptor : String)
  | classesRenamed (count : Nat) (source target : String)
  | attributeIgnored (line : String)
  deriving DecidableEq, Repr

namespace Notice

/-- Skipped input is a warning, the course of an operation a detail, and what happens in every
    ordinary run is for tracing. -/
def level : Notice → Level
  | lineSkipped .. | attributeIgnored .. => .warning
  | classRead .. | classWritten .. | noClassName .. | noFieldName .. | noMethodName .. => .trace
  | _ => .detail

/-- The wording of a notice. -/
def text : Notice → String
  | classRead name fields methods constants =>
    s!"read class {name}: {fields} fields, {methods} methods, {constants} constants"
  | classWritten name patches added =>
    s!"wrote class {name}: {patches} patches, {added} new constants"
  | interfaceCallKept className name descriptor =>
    s!"{className}: keeping non-virtual call to interface method {name}{descriptor}"
  | callWidened className name descriptor =>
    s!"{className}: invokespecial {name}{descriptor} -> invokevirtual"
  | handleWidened className name descriptor =>
    s!"{className}: REF_invokeSpecial {name}{descriptor} -> REF_invokeVirtual"
  | callsWidened className count => s!"{className}: rewrote {count} call sites"
  | unknownKeyword keyword =>
    "unknown access keyword " ++ Quoted.quote keyword ++ ", treating as no change"
  | lineSkipped number fields =>
    s!"skipping access transformer line {number}: expected 2 or 3 fields, found {fields}"
  | classTaken name space => s!"class {name} already mapped in {space}"
  | noClassName space name => s!"no {space} name for class {name}"
  | noFieldName space owner name => s!"no {space} name for field {owner}.{name}"
  | noMethodName space owner name descriptor =>
    s!"no {space} name for method {owner}.{name}{descriptor}"
  | classesRenamed count source target =>
    s!"remapped {count} access transformer classes from {source} to {target}"
  | attributeIgnored line => "ignoring malformed manifest line " ++ Quoted.quote line

end Notice

end ClassAccess
