import ClassAccess.ClassFile.Layout
import ClassAccess.Notice
import Std.Data.TreeMap

/-!
# Revising a class file

A revision takes the events of a class again, one by one and in the same order, each perhaps
changed, and writes the class with those changes into its old bytes. Most of a class cannot be
changed that way:

* access flags can;
* a call can change among the kinds of the same length, where the target allows it;
* a handle among the arguments of a bootstrap method can do something else with the same member,
  for which a constant may be added to the pool.

`Revision.accept` takes one event, `Revision.finish` gives the bytes. The first event that does not
fit ends the revision: what comes after it is not looked at, and `finish` gives its fault.
-/

namespace ClassAccess

/-! ## 1. Patches -/

/-- New contents for a place of a file. -/
inductive Patch
  | byte (value : UInt8)
  | word (value : UInt16)
  deriving DecidableEq, Repr

namespace Patch

/-- The bytes of the new contents. -/
def bytes : Patch → Bytes
  | byte value => [value]
  | word value => BigEndian.bytes16 value

/-- Writes bytes over those from an offset on. -/
def overwrite (data : Array UInt8) (offset : Nat) : Bytes → Array UInt8
  | [] => data
  | b :: rest => overwrite (data.setIfInBounds offset b) (offset + 1) rest

/-- The bytes of a file with every patch written over them. -/
def applyAll (patches : Std.TreeMap Nat Patch) (data : Bytes) : Bytes :=
  (patches.foldl (fun bytes offset patch => overwrite bytes offset patch.bytes)
    data.toArray).toList

end Patch

/-! ## 2. The state of a revision -/

/-- A revision under way: the class, the pool with the constants added so far, the patches so far,
    and what is still to come of each table of the class. `current` is the method whose calls are
    being told, with the calls to come. -/
structure Revision where
  layout : Layout
  pool : ConstantPool
  patches : Std.TreeMap Nat Patch
  headerSeen : Bool
  innerClasses : List (Placed InnerClass)
  fields : List (Placed FieldDeclaration)
  methods : List MethodLayout
  current : Option (MethodLayout × List PlacedCall)
  fault : Option Fault

/-- A revision of a class, with everything still to come. -/
def Layout.revision (l : Layout) : Revision where
  layout := l
  pool := l.pool
  patches := ∅
  headerSeen := false
  innerClasses := l.innerClasses
  fields := l.fields
  methods := l.methods
  current := none
  fault := none

namespace Revision

/-- Whether an event so far changed anything. -/
def isModified (r : Revision) : Bool := !r.patches.isEmpty

/-- Ends the revision with a fault. -/
def fail (r : Revision) (fault : Fault) : Revision := { r with fault := some fault }

/-- Goes on unless the revision has ended. -/
def andThen (r : Revision) (f : Revision → Revision) : Revision :=
  if r.fault.isSome then r else f r

/-- Notes new contents for a place. Two different contents for one place end the revision. -/
def patch (r : Revision) (offset : Nat) (p : Patch) : Revision :=
  let revised := { r with patches := r.patches.insert offset p }
  match r.patches[offset]? with
  | some earlier =>
    if earlier = p then revised else revised.fail (.unsupported (.conflict offset))
  | none => revised

/-- Notes new access flags, if they are new. -/
def setAccess (r : Revision) (offset : Nat) (before after : AccessFlags) : Revision :=
  if before = after then r else r.patch offset (.word after)

/-! ## 3. Declarations -/

/-- Takes the header, once. Only its access flags may be new. -/
def acceptHeader (r : Revision) (header : Header) : Revision :=
  if r.headerSeen then r.fail (.disorder .headerTwice)
  else
    let before := r.layout.header.value
    let r := { r with headerSeen := true }
    if { header with access := before.access } = before then
      r.setAccess r.layout.header.offset before.access header.access
    else r.fail (.unsupported (.header before.name))

/-- Takes the next inner class. Only its access flags may be new. -/
def acceptInnerClass (r : Revision) (record : InnerClass) : Revision :=
  match r.innerClasses with
  | [] => r.fail (.disorder (.extraInnerClass record.name))
  | ⟨before, offset⟩ :: rest =>
    let r := { r with innerClasses := rest }
    if { record with access := before.access } = before then
      r.setAccess offset before.access record.access
    else r.fail (.unsupported (.innerClass before.name))

/-- Takes the next field. Only its access flags may be new. -/
def acceptField (r : Revision) (declaration : FieldDeclaration) : Revision :=
  match r.fields with
  | [] => r.fail (.disorder (.extraField declaration.name))
  | ⟨before, offset⟩ :: rest =>
    let r := { r with fields := rest }
    if { declaration with access := before.access } = before then
      r.setAccess offset before.access declaration.access
    else r.fail (.unsupported (.field before.name))

/-- Fails unless nothing is to come of a table with `present` rows. -/
def complete (what : Counted) (toCome present : Nat) : Except Fault Unit :=
  if toCome = 0 then .ok () else .error (.disorder (.miscounted what (present - toCome) present))

/-- Fails unless every call of the method under way has been told. -/
def callsComplete (r : Revision) : Except Fault Unit :=
  match r.current with
  | none => .ok ()
  | some (method, toCome) => complete .instruction toCome.length method.calls.length

/-- Takes the next method, once every call of the one before it has been told. Only its access
    flags may be new. -/
def acceptMethod (r : Revision) (declaration : MethodDeclaration) : Revision :=
  match r.callsComplete with
  | .error fault => r.fail fault
  | .ok () =>
    match r.methods with
    | [] => r.fail (.disorder (.extraMethod declaration.name declaration.descriptor))
    | method :: rest =>
      let before := method.declaration.value
      let r := { r with methods := rest, current := some (method, method.calls) }
      if { declaration with access := before.access } = before then
        r.setAccess method.declaration.offset before.access declaration.access
      else r.fail (.unsupported (.method before.name before.descriptor))

/-! ## 4. Calls -/

/-- Takes the next call of the method under way, and goes on with it. -/
def nextCall (r : Revision) (f : Revision → PlacedCall → Revision) : Revision :=
  match r.current with
  | none => r.fail (.disorder .instructionOutsideMethod)
  | some (method, []) =>
    let declaration := method.declaration.value
    r.fail (.disorder (.extraInstruction declaration.name declaration.descriptor))
  | some (method, call :: rest) => f { r with current := some (method, rest) } call

/-- Why the kind of a call may not change from `before` to `after`, if it may not: an interface
    method has no virtual call, and the new instruction has to be as long as the old one. -/
def kindFault? (target : Member) (before after : CallKind) : Option Unsupported :=
  if target.onInterface && after = .virtual then
    some (.virtualCallOnInterface target.owner target.name target.descriptor)
  else if !before.isPlain || !after.isPlain then some (.width before after)
  else none

/-- Takes a direct call. Only its kind may be new. -/
def acceptCall (r : Revision) (call : Call) : Revision :=
  r.nextCall fun r placed =>
    match placed with
    | .dynamic .. => r.fail (.disorder (.callForDynamic call.target.owner call.target.name))
    | .direct ⟨before, offset⟩ =>
      let target := before.target
      if call.target ≠ target then
        r.fail (.unsupported (.target target.owner target.name target.descriptor))
      else if call.kind = before.kind then r
      else
        match kindFault? target before.kind call.kind with
        | some cause => r.fail (.unsupported cause)
        | none => r.patch offset (.byte call.kind.opcode)

/-- Takes a handle whose constant is the one in a slot of the table of bootstrap methods. Only its
    kind may be new; the slot is pointed to a handle of the new kind. -/
def acceptHandle (r : Revision) (slot : Placed UInt16) (before after : Handle) : Revision :=
  let target := before.target
  if before = after then r
  else if target ≠ after.target then
    r.fail (.unsupported (.handleTarget target.owner target.name target.descriptor))
  else if target.onInterface && after.kind = .invokeVirtual then
    r.fail (.unsupported (.virtualHandleOnInterface target.owner target.name target.descriptor))
  else
    match r.pool.get slot.value with
    | .error fault => r.fail fault
    | .ok (.methodHandle _ reference) =>
      match r.pool.intern (.methodHandle after.kind.code reference) with
      | .error fault => r.fail fault
      | .ok (index, pool) => { r with pool := pool }.patch slot.offset (.word index)
    | .ok _ => r.fail (.mismatch slot.value .methodHandle)

/-- Takes an argument of a bootstrap method. Only a handle may be new. `name` is the dynamic call
    in question. -/
def acceptArgument (r : Revision) (name : String) (slot : Placed UInt16) :
    (before after : BootstrapArgument) → Revision
  | .handle before, .handle after => r.acceptHandle slot before after
  | before, after => if before = after then r else r.fail (.unsupported (.argument name))

/-- Takes the arguments of a bootstrap method, one by one. -/
def acceptArguments (name : String) :
    List (Placed UInt16) → (before after : List BootstrapArgument) → Revision → Revision
  | slot :: slots, before :: befores, after :: afters, r =>
    (r.acceptArgument name slot before after).andThen (acceptArguments name slots befores afters)
  | _, _, _, r => r

/-- Takes a dynamic call. Only its handles may be new. -/
def acceptDynamicCall (r : Revision) (call : DynamicCall) : Revision :=
  r.nextCall fun r placed =>
    match placed with
    | .direct _ => r.fail (.disorder (.dynamicForCall call.name))
    | .dynamic before entry =>
      if call.name ≠ before.name ∨ call.descriptor ≠ before.descriptor
          ∨ call.arguments.length ≠ before.arguments.length then
        r.fail (.unsupported (.dynamicCall before.name before.descriptor))
      else
        (r.acceptHandle entry.handle before.bootstrap call.bootstrap).andThen
          (acceptArguments before.name entry.arguments before.arguments call.arguments)

/-! ## 5. Whole revisions -/

/-- Takes one event. The one that ends a class says nothing. -/
def accept (r : Revision) (event : Event) : Revision :=
  r.andThen fun r =>
    match event with
    | .header header => r.acceptHeader header
    | .innerClass record => r.acceptInnerClass record
    | .field declaration => r.acceptField declaration
    | .method declaration => r.acceptMethod declaration
    | .call call => r.acceptCall call
    | .dynamicCall call => r.acceptDynamicCall call
    | .finish => r

/-- Takes events in order. -/
def acceptAll (r : Revision) (events : List Event) : Revision := events.foldl accept r

/-- Fails unless the revision got through to the end of the class. -/
def check (r : Revision) : Except Fault Unit :=
  match r.fault with
  | some fault => .error fault
  | none =>
    if r.headerSeen then do
      complete .innerClass r.innerClasses.length r.layout.innerClasses.length
      complete .field r.fields.length r.layout.fields.length
      complete .method r.methods.length r.layout.methods.length
      r.callsComplete
    else .error (.disorder .headerMissing)

/-- The number of constants the revision adds. -/
def added (r : Revision) : Nat := r.pool.count - r.layout.pool.count

/-- The bytes of the revised class: the old ones with the patches, and between the old constants
    and what follows them the new ones, counted in the ninth and tenth byte. -/
def bytes (r : Revision) : Except Fault Bytes := do
  let data := Patch.applyAll r.patches r.layout.data
  if r.added = 0 then return data
  let constants ← r.pool.bytesFrom r.layout.pool.count
  return data.take 8 ++ BigEndian.bytes16 r.pool.count.toUInt16
    ++ (data.take r.layout.poolEnd).drop 10 ++ constants ++ data.drop r.layout.poolEnd

/-- **The revised class**, or the fault of the first event that does not fit, or else of what was
    not told. -/
def finish (r : Revision) : Except Fault Bytes := do
  r.check
  r.bytes

/-- What a finished revision tells. -/
def notice (r : Revision) : Notice := .classWritten r.layout.name r.patches.size r.added

end Revision

namespace Layout

/-- The class with the changes that its events, told again, carry. -/
def revise (l : Layout) (events : List Event) : Except Fault Bytes :=
  (l.revision.acceptAll events).finish

/-- What reading the class tells. -/
def notice (l : Layout) : Notice :=
  .classRead l.name l.fields.length l.methods.length l.pool.count

end Layout

end ClassAccess
