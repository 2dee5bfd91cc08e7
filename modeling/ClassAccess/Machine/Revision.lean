import ClassAccess.ClassFile.Revision
import ClassAccess.Machine.Layout

/-!
# Class files revised on a machine

On a machine a revision does not hold what is still to come of each table of the class, but how many
of its rows were told: the next row is found by this number, and the method under way is the one in
front of the next method.

* `IndexedRevision` -- a revision under way, with its numbers;
* `IndexedRevision.accept` -- one event taken;
* `IndexedRevision.bytes` -- the class written: constants between the old ones and what follows
  them, then each patch at its place, which lies further back if it lies behind the constants;
* `IndexedLayout.revise` -- a whole revision.
-/

namespace ClassAccess

variable [Words]

/-! ## 1. Entries of the pool -/

namespace Machine

/-- The number of the first entry equal to `constant`. -/
def find? (pool : ConstantPool) (constant : Constant) : Machine (Option UInt16) :=
  match pool.slots.findIdx? (· == constant) with
  | none | some 0 => return none
  | some i => do return some (← narrow i)

/-- Puts an entry at the end and gives its number, if there is room. -/
def push (pool : ConstantPool) (constant : Constant) : Machine (UInt16 × ConstantPool) := do
  let needed ← sum pool.count constant.slots
  if ConstantPool.capacity < needed then failed (.poolOverflow needed)
  else return (← narrow pool.count, pool.add constant)

/-- Gives the number of an entry equal to `constant`, putting it at the end if there is none. -/
def intern (pool : ConstantPool) (constant : Constant) : Machine (UInt16 × ConstantPool) := do
  match ← find? pool constant with
  | some index => return (index, pool)
  | none => push pool constant

end Machine

/-! ## 2. The state of a revision -/

/-- A revision under way: the class, the pool with the constants added so far, the patches so far,
    and how many rows of each table were told. `nextCall` counts the calls of the method in front of
    the next one. -/
structure IndexedRevision where
  layout : IndexedLayout
  pool : ConstantPool
  patches : Std.TreeMap Nat Patch
  headerSeen : Bool
  nextInnerClass : Nat
  nextField : Nat
  nextMethod : Nat
  nextCall : Nat
  fault : Option Fault

/-- A revision of a class, of which nothing was told. -/
def IndexedLayout.revision (n : IndexedLayout) : IndexedRevision where
  layout := n
  pool := n.pool
  patches := ∅
  headerSeen := false
  nextInnerClass := 0
  nextField := 0
  nextMethod := 0
  nextCall := 0
  fault := none

namespace IndexedRevision

open Machine (sum difference nth slice set setSlice)

/-- Ends the revision with a fault. -/
def fail (w : IndexedRevision) (fault : Fault) : IndexedRevision := { w with fault := some fault }

/-- Goes on unless the revision has ended. -/
def andThen (w : IndexedRevision) (f : IndexedRevision → Machine IndexedRevision) :
    Machine IndexedRevision :=
  if w.fault.isSome then return w else f w

/-- Notes new contents for a place. Two different contents for one place end the revision. -/
def patch (w : IndexedRevision) (offset : Nat) (p : Patch) : IndexedRevision :=
  let revised := { w with patches := w.patches.insert offset p }
  match w.patches[offset]? with
  | some earlier =>
    if earlier = p then revised else revised.fail (.unsupported (.conflict offset))
  | none => revised

/-- Notes new access flags, if they are new. -/
def setAccess (w : IndexedRevision) (offset : Nat) (before after : AccessFlags) : IndexedRevision :=
  if before = after then w else w.patch offset (.word after)

/-! ## 3. Declarations -/

/-- Takes the header, once. Only its access flags may be new. -/
def acceptHeader (w : IndexedRevision) (header : Header) : IndexedRevision :=
  if w.headerSeen then w.fail (.disorder .headerTwice)
  else
    let before := w.layout.header.value
    let w := { w with headerSeen := true }
    if { header with access := before.access } = before then
      w.setAccess w.layout.header.offset before.access header.access
    else w.fail (.unsupported (.header before.name))

/-- Takes the next inner class. Only its access flags may be new. -/
def acceptInnerClass (w : IndexedRevision) (record : InnerClass) : Machine IndexedRevision := do
  match w.layout.innerClasses[w.nextInnerClass]? with
  | none => return w.fail (.disorder (.extraInnerClass record.name))
  | some ⟨before, offset⟩ =>
    let w := { w with nextInnerClass := ← sum w.nextInnerClass 1 }
    if { record with access := before.access } = before then
      return w.setAccess offset before.access record.access
    else return w.fail (.unsupported (.innerClass before.name))

/-- Takes the next field. Only its access flags may be new. -/
def acceptField (w : IndexedRevision) (declaration : FieldDeclaration) :
    Machine IndexedRevision := do
  match w.layout.fields[w.nextField]? with
  | none => return w.fail (.disorder (.extraField declaration.name))
  | some ⟨before, offset⟩ =>
    let w := { w with nextField := ← sum w.nextField 1 }
    if { declaration with access := before.access } = before then
      return w.setAccess offset before.access declaration.access
    else return w.fail (.unsupported (.field before.name))

/-- Fails unless as many rows of a table were told as are present. -/
def complete (what : Counted) (seen present : Nat) : Machine Unit :=
  if seen = present then return () else .failed (.disorder (.miscounted what seen present))

/-- Fails unless every call of the method under way has been told. -/
def callsComplete (w : IndexedRevision) : Machine Unit :=
  match w.nextMethod with
  | 0 => return ()
  | last + 1 => do
    let method ← nth w.layout.methods last
    complete .instruction w.nextCall method.calls.length

/-- Takes the next method, once every call of the one before it has been told. Only its access
    flags may be new. -/
def acceptMethod (w : IndexedRevision) (declaration : MethodDeclaration) :
    Machine IndexedRevision := do
  match ← w.callsComplete.attempt with
  | .error fault => return w.fail fault
  | .ok () =>
    match w.layout.methods[w.nextMethod]? with
    | none => return w.fail (.disorder (.extraMethod declaration.name declaration.descriptor))
    | some method =>
      let before := method.declaration.value
      let w := { w with nextMethod := ← sum w.nextMethod 1, nextCall := 0 }
      if { declaration with access := before.access } = before then
        return w.setAccess method.declaration.offset before.access declaration.access
      else return w.fail (.unsupported (.method before.name before.descriptor))

/-! ## 4. Calls -/

/-- Takes the next call of the method under way, and goes on with it. -/
def withCall (w : IndexedRevision) (f : IndexedRevision → IndexedCall → Machine IndexedRevision) :
    Machine IndexedRevision :=
  match w.nextMethod with
  | 0 => return w.fail (.disorder .instructionOutsideMethod)
  | last + 1 => do
    let method ← nth w.layout.methods last
    match method.calls[w.nextCall]? with
    | none =>
      let declaration := method.declaration.value
      return w.fail (.disorder (.extraInstruction declaration.name declaration.descriptor))
    | some call => f { w with nextCall := ← sum w.nextCall 1 } call

/-- Takes a direct call. Only its kind may be new. -/
def acceptCall (w : IndexedRevision) (call : Call) : Machine IndexedRevision :=
  w.withCall fun w indexed =>
    match indexed with
    | .dynamic .. => return w.fail (.disorder (.callForDynamic call.target.owner call.target.name))
    | .direct ⟨before, offset⟩ =>
      let target := before.target
      if call.target ≠ target then
        return w.fail (.unsupported (.target target.owner target.name target.descriptor))
      else if call.kind = before.kind then return w
      else
        match Revision.kindFault? target before.kind call.kind with
        | some cause => return w.fail (.unsupported cause)
        | none => return w.patch offset (.byte call.kind.opcode)

/-- Takes a handle whose constant is the one in a slot of the table of bootstrap methods. Only its
    kind may be new; the slot is pointed to a handle of the new kind. -/
def acceptHandle (w : IndexedRevision) (slot : Placed UInt16) (before after : Handle) :
    Machine IndexedRevision :=
  let target := before.target
  if before = after then return w
  else if target ≠ after.target then
    return w.fail (.unsupported (.handleTarget target.owner target.name target.descriptor))
  else if target.onInterface && after.kind = .invokeVirtual then
    return w.fail
      (.unsupported (.virtualHandleOnInterface target.owner target.name target.descriptor))
  else
    match w.pool.get slot.value with
    | .error fault => return w.fail fault
    | .ok (.methodHandle _ reference) => do
      match ← (Machine.intern w.pool (.methodHandle after.kind.code reference)).attempt with
      | .error fault => return w.fail fault
      | .ok (index, pool) => return { w with pool := pool }.patch slot.offset (.word index)
    | .ok _ => return w.fail (.mismatch slot.value .methodHandle)

/-- Takes an argument of a bootstrap method. Only a handle may be new. `name` is the dynamic call
    in question. -/
def acceptArgument (w : IndexedRevision) (name : String) (slot : Placed UInt16) :
    (before after : BootstrapArgument) → Machine IndexedRevision
  | .handle before, .handle after => w.acceptHandle slot before after
  | before, after =>
    if before = after then return w else return w.fail (.unsupported (.argument name))

/-- Takes the arguments of a bootstrap method, one by one. -/
def acceptArguments (name : String) :
    List (Placed UInt16) → (before after : List BootstrapArgument) → IndexedRevision →
      Machine IndexedRevision
  | slot :: slots, before :: befores, after :: afters, w => do
    let w ← w.acceptArgument name slot before after
    w.andThen (acceptArguments name slots befores afters)
  | _, _, _, w => return w

/-- Takes a dynamic call. Only its handles may be new. -/
def acceptDynamicCall (w : IndexedRevision) (call : DynamicCall) : Machine IndexedRevision :=
  w.withCall fun w indexed =>
    match indexed with
    | .direct _ => return w.fail (.disorder (.dynamicForCall call.name))
    | .dynamic before row =>
      if call.name ≠ before.name ∨ call.descriptor ≠ before.descriptor
          ∨ call.arguments.length ≠ before.arguments.length then
        return w.fail (.unsupported (.dynamicCall before.name before.descriptor))
      else do
        let entry ← nth w.layout.bootstraps row.toNat
        let w ← w.acceptHandle entry.handle before.bootstrap call.bootstrap
        w.andThen (acceptArguments before.name entry.arguments before.arguments call.arguments)

/-! ## 5. Whole revisions -/

/-- Takes one event. The one that ends a class says nothing. -/
def accept (w : IndexedRevision) (event : Event) : Machine IndexedRevision :=
  w.andThen fun w =>
    match event with
    | .header header => return w.acceptHeader header
    | .innerClass record => w.acceptInnerClass record
    | .field declaration => w.acceptField declaration
    | .method declaration => w.acceptMethod declaration
    | .call call => w.acceptCall call
    | .dynamicCall call => w.acceptDynamicCall call
    | .finish => return w

/-- Takes events in order. -/
def acceptAll (w : IndexedRevision) (events : List Event) : Machine IndexedRevision :=
  events.foldlM accept w

/-- Fails unless the revision got through to the end of the class. -/
def check (w : IndexedRevision) : Machine Unit :=
  match w.fault with
  | some fault => .failed fault
  | none =>
    if w.headerSeen then do
      complete .innerClass w.nextInnerClass w.layout.innerClasses.length
      complete .field w.nextField w.layout.fields.length
      complete .method w.nextMethod w.layout.methods.length
      w.callsComplete
    else .failed (.disorder .headerMissing)

/-- The number of constants the revision adds. -/
def added (w : IndexedRevision) : Machine Nat := difference w.pool.count w.layout.pool.count

/-- The old bytes, and between the old constants and what follows them the new ones, counted in the
    ninth and tenth byte. -/
def grown (w : IndexedRevision) : Machine Bytes := do
  let data := w.layout.data
  if w.pool.count = w.layout.pool.count then return data
  else if w.pool.count < 0x10000 then
    let front ← slice data 0 8
    let old ← slice data 10 w.layout.poolEnd
    let new ← Machine.of (w.pool.bytesFrom w.layout.pool.count)
    let back ← slice data w.layout.poolEnd data.length
    return front ++ BigEndian.bytes16 w.pool.count.toUInt16 ++ old ++ new ++ back
  else .failed (.poolOverflow w.pool.count)

/-- Writes a patch over some bytes. Those from `poolEnd` on have moved back by `shift`. -/
def write (poolEnd shift : Nat) (out : Bytes) (q : Nat × Patch) : Machine Bytes := do
  let place ← if poolEnd ≤ q.1 then sum q.1 shift else pure q.1
  match q.2 with
  | .byte value => set out place value
  | .word value => setSlice out place (← sum place 2) (BigEndian.bytes16 value)

/-- The bytes of the revised class. Room for sixteen more bytes than the old ones is asked for in
    advance, and a notice tells the number of constants added. -/
def bytes (w : IndexedRevision) : Machine Bytes := do
  let data := w.layout.data
  let _ ← sum data.length 16
  let out ← w.grown
  let shift ← difference out.length data.length
  let out ← w.patches.toList.foldlM (write w.layout.poolEnd shift) out
  let _ ← w.added
  return out

/-- The revised class, or the fault of the first event that does not fit, or else of what was not
    told. -/
def finish (w : IndexedRevision) : Machine Bytes := do
  w.check
  w.bytes

end IndexedRevision

/-- The class with the changes that its events, told again, carry. -/
def IndexedLayout.revise (n : IndexedLayout) (events : List Event) : Machine Bytes := do
  let w ← n.revision.acceptAll events
  w.finish

end ClassAccess
