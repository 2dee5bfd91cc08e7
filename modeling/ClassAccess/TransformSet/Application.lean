import ClassAccess.ClassFile.Revision
import ClassAccess.TransformSet

/-!
# Applying a transform set to a class

A set is applied to a class by changing the events of the class. Besides access flags, calls change:
a method that is no longer private must not be called without dynamic dispatch from inside its own
class, so such calls, and the handles among bootstrap arguments that make such calls, become
virtual.

* `Application.event` -- an event, changed; `Application.see` -- what is to be remembered of it;
* `TransformSet.applyTo` -- the events of a class, changed;
* `TransformSet.transform` -- **the class file with a set applied**.
-/

namespace ClassAccess

/-- The name of constructors, which are always called without dynamic dispatch. -/
def constructorName : String := "<init>"

/-- The application of a set to a class under way: the name of the class, once the header has told
    it. -/
structure Application where
  set : TransformSet
  className : Option String := none

/-- What becomes of a call without dynamic dispatch. A reference to an interface method cannot be
    called virtually, and need not be. -/
inductive Dispatch
  | keep
  | keepOnInterface
  | widen
  deriving DecidableEq, Repr

namespace Application

/-- What is asked for the class and its members; nothing before the header. -/
def requests (a : Application) : ClassTransforms :=
  match a.className with
  | some name => a.set.get name
  | none => {}

/-- What becomes of a call of `target` without dynamic dispatch. It changes if the target is a
    method of the class itself whose visibility is asked for. -/
def dispatch (a : Application) (target : Member) : Dispatch :=
  if target.owner ≠ a.className.getD "" ∨ target.name = constructorName then .keep
  else
    let asked := a.requests.effectiveMethod ⟨target.name, target.descriptor⟩
    if asked.visibility = .unchanged then .keep
    else if target.onInterface then .keepOnInterface
    else .widen

/-- A call, changed. -/
def call (a : Application) (c : Call) : Call :=
  if c.kind = .special ∧ a.dispatch c.target = .widen then { c with kind := .virtual } else c

/-- A handle among the arguments of a bootstrap method, changed. -/
def handle (a : Application) (h : Handle) : Handle :=
  if h.kind = .invokeSpecial ∧ a.dispatch h.target = .widen then { h with kind := .invokeVirtual }
  else h

/-- An argument of a bootstrap method, changed. -/
def argument (a : Application) : BootstrapArgument → BootstrapArgument
  | .handle h => .handle (a.handle h)
  | other => other

/-- What is remembered after an event. -/
def see (a : Application) : Event → Application
  | .header header => { a with className := some header.name }
  | _ => a

/-- An event, changed. The record of an inner class is changed as that class is, not as the one the
    record stands in. -/
def event (a : Application) : Event → Event
  | .header header =>
    .header { header with access := (a.set.get header.name).self.apply header.access }
  | .innerClass record =>
    .innerClass { record with access := (a.set.get record.name).self.apply record.access }
  | .field declaration =>
    .field { declaration with
      access := (a.requests.effectiveField declaration.name).apply declaration.access }
  | .method declaration =>
    .method { declaration with
      access := (a.requests.effectiveMethod ⟨declaration.name, declaration.descriptor⟩).apply
        declaration.access }
  | .call c => .call (a.call c)
  | .dynamicCall c => .dynamicCall { c with arguments := c.arguments.map a.argument }
  | .finish => .finish

/-- Events, changed. -/
def events (a : Application) : List Event → List Event
  | [] => []
  | e :: rest => a.event e :: (a.see e).events rest

/-! ## 1. Notices -/

/-- What there is to tell about a call without dynamic dispatch, of which `widened` tells when it
    is changed. -/
def dispatchNotices (a : Application) (target : Member)
    (widened : String → String → String → Notice) : List Notice :=
  let className := a.className.getD ""
  match a.dispatch target with
  | .keep => []
  | .keepOnInterface => [.interfaceCallKept className target.name target.descriptor]
  | .widen => [widened className target.name target.descriptor]

/-- What there is to tell about an argument of a bootstrap method. -/
def argumentNotices (a : Application) : BootstrapArgument → List Notice
  | .handle h =>
    if h.kind = .invokeSpecial then a.dispatchNotices h.target .handleWidened else []
  | _ => []

/-- The number of calls and handles that an event has changed. -/
def widenedBy (a : Application) : Event → Nat
  | .call c => if a.call c = c then 0 else 1
  | .dynamicCall c => c.arguments.countP fun arg => a.argument arg ≠ arg
  | _ => 0

/-- What there is to tell about an event, after `widened` calls and handles have been changed. -/
def eventNotices (a : Application) (widened : Nat) : Event → List Notice
  | .call c => if c.kind = .special then a.dispatchNotices c.target .callWidened else []
  | .dynamicCall c => c.arguments.flatMap a.argumentNotices
  | .finish => if 0 < widened then [.callsWidened (a.className.getD "") widened] else []
  | _ => []

/-- What there is to tell about events, after `widened` calls and handles have been changed. -/
def notices (a : Application) (widened : Nat) : List Event → List Notice
  | [] => []
  | e :: rest =>
    a.eventNotices widened e ++ (a.see e).notices (widened + a.widenedBy e) rest

end Application

/-! ## 2. Whole classes -/

namespace TransformSet

/-- The events of a class with the set applied. -/
def applyTo (s : TransformSet) (events : List Event) : List Event :=
  Application.events { set := s } events

/-- **A class file with the set applied.** -/
def transform (s : TransformSet) (data : Bytes) : Except Fault Bytes := do
  let layout ← Layout.ofBytes data
  layout.revise (s.applyTo layout.events)

/-- What there is to tell when the set is applied to events. -/
def applyNotices (s : TransformSet) (events : List Event) : List Notice :=
  Application.notices { set := s } 0 events

/-- What there is to tell when the set is applied to a class file. -/
def transformNotices (s : TransformSet) (data : Bytes) : List Notice :=
  match Layout.ofBytes data with
  | .error _ => []
  | .ok layout =>
    let revision := layout.revision.acceptAll (s.applyTo layout.events)
    let written := match revision.finish with
      | .ok _ => [revision.notice]
      | .error _ => []
    layout.notice :: s.applyNotices layout.events ++ written

end TransformSet

end ClassAccess
