import ClassAccess.ClassFile.Revision
import ClassAccess.Proofs.ClassFile.Spots

/-!
# What a revision changes

Events that are told in the order of the class only matter for what they change. So a revision comes
to this: each event asks for some changes, and the changes are made one after the other.

* `Change`, `Draft.apply` -- a change, and what it makes of the pool and the patches so far;
* `Spot.changes` -- the changes that an event asks for in the place of another one;
* `Revision.remaining` -- the spots that are still to come;
* `accept_carries` -- **one event of the right kind**: it makes its changes, and the next spot is
  told;
* `revise_eq` -- **all events of the right kinds**: a revision makes their changes, and fails where
  they cannot be made;
* `revise_self` -- a class whose events are told as they were stays as it is.
-/

namespace ClassAccess

/-! ## 1. Changes -/

/-- What an event asks of a revision: nothing that it can do, new contents for a place, or a handle
    of another kind for the same member in a slot of the table of bootstrap methods. -/
inductive Change
  | refuse (fault : Fault)
  | write (offset : Nat) (patch : Patch)
  | point (slot : Placed UInt16) (kind : HandleKind)

/-- Why a change cannot be made, if it is one that cannot. -/
def Change.fault? : Change → Option Fault
  | refuse fault => some fault
  | _ => none

/-- Whether no change is one that cannot be made. -/
def Change.NoneRefused (cs : List Change) : Prop := ∀ c ∈ cs, c.fault? = none

/-- The pool and the patches of a revision under way. -/
structure Draft where
  pool : ConstantPool
  patches : Std.TreeMap Nat Patch

namespace Draft

/-- Notes new contents for a place, unless there are others already. -/
def note (d : Draft) (offset : Nat) (p : Patch) : Except Fault Draft :=
  match d.patches[offset]? with
  | some earlier =>
    if earlier = p then .ok { d with patches := d.patches.insert offset p }
    else .error (.unsupported (.conflict offset))
  | none => .ok { d with patches := d.patches.insert offset p }

/-- Makes one change. -/
def apply (d : Draft) : Change → Except Fault Draft
  | .refuse fault => .error fault
  | .write offset p => d.note offset p
  | .point slot kind =>
    match d.pool.get slot.value with
    | .error fault => .error fault
    | .ok (.methodHandle _ reference) =>
      match d.pool.intern (.methodHandle kind.code reference) with
      | .error fault => .error fault
      | .ok (index, pool) => note { d with pool := pool } slot.offset (.word index)
    | .ok _ => .error (.mismatch slot.value .methodHandle)

/-- Makes changes in order, until one cannot be made. -/
def applyAll (d : Draft) (changes : List Change) : Except Fault Draft := changes.foldlM apply d

@[simp] theorem applyAll_nil (d : Draft) : d.applyAll [] = .ok d := rfl

theorem applyAll_cons (d : Draft) (c : Change) (cs : List Change) :
    d.applyAll (c :: cs) = d.apply c >>= fun d' => d'.applyAll cs := List.foldlM_cons

theorem applyAll_singleton (d : Draft) (c : Change) : d.applyAll [c] = d.apply c := by
  rw [applyAll_cons]
  cases d.apply c <;> rfl

theorem applyAll_append (d : Draft) (cs cs' : List Change) :
    d.applyAll (cs ++ cs') = d.applyAll cs >>= fun d' => d'.applyAll cs' := List.foldlM_append

/-- The bytes of a class with a draft of its revision. -/
def bytes (d : Draft) (l : Layout) : Except Fault Bytes :=
  Revision.bytes { l.revision with pool := d.pool, patches := d.patches }

theorem bytes_eq (d : Draft) (l : Layout) : d.bytes l =
    let data := Patch.applyAll d.patches l.data
    if d.pool.count - l.pool.count = 0 then .ok data
    else do
      let constants ← d.pool.bytesFrom l.pool.count
      return data.take 8 ++ BigEndian.bytes16 d.pool.count.toUInt16
        ++ (data.take l.poolEnd).drop 10 ++ constants ++ data.drop l.poolEnd := rfl

end Draft

/-! ## 2. The changes that an event asks for -/

/-- A declaration in the place of another one: its access flags may be new. -/
def Placed.changes {α : Type} [Declaration α] [DecidableEq α] (p : Placed α) (after : α)
    (otherwise : Unsupported) : List Change :=
  let access := Declaration.access p.value
  if Declaration.withAccess after access = p.value then
    if access = Declaration.access after then []
    else [.write p.offset (.word (Declaration.access after))]
  else [.refuse (.unsupported otherwise)]

/-- A direct call in the place of another one: its kind may be new. -/
def Call.changes (p : Placed Call) (after : Call) : List Change :=
  let before := p.value
  let target := before.target
  if after.target ≠ target then
    [.refuse (.unsupported (.target target.owner target.name target.descriptor))]
  else if after.kind = before.kind then []
  else
    match Revision.kindFault? target before.kind after.kind with
    | some cause => [.refuse (.unsupported cause)]
    | none => [.write p.offset (.byte after.kind.opcode)]

/-- A handle in the place of another one: its kind may be new. -/
def Handle.changes (slot : Placed UInt16) (before after : Handle) : List Change :=
  let target := before.target
  if before = after then []
  else if target ≠ after.target then
    [.refuse (.unsupported (.handleTarget target.owner target.name target.descriptor))]
  else if target.onInterface && after.kind = .invokeVirtual then
    [.refuse (.unsupported (.virtualHandleOnInterface target.owner target.name target.descriptor))]
  else [.point slot after.kind]

/-- An argument in the place of another one. -/
def BootstrapArgument.changes (name : String) (slot : Placed UInt16) :
    (before after : BootstrapArgument) → List Change
  | .handle before, .handle after => Handle.changes slot before after
  | before, after => if before = after then [] else [.refuse (.unsupported (.argument name))]

/-- Arguments in the places of others. -/
def BootstrapArgument.changesAll (name : String) :
    List (Placed UInt16) → (before after : List BootstrapArgument) → List Change
  | slot :: slots, before :: befores, after :: afters =>
    changes name slot before after ++ changesAll name slots befores afters
  | _, _, _ => []

/-- A dynamic call in the place of another one: its handles may be new. -/
def DynamicCall.changes (before : DynamicCall) (entry : BootstrapEntry) (after : DynamicCall) :
    List Change :=
  if after.name ≠ before.name ∨ after.descriptor ≠ before.descriptor
      ∨ after.arguments.length ≠ before.arguments.length then
    [.refuse (.unsupported (.dynamicCall before.name before.descriptor))]
  else Handle.changes entry.handle before.bootstrap after.bootstrap
    ++ BootstrapArgument.changesAll before.name entry.arguments before.arguments after.arguments

/-- The changes that an event asks for in the place of a spot of its kind. -/
def Spot.changes : Spot → Event → List Change
  | header p, .header h => p.changes h (.header p.value.name)
  | innerClass p, .innerClass record => p.changes record (.innerClass p.value.name)
  | field p, .field d => p.changes d (.field p.value.name)
  | method p, .method d => p.changes d (.method p.value.name p.value.descriptor)
  | call p, .call c => Call.changes p c
  | dynamicCall before entry, .dynamicCall c => before.changes entry c
  | _, _ => []

/-- The changes that events ask for in the places of spots, in order. -/
def Spot.changesAll (spots : List Spot) (events : List Event) : List Change :=
  (List.zipWith Spot.changes spots events).flatten

/-! ## 3. One event makes its changes -/

namespace Revision

variable {r r₁ : Revision}

/-- The draft of a revision under way. -/
def draft (r : Revision) : Draft := ⟨r.pool, r.patches⟩

/-- `r'` is `r` with a draft, or has ended with the fault that there is instead of one. -/
def Carries (r' r : Revision) : Except Fault Draft → Prop
  | .ok d => r' = { r with pool := d.pool, patches := d.patches }
  | .error fault => r'.fault = some fault

theorem carries_self (r : Revision) : r.Carries r (.ok r.draft) := rfl

theorem carries_fail (r₁ r : Revision) (fault : Fault) :
    (r₁.fail fault).Carries r (.error fault) := rfl

theorem carries_patch (r : Revision) (offset : Nat) (p : Patch) :
    (r.patch offset p).Carries r (r.draft.note offset p) := by
  unfold patch Draft.note draft
  cases h : r.patches[offset]? with
  | none => exact rfl
  | some earlier =>
      simp only
      by_cases he : earlier = p
      · rw [if_pos he, if_pos he]
        exact rfl
      · rw [if_neg he, if_neg he]
        exact carries_fail _ _ _

theorem carries_setAccess (r : Revision) (offset : Nat) (before after : AccessFlags) :
    (r.setAccess offset before after).Carries r
      (r.draft.applyAll (if before = after then [] else [.write offset (.word after)])) := by
  unfold setAccess
  split
  · exact carries_self r
  · rw [Draft.applyAll_singleton]
    exact carries_patch r offset (.word after)

/-- A declaration is taken if nothing but its access flags is new. -/
theorem carries_declaration {α : Type} [Declaration α] [DecidableEq α] (r : Revision)
    (p : Placed α) (after : α) (otherwise : Unsupported) :
    (if Declaration.withAccess after (Declaration.access p.value) = p.value then
      r.setAccess p.offset (Declaration.access p.value) (Declaration.access after)
    else r.fail (.unsupported otherwise)).Carries r
      (r.draft.applyAll (p.changes after otherwise)) := by
  unfold Placed.changes
  simp only
  split
  · exact carries_setAccess r p.offset _ _
  · exact carries_fail _ _ _

theorem carries_acceptHandle (r : Revision) (slot : Placed UInt16) (before after : Handle) :
    (r.acceptHandle slot before after).Carries r
      (r.draft.applyAll (Handle.changes slot before after)) := by
  unfold acceptHandle Handle.changes
  simp only
  split
  · exact carries_self r
  split
  · exact carries_fail _ _ _
  split
  · exact carries_fail _ _ _
  rw [Draft.applyAll_singleton]
  unfold Draft.apply draft
  cases hget : r.pool.get slot.value with
  | error fault =>
      simp only [hget]
      exact carries_fail _ _ _
  | ok constant =>
      cases constant
      case methodHandle kind reference =>
        simp only [hget]
        cases hintern : r.pool.intern (.methodHandle after.kind.code reference) with
        | error fault =>
            simp only
            exact carries_fail _ _ _
        | ok found =>
            simp only
            exact carries_patch { r with pool := found.2 } slot.offset (.word found.1)
      all_goals
        simp only [hget]
        exact carries_fail _ _ _

theorem andThen_of_fault (hr : r.fault = none) (f : Revision → Revision) : r.andThen f = f r := by
  unfold andThen
  rw [hr, Option.isSome_none, if_neg Bool.false_ne_true]

/-- Two steps after each other make the changes of both. -/
theorem carries_andThen {f : Revision → Revision} {cs cs' : List Change} (hr : r.fault = none)
    (h : r₁.Carries r (r.draft.applyAll cs))
    (hf : ∀ r' : Revision, r'.fault = none → (f r').Carries r' (r'.draft.applyAll cs')) :
    (r₁.andThen f).Carries r (r.draft.applyAll (cs ++ cs')) := by
  rw [Draft.applyAll_append]
  cases hd : r.draft.applyAll cs with
  | error fault =>
      rw [hd] at h
      have hfault : r₁.fault = some fault := h
      unfold andThen
      rw [hfault, Option.isSome_some, if_pos rfl]
      exact hfault
  | ok d =>
      rw [hd] at h
      have heq : r₁ = { r with pool := d.pool, patches := d.patches } := h
      have hnone : r₁.fault = none := by rw [heq]; exact hr
      rw [andThen_of_fault hnone]
      have hstep := hf r₁ hnone
      have hdraft : r₁.draft = d := by rw [heq]; rfl
      rw [hdraft] at hstep
      show (f r₁).Carries r (d.applyAll cs')
      cases hd' : d.applyAll cs' with
      | error fault =>
          rw [hd'] at hstep
          exact hstep
      | ok d' =>
          rw [hd'] at hstep
          rw [show f r₁ = _ from hstep, heq]
          exact rfl

theorem carries_acceptArgument (r : Revision) (name : String) (slot : Placed UInt16)
    (before after : BootstrapArgument) : (r.acceptArgument name slot before after).Carries r
      (r.draft.applyAll (BootstrapArgument.changes name slot before after)) := by
  have hother : (if before = after then r else r.fail (.unsupported (.argument name))).Carries r
      (r.draft.applyAll
        (if before = after then [] else [.refuse (.unsupported (.argument name))])) := by
    by_cases h : before = after
    · rw [if_pos h, if_pos h]
      exact carries_self r
    · rw [if_neg h, if_neg h]
      exact carries_fail _ _ _
  cases before with
  | handle before =>
      cases after with
      | handle after => exact carries_acceptHandle r slot before after
      | methodType | constant => exact hother
  | methodType | constant => exact hother

theorem carries_acceptArguments (name : String) {r : Revision} (hr : r.fault = none)
    (slots : List (Placed UInt16)) (befores afters : List BootstrapArgument) :
    (acceptArguments name slots befores afters r).Carries r
      (r.draft.applyAll (BootstrapArgument.changesAll name slots befores afters)) := by
  induction slots generalizing befores afters r with
  | nil => exact carries_self r
  | cons slot slots ih =>
      cases befores with
      | nil => exact carries_self r
      | cons before befores =>
          cases afters with
          | nil => exact carries_self r
          | cons after afters =>
              exact carries_andThen hr (carries_acceptArgument r name slot before after)
                fun r' hr' => ih hr' befores afters

/-! ## 4. One event of the right kind -/

/-- The spots that are still to come. -/
def remaining (r : Revision) : List Spot :=
  (if r.headerSeen then [] else [.header r.layout.header]) ++ (r.innerClasses.map .innerClass
    ++ (r.fields.map .field ++ ((r.current.elim [] fun c => c.2.map PlacedCall.spot)
      ++ r.methods.flatMap MethodLayout.spots)))

/-- `r₁` is `r` with the next spot behind it: `rest` is to come, and neither the class nor the fault
    has changed. -/
structure Behind (r r₁ : Revision) (rest : List Spot) : Prop where
  remaining : r₁.remaining = rest
  fault : r₁.fault = r.fault
  layout : r₁.layout = r.layout

theorem carries_acceptHeader (h : r.headerSeen = false) (header : Header) :
    (r.acceptHeader header).Carries { r with headerSeen := true }
      (r.draft.applyAll ((Spot.header r.layout.header).changes (.header header))) := by
  unfold acceptHeader
  rw [h, if_neg Bool.false_ne_true]
  exact carries_declaration { r with headerSeen := true } r.layout.header header _

theorem carries_acceptInnerClass {p : Placed InnerClass} {rest : List (Placed InnerClass)}
    (h : r.innerClasses = p :: rest) (record : InnerClass) :
    (r.acceptInnerClass record).Carries { r with innerClasses := rest }
      (r.draft.applyAll ((Spot.innerClass p).changes (.innerClass record))) := by
  unfold acceptInnerClass
  rw [h]
  exact carries_declaration { r with innerClasses := rest } p record _

theorem carries_acceptField {p : Placed FieldDeclaration} {rest : List (Placed FieldDeclaration)}
    (h : r.fields = p :: rest) (declaration : FieldDeclaration) :
    (r.acceptField declaration).Carries { r with fields := rest }
      (r.draft.applyAll ((Spot.field p).changes (.field declaration))) := by
  unfold acceptField
  rw [h]
  exact carries_declaration { r with fields := rest } p declaration _

/-- Nothing is left to come of the method under way. -/
def Idle (r : Revision) : Prop := ∀ m cs, r.current = some (m, cs) → cs = []

theorem Idle.callsComplete (h : r.Idle) : r.callsComplete = .ok () := by
  unfold Revision.callsComplete
  cases hc : r.current with
  | none => rfl
  | some c =>
      obtain ⟨m, cs⟩ := c
      cases h m cs hc
      rfl

theorem Idle.calls (h : r.Idle) : (r.current.elim [] fun c => c.2.map PlacedCall.spot) = [] := by
  cases hc : r.current with
  | none => rfl
  | some c =>
      obtain ⟨m, cs⟩ := c
      cases h m cs hc
      rfl

theorem carries_acceptMethod {m : MethodLayout} {rest : List MethodLayout} (hidle : r.Idle)
    (h : r.methods = m :: rest) (declaration : MethodDeclaration) :
    (r.acceptMethod declaration).Carries { r with methods := rest, current := some (m, m.calls) }
      (r.draft.applyAll ((Spot.method m.declaration).changes (.method declaration))) := by
  unfold acceptMethod
  rw [hidle.callsComplete, h]
  exact carries_declaration { r with methods := rest, current := some (m, m.calls) } m.declaration
    declaration _

theorem carries_acceptCall {m : MethodLayout} {p : Placed Call} {rest : List PlacedCall}
    (h : r.current = some (m, .direct p :: rest)) (call : Call) :
    (r.acceptCall call).Carries { r with current := some (m, rest) }
      (r.draft.applyAll ((Spot.call p).changes (.call call))) := by
  unfold acceptCall nextCall Spot.changes Call.changes
  rw [h]
  simp only
  split
  · exact carries_fail _ _ _
  split
  · exact carries_self { r with current := some (m, rest) }
  cases Revision.kindFault? p.value.target p.value.kind call.kind with
  | some cause => exact carries_fail _ _ _
  | none =>
      simp only
      rw [Draft.applyAll_singleton]
      exact carries_patch { r with current := some (m, rest) } p.offset (.byte call.kind.opcode)

theorem carries_acceptDynamicCall {m : MethodLayout} {before : DynamicCall}
    {entry : BootstrapEntry} {rest : List PlacedCall} (hr : r.fault = none)
    (h : r.current = some (m, .dynamic before entry :: rest)) (call : DynamicCall) :
    (r.acceptDynamicCall call).Carries { r with current := some (m, rest) }
      (r.draft.applyAll ((Spot.dynamicCall before entry).changes (.dynamicCall call))) := by
  unfold acceptDynamicCall nextCall Spot.changes DynamicCall.changes
  rw [h]
  simp only
  split
  · exact carries_fail _ _ _
  · have hr' : ({ r with current := some (m, rest) } : Revision).fault = none := hr
    exact carries_andThen hr' (carries_acceptHandle _ entry.handle before.bootstrap call.bootstrap)
      fun r' hr' => carries_acceptArguments before.name hr' entry.arguments before.arguments
        call.arguments

/-- Where the next spot comes from: the first table of which something is still to come. -/
inductive Next (r : Revision) : Spot → List Spot → Prop
  | header (h : r.headerSeen = false) :
      Next r (.header r.layout.header) ({ r with headerSeen := true } : Revision).remaining
  | innerClass (p : Placed InnerClass) (rest : List (Placed InnerClass)) (hs : r.headerSeen = true)
      (h : r.innerClasses = p :: rest) :
      Next r (.innerClass p) ({ r with innerClasses := rest } : Revision).remaining
  | field (p : Placed FieldDeclaration) (rest : List (Placed FieldDeclaration))
      (hs : r.headerSeen = true) (hi : r.innerClasses = []) (h : r.fields = p :: rest) :
      Next r (.field p) ({ r with fields := rest } : Revision).remaining
  | call (m : MethodLayout) (c : PlacedCall) (rest : List PlacedCall)
      (h : r.current = some (m, c :: rest)) (hs : r.headerSeen = true) (hi : r.innerClasses = [])
      (hf : r.fields = []) :
      Next r c.spot ({ r with current := some (m, rest) } : Revision).remaining
  | method (m : MethodLayout) (rest : List MethodLayout) (hidle : r.Idle)
      (h : r.methods = m :: rest) (hs : r.headerSeen = true) (hi : r.innerClasses = [])
      (hf : r.fields = []) :
      Next r (.method m.declaration)
        ({ r with methods := rest, current := some (m, m.calls) } : Revision).remaining

theorem next_of_remaining {spot : Spot} {rest : List Spot} (h : r.remaining = spot :: rest) :
    r.Next spot rest := by
  unfold remaining at h
  cases hs : r.headerSeen with
  | false =>
      rw [hs, if_neg Bool.false_ne_true] at h
      cases h
      exact .header hs
  | true =>
      rw [hs, if_pos rfl, List.nil_append] at h
      cases hi : r.innerClasses with
      | cons p ps =>
          rw [hi] at h
          cases h
          have hn := Next.innerClass p ps hs hi
          rwa [remaining, hs, if_pos rfl, List.nil_append] at hn
      | nil =>
          rw [hi, List.map_nil, List.nil_append] at h
          cases hf : r.fields with
          | cons p ps =>
              rw [hf] at h
              cases h
              have hn := Next.field p ps hs hi hf
              rwa [remaining, hs, hi, if_pos rfl, List.nil_append] at hn
          | nil =>
              rw [hf, List.map_nil, List.nil_append] at h
              by_cases hidle : r.Idle
              · rw [hidle.calls, List.nil_append] at h
                cases hm : r.methods with
                | nil =>
                    rw [hm] at h
                    cases h
                | cons m ms =>
                    rw [hm] at h
                    cases h
                    have hn := Next.method m ms hidle hm hs hi hf
                    rwa [remaining, hs, hi, hf, if_pos rfl, List.nil_append] at hn
              · unfold Idle at hidle
                push Not at hidle
                obtain ⟨m, cs, hc, hne⟩ := hidle
                obtain ⟨c, cs, rfl⟩ := List.exists_cons_of_ne_nil hne
                rw [hc] at h
                cases h
                have hn := Next.call m c cs hc hs hi hf
                rwa [remaining, hs, hi, hf, if_pos rfl, List.nil_append] at hn

/-- **One event of the right kind makes its changes**, and the next spot is behind. -/
theorem accept_carries {spot : Spot} {rest : List Spot} {e : Event} (hr : r.fault = none)
    (h : r.remaining = spot :: rest) (hk : e.kind = spot.event.kind) :
    ∃ r₁, r.Behind r₁ rest ∧ (r.accept e).Carries r₁ (r.draft.applyAll (spot.changes e)) := by
  unfold accept
  rw [andThen_of_fault hr]
  cases next_of_remaining h with
  | header hs =>
      cases e
      case header x => exact ⟨_, ⟨rfl, rfl, rfl⟩, carries_acceptHeader hs x⟩
      all_goals cases hk
  | innerClass p ps hs hi =>
      cases e
      case innerClass x => exact ⟨_, ⟨rfl, rfl, rfl⟩, carries_acceptInnerClass hi x⟩
      all_goals cases hk
  | field p ps hs hi hf =>
      cases e
      case field x => exact ⟨_, ⟨rfl, rfl, rfl⟩, carries_acceptField hf x⟩
      all_goals cases hk
  | call m c cs hc =>
      cases c with
      | direct p =>
          cases e
          case call x => exact ⟨_, ⟨rfl, rfl, rfl⟩, carries_acceptCall hc x⟩
          all_goals cases hk
      | dynamic before entry =>
          cases e
          case dynamicCall x =>
            exact ⟨_, ⟨rfl, rfl, rfl⟩, carries_acceptDynamicCall hr hc x⟩
          all_goals cases hk
  | method m ms hidle hm =>
      cases e
      case method x => exact ⟨_, ⟨rfl, rfl, rfl⟩, carries_acceptMethod hidle hm x⟩
      all_goals cases hk

/-! ## 5. All events of the right kinds -/

/-- What has become of a revision of `l`: it goes on with a draft and some spots still to come, or
    it has ended with a fault. -/
def Comes (r : Revision) (l : Layout) (rest : List Spot) : Except Fault Draft → Prop
  | .ok d => r.layout = l ∧ r.remaining = rest ∧ r.fault = none ∧ r.draft = d
  | .error fault => r.fault = some fault

theorem accept_comes {spot : Spot} {rest : List Spot} {e : Event} (hr : r.fault = none)
    (h : r.remaining = spot :: rest) (hk : e.kind = spot.event.kind) :
    (r.accept e).Comes r.layout rest (r.draft.applyAll (spot.changes e)) := by
  obtain ⟨r₁, hbehind, hcarries⟩ := accept_carries hr h hk
  cases hd : r.draft.applyAll (spot.changes e) with
  | error fault =>
      rw [hd] at hcarries
      exact hcarries
  | ok d =>
      rw [hd] at hcarries
      rw [show r.accept e = _ from hcarries]
      exact ⟨hbehind.layout, hbehind.remaining, hbehind.fault.trans hr, rfl⟩

/-- The event that ends a class changes nothing. -/
theorem accept_finish (r : Revision) : r.accept .finish = r := by
  unfold accept andThen
  exact ite_self _

/-- A revision that has ended takes no more events. -/
theorem acceptAll_of_fault {fault : Fault} (h : r.fault = some fault) (events : List Event) :
    r.acceptAll events = r := by
  induction events with
  | nil => rfl
  | cons e events ih =>
      have haccept : r.accept e = r := by
        unfold accept andThen
        rw [h, Option.isSome_some, if_pos rfl]
      unfold acceptAll at ih ⊢
      rw [List.foldl_cons, haccept, ih]

/-- **Events of the right kinds make their changes**, one event after the other. -/
theorem acceptAll_comes {events : List Event} {front rest : List Spot} (hr : r.fault = none)
    (hrest : r.remaining = front ++ rest)
    (hk : events.map Event.kind = front.map (·.event.kind)) :
    (r.acceptAll events).Comes r.layout rest
      (r.draft.applyAll (Spot.changesAll front events)) := by
  induction events generalizing r front with
  | nil =>
      have hnil : front = [] := by
        rw [List.map_nil, eq_comm, List.map_eq_nil_iff] at hk
        exact hk
      rw [hnil] at hrest ⊢
      exact ⟨rfl, hrest, hr, rfl⟩
  | cons e events ih =>
      cases front with
      | nil => cases hk
      | cons spot front =>
          rw [List.map_cons, List.map_cons, List.cons.injEq] at hk
          have hstep := accept_comes hr hrest hk.1
          show (((r.accept e).acceptAll events)).Comes r.layout rest
            (r.draft.applyAll (spot.changes e ++ Spot.changesAll front events))
          rw [Draft.applyAll_append]
          cases hd : r.draft.applyAll (spot.changes e) with
          | error fault =>
              rw [hd] at hstep
              rw [acceptAll_of_fault hstep]
              exact hstep
          | ok d =>
              rw [hd] at hstep
              obtain ⟨hlayout, hremaining, hfault, hdraft⟩ := hstep
              have hrun := ih hfault hremaining hk.2
              rw [hlayout, hdraft] at hrun
              exact hrun

/-- A revision for which nothing is to come got through to the end of the class. -/
theorem check_of_remaining (hr : r.fault = none) (h : r.remaining = []) : r.check = .ok () := by
  unfold remaining at h
  simp only [List.append_eq_nil_iff, List.map_eq_nil_iff, List.flatMap_eq_nil_iff] at h
  obtain ⟨hheader, hinner, hfields, hcalls, hmethods⟩ := h
  have hs : r.headerSeen = true := by
    cases hs : r.headerSeen with
    | true => rfl
    | false =>
        rw [hs, if_neg Bool.false_ne_true] at hheader
        cases hheader
  have hm : r.methods = [] := by
    cases hm : r.methods with
    | nil => rfl
    | cons m ms =>
        have hmem : m ∈ r.methods := by
          rw [hm]
          exact List.mem_cons_self
        exact absurd (hmethods m hmem) (List.cons_ne_nil _ _)
  have hidle : r.Idle := by
    intro m cs hc
    rw [hc] at hcalls
    exact List.map_eq_nil_iff.1 hcalls
  unfold check
  rw [hr]
  simp only
  rw [hs, if_pos rfl, hinner, hfields, hm, hidle.callsComplete]
  rfl

theorem bytes_eq (r : Revision) : r.bytes = r.draft.bytes r.layout := rfl

/-- What a revision gives that was told everything. -/
theorem Comes.finish_eq {l : Layout} {x : Except Fault Draft} (h : r.Comes l [] x) :
    r.finish = x >>= fun d => d.bytes l := by
  unfold finish
  cases x with
  | error fault =>
      rw [check, show r.fault = some fault from h]
      rfl
  | ok d =>
      obtain ⟨hlayout, hremaining, hfault, hdraft⟩ := h
      rw [check_of_remaining hfault hremaining, bytes_eq, hdraft, hlayout]
      rfl

end Revision

namespace Layout

/-- The draft of a revision that has not begun. -/
def draft (l : Layout) : Draft := ⟨l.pool, ∅⟩

theorem remaining_revision (l : Layout) : l.revision.remaining = l.spots := by
  unfold Revision.remaining spots revision
  simp only [Bool.false_eq_true, if_false, Option.elim_none, List.nil_append, List.singleton_append,
    List.append_assoc]

/-- **A revision makes the changes its events ask for**, and gives the bytes of what comes of them.
    -/
theorem revise_eq (l : Layout) {told : List Event}
    (hk : told.map Event.kind = l.spots.map (·.event.kind)) :
    l.revise (told ++ [.finish]) =
      l.draft.applyAll (Spot.changesAll l.spots told) >>= fun d => d.bytes l := by
  have hrun : (l.revision.acceptAll told).Comes l []
      (l.draft.applyAll (Spot.changesAll l.spots told)) :=
    Revision.acceptAll_comes rfl (by rw [remaining_revision, List.append_nil]) hk
  unfold revise Revision.acceptAll
  rw [List.foldl_append, List.foldl_cons, List.foldl_nil]
  change ((l.revision.acceptAll told).accept .finish).finish = _
  rw [Revision.accept_finish]
  exact hrun.finish_eq

/-- The events of the right kinds are those for the spots, and the one that ends the class. -/
theorem exists_told {l : Layout} {events : List Event}
    (h : events.map Event.kind = l.events.map Event.kind) :
    ∃ told, events = told ++ [.finish] ∧ told.map Event.kind = l.spots.map (·.event.kind) := by
  rw [events_eq, List.map_append, List.map_map] at h
  obtain ⟨told, last, rfl, htold, hlast⟩ := List.map_eq_append_iff.1 h
  obtain ⟨e, hlast, he⟩ := List.map_eq_singleton_iff.1 hlast
  refine ⟨told, ?_, htold⟩
  cases e
  case finish => rw [hlast]
  all_goals cases he

end Layout

/-! ## 6. Events told as they were -/

theorem Placed.changes_self {α : Type} [Declaration α] [DecidableEq α] (p : Placed α)
    (otherwise : Unsupported) : p.changes p.value otherwise = [] := by
  unfold changes
  simp only [Declaration.withAccess_access, if_true]

theorem Call.changes_self (p : Placed Call) : changes p p.value = [] := by
  unfold changes
  simp only [ne_eq, not_true_eq_false, if_false, if_true]

theorem Handle.changes_self (slot : Placed UInt16) (h : Handle) : changes slot h h = [] :=
  if_pos rfl

theorem BootstrapArgument.changes_self (name : String) (slot : Placed UInt16)
    (x : BootstrapArgument) : changes name slot x x = [] := by
  cases x with
  | handle h => exact Handle.changes_self slot h
  | methodType | constant => exact if_pos rfl

theorem BootstrapArgument.changesAll_self (name : String) (slots : List (Placed UInt16))
    (xs : List BootstrapArgument) : changesAll name slots xs xs = [] := by
  induction slots generalizing xs with
  | nil => rfl
  | cons slot slots ih =>
      cases xs with
      | nil => rfl
      | cons x xs => rw [changesAll, changes_self, ih, List.append_nil]

/-- **An event that is told as it was asks for no change.** -/
theorem Spot.changes_self (spot : Spot) : spot.changes spot.event = [] := by
  cases spot with
  | header p => exact p.changes_self _
  | innerClass p => exact p.changes_self _
  | field p => exact p.changes_self _
  | method p => exact p.changes_self _
  | call p => exact Call.changes_self p
  | dynamicCall call entry =>
      show call.changes entry call = []
      unfold DynamicCall.changes
      simp only [ne_eq, not_true_eq_false, or_self, if_false]
      rw [Handle.changes_self, BootstrapArgument.changesAll_self, List.append_nil]

/-- The changes of events that are made from the spots. -/
theorem Spot.changesAll_map (spots : List Spot) (f : Spot → Event) :
    changesAll spots (spots.map f) = spots.flatMap fun spot => spot.changes (f spot) := by
  rw [changesAll, List.zipWith_map_right, List.zipWith_self, List.flatMap]

namespace Layout

theorem bytes_draft (l : Layout) : l.draft.bytes l = .ok l.data := by
  have hadded :
      Revision.added { l.revision with pool := l.draft.pool, patches := l.draft.patches } = 0 :=
    Nat.sub_self _
  unfold Draft.bytes Revision.bytes
  rw [if_pos hadded]
  rfl

/-- **A class whose events are told as they were stays as it is.** -/
theorem revise_self (l : Layout) : l.revise l.events = .ok l.data := by
  have hk : (l.spots.map Spot.event).map Event.kind = l.spots.map (·.event.kind) := List.map_map
  have hnone : Spot.changesAll l.spots (l.spots.map Spot.event) = [] := by
    rw [Spot.changesAll_map, List.flatMap_eq_nil_iff]
    exact fun spot _ => spot.changes_self
  rw [events_eq, revise_eq l hk, hnone, Draft.applyAll_nil]
  exact l.bytes_draft

end Layout

end ClassAccess
