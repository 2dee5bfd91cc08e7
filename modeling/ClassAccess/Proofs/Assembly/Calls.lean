import ClassAccess.Proofs.Assembly.Rows
import ClassAccess.Proofs.ClassFile.Spots

/-!
# Looking up the calls of an assembled class

The operands of calls are answers. What they lead to in the file is what was asked for with these
answers:

* `asked_eq_some`, `exists_asked` -- an answer and the requests it answers;
* `argumentAt_argument` -- **an argument is told as it was asked for**, or by its number;
* `tells_direct`, `tells_dynamic` -- **one call**, looked up;
* `resolveMethod_of_parts` -- the calls of a method, in order.
-/

namespace ClassAccess

open Outcome Instruction

namespace Assembly

variable {access : AccessFlags} {name : String} {superName : Option String} {h : History}
  {a : Assembly} {index : UInt16}

/-! ## 1. Answers -/

theorem asked_eq_some {α : Type} {what : Request → Option α} {x : α}
    (hx : h.asked what index = some x) : ∃ r, (r, index) ∈ h ∧ what r = some x := by
  obtain ⟨⟨r, i⟩, hr, hwhat⟩ := List.exists_of_findSome?_eq_some hx
  simp only at hwhat
  split at hwhat
  · rename_i hi
    exact ⟨r, hi ▸ hr, hwhat⟩
  · cases hwhat

theorem exists_asked {α : Type} (what : Request → Option α) {r : Request} {x : α}
    (hr : (r, index) ∈ h) (hx : what r = some x) : ∃ y, h.asked what index = some y := by
  rw [← Option.isSome_iff_exists, Option.isSome_iff_ne_none]
  intro hnone
  have := List.findSome?_eq_none_iff.1 hnone _ hr
  rw [if_pos rfl, hx] at this
  cases this

theorem target_of_asked (ha : Records access name superName h a) {target : Member}
    (hx : h.asked Request.target? index = some target) :
    Answers a.pool (.methodReference target) index := by
  obtain ⟨r, hr, hwhat⟩ := asked_eq_some hx
  cases r
  case methodReference => cases hwhat; exact ha.answers _ _ hr
  all_goals cases hwhat

theorem handle_of_asked (ha : Records access name superName h a) {handle : Handle}
    (hx : h.asked Request.handle? index = some handle) :
    Layout.handleAt a.pool index = .ok handle := by
  obtain ⟨r, hr, hwhat⟩ := asked_eq_some hx
  cases r
  case methodHandle => cases hwhat; exact ha.answers _ _ hr
  all_goals cases hwhat

theorem methodType_of_asked (ha : Records access name superName h a) {descriptor : String}
    (hx : h.asked Request.methodType? index = some descriptor) :
    Answers a.pool (.methodType descriptor) index := by
  obtain ⟨r, hr, hwhat⟩ := asked_eq_some hx
  cases r
  case methodType => cases hwhat; exact ha.answers _ _ hr
  all_goals cases hwhat

theorem callSite_of_asked (ha : Records access name superName h a) {bootstrap : UInt16}
    {name' descriptor : String}
    (hx : h.asked Request.callSite? index = some (bootstrap, name', descriptor)) :
    Answers a.pool (.callSite bootstrap name' descriptor) index := by
  obtain ⟨r, hr, hwhat⟩ := asked_eq_some hx
  cases r
  case callSite => cases hwhat; exact ha.answers _ _ hr
  all_goals cases hwhat

/-- **An argument is told as it was asked for**, or by its number. -/
theorem argumentAt_argument (ha : Records access name superName h a) {c : Constant}
    (hc : a.pool.get index = .ok c) :
    Layout.argumentAt a.pool index = .ok (h.argument index) := by
  unfold History.argument
  split
  · rename_i handle _ hhandle
    exact Layout.argumentAt_eq_handle_iff.2 (handle_of_asked ha hhandle)
  · rename_i descriptor _ htype
    obtain ⟨t, ht, htext⟩ := methodType_of_asked ha htype
    unfold Layout.argumentAt
    rw [ht]
    show (a.pool.text t >>= _) = _
    rw [htext]
    rfl
  · rename_i hhandle htype
    -- neither a handle nor a method type was asked for with this answer, so it is none
    have hplain : c.isTold = false := by
      refine Bool.eq_false_iff.2 fun htold => ?_
      obtain ⟨r, hr, hrtold⟩ := ha.told index c hc htold
      cases r
      case methodHandle handle =>
        obtain ⟨y, hy⟩ := exists_asked Request.handle? hr rfl
        rw [hhandle] at hy
        cases hy
      case methodType descriptor =>
        obtain ⟨y, hy⟩ := exists_asked Request.methodType? hr rfl
        rw [htype] at hy
        cases hy
      all_goals cases hrtold
    unfold Layout.argumentAt
    rw [hc]
    cases c
    case methodHandle | methodType => cases hplain
    all_goals rfl

/-! ## 2. One call -/

/-- The call is looked up and tells the event. -/
def Tells (pool : ConstantPool) (bootstraps : List BootstrapEntry) (c : Code.CallBytes)
    (e : Event) : Prop :=
  ∃ placed, Layout.resolve pool bootstraps c = .ok placed ∧ placed.event = e

variable {bootstraps : List BootstrapEntry}

/-- **A direct call is looked up as the method that was asked for.** -/
theorem tells_direct (ha : Records access name superName h a) (kind : CallKind) {target : Member}
    (hr : (.methodReference target, index) ∈ h) (offset : Nat) :
    ∃ target', h.asked Request.target? index = some target' ∧
      Tells a.pool bootstraps ⟨offset, kind.opcode, index⟩ (.call ⟨kind, target'⟩) := by
  obtain ⟨target', hasked⟩ := exists_asked Request.target? hr rfl
  obtain ⟨c, hc, hfield, hmember⟩ := target_of_asked ha hasked
  refine ⟨target', hasked, .direct ⟨⟨kind, target'⟩, offset⟩, ?_, rfl⟩
  rw [Layout.resolve_direct kind.opcode_ne_dynamic, Layout.directCallAt_eq_ok_iff]
  exact ⟨c, kind, target', hc, hfield, hmember, rfl, rfl⟩

/-- **A dynamic call is looked up as the call site, the handle and the arguments that were asked
    for.** -/
theorem tells_dynamic (ha : Records access name superName h a)
    (hbootstraps : List.Forall₂ (fun row e => BootstrapEntry.Of e row) h.declared.bootstraps
      bootstraps) {bootstrap : UInt16} {name' descriptor : String} {row : BootstrapRow}
    {handle : Handle} (hr : (.callSite bootstrap name' descriptor, index) ∈ h)
    (hrow : h.declared.bootstraps[bootstrap.toNat]? = some row)
    (hhandle : (.methodHandle handle, row.handle) ∈ h)
    (harguments : ∀ i ∈ row.arguments, ∃ c, a.pool.get i = .ok c) (offset : Nat) :
    ∃ call, h.dynamicCall? index = some call ∧
      Tells a.pool bootstraps ⟨offset, Code.dynamicOpcode, index⟩ (.dynamicCall call) := by
  obtain ⟨⟨bootstrap', name'', descriptor'⟩, hasked⟩ :=
    exists_asked Request.callSite? hr rfl
  obtain ⟨signature, hget, hsignature⟩ := callSite_of_asked ha hasked
  -- both requests were answered with the same call site
  have hsame : bootstrap' = bootstrap := by
    obtain ⟨_, hget', _⟩ := ha.answers _ _ hr
    rw [hget] at hget'
    cases hget'
    rfl
  subst hsame
  obtain ⟨handle', hhandle'⟩ := exists_asked Request.handle? hhandle rfl
  obtain ⟨entry, hentry⟩ : ∃ entry, bootstraps[bootstrap'.toNat]? = some entry := by
    obtain ⟨hlt, -⟩ := List.getElem?_eq_some_iff.1 hrow
    rw [hbootstraps.length_eq] at hlt
    exact ⟨_, List.getElem?_eq_getElem hlt⟩
  have hof := forall₂_getElem? hbootstraps hrow hentry
  have hargs : List.Forall₂ (fun p x => Layout.argumentAt a.pool (Placed.value p) = .ok x)
      entry.arguments (row.arguments.map h.argument) := by
    rw [List.forall₂_map_right_iff]
    refine (forall₂_mem hof.arguments).flip.imp fun p i ⟨hi, _, hp⟩ => ?_
    obtain ⟨c, hc⟩ := harguments i hi
    rw [hp]
    exact argumentAt_argument ha hc
  refine ⟨⟨name'', descriptor', handle', row.arguments.map h.argument⟩, ?_, .dynamic _ entry, ?_,
    rfl⟩
  · unfold History.dynamicCall?
    simp only [hasked, hrow, hhandle', bind, Option.bind, pure]
  · rw [Layout.resolve_dynamic rfl, Layout.dynamicCallAt_eq_ok_iff]
    refine ⟨bootstrap', signature, entry, _, hget, hentry, hsignature, ?_, hargs, rfl⟩
    rw [hof.handle]
    exact handle_of_asked ha hhandle'

/-! ## 3. The calls of a method -/

/-- An instruction whose opcode is that of no call tells nothing. -/
theorem event?_eq_none {opcode : UInt8} (hop : Code.isCall opcode = false) (operands : Bytes) :
    h.event? (.plain opcode operands) = none := by
  have hdynamic : opcode ≠ Code.dynamicOpcode := by
    rintro rfl
    cases hop
  have hkind : CallKind.ofOpcode? opcode = none := by
    cases hk : CallKind.ofOpcode? opcode with
    | none => rfl
    | some kind =>
        rw [CallKind.ofOpcode?_eq_some_iff] at hk
        subst hk
        cases kind <;> cases hop
  unfold History.event?
  split
  · rename_i heq
    cases heq
    rw [if_neg hdynamic, hkind]
    rfl
  · rfl

theorem isCall_iff {opcode : UInt8} : Code.isCall opcode = true ↔
    opcode = Code.dynamicOpcode ∨ ∃ kind : CallKind, opcode = kind.opcode := by
  constructor
  · intro hop
    rcases eq_of_isCall hop with hplain | rfl | rfl
    · rcases eq_of_isPlainCall hplain with rfl | rfl | rfl
      · exact .inr ⟨.virtual, rfl⟩
      · exact .inr ⟨.special, rfl⟩
      · exact .inr ⟨.static, rfl⟩
    · exact .inr ⟨.interface, rfl⟩
    · exact .inl rfl
  · rintro (rfl | ⟨kind, rfl⟩)
    · rfl
    · cases kind <;> rfl

theorem event?_dynamic (index : UInt16) (rest : Bytes) :
    h.event? (.plain Code.dynamicOpcode (BigEndian.bytes16 index ++ rest)) =
      (h.dynamicCall? index).map .dynamicCall := by
  show (h.dynamicCall? (BigEndian.word16 _ _)).map Event.dynamicCall = _
  rw [BigEndian.word16_bytes16]

theorem event?_direct (kind : CallKind) (index : UInt16) (rest : Bytes) :
    h.event? (.plain kind.opcode (BigEndian.bytes16 index ++ rest)) =
      (h.asked Request.target? index).map fun target => .call ⟨kind, target⟩ := by
  show (if kind.opcode = Code.dynamicOpcode then _ else _) = _
  rw [if_neg kind.opcode_ne_dynamic, CallKind.ofOpcode?_opcode, BigEndian.word16_bytes16]
  cases h.asked Request.target? index <;> rfl

variable {forms : Bytes → List Form}

/-- **An instruction of a body tells the event it was written for**, if it is a call. -/
theorem tells_form (ha : Records access name superName h a) (hsound : h.Sound forms a.pool)
    (hbootstraps : List.Forall₂ (fun row e => BootstrapEntry.Of e row) h.declared.bootstraps
      bootstraps) {body : Body} (hbody : h.HasBody body) {form : Form}
    (hform : form ∈ forms body.code) (offset : Nat) :
    List.Forall₂ (Tells a.pool bootstraps) (form.call? offset).toList (h.event? form).toList := by
  cases form with
  | plain opcode operands =>
      cases hop : Code.isCall opcode with
      | false =>
          rw [event?_eq_none hop, Form.call?_of_not_isCall hop]
          exact .nil
      | true =>
          rcases isCall_iff.1 hop with rfl | ⟨kind, rfl⟩
          · obtain ⟨bootstrap, name', descriptor, index, rest, row, handle, hr, rfl, hrow, hhandle,
              harguments⟩ := hsound.dynamic body hbody operands hform
            obtain ⟨call, hcall, htells⟩ :=
              tells_dynamic ha hbootstraps hr hrow hhandle harguments offset
            rw [Form.call?_bytes16 hop, event?_dynamic, hcall]
            exact .cons htells .nil
          · obtain ⟨target, index, rest, hr, rfl⟩ := hsound.direct body hbody kind operands hform
            obtain ⟨target', hasked, htells⟩ := tells_direct ha kind hr offset
            rw [Form.call?_bytes16 hop, event?_direct, hasked]
            exact .cons htells .nil
  | wideLocal | wideIncrement | tableSwitch | lookupSwitch => exact .nil

/-- The calls of a body tell the events of its instructions, in order. -/
theorem tells_callsOf {pool : ConstantPool} {l : List Form}
    (hl : ∀ form ∈ l, ∀ offset, List.Forall₂ (Tells pool bootstraps) (form.call? offset).toList
      (h.event? form).toList) (start pc : Nat) :
    List.Forall₂ (Tells pool bootstraps) (callsOf start pc l) (l.filterMap h.event?) := by
  induction l generalizing pc with
  | nil => exact .nil
  | cons form l ih =>
      have hrest := ih (fun f hf => hl f (List.mem_cons_of_mem _ hf)) (pc + form.bytes.length)
      have hfirst := hl form List.mem_cons_self (start + pc)
      rw [List.filterMap_eq_flatMap_toList] at hrest ⊢
      exact List.rel_append hfirst hrest

/-- **The calls of a method are looked up**, and the method tells its events. -/
theorem resolveMethod_of_parts (ha : Records access name superName h a)
    (hsound : h.Sound forms a.pool)
    (hbootstraps : List.Forall₂ (fun row e => BootstrapEntry.Of e row) h.declared.bootstraps
      bootstraps) {m : MethodDeclaration × Option Body} (hm : m ∈ h.declared.methods)
    {q : Placed MethodDeclaration × List Code.CallBytes} (hvalue : q.1.value = m.1) {start : Nat}
    (hcalls : q.2 = m.2.toList.flatMap fun b => callsOf start 0 (forms b.code)) :
    ∃ l, Layout.resolveMethod a.pool bootstraps q = .ok l ∧ l.events = h.methodEvents forms m := by
  obtain ⟨declaration, body⟩ := m
  have htells : List.Forall₂ (Tells a.pool bootstraps) q.2
      (body.toList.flatMap fun b => (forms b.code).filterMap h.event?) := by
    rw [hcalls]
    cases body with
    | none => exact .nil
    | some b =>
        simp only [Option.toList_some, List.flatMap_singleton]
        exact tells_callsOf (fun form hform offset =>
          tells_form ha hsound hbootstraps ⟨declaration, hm⟩ hform offset) start 0
  obtain ⟨placed, hplaced, hevents⟩ := exists_mapM_ok htells
  refine ⟨⟨q.1, placed⟩, ?_, ?_⟩
  · unfold Layout.resolveMethod
    rw [hplaced]
    rfl
  · rw [MethodLayout.events, hvalue, hevents]
    rfl

end Assembly

end ClassAccess
