import ClassAccess.ClassFile.Sample
import ClassAccess.Proofs.Revision.Readback
import ClassAccess.TransformSet.Application

/-!
# What a transform set makes of a class

A set is applied to a class event by event, and the class that comes out tells the changed events.
What becomes of an event depends on the set, on the event and on the name of the class, and on
nothing that was told before.

* `TransformSet.Widens` -- the methods whose calls without dynamic dispatch become virtual;
* `TransformSet.rule` -- **what becomes of an event**;
* `applyTo_events` -- the events of a class with the set applied, one by one by the rule;
* `rowsAgree_rule` -- calls that share a row of the table of bootstrap methods are changed alike;
* `events_transform` -- **the class that comes out tells what the rule says**.
-/

namespace ClassAccess

namespace TransformSet

/-! ## 1. The rule -/

/-- A method of the class `visited`, other than a constructor, that can be called virtually and
    whose visibility is asked for. -/
def Widens (s : TransformSet) (visited : String) (target : Member) : Prop :=
  target.owner = visited ∧ target.name ≠ constructorName ∧ target.onInterface = false ∧
    ((s.get visited).allMethods.merge
      ((s.get visited).method ⟨target.name, target.descriptor⟩)).visibility ≠ .unchanged

instance (s : TransformSet) (visited : String) (target : Member) :
    Decidable (s.Widens visited target) :=
  inferInstanceAs (Decidable (_ ∧ _ ∧ _ ∧ _))

/-- What becomes of an argument of a bootstrap method in the class `visited`. -/
def argumentRule (s : TransformSet) (visited : String) : BootstrapArgument → BootstrapArgument
  | .handle h =>
    if h.kind = .invokeSpecial ∧ s.Widens visited h.target then
      .handle { h with kind := .invokeVirtual }
    else .handle h
  | other => other

/-- **What becomes of an event** of the class `visited`. The handle of a bootstrap method itself
    stays as it is. -/
def rule (s : TransformSet) (visited : String) : Event → Event
  | .header header =>
    .header { header with access := (s.get visited).self.apply header.access }
  | .innerClass record =>
    .innerClass { record with access := (s.get record.name).self.apply record.access }
  | .field declaration =>
    let asked := (s.get visited).allFields.merge ((s.get visited).field declaration.name)
    .field { declaration with access := asked.apply declaration.access }
  | .method declaration =>
    let asked := (s.get visited).allMethods.merge
      ((s.get visited).method ⟨declaration.name, declaration.descriptor⟩)
    .method { declaration with access := asked.apply declaration.access }
  | .call c =>
    if c.kind = .special ∧ s.Widens visited c.target then .call { c with kind := .virtual }
    else .call c
  | .dynamicCall c =>
    .dynamicCall { c with arguments := c.arguments.map (s.argumentRule visited) }
  | .finish => .finish

section

variable {s : TransformSet} {visited : String}

theorem argumentRule_virtual {h : Handle}
    (hw : h.kind = .invokeSpecial ∧ s.Widens visited h.target) :
    s.argumentRule visited (.handle h) = .handle { h with kind := .invokeVirtual } := if_pos hw

theorem argumentRule_same {h : Handle}
    (hw : ¬ (h.kind = .invokeSpecial ∧ s.Widens visited h.target)) :
    s.argumentRule visited (.handle h) = .handle h := if_neg hw

theorem rule_call_virtual {c : Call} (hw : c.kind = .special ∧ s.Widens visited c.target) :
    s.rule visited (.call c) = .call { c with kind := .virtual } := if_pos hw

theorem rule_call_same {c : Call} (hw : ¬ (c.kind = .special ∧ s.Widens visited c.target)) :
    s.rule visited (.call c) = .call c := if_neg hw

end

@[simp] theorem kind_rule (s : TransformSet) (visited : String) (e : Event) :
    (s.rule visited e).kind = e.kind := by
  cases e with
  | call c =>
      unfold rule
      simp only
      split
      · rfl
      · rfl
  | header | innerClass | field | method | dynamicCall | finish => rfl

end TransformSet

/-! ## 2. One event is changed by the rule -/

namespace Application

variable {a : Application} {visited : String}

/-- **A call becomes virtual exactly for the methods that are widened.** -/
theorem dispatch_eq_widen_iff (h : a.className = some visited) (target : Member) :
    a.dispatch target = .widen ↔ a.set.Widens visited target := by
  have hrequests : a.requests = a.set.get visited := by
    unfold requests
    rw [h]
  have hname : a.className.getD "" = visited := by rw [h, Option.getD_some]
  unfold dispatch TransformSet.Widens
  rw [hrequests, hname]
  simp only
  split
  · rename_i hkeep
    refine iff_of_false (fun he => by cases he) fun hw => ?_
    rcases hkeep with howner | hconstructor
    · exact howner hw.1
    · exact hw.2.1 hconstructor
  · rename_i hkeep
    rw [not_or, not_not] at hkeep
    split
    · rename_i hvisible
      exact iff_of_false (fun he => by cases he) fun hw => hw.2.2.2 hvisible
    · rename_i hvisible
      split
      · rename_i hinterface
        refine iff_of_false (fun he => by cases he) fun hw => ?_
        rw [hw.2.2.1] at hinterface
        cases hinterface
      · rename_i hinterface
        exact iff_of_true rfl ⟨hkeep.1, hkeep.2, Bool.eq_false_iff.2 hinterface, hvisible⟩

theorem argument_eq (h : a.className = some visited) :
    a.argument = a.set.argumentRule visited := by
  funext x
  cases x with
  | handle x =>
      unfold argument handle TransformSet.argumentRule
      simp only [dispatch_eq_widen_iff h]
      split
      · rfl
      · rfl
  | methodType | constant => rfl

/-- **Behind the header, an event is changed by the rule.** -/
theorem event_eq (h : a.className = some visited) {e : Event} (hk : e.kind ≠ .header) :
    a.event e = a.set.rule visited e := by
  have hrequests : a.requests = a.set.get visited := by
    unfold requests
    rw [h]
  cases e with
  | header => exact absurd rfl hk
  | innerClass | finish => rfl
  | field | method =>
      unfold event
      rw [hrequests]
      rfl
  | call c =>
      unfold event call TransformSet.rule
      simp only [dispatch_eq_widen_iff h]
      split
      · rfl
      · rfl
  | dynamicCall c =>
      unfold event
      rw [argument_eq h]
      rfl

theorem see_of_kind {e : Event} (hk : e.kind ≠ .header) : a.see e = a := by
  cases e with
  | header => exact absurd rfl hk
  | innerClass | field | method | call | dynamicCall | finish => rfl

theorem events_of_className (h : a.className = some visited) {events : List Event}
    (hk : ∀ e ∈ events, e.kind ≠ .header) : a.events events = events.map (a.set.rule visited) := by
  induction events with
  | nil => rfl
  | cons e events ih =>
      have he := hk e List.mem_cons_self
      show a.event e :: (a.see e).events events = _
      rw [see_of_kind he, event_eq h he, List.map_cons,
        ih fun e' he' => hk e' (List.mem_cons_of_mem _ he')]

end Application

/-! ## 3. Whole classes -/

namespace Layout

/-- The header of a class is told first and never again. -/
theorem events_header (l : Layout) : ∃ rest, l.events = .header l.header.value :: rest ∧
    ∀ e ∈ rest, e.kind ≠ .header := by
  rw [events_eq, spots, List.map_cons, List.cons_append]
  refine ⟨_, rfl, fun e he hk => ?_⟩
  rw [List.mem_append, List.mem_singleton, List.mem_map] at he
  rcases he with ⟨spot, hspot, rfl⟩ | rfl
  · rw [List.mem_append, List.mem_append, List.mem_map, List.mem_map, List.mem_flatMap] at hspot
    rcases hspot with (⟨p, -, rfl⟩ | ⟨p, -, rfl⟩) | ⟨m, -, hspot⟩
    · cases hk
    · cases hk
    · rcases List.mem_cons.1 hspot with rfl | hspot
      · cases hk
      · obtain ⟨c, -, rfl⟩ := List.mem_map.1 hspot
        cases c with
        | direct | dynamic => cases hk
  · cases hk

/-- A row of the table of bootstrap methods was read once for all calls that share it. -/
theorem Sound.told_eq {l : Layout} (h : l.Sound) {before before' : DynamicCall}
    {entry : BootstrapEntry} (hb : .dynamicCall before entry ∈ l.spots)
    (hb' : .dynamicCall before' entry ∈ l.spots) : before.told = before'.told := by
  have hrow := Outcome.mapM_eq_ok_iff.2 (h.row before entry hb).2
  rw [Outcome.mapM_eq_ok_iff.2 (h.row before' entry hb').2] at hrow
  exact (Except.ok.inj hrow).symm

end Layout

namespace TransformSet

variable {s : TransformSet} {data out : Bytes} {l : Layout}

/-- **The events of a class are changed one by one by the rule.** -/
theorem applyTo_events (s : TransformSet) (l : Layout) :
    s.applyTo l.events = l.events.map (s.rule l.name) := by
  obtain ⟨rest, hrest, hk⟩ := l.events_header
  rw [hrest]
  unfold applyTo
  rw [Application.events, List.map_cons,
    Application.events_of_className (show _ = some l.name from rfl) hk]
  rfl

/-- The events of a class, changed by the rule, are of the kinds they were of. -/
theorem kinds_rule (s : TransformSet) (visited : String) (events : List Event) :
    (events.map (s.rule visited)).map Event.kind = events.map Event.kind := by
  rw [List.map_map]
  exact List.map_congr_left fun e _ => s.kind_rule visited e

/-- **Calls that share a row of the table of bootstrap methods are changed alike.** -/
theorem rowsAgree_rule (s : TransformSet) (visited : String) {l : Layout} (h : l.Sound) :
    l.RowsAgree (l.events.map (s.rule visited)) := by
  -- the event that is changed is the one of the spot
  have hafter : ∀ {i : Nat} {before after : DynamicCall} {entry : BootstrapEntry},
      l.spots[i]? = some (.dynamicCall before entry) →
      (l.events.map (s.rule visited))[i]? = some (.dynamicCall after) →
      after.told =
        .handle before.bootstrap :: before.arguments.map (s.argumentRule visited) := by
    intro i before after entry hi he
    have hlt : i < (l.spots.map Spot.event).length := by
      rw [List.length_map]
      exact (List.getElem?_eq_some_iff.1 hi).1
    rw [l.events_eq, List.map_append, List.getElem?_append_left (by rwa [List.length_map]),
      List.getElem?_map, List.getElem?_map, hi] at he
    cases he
    rfl
  intro i j before before' after after' entry hi hj he he'
  have htold := h.told_eq (List.mem_of_getElem? hi) (List.mem_of_getElem? hj)
  unfold DynamicCall.told at htold
  rw [List.cons.injEq, BootstrapArgument.handle.injEq] at htold
  rw [hafter hi he, hafter hj he', htold.1, htold.2]

theorem transform_eq (s : TransformSet) (h : Layout.ofBytes data = .ok l) :
    s.transform data = l.revise (l.events.map (s.rule l.name)) := by
  unfold transform
  rw [h, ← applyTo_events]
  rfl

theorem transform_ok (h : s.transform data = .ok out) :
    ∃ l, Layout.ofBytes data = .ok l ∧ l.revise (l.events.map (s.rule l.name)) = .ok out := by
  obtain ⟨l, hl, -⟩ := Outcome.exists_of_bind_ok h
  exact ⟨l, hl, by rw [← transform_eq s hl, h]⟩

/-- A class that is revised by the rule can be read again, and tells what the rule says. -/
theorem revise_rule {visited : String} (h : Layout.ofBytes data = .ok l)
    (hout : l.revise (l.events.map (s.rule visited)) = .ok out) :
    ∃ l', Layout.ofBytes out = .ok l' ∧ l'.events = l.events.map (s.rule visited) :=
  Layout.events_revise h (s.kinds_rule visited l.events)
    (s.rowsAgree_rule visited (Layout.sound_of_ofBytes h)) hout

/-- **What comes out tells what the rule says.** A class file to which a set could be applied can be
    read again, and tells the events it told, each changed by the rule for the class. -/
theorem events_transform (h : s.transform data = .ok out) :
    ∃ l l', Layout.ofBytes data = .ok l ∧ Layout.ofBytes out = .ok l' ∧
      l'.events = l.events.map (s.rule l.name) := by
  obtain ⟨l, hl, hout⟩ := transform_ok h
  obtain ⟨l', hl', hevents⟩ := revise_rule hl hout
  exact ⟨l, l', hl, hl', hevents⟩

/-- The set that asks for the method `m` of the class `A` to be public. -/
def publicShared : TransformSet := mergeAt {} "A" (.method ⟨"m", "()V"⟩) ⟨.publicAccess, .unchanged⟩

theorem exists_transform_sharedRow : ∃ out, publicShared.transform Layout.sharedRow = .ok out :=
  Outcome.exists_of_isOk (by decide +kernel)

/-- The set that asks for the first field of the sample class to be final, and for the second one,
    which is final, to be public and not final. -/
def finalSample : TransformSet :=
  (mergeAt {} Sample.className (.field "count") ⟨.unchanged, .add⟩).mergeAt Sample.className
    (.field "name") ⟨.publicAccess, .remove⟩

/-- Whether an event tells of a field. -/
def tellsField (e : Event) : Bool := e.kind = .field

theorem exists_transform_sample : ∃ data l out, Sample.bytes = .ok data ∧
    Layout.ofBytes data = .ok l ∧ finalSample.transform data = .ok out ∧
      l.name = Sample.className ∧
      l.events.filter tellsField =
        [.field ⟨0x0002, "count", "I"⟩, .field ⟨0x0012, "name", "Ljava/lang/String;"⟩] := by
  have hrun : (do
      let data ← Sample.bytes
      let l ← Layout.ofBytes data
      let _ ← finalSample.transform data
      return (l.name, l.events.filter tellsField)) = .ok (Sample.className,
        [.field ⟨0x0002, "count", "I"⟩, .field ⟨0x0012, "name", "Ljava/lang/String;"⟩]) := by
    decide +kernel
  obtain ⟨data, hdata, hrun⟩ := Outcome.exists_of_bind_ok hrun
  obtain ⟨l, hl, hrun⟩ := Outcome.exists_of_bind_ok hrun
  obtain ⟨out, hout, hrun⟩ := Outcome.exists_of_bind_ok hrun
  obtain ⟨hname, hevents⟩ := Prod.mk.inj (Except.ok.inj hrun)
  exact ⟨data, l, out, hdata, hl, hout, hname, hevents⟩

/-- A method that is made public, with the calls of it, and two fields, of which one is made final
    and the other one public and no longer final. -/
theorem events_transform_sharedRow :
    (∃ out l', publicShared.transform Layout.sharedRow = .ok out ∧ Layout.ofBytes out = .ok l' ∧
      l'.events = [.header ⟨⟨61, 0⟩, 0, "A", none, []⟩, .method ⟨1, "m", "()V"⟩,
        .call ⟨.virtual, Layout.sharedMember⟩, .dynamicCall (Layout.sharedCall .invokeVirtual),
        .dynamicCall (Layout.sharedCall .invokeVirtual), .finish]) ∧
      ∃ data out l', Sample.bytes = .ok data ∧ finalSample.transform data = .ok out ∧
        Layout.ofBytes out = .ok l' ∧ l'.events.filter tellsField =
          [.field ⟨0x0012, "count", "I"⟩, .field ⟨0x0001, "name", "Ljava/lang/String;"⟩] := by
  constructor
  · obtain ⟨out, hout⟩ := exists_transform_sharedRow
    obtain ⟨l, l', hl, hl', hevents⟩ := events_transform hout
    refine ⟨out, l', hout, hl', ?_⟩
    have hbefore := Layout.events_sharedRow
    rw [hl] at hbefore
    have hbefore : l.events = Layout.sharedEvents .invokeSpecial .invokeSpecial :=
      Except.ok.inj hbefore
    have hname : l.name = "A" := congrArg Header.name (Event.header.inj (List.cons.inj hbefore).1)
    rw [hevents, hbefore, hname]
    decide
  · obtain ⟨data, l, out, hdata, hl, hout, hname, hfields⟩ := exists_transform_sample
    obtain ⟨l₁, l', hl₁, hl', hevents⟩ := events_transform hout
    cases hl.symm.trans hl₁
    refine ⟨data, out, l', hdata, hout, hl', ?_⟩
    have hkind : tellsField ∘ finalSample.rule l.name = tellsField := by
      funext e
      rw [Function.comp_apply, tellsField, kind_rule]
      rfl
    rw [hevents, List.filter_map, hkind, hfields, hname]
    decide +kernel

end TransformSet

end ClassAccess
