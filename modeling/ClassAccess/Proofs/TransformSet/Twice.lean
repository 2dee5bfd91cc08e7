import ClassAccess.Proofs.Access.Masks
import ClassAccess.Proofs.TransformSet.Lookup
import ClassAccess.Proofs.TransformSet.Rule

/-!
# Applying a transform set twice

What a set has made of a class, the same set leaves alone, and a larger set takes it further.

* `Widens.mono` -- a larger set widens more methods;
* `rule_of_le` -- **what a set makes of an event, a larger one makes of it anyway**;
* `rule_rule` -- an event that was changed by the rule is not changed again: its flags are what was
  asked for, its calls and handles are virtual;
* `name_of_events` -- a class that tells the events of another one has its name;
* `exists_fixed`, `transform_of_fixed` -- what a set has made of a class is left alone by the rule,
  and a class that the rule leaves alone stays as it is;
* `transform_twice` -- **a set that is applied twice is applied once, byte for byte**.
-/

namespace ClassAccess.TransformSet

/-! ## 1. One event -/

section

variable {s t : TransformSet} {visited : String}

theorem field_le (h : s ≤ t) (visited name : String) :
    (s.get visited).allFields.merge ((s.get visited).field name) ≤
      (t.get visited).allFields.merge ((t.get visited).field name) :=
  Transform.merge_le_merge (h visited .allFields) (h visited (.field name))

theorem method_le (h : s ≤ t) (visited : String) (signature : Signature) :
    (s.get visited).allMethods.merge ((s.get visited).method signature) ≤
      (t.get visited).allMethods.merge ((t.get visited).method signature) :=
  Transform.merge_le_merge (h visited .allMethods) (h visited (.method signature))

/-- A larger set widens more methods. -/
theorem Widens.mono (h : s ≤ t) {target : Member} (hw : s.Widens visited target) :
    t.Widens visited target := by
  obtain ⟨howner, hname, hinterface, hvisible⟩ := hw
  refine ⟨howner, hname, hinterface, fun hnone => hvisible ?_⟩
  exact Transform.visibility_of_le (method_le h visited _) hnone

/-- An argument that a set makes virtual stays so, and a larger set takes any other one as it is. -/
theorem argumentRule_of_le (h : s ≤ t) (visited : String) (x : BootstrapArgument) :
    t.argumentRule visited (s.argumentRule visited x) = t.argumentRule visited x := by
  cases x with
  | handle x =>
      by_cases hw : x.kind = .invokeSpecial ∧ s.Widens visited x.target
      · rw [argumentRule_virtual hw, argumentRule_virtual ⟨hw.1, hw.2.mono h⟩]
        refine argumentRule_same ?_
        rintro ⟨hkind, -⟩
        cases hkind
      · rw [argumentRule_same hw]
  | methodType | constant => rfl

/-- **What a set makes of an event, a larger one makes of it anyway.** -/
theorem rule_of_le (h : s ≤ t) (visited : String) (e : Event) :
    t.rule visited (s.rule visited e) = t.rule visited e := by
  cases e with
  | header x =>
      have hself : (s.get visited).self ≤ (t.get visited).self := h visited .self
      simp only [rule, Transform.apply_of_le hself]
  | innerClass x =>
      have hself : (s.get x.name).self ≤ (t.get x.name).self := h x.name .self
      simp only [rule, Transform.apply_of_le hself]
  | field x => simp only [rule, Transform.apply_of_le (field_le h visited x.name)]
  | method x => simp only [rule, Transform.apply_of_le (method_le h visited _)]
  | call c =>
      by_cases hw : c.kind = .special ∧ s.Widens visited c.target
      · rw [rule_call_virtual hw, rule_call_virtual ⟨hw.1, hw.2.mono h⟩]
        refine rule_call_same ?_
        rintro ⟨hkind, -⟩
        cases hkind
      · rw [rule_call_same hw]
  | dynamicCall c =>
      have hagain : t.argumentRule visited ∘ s.argumentRule visited = t.argumentRule visited :=
        funext (argumentRule_of_le h visited)
      simp only [rule, List.map_map, hagain]
  | finish => rfl

end

/-- **An event that was changed by the rule is not changed again.** -/
theorem rule_rule (s : TransformSet) (visited : String) (e : Event) :
    s.rule visited (s.rule visited e) = s.rule visited e := rule_of_le le_rfl visited e

/-! ## 2. Whole classes -/

/-- The events of a class begin with its header, which the rule leaves its name. -/
theorem name_of_events {s : TransformSet} {visited : String} {l l' : Layout}
    (h : l'.events = l.events.map (s.rule visited)) : l'.name = l.name := by
  obtain ⟨rest, hrest, -⟩ := l.events_header
  obtain ⟨rest', hrest', -⟩ := l'.events_header
  rw [hrest, hrest', List.map_cons] at h
  have hheader := Event.header.inj (List.cons.inj h).1
  unfold Layout.name
  rw [hheader]

/-- What a set has made of a class can be read again, and tells nothing that the rule changes. -/
theorem exists_fixed {s : TransformSet} {data out : Bytes} (h : s.transform data = .ok out) :
    ∃ l, Layout.ofBytes out = .ok l ∧ l.events.map (s.rule l.name) = l.events := by
  obtain ⟨l, hl, hout⟩ := transform_ok h
  obtain ⟨l', hl', hevents⟩ := revise_rule hl hout
  refine ⟨l', hl', ?_⟩
  rw [name_of_events hevents, hevents, List.map_map]
  exact List.map_congr_left fun e _ => s.rule_rule l.name e

/-- A class that tells nothing that the rule changes stays as it is, byte for byte. -/
theorem transform_of_fixed {s : TransformSet} {data : Bytes} {l : Layout}
    (hl : Layout.ofBytes data = .ok l) (h : l.events.map (s.rule l.name) = l.events) :
    s.transform data = .ok data := by
  obtain ⟨_, _, _, _, -, -, -, hdata⟩ := Layout.ofBytes_ok hl
  rw [transform_eq s hl, h, l.revise_self, hdata]

/-- **A set that is applied twice is applied once**, byte for byte. -/
theorem transform_twice {s : TransformSet} {data out : Bytes} (h : s.transform data = .ok out) :
    s.transform out = .ok out := by
  obtain ⟨l, hl, hfixed⟩ := exists_fixed h
  exact transform_of_fixed hl hfixed

theorem transform_twice_sharedRow : ∃ out, publicShared.transform Layout.sharedRow = .ok out ∧
    out ≠ Layout.sharedRow ∧ publicShared.transform out = .ok out := by
  have hnew : publicShared.transform Layout.sharedRow ≠ .ok Layout.sharedRow := by decide +kernel
  obtain ⟨out, hout⟩ := exists_transform_sharedRow
  refine ⟨out, hout, ?_, transform_twice hout⟩
  rintro rfl
  exact hnew hout

end ClassAccess.TransformSet
