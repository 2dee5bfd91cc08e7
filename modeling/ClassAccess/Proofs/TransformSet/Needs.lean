import ClassAccess.Proofs.Revision.Room
import ClassAccess.Proofs.TransformSet.Rule

/-!
# What applying a transform set needs

The rule asks for nothing that a revision cannot do, whatever the set asks for. What is left to fail
is the pool: a handle that becomes virtual needs a constant of its own, unless the class has it.

* `TransformSet.needed` -- **the constants that are to be added**, each once;
* `allowed_rule` -- the events of a class, changed by the rule, are allowed;
* `entries_rule` -- the entries that their changes need;
* `transform_cases` -- **when a set can be applied**: to every class file that can be read, as long
  as there is room for what is needed.
-/

namespace ClassAccess.TransformSet

open ConstantPool

variable {s : TransformSet} {visited : String}

/-! ## 1. The constants that are needed -/

/-- The constant that an argument of a bootstrap method needs, which stands in a place: if it
    becomes virtual, a handle of that kind for what its own handle refers to. -/
def needed? (s : TransformSet) (visited : String) (pool : ConstantPool) (a : Placed UInt16) :
    BootstrapArgument → Option Constant
  | .handle h =>
    if h.kind = .invokeSpecial ∧ s.Widens visited h.target then
      match pool.get a.value with
      | .ok (.methodHandle _ reference) =>
        some (.methodHandle HandleKind.invokeVirtual.code reference)
      | _ => none
    else none
  | _ => none

/-- The constants that the arguments of a dynamic call need. -/
def neededBy (s : TransformSet) (visited : String) (pool : ConstantPool) : Spot → List Constant
  | .dynamicCall call entry =>
    (entry.arguments.zip call.arguments).filterMap fun t => s.needed? visited pool t.1 t.2
  | _ => []

/-- **The constants that are needed and that the class does not have**, each once. -/
def needed (s : TransformSet) (l : Layout) : Finset Constant :=
  l.pool.missing (l.spots.flatMap (s.neededBy l.name l.pool))

/-! ## 2. The changes that the rule asks for -/

/-- An argument stays and needs nothing, or its place is pointed to a virtual handle, which is what
    it needs. -/
theorem changes_argumentRule (s : TransformSet) (visited name : String) (a : Placed UInt16)
    (x : BootstrapArgument) :
    x.changes name a (s.argumentRule visited x) = [] ∧
        (∀ pool, s.needed? visited pool a x = none) ∨
      x.changes name a (s.argumentRule visited x) = [.point a .invokeVirtual] ∧
        ∀ pool, s.needed? visited pool a x = (Change.point a .invokeVirtual).wanted? pool := by
  cases x with
  | handle h =>
      by_cases hw : h.kind = .invokeSpecial ∧ s.Widens visited h.target
      · refine .inr ⟨?_, fun pool => if_pos hw⟩
        have hnew : h ≠ { h with kind := .invokeVirtual } := by
          intro heq
          have hkind := congrArg Handle.kind heq
          rw [hw.1] at hkind
          cases hkind
        rw [argumentRule_virtual hw, BootstrapArgument.changes, Handle.changes]
        simp only [hnew, hw.2.2.2.1, ne_eq, not_true_eq_false, Bool.false_and, Bool.false_eq_true,
          if_false]
      · rw [argumentRule_same hw]
        exact .inl ⟨BootstrapArgument.changes_self name a _, fun pool => if_neg hw⟩
  | methodType | constant =>
      exact .inl ⟨BootstrapArgument.changes_self name a _, fun pool => rfl⟩

/-- Arguments are changed one by one. -/
theorem changesAll_argumentRule (s : TransformSet) (visited name : String)
    (slots : List (Placed UInt16)) (xs : List BootstrapArgument) :
    BootstrapArgument.changesAll name slots xs (xs.map (s.argumentRule visited)) =
      (slots.zip xs).flatMap fun t => t.2.changes name t.1 (s.argumentRule visited t.2) := by
  induction slots generalizing xs with
  | nil => rfl
  | cons slot slots ih =>
      cases xs with
      | nil => rfl
      | cons x xs =>
          rw [List.map_cons, BootstrapArgument.changesAll, ih, List.zip_cons_cons,
            List.flatMap_cons]

theorem changes_dynamicCall (s : TransformSet) (visited : String) (call : DynamicCall)
    (entry : BootstrapEntry) :
    (Spot.dynamicCall call entry).changes (s.rule visited (.dynamicCall call)) =
      (entry.arguments.zip call.arguments).flatMap
        fun t => t.2.changes call.name t.1 (s.argumentRule visited t.2) := by
  show call.changes entry { call with arguments := call.arguments.map (s.argumentRule visited) } = _
  unfold DynamicCall.changes
  simp only [List.length_map, ne_eq, not_true_eq_false, or_self, if_false]
  rw [Handle.changes_self, List.nil_append, changesAll_argumentRule]

/-- New access flags are only written. -/
theorem changes_withAccess {α : Type} [Declaration α] [DecidableEq α] {p : Placed α}
    {access : AccessFlags} {otherwise : Unsupported} {c : Change}
    (hc : c ∈ p.changes (Declaration.withAccess p.value access) otherwise) :
    ∃ o q, c = .write o q := by
  unfold Placed.changes at hc
  simp only [Declaration.withAccess_withAccess, Declaration.withAccess_access, if_true] at hc
  split at hc
  · cases hc
  · exact ⟨_, _, List.mem_singleton.1 hc⟩

/-- A call that becomes virtual is only written: its target can be called so. -/
theorem changes_call {p : Placed Call} {c : Change}
    (hc : c ∈ (Spot.call p).changes (s.rule visited (.call p.value))) : ∃ o q, c = .write o q := by
  by_cases hw : p.value.kind = .special ∧ s.Widens visited p.value.target
  · have hfault : Revision.kindFault? p.value.target .special .virtual = none := by
      unfold Revision.kindFault?
      rw [hw.2.2.2.1]
      rfl
    rw [rule_call_virtual hw] at hc
    change c ∈ Call.changes p { p.value with kind := .virtual } at hc
    simp only [Call.changes, hw.1, hfault, ne_eq, not_true_eq_false, reduceCtorEq, if_false] at hc
    exact ⟨_, _, List.mem_singleton.1 hc⟩
  · have hnone : (Spot.call p).changes (.call p.value) = [] := (Spot.call p).changes_self
    rw [rule_call_same hw, hnone] at hc
    cases hc

/-- Of what is no dynamic call, the rule only asks for contents that are written. -/
theorem changes_write {spot : Spot} (hk : spot.event.kind ≠ .dynamicCall) {c : Change}
    (hc : c ∈ spot.changes (s.rule visited spot.event)) : ∃ o q, c = .write o q := by
  cases spot with
  | header p => exact changes_withAccess hc
  | innerClass p => exact changes_withAccess hc
  | field p => exact changes_withAccess hc
  | method p => exact changes_withAccess hc
  | call p => exact changes_call hc
  | dynamicCall call entry => exact absurd rfl hk

/-- **What the rule asks for**, spot by spot: contents that are written, or a place that is pointed
    to a virtual handle. -/
theorem changes_rule {spot : Spot} {c : Change}
    (hc : c ∈ spot.changes (s.rule visited spot.event)) :
    (∃ o q, c = .write o q) ∨ ∃ a, c = .point a .invokeVirtual := by
  cases spot with
  | header | innerClass | field | method | call =>
      exact .inl (changes_write (fun hk => by cases hk) hc)
  | dynamicCall call entry =>
      rw [show (Spot.dynamicCall call entry).event = .dynamicCall call from rfl,
        changes_dynamicCall] at hc
      obtain ⟨⟨a, x⟩, -, hc⟩ := List.mem_flatMap.1 hc
      rcases changes_argumentRule s visited call.name a x with ⟨hnil, -⟩ | ⟨hpoint, -⟩
      · rw [hnil] at hc
        cases hc
      · rw [hpoint] at hc
        exact .inr ⟨a, List.mem_singleton.1 hc⟩

/-- **The entries that the changes of a spot need.** -/
theorem entries_rule (s : TransformSet) (visited : String) (pool : ConstantPool) (spot : Spot) :
    (spot.changes (s.rule visited spot.event)).filterMap (Change.wanted? pool) =
      s.neededBy visited pool spot := by
  have hwrite : ∀ {cs : List Change}, (∀ c ∈ cs, ∃ o q, c = .write o q) →
      cs.filterMap (Change.wanted? pool) = [] := by
    intro cs hcs
    rw [List.filterMap_eq_nil_iff]
    intro c hc
    obtain ⟨o, q, rfl⟩ := hcs c hc
    rfl
  cases spot with
  | header | innerClass | field | method | call =>
      exact hwrite fun c hc => changes_write (fun hk => by cases hk) hc
  | dynamicCall call entry =>
      rw [show (Spot.dynamicCall call entry).event = .dynamicCall call from rfl,
        changes_dynamicCall, List.filterMap_flatMap, neededBy, List.filterMap_eq_flatMap_toList]
      refine congrArg (List.flatMap · _) (funext fun t => ?_)
      rcases changes_argumentRule s visited call.name t.1 t.2 with ⟨hnil, hnone⟩ | ⟨hpoint, hsome⟩
      · rw [hnil, hnone]
        rfl
      · rw [hpoint, hsome]
        cases hentry : (Change.point t.1 .invokeVirtual).wanted? pool with
        | none => rw [List.filterMap_cons_none hentry]; rfl
        | some e => rw [List.filterMap_cons_some hentry]; rfl

/-! ## 3. Whole classes -/

/-- What the rule makes of the events of the spots. -/
def told (s : TransformSet) (l : Layout) : List Event :=
  l.spots.map fun spot => s.rule l.name spot.event

theorem map_rule_events (s : TransformSet) (l : Layout) :
    l.events.map (s.rule l.name) = s.told l ++ [.finish] := by
  rw [l.events_eq, List.map_append, List.map_map]
  rfl

/-- **The rule asks for nothing that a revision cannot do.** -/
theorem allowed_rule (s : TransformSet) {l : Layout} (h : l.Sound) : l.Allowed (s.told l) := by
  refine ⟨h, ?_, fun fault hc => ?_⟩
  · rw [told, List.map_map]
    exact List.map_congr_left fun spot _ => s.kind_rule l.name spot.event
  · rw [told, Spot.changesAll_map] at hc
    obtain ⟨spot, -, hc⟩ := List.mem_flatMap.1 hc
    rcases changes_rule hc with ⟨_, _, hwrite⟩ | ⟨_, hpoint⟩
    · cases hwrite
    · cases hpoint

/-- The entries that the rule needs for all spots. -/
theorem missing_rule (s : TransformSet) (l : Layout) :
    l.pool.missing
      ((Spot.changesAll l.spots (s.told l)).filterMap (Change.wanted? l.pool)) = s.needed l := by
  rw [told, Spot.changesAll_map, List.filterMap_flatMap]
  simp only [entries_rule]
  rfl

theorem countAfter_rule (s : TransformSet) (l : Layout) :
    l.draft.countAfter l (Spot.changesAll l.spots (s.told l)) =
      l.pool.count + (s.needed l).card := by
  rw [← missing_rule]
  rfl

/-- **When a set can be applied.** If the class file cannot be read, that is the fault. Otherwise it
    is applied if the pool has room for the constants that are needed, and if it has not, that is
    the fault; there is no other one. -/
theorem transform_cases (s : TransformSet) (data : Bytes) :
    match Layout.ofBytes data with
    | .error fault => s.transform data = .error fault
    | .ok l =>
      if capacity < l.pool.count + (s.needed l).card then
        s.transform data = .error (.poolOverflow (capacity + 1))
      else ∃ out, s.transform data = .ok out := by
  cases h : Layout.ofBytes data with
  | error fault =>
      simp only
      unfold transform
      rw [h]
      rfl
  | ok l =>
      have hl := Layout.sound_of_ofBytes h
      have hallowed := s.allowed_rule hl
      have hagree := s.rowsAgree_rule l.name hl
      rw [map_rule_events, hallowed.rowsAgree_append] at hagree
      have hcases := Layout.revise_cases h hallowed hagree
      rw [countAfter_rule, ← map_rule_events, ← transform_eq s h] at hcases
      simp only
      rcases hcases with ⟨hroom, hok⟩ | ⟨hover, herror⟩
      · rw [if_neg (Nat.not_lt.2 hroom)]
        exact hok
      · rw [if_pos hover]
        exact herror

/-- Two dynamic calls that share a row need one constant, and there is room for it. -/
example : (fun l => (publicShared.needed l).card) <$> Layout.ofBytes Layout.sharedRow = .ok 1 := by
  decide +kernel

end ClassAccess.TransformSet
