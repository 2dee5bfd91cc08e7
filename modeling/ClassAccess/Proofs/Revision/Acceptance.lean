import ClassAccess.Proofs.Revision.Room

/-!
# Which events a revision accepts

Events in the order of the class are accepted as long as each of them is allowed and the pool has
room for the handles that are new. Nothing else matters, as long as dynamic calls with one row of
the table of bootstrap methods tell the same of it.

* `Event.Allows` -- **the edits that are supported**, event by event;
* `Layout.requested` -- the entries that handles told anew need, and that the pool does not have;
* `Layout.Supports` -- events that are allowed, with room for those entries;
* `Spot.allows_iff` -- an event is allowed exactly if it asks for no change that is refused;
* `Layout.FirstOffence`, `exists_firstOffence` -- the first event that is not supported ends a
  revision, **whatever comes after it**;
* `revise_ok_iff_supports` -- **a revision succeeds exactly if its events are supported**.
-/

namespace ClassAccess

open Outcome ConstantPool

/-! ## 1. Edits that are supported -/

/-- Whether a call may be told as another one: its kind may change among those of plain calls, and
    an interface method gets no virtual call. -/
def Call.Allows (before after : Call) : Prop :=
  after.target = before.target ∧ (after.kind = before.kind ∨
    before.kind ∈ [CallKind.virtual, .special, .static] ∧
      after.kind ∈ [CallKind.virtual, .special, .static] ∧
        ¬ (before.target.onInterface = true ∧ after.kind = .virtual))

/-- Whether a handle may be told as another one: its kind may change, and an interface method gets
    no virtual handle. -/
def Handle.Allows (before after : Handle) : Prop :=
  after.target = before.target ∧ (after.kind = before.kind ∨
    ¬ (before.target.onInterface = true ∧ after.kind = .invokeVirtual))

/-- Whether an argument may be told as another one: only handles may change. -/
inductive BootstrapArgument.Allows : BootstrapArgument → BootstrapArgument → Prop
  | same (x : BootstrapArgument) : Allows x x
  | handle {before after : Handle} (h : before.Allows after) :
      Allows (.handle before) (.handle after)

/-- **Whether an event may be told as another one.** Declarations may get other access flags. -/
inductive Event.Allows : Event → Event → Prop
  | header (d : Header) (access : AccessFlags) :
      Allows (.header d) (.header { d with access := access })
  | innerClass (d : InnerClass) (access : AccessFlags) :
      Allows (.innerClass d) (.innerClass { d with access := access })
  | field (d : FieldDeclaration) (access : AccessFlags) :
      Allows (.field d) (.field { d with access := access })
  | method (d : MethodDeclaration) (access : AccessFlags) :
      Allows (.method d) (.method { d with access := access })
  | call {before after : Call} (h : before.Allows after) : Allows (.call before) (.call after)
  | dynamicCall {before after : DynamicCall} (name : after.name = before.name)
      (descriptor : after.descriptor = before.descriptor)
      (bootstrap : before.bootstrap.Allows after.bootstrap)
      (arguments : List.Forall₂ BootstrapArgument.Allows before.arguments after.arguments) :
      Allows (.dynamicCall before) (.dynamicCall after)
  | finish : Allows .finish .finish

/-! ## 2. Entries that are asked for -/

/-- The entry that is needed for what is told in a place, if it is a handle that is new: one of its
    kind for what the handle in the place refers to. -/
def BootstrapArgument.requested? (pool : ConstantPool) (place : Placed UInt16)
    (before after : BootstrapArgument) : Option Constant :=
  match after, pool.get place.value with
  | .handle h, .ok (.methodHandle _ reference) =>
    if before = after then none else some (.methodHandle h.kind.code reference)
  | _, _ => none

/-- The entries that are needed for what an event tells. -/
def Spot.requested (pool : ConstantPool) : Spot → Event → List Constant
  | dynamicCall before entry, .dynamicCall after =>
    (entry.places.zip (before.told.zip after.told)).filterMap fun t =>
      BootstrapArgument.requested? pool t.1 t.2.1 t.2.2
  | _, _ => []

namespace Layout

/-- The entries that events ask for and the pool does not have, each of them once. -/
def requested (l : Layout) (events : List Event) : Finset Constant :=
  l.pool.missing (List.zipWith (Spot.requested l.pool) l.spots events).flatten

/-- **Whether a revision supports events**, which may be the first ones of a class: each of them is
    allowed, and there is room in the pool. -/
structure Supports (l : Layout) (events : List Event) : Prop where
  allowed : ∀ (i : Nat) (before after : Event), l.events[i]? = some before →
    events[i]? = some after → before.Allows after
  room : l.pool.count + (l.requested events).card ≤ capacity

/-- **The first event that is not supported**, and the fault that it is: an edit that is not
    allowed, or a pool that runs full. -/
structure FirstOffence (l : Layout) (events : List Event) (i : Nat) (fault : Fault) : Prop where
  earlier : l.Supports (events.take i)
  offends : ¬ l.Supports (events.take (i + 1))
  fault : (∃ cause before after, fault = .unsupported cause ∧ l.events[i]? = some before ∧
      events[i]? = some after ∧ ¬ before.Allows after) ∨
    fault = .poolOverflow (capacity + 1) ∧
      capacity < l.pool.count + (l.requested (events.take (i + 1))).card

end Layout

/-! ## 3. Events without changes that are refused -/

namespace Change

theorem noneRefused_nil : NoneRefused [] := fun _ h => absurd h List.not_mem_nil

theorem noneRefused_singleton {c : Change} : NoneRefused [c] ↔ c.fault? = none :=
  List.forall_mem_singleton

theorem noneRefused_append {cs cs' : List Change} :
    NoneRefused (cs ++ cs') ↔ NoneRefused cs ∧ NoneRefused cs' := List.forall_mem_append

theorem not_noneRefused (fault : Fault) : ¬ NoneRefused [.refuse fault] :=
  fun h => nomatch noneRefused_singleton.1 h

end Change

open Change

/-- A declaration may get other access flags. -/
theorem Placed.noneRefused_iff {α : Type} [Declaration α] [DecidableEq α] (p : Placed α) (after : α)
    (otherwise : Unsupported) : NoneRefused (p.changes after otherwise) ↔
      ∃ access, Declaration.withAccess p.value access = after := by
  constructor
  · intro h
    rcases p.changes_cases after otherwise with ⟨cause, hf⟩ | ⟨hback, -⟩
    · rw [hf] at h
      exact absurd h (not_noneRefused _)
    · exact ⟨_, hback⟩
  · rintro ⟨access, rfl⟩
    unfold changes
    simp only [Declaration.withAccess_withAccess, Declaration.withAccess_access, if_true]
    split
    · exact noneRefused_nil
    · exact noneRefused_singleton.2 rfl

theorem CallKind.isPlain_iff {kind : CallKind} :
    kind.isPlain = true ↔ kind ∈ [CallKind.virtual, .special, .static] := by
  cases kind <;> decide

theorem Call.noneRefused_iff (p : Placed Call) (after : Call) :
    NoneRefused (changes p after) ↔ p.value.Allows after := by
  unfold changes Allows
  simp only
  split
  · rename_i htarget
    exact iff_of_false (not_noneRefused _) fun h => htarget h.1
  · rename_i htarget
    rw [not_not] at htarget
    split
    · rename_i hkind
      exact iff_of_true noneRefused_nil ⟨htarget, .inl hkind⟩
    · rename_i hkind
      rw [← CallKind.isPlain_iff, ← CallKind.isPlain_iff]
      unfold Revision.kindFault?
      cases hv : p.value.target.onInterface && decide (after.kind = .virtual) with
      | true =>
          simp only [Bool.and_eq_true, decide_eq_true_eq] at hv
          exact iff_of_false (not_noneRefused _) fun h => h.2.elim hkind fun hk => hk.2.2 hv
      | false =>
          have hv' : ¬ (p.value.target.onInterface = true ∧ after.kind = .virtual) := by
            simpa using hv
          cases hp : !p.value.kind.isPlain || !after.kind.isPlain with
          | true =>
              refine iff_of_false (not_noneRefused _) fun h => h.2.elim hkind fun hk => ?_
              rw [hk.1, hk.2.1] at hp
              cases hp
          | false =>
              simp only [Bool.or_eq_false_iff, Bool.not_eq_false'] at hp
              exact iff_of_true (noneRefused_singleton.2 rfl) ⟨htarget, .inr ⟨hp.1, hp.2, hv'⟩⟩

theorem Handle.noneRefused_iff (slot : Placed UInt16) (before after : Handle) :
    NoneRefused (changes slot before after) ↔ before.Allows after := by
  unfold changes Allows
  simp only
  split
  · rename_i heq
    exact iff_of_true noneRefused_nil (heq ▸ ⟨rfl, .inl rfl⟩)
  · rename_i hne
    split
    · rename_i htarget
      exact iff_of_false (not_noneRefused _) fun h => htarget h.1.symm
    · rename_i htarget
      rw [not_not] at htarget
      have hkind : after.kind ≠ before.kind := by
        intro hkind
        cases before
        cases after
        exact hne (by simp_all)
      split
      · rename_i hv
        simp only [Bool.and_eq_true, decide_eq_true_eq] at hv
        exact iff_of_false (not_noneRefused _) fun h => h.2.elim hkind fun hk => hk hv
      · rename_i hv
        simp only [Bool.and_eq_true, decide_eq_true_eq] at hv
        exact iff_of_true (noneRefused_singleton.2 rfl) ⟨htarget.symm, .inr hv⟩

theorem BootstrapArgument.noneRefused_iff (name : String) (slot : Placed UInt16)
    (before after : BootstrapArgument) :
    NoneRefused (changes name slot before after) ↔ before.Allows after := by
  have hother : (∀ h h', ¬ (before = .handle h ∧ after = .handle h')) →
      (NoneRefused (if before = after then [] else [.refuse (.unsupported (.argument name))]) ↔
        before.Allows after) := by
    intro hh
    split
    · rename_i heq
      exact iff_of_true noneRefused_nil (heq ▸ .same before)
    · rename_i hne
      refine iff_of_false (not_noneRefused _) fun h => ?_
      cases h with
      | same => exact hne rfl
      | handle => exact hh _ _ ⟨rfl, rfl⟩
  cases before with
  | handle before =>
      cases after with
      | handle after =>
          refine (Handle.noneRefused_iff slot before after).trans ⟨.handle, fun h => ?_⟩
          cases h with
          | same => exact ⟨rfl, .inl rfl⟩
          | handle h => exact h
      | methodType | constant => exact hother fun _ _ h => nomatch h.2
  | methodType | constant => exact hother fun _ _ h => nomatch h.1

/-- Arguments are told one by one. -/
theorem BootstrapArgument.noneRefused_all_iff (name : String) {slots : List (Placed UInt16)}
    {befores afters : List BootstrapArgument} (hslots : slots.length = befores.length)
    (hafters : afters.length = befores.length) :
    NoneRefused (changesAll name slots befores afters) ↔ List.Forall₂ Allows befores afters := by
  induction slots generalizing befores afters with
  | nil =>
      obtain rfl := List.length_eq_zero_iff.1 hslots.symm
      obtain rfl := List.length_eq_zero_iff.1 hafters
      exact iff_of_true noneRefused_nil .nil
  | cons slot slots ih =>
      obtain ⟨before, befores, rfl⟩ := List.exists_cons_of_length_eq_add_one hslots.symm
      obtain ⟨after, afters, rfl⟩ := List.exists_cons_of_length_eq_add_one hafters
      rw [changesAll, noneRefused_append, noneRefused_iff, List.forall₂_cons,
        ih (Nat.succ.inj hslots) (Nat.succ.inj hafters)]

theorem DynamicCall.noneRefused_iff {before : DynamicCall} {entry : BootstrapEntry}
    (hrow : entry.arguments.length = before.arguments.length) (after : DynamicCall) :
    NoneRefused (before.changes entry after) ↔
      (Event.dynamicCall before).Allows (.dynamicCall after) := by
  unfold changes
  split
  · rename_i hne
    refine iff_of_false (not_noneRefused _) fun h => ?_
    cases h with
    | dynamicCall name descriptor _ arguments =>
        exact hne.elim (· name) (Or.rec (· descriptor) (· arguments.length_eq.symm))
  · rename_i heq
    simp only [not_or, not_not] at heq
    rw [noneRefused_append, Handle.noneRefused_iff,
      BootstrapArgument.noneRefused_all_iff before.name hrow heq.2.2]
    constructor
    · exact fun h => .dynamicCall heq.1 heq.2.1 h.1 h.2
    · intro h
      cases h with
      | dynamicCall _ _ bootstrap arguments => exact ⟨bootstrap, arguments⟩

/-- **An event is allowed exactly if it asks for no change that is refused.** -/
theorem Spot.allows_iff {l : Layout} (h : l.Sound) {spot : Spot} (hspot : spot ∈ l.spots)
    {e : Event} (hk : e.kind = spot.event.kind) :
    spot.event.Allows e ↔ NoneRefused (spot.changes e) := by
  cases spot with
  | header p =>
      cases e
      case header d =>
        refine Iff.trans ?_ (p.noneRefused_iff d (.header p.value.name)).symm
        exact ⟨fun h => by cases h; exact ⟨_, rfl⟩, by rintro ⟨access, rfl⟩; exact .header _ access⟩
      all_goals cases hk
  | innerClass p =>
      cases e
      case innerClass d =>
        refine Iff.trans ?_ (p.noneRefused_iff d (.innerClass p.value.name)).symm
        exact ⟨fun h => by cases h; exact ⟨_, rfl⟩,
          by rintro ⟨access, rfl⟩; exact .innerClass _ access⟩
      all_goals cases hk
  | field p =>
      cases e
      case field d =>
        refine Iff.trans ?_ (p.noneRefused_iff d (.field p.value.name)).symm
        exact ⟨fun h => by cases h; exact ⟨_, rfl⟩, by rintro ⟨access, rfl⟩; exact .field _ access⟩
      all_goals cases hk
  | method p =>
      cases e
      case method d =>
        refine Iff.trans ?_ (p.noneRefused_iff d (.method p.value.name p.value.descriptor)).symm
        exact ⟨fun h => by cases h; exact ⟨_, rfl⟩, by rintro ⟨access, rfl⟩; exact .method _ access⟩
      all_goals cases hk
  | call p =>
      cases e
      case call c =>
        refine Iff.trans ?_ (Call.noneRefused_iff p c).symm
        exact ⟨fun h => by cases h; assumption, .call⟩
      all_goals cases hk
  | dynamicCall before entry =>
      cases e
      case dynamicCall after =>
        have hrow := (h.row before entry hspot).2.length_eq
        exact (DynamicCall.noneRefused_iff (Nat.succ.inj hrow) after).symm
      all_goals cases hk

/-! ## 4. Entries that changes need -/

/-- What is told in a place needs the entry that its change does. -/
theorem BootstrapArgument.requested?_of_point {pool : ConstantPool} {name : String}
    {a : Placed UInt16} {handle : Handle} {kind : HandleKind}
    (h : changes name a (.handle handle) (.handle ⟨kind, handle.target⟩) = [.point a kind]) :
    requested? pool a (.handle handle) (.handle ⟨kind, handle.target⟩) =
      (Change.point a kind).wanted? pool := by
  have hne : BootstrapArgument.handle handle ≠ .handle ⟨kind, handle.target⟩ := by
    intro heq
    rw [← heq, changes_self] at h
    cases h
  unfold requested? wanted?
  cases hget : pool.get a.value with
  | error => simp only [hget]
  | ok constant =>
      cases constant
      case methodHandle => simp only [hget, if_neg hne]
      all_goals simp only [hget]

theorem BootstrapArgument.requested?_self (pool : ConstantPool) (a : Placed UInt16)
    (x : BootstrapArgument) : requested? pool a x x = none := by
  unfold requested?
  split
  · exact if_pos rfl
  · rfl

/-- **A change needs an entry that its event asks for.** -/
theorem Spot.mem_requested {pool : ConstantPool} {spot : Spot} {e : Event} {c : Change}
    (hc : c ∈ spot.changes e) {entry : Constant} (hentry : c.wanted? pool = some entry) :
    entry ∈ spot.requested pool e := by
  rcases Spot.mem_changes hc with ⟨cause, rfl⟩ | ⟨s, -, ⟨p, -, rfl⟩, -⟩ |
    ⟨before, row, after, rfl, rfl⟩
  · cases hentry
  · cases hentry
  · have hc' : c ∈ before.changes row after := hc
    rcases before.changes_cases row after with ⟨cause, hf⟩ | ⟨-, -, -, hplaces⟩
    · rw [hf] at hc'
      cases List.mem_singleton.1 hc'
      cases hentry
    · rw [hplaces] at hc'
      obtain ⟨⟨a, b, x⟩, hmem, hc'⟩ := List.mem_flatMap.1 hc'
      refine List.mem_filterMap.2 ⟨(a, b, x), hmem, ?_⟩
      simp only at hc' ⊢
      rcases BootstrapArgument.changes_cases before.name a b x with
        ⟨-, hnil⟩ | ⟨cause, hf⟩ | ⟨handle, kind, rfl, rfl, hpoint⟩
      · rw [hnil] at hc'
        cases hc'
      · rw [hf] at hc'
        cases List.mem_singleton.1 hc'
        cases hentry
      · rw [hpoint] at hc'
        cases List.mem_singleton.1 hc'
        rw [BootstrapArgument.requested?_of_point hpoint, hentry]

/-- **An event that is allowed asks for no entry but those its changes need.** -/
theorem Spot.exists_of_mem_requested {pool : ConstantPool} {spot : Spot} {e : Event}
    (hnone : NoneRefused (spot.changes e)) {entry : Constant}
    (hentry : entry ∈ spot.requested pool e) :
    ∃ c ∈ spot.changes e, c.wanted? pool = some entry := by
  unfold requested at hentry
  split at hentry
  · rename_i before row after
    obtain ⟨⟨a, b, x⟩, hmem, hx⟩ := List.mem_filterMap.1 hentry
    have hnone' : NoneRefused (before.changes row after) := hnone
    change ∃ c ∈ before.changes row after, _
    rcases before.changes_cases row after with ⟨cause, hf⟩ | ⟨-, -, -, hplaces⟩
    · rw [hf] at hnone'
      exact absurd hnone' (not_noneRefused _)
    · rw [hplaces] at hnone' ⊢
      have hsub : ∀ c ∈ BootstrapArgument.changes before.name a b x,
          c ∈ (row.places.zip (before.told.zip after.told)).flatMap fun t =>
            BootstrapArgument.changes before.name t.1 t.2.1 t.2.2 :=
        fun c hc => List.mem_flatMap.2 ⟨(a, b, x), hmem, hc⟩
      rcases BootstrapArgument.changes_cases before.name a b x with
        ⟨rfl, -⟩ | ⟨cause, hf⟩ | ⟨handle, kind, rfl, rfl, hpoint⟩
      · simp only [BootstrapArgument.requested?_self] at hx
        cases hx
      · rw [hf] at hsub
        exact nomatch hnone' _ (hsub _ (List.mem_singleton_self _))
      · simp only [BootstrapArgument.requested?_of_point hpoint] at hx
        rw [hpoint] at hsub
        exact ⟨_, hsub _ (List.mem_singleton_self _), hx⟩
  · cases hentry

namespace Layout

variable {l : Layout} {told events : List Event} {cs : List Change} {i : Nat} {spot : Spot}
  {e : Event}

theorem mem_requested_iff {entry : Constant} : entry ∈ l.requested told ↔
    (∃ (i : Nat) (spot : Spot) (e : Event), l.spots[i]? = some spot ∧ told[i]? = some e ∧
      entry ∈ spot.requested l.pool e) ∧ entry ∉ l.pool.slots := by
  rw [requested, mem_missing, mem_flatten_zipWith]

/-- Changes that events ask for need no more entries than the events do. -/
theorem countAfter_le (hcs : ∀ c ∈ cs, c ∈ Spot.changesAll l.spots told) :
    l.draft.countAfter l cs ≤ l.pool.count + (l.requested told).card := by
  refine Nat.add_le_add_left (Finset.card_le_card fun entry hentry => ?_) _
  obtain ⟨hwanted, hnew⟩ := mem_missing.1 hentry
  obtain ⟨c, hc, hw⟩ := List.mem_filterMap.1 hwanted
  obtain ⟨i, spot, e, hi, he, hc⟩ := Spot.mem_changesAll.1 (hcs c hc)
  exact mem_requested_iff.2 ⟨⟨i, spot, e, hi, he, Spot.mem_requested hc hw⟩, hnew⟩

/-- Events need no more entries than their changes do, if none of these is refused. -/
theorem le_countAfter (hnone : NoneRefused (Spot.changesAll l.spots told)) :
    l.pool.count + (l.requested told).card ≤
      l.draft.countAfter l (Spot.changesAll l.spots told) := by
  refine Nat.add_le_add_left (Finset.card_le_card fun entry hentry => ?_) _
  obtain ⟨⟨i, spot, e, hi, he, hr⟩, hnew⟩ := mem_requested_iff.1 hentry
  obtain ⟨c, hc, hw⟩ := Spot.exists_of_mem_requested
    (fun c hc => hnone c (Spot.mem_changesAll.2 ⟨i, spot, e, hi, he, hc⟩)) hr
  refine mem_missing.2 ⟨List.mem_filterMap.2 ⟨c, ?_, hw⟩, hnew⟩
  exact Spot.mem_changesAll.2 ⟨i, spot, e, hi, he, hc⟩

/-! ## 5. The first events of a class -/

/-- Events of the kinds of the first spots are of the kinds of their spots. -/
theorem kind_eq_of_begins (hk : told.map Event.kind <+: l.spots.map (·.event.kind))
    (hi : l.spots[i]? = some spot) (he : told[i]? = some e) : e.kind = spot.event.kind := by
  obtain ⟨rest, hrest⟩ := hk
  have hget := congrArg (fun ks : List EventKind => ks[i]?) hrest
  have hlt : i < (told.map Event.kind).length := by
    rw [List.length_map]
    exact (List.getElem?_eq_some_iff.1 he).1
  simp only [List.getElem?_append_left hlt, List.getElem?_map, hi, he, Option.map_some] at hget
  exact Option.some.inj hget

/-- What is told in the place of an event is told in the place of its spot. -/
theorem forall_events_iff (hk : told.map Event.kind <+: l.spots.map (·.event.kind))
    {P : Event → Event → Prop} :
    (∀ (i : Nat) (before after : Event), l.events[i]? = some before → told[i]? = some after →
      P before after) ↔
    ∀ (i : Nat) (spot : Spot) (e : Event), l.spots[i]? = some spot → told[i]? = some e →
      P spot.event e := by
  have hevent : ∀ {i : Nat} {spot : Spot}, l.spots[i]? = some spot →
      l.events[i]? = some spot.event := by
    intro i spot hi
    rw [events_eq, List.getElem?_append_left, List.getElem?_map, hi, Option.map_some]
    rw [List.length_map]
    exact (List.getElem?_eq_some_iff.1 hi).1
  refine ⟨fun h i spot e hi he => h i _ e (hevent hi) he, fun h i before after hb ha => ?_⟩
  have hlt : i < l.spots.length := by
    have hlen := hk.length_le
    rw [List.length_map, List.length_map] at hlen
    exact Nat.lt_of_lt_of_le (List.getElem?_eq_some_iff.1 ha).1 hlen
  have hi := List.getElem?_eq_getElem hlt
  rw [hevent hi] at hb
  cases hb
  exact h i _ after hi ha

/-- **The first events of a class are allowed exactly if none of their changes is refused.** -/
theorem allowed_iff (h : l.Sound) (hk : told.map Event.kind <+: l.spots.map (·.event.kind)) :
    (∀ (i : Nat) (before after : Event), l.events[i]? = some before → told[i]? = some after →
      before.Allows after) ↔ NoneRefused (Spot.changesAll l.spots told) := by
  rw [forall_events_iff hk]
  constructor
  · intro hallowed c hc
    obtain ⟨i, spot, e, hi, he, hc⟩ := Spot.mem_changesAll.1 hc
    have hkind := kind_eq_of_begins hk hi he
    exact (Spot.allows_iff h (List.mem_of_getElem? hi) hkind).1 (hallowed i spot e hi he) c hc
  · intro hnone i spot e hi he
    exact (Spot.allows_iff h (List.mem_of_getElem? hi) (kind_eq_of_begins hk hi he)).2
      fun c hc => hnone c (Spot.mem_changesAll.2 ⟨i, spot, e, hi, he, hc⟩)

theorem supports_iff (h : l.Sound) (hk : told.map Event.kind <+: l.spots.map (·.event.kind)) :
    l.Supports told ↔ NoneRefused (Spot.changesAll l.spots told) ∧
      l.pool.count + (l.requested told).card ≤ capacity := by
  rw [← allowed_iff h hk]
  exact ⟨fun hs => ⟨hs.allowed, hs.room⟩, fun hs => ⟨hs.1, hs.2⟩⟩

theorem RowsAgree.take (h : l.RowsAgree told) (n : Nat) : l.RowsAgree (told.take n) := by
  have hget : ∀ {i : Nat} {e : Event}, (told.take n)[i]? = some e → told[i]? = some e := by
    intro i e he
    rw [List.getElem?_take] at he
    split at he
    · exact he
    · cases he
  intro i j before before' after after' entry hi hj he he'
  exact h i j before before' after after' entry hi hj (hget he) (hget he')

/-- The changes of supported events are made. -/
theorem Sound.exists_applyAll (h : l.Sound) (hagree : l.RowsAgree told)
    (hnone : NoneRefused (Spot.changesAll l.spots told))
    (hroom : l.pool.count + (l.requested told).card ≤ capacity) :
    ∃ d, l.draft.applyAll (Spot.changesAll l.spots told) = .ok d := by
  have hgo := h.consistent hagree (fun _ hc => hc) hnone
  rcases h.applyAll_cases (fun _ hc => hc) hnone hgo with ⟨-, d, hd, -⟩ | ⟨hover, -⟩
  · exact ⟨d, hd⟩
  · have hle := countAfter_le fun c (hc : c ∈ Spot.changesAll l.spots told) => hc
    omega

/-- **The changes of other events are not made**: one of them is refused, or the pool runs full. -/
theorem Sound.exists_fault (h : l.Sound) (hagree : l.RowsAgree told)
    (hoff : ¬ (NoneRefused (Spot.changesAll l.spots told) ∧
      l.pool.count + (l.requested told).card ≤ capacity)) :
    ∃ fault, l.draft.applyAll (Spot.changesAll l.spots told) = .error fault ∧
      ((∃ cause, fault = .unsupported cause) ∧ ¬ NoneRefused (Spot.changesAll l.spots told) ∨
        fault = .poolOverflow (capacity + 1) ∧
          capacity < l.pool.count + (l.requested told).card) := by
  cases hf : (Spot.changesAll l.spots told).findSome? Change.fault? with
  | none =>
      have hnone : NoneRefused (Spot.changesAll l.spots told) := List.findSome?_eq_none_iff.1 hf
      have hover : capacity < l.pool.count + (l.requested told).card :=
        not_le.1 fun hroom => hoff ⟨hnone, hroom⟩
      have hle := le_countAfter hnone
      have hgo := h.consistent hagree (fun _ hc => hc) hnone
      rcases h.applyAll_cases (fun _ hc => hc) hnone hgo with ⟨hroom, -⟩ | ⟨-, hd⟩
      · omega
      · exact ⟨_, hd, .inr ⟨rfl, hover⟩⟩
  | some fault =>
      obtain ⟨front, c, rest, hsplit, hc, hfront⟩ := List.findSome?_eq_some_iff.1 hf
      have hmem : ∀ c' ∈ front, c' ∈ Spot.changesAll l.spots told := fun c' hc' => by
        rw [hsplit]
        exact List.mem_append_left _ hc'
      have hcmem : c ∈ Spot.changesAll l.spots told := by
        rw [hsplit]
        exact List.mem_append_right _ List.mem_cons_self
      rw [hsplit, Draft.applyAll_append, ← hsplit]
      -- What stands in front of the first refusal may already be too much for the pool.
      have hgo := h.consistent hagree hmem hfront
      rcases h.applyAll_cases hmem hfront hgo with ⟨-, d, hd, -⟩ | ⟨hover, hd⟩
      · rcases change_cases hcmem with ⟨cause, rfl⟩ | ⟨_, _, _, -, -, _, -, ⟨_, -, rfl⟩, -⟩ |
          ⟨_, _, _, -, rfl⟩
        · cases hc
          refine ⟨.unsupported cause, by rw [hd]; rfl, .inl ⟨⟨cause, rfl⟩, fun hnone => ?_⟩⟩
          exact nomatch hnone _ hcmem
        · cases hc
        · cases hc
      · refine ⟨_, by rw [hd]; rfl, .inr ⟨rfl, ?_⟩⟩
        exact Nat.lt_of_lt_of_le hover (countAfter_le hmem)

/-- The first events of a class make their changes. -/
theorem acceptAll_comes (hk : told.map Event.kind <+: l.spots.map (·.event.kind)) :
    (l.revision.acceptAll told).Comes l (l.spots.drop told.length)
      (l.draft.applyAll (Spot.changesAll l.spots told)) := by
  obtain ⟨kinds, hkinds⟩ := hk
  obtain ⟨front, rest, hspots, hfront, -⟩ := List.map_eq_append_iff.1 hkinds.symm
  have hlen : front.length = told.length := by
    rw [← List.length_map (·.event.kind), hfront, List.length_map]
  have hchanges : Spot.changesAll l.spots told = Spot.changesAll front told := by
    rw [Spot.changesAll, Spot.changesAll, hspots, zipWith_append_left _ hlen]
  have hrest : l.spots.drop told.length = rest := by rw [hspots, ← hlen, List.drop_left]
  rw [hchanges, hrest]
  exact Revision.acceptAll_comes rfl (by rw [remaining_revision, hspots]) hfront.symm

/-- A revision that has ended stays so, whatever comes after. -/
theorem revise_of_fault {fault : Fault} (h : (l.revision.acceptAll told).fault = some fault)
    (later : List Event) : l.revise (told ++ later) = .error fault := by
  have hall : l.revision.acceptAll (told ++ later) = l.revision.acceptAll told := by
    have hstay := Revision.acceptAll_of_fault h later
    unfold Revision.acceptAll at hstay ⊢
    rw [List.foldl_append, hstay]
  unfold revise Revision.finish Revision.check
  rw [hall, h]
  rfl

/-! ## 6. All events -/

theorem supports_nil (h : l.Sound) : l.Supports [] where
  allowed _ _ _ _ ha := nomatch ha
  room := by
    have hnone : l.requested [] = ∅ := by
      rw [requested, List.zipWith_nil_right]
      rfl
    rw [hnone, Finset.card_empty]
    exact h.healthy.bounded

/-- The event that ends a class is told as it was. -/
theorem forall_append_finish_iff (hlen : told.length = l.spots.length) {P : Event → Event → Prop}
    (hP : P .finish .finish) :
    (∀ (i : Nat) (before after : Event), l.events[i]? = some before →
      (told ++ [.finish])[i]? = some after → P before after) ↔
    ∀ (i : Nat) (before after : Event), l.events[i]? = some before → told[i]? = some after →
      P before after := by
  constructor
  · intro h i before after hb ha
    refine h i before after hb ?_
    rwa [List.getElem?_append_left (List.getElem?_eq_some_iff.1 ha).1]
  · intro h i before after hb ha
    by_cases hlt : i < told.length
    · rw [List.getElem?_append_left hlt] at ha
      exact h i before after hb ha
    · have hle := (List.getElem?_eq_some_iff.1 ha).1
      rw [List.length_append, List.length_singleton] at hle
      obtain rfl : i = told.length := by omega
      rw [List.getElem?_concat_length] at ha
      rw [events_eq, hlen, ← List.length_map Spot.event, List.getElem?_concat_length] at hb
      cases ha
      cases hb
      exact hP

/-- The event that ends a class asks for nothing. -/
theorem supports_append_finish (hlen : told.length = l.spots.length) :
    l.Supports (told ++ [.finish]) ↔ l.Supports told := by
  have hrequested : l.requested (told ++ [.finish]) = l.requested told := by
    rw [requested, requested, zipWith_append_right _ hlen.symm]
  have hallowed := forall_append_finish_iff hlen Event.Allows.finish
  exact ⟨fun hs => ⟨hallowed.1 hs.allowed, hrequested ▸ hs.room⟩,
    fun hs => ⟨hallowed.2 hs.allowed, hrequested ▸ hs.room⟩⟩

/-- Between supported events and others there is a first one that is not supported. -/
theorem exists_first (h : l.Sound) (hoff : ¬ l.Supports told) :
    ∃ i < told.length, l.Supports (told.take i) ∧ ¬ l.Supports (told.take (i + 1)) := by
  by_contra hno
  have hall : ∀ n ≤ told.length, l.Supports (told.take n) := by
    intro n hn
    induction n with
    | zero => exact supports_nil h
    | succ n ih => exact by_contra fun hne => hno ⟨n, hn, ih (by omega), hne⟩
  have hlast := hall told.length le_rfl
  rw [List.take_length] at hlast
  exact hoff hlast

/-- Where the events in front are allowed, it is the last one that is not. -/
theorem not_allows_of_not_supports (hearlier : l.Supports (told.take i))
    (hne : ¬ ∀ (j : Nat) (before after : Event), l.events[j]? = some before →
      (told.take (i + 1))[j]? = some after → before.Allows after) :
    ∃ before after, l.events[i]? = some before ∧ told[i]? = some after ∧
      ¬ before.Allows after := by
  push Not at hne
  obtain ⟨j, before, after, hb, ha, hnot⟩ := hne
  rw [List.getElem?_take] at ha
  split at ha
  · rename_i hj
    by_cases hji : j < i
    · refine absurd (hearlier.allowed j before after hb ?_) hnot
      rwa [List.getElem?_take, if_pos hji]
    · obtain rfl : j = i := by omega
      exact ⟨before, after, hb, ha, hnot⟩
  · cases ha

/-- **The first event that is not supported ends a revision**, whatever comes after it. -/
theorem Sound.exists_firstOffence (h : l.Sound)
    (hk : told.map Event.kind <+: l.spots.map (·.event.kind)) (hagree : l.RowsAgree told)
    (hoff : ¬ l.Supports told) : ∃ i < told.length, ∃ fault, l.FirstOffence told i fault ∧
      ∀ later, l.revise (told.take (i + 1) ++ later) = .error fault := by
  obtain ⟨i, hi, hearlier, hoffends⟩ := exists_first h hoff
  have hki : (told.take (i + 1)).map Event.kind <+: l.spots.map (·.event.kind) :=
    ((List.take_prefix _ _).map _).trans hk
  have hnot := hoffends
  rw [supports_iff h hki] at hnot
  obtain ⟨fault, hfault, hcause⟩ := h.exists_fault (hagree.take (i + 1)) hnot
  have hcomes := acceptAll_comes hki
  rw [hfault] at hcomes
  refine ⟨i, hi, fault, ⟨hearlier, hoffends, ?_⟩, fun later => revise_of_fault hcomes later⟩
  rcases hcause with ⟨⟨cause, rfl⟩, hrefused⟩ | hover
  · rw [← allowed_iff h hki] at hrefused
    obtain ⟨before, after, hb, ha, hne⟩ := not_allows_of_not_supports hearlier hrefused
    exact .inl ⟨cause, before, after, rfl, hb, ha, hne⟩
  · exact .inr hover

/-- The first event that is not supported stays the first one, whatever events come later. -/
theorem FirstOffence.append {fault : Fault} (h : l.FirstOffence told i fault)
    (hi : i < told.length) (later : List Event) : l.FirstOffence (told ++ later) i fault where
  earlier := by
    rw [List.take_append_of_le_length hi.le]
    exact h.earlier
  offends := by
    rw [List.take_append_of_le_length hi]
    exact h.offends
  fault := by
    rw [List.take_append_of_le_length hi, List.getElem?_append_left hi]
    exact h.fault

/-- **A revision by supported events succeeds.** -/
theorem exists_revise {data : Bytes} (h : ofBytes data = .ok l)
    (hk : told.map Event.kind = l.spots.map (·.event.kind)) (hagree : l.RowsAgree told)
    (hs : l.Supports told) : ∃ out, l.revise (told ++ [.finish]) = .ok out := by
  have hl := sound_of_ofBytes h
  obtain ⟨hnone, hroom⟩ := (supports_iff hl (hk ▸ List.prefix_rfl)).1 hs
  obtain ⟨d, hd⟩ := hl.exists_applyAll hagree hnone hroom
  obtain ⟨new, written, -, -, -, hbytes⟩ := (revised_of_applyAll h hk hd).bytes_eq
  rw [revise_eq l hk, hd]
  exact ⟨_, hbytes⟩

/-- **A revision succeeds exactly if its events are supported**, as long as dynamic calls with one
    row tell the same of it. Otherwise it fails with the fault of the first event that is not
    supported, whatever events come after that one. -/
theorem revise_ok_iff_supports {data : Bytes} (h : ofBytes data = .ok l)
    (hk : events.map Event.kind = l.events.map Event.kind) (hagree : l.RowsAgree events) :
    ((∃ out, l.revise events = .ok out) ↔ l.Supports events) ∧
      (¬ l.Supports events → ∃ i fault, l.FirstOffence events i fault ∧
        ∀ later, l.revise (events.take (i + 1) ++ later) = .error fault) := by
  obtain ⟨told, rfl, hkt⟩ := exists_told hk
  have hlen : told.length = l.spots.length := by
    rw [← List.length_map Event.kind, hkt, List.length_map]
  have hagree' : l.RowsAgree told := by
    have htake := hagree.take told.length
    rwa [List.take_left] at htake
  rw [supports_append_finish hlen]
  have hfails : ¬ l.Supports told → ∃ i fault, l.FirstOffence (told ++ [.finish]) i fault ∧
      ∀ later, l.revise ((told ++ [Event.finish]).take (i + 1) ++ later) = .error fault := by
    intro hoff
    obtain ⟨i, hi, fault, hfirst, hfault⟩ :=
      (sound_of_ofBytes h).exists_firstOffence (hkt ▸ List.prefix_rfl) hagree' hoff
    refine ⟨i, fault, hfirst.append hi _, fun later => ?_⟩
    rw [List.take_append_of_le_length hi]
    exact hfault later
  refine ⟨⟨fun ⟨out, hout⟩ => ?_, exists_revise h hkt hagree'⟩, hfails⟩
  by_contra hoff
  obtain ⟨i, fault, -, hfault⟩ := hfails hoff
  have hrun := hfault ((told ++ [Event.finish]).drop (i + 1))
  rw [List.take_append_drop, hout] at hrun
  cases hrun

/-- Where all dynamic calls tell the same, rows are told alike. -/
theorem rowsAgree_of_forall {x : List BootstrapArgument}
    (h : ∀ c, Event.dynamicCall c ∈ events → c.told = x) : l.RowsAgree events := by
  intro i j before before' after after' entry _ _ he he'
  rw [h after (List.mem_of_getElem? he), h after' (List.mem_of_getElem? he')]

/-- The events of the class with a name of the class and handles of one kind. -/
def sharedRenamed (name : String) (kind : HandleKind) : List Event :=
  (sharedEvents kind kind).set 0 (.header ⟨⟨61, 0⟩, 0, name, none, []⟩)

theorem rowsAgree_sharedRenamed (name : String) (kind : HandleKind) :
    l.RowsAgree (sharedRenamed name kind) := by
  refine rowsAgree_of_forall (x := (sharedCall kind).told) fun c hc => ?_
  simp only [sharedRenamed, sharedEvents, List.set_cons_zero, List.mem_cons,
    Event.dynamicCall.injEq, reduceCtorEq, false_or, List.not_mem_nil, or_false, or_self] at hc
  rw [hc]

/-- Both handles of the class may get a new kind, but the class no new name. -/
theorem revise_ok_iff_supports_sharedRow : ∃ l, ofBytes sharedRow = .ok l ∧
    (∃ out, l.revise (sharedRenamed "A" .invokeVirtual) = .ok out) ∧
    l.Supports (sharedRenamed "A" .invokeVirtual) ∧
    ∃ i fault, l.FirstOffence (sharedRenamed "B" .invokeSpecial) i fault ∧
      ∀ later, l.revise ((sharedRenamed "B" .invokeSpecial).take (i + 1) ++ later) =
        .error fault := by
  obtain ⟨l, -, hl, hevents, -⟩ := exists_revise_sharedRow
  have hrun : (do
      let l ← ofBytes sharedRow
      l.revise (sharedRenamed "A" .invokeVirtual)).isOk = true := by decide +kernel
  rw [hl] at hrun
  have hout : ∃ out, l.revise (sharedRenamed "A" .invokeVirtual) = .ok out := exists_of_isOk hrun
  refine ⟨l, hl, hout,
    (revise_ok_iff_supports hl (by rw [hevents]; rfl) (rowsAgree_sharedRenamed _ _)).1.1 hout,
    (revise_ok_iff_supports hl (by rw [hevents]; rfl) (rowsAgree_sharedRenamed _ _)).2
      fun hs => ?_⟩
  have hname : ∀ {h h' : Header}, (Event.header h).Allows (.header h') → h'.name = h.name := by
    rintro _ _ ⟨⟩
    rfl
  have hallows := hs.allowed 0 (.header ⟨⟨61, 0⟩, 0, "A", none, []⟩)
    (.header ⟨⟨61, 0⟩, 0, "B", none, []⟩) (by rw [hevents]; rfl) rfl
  exact absurd (hname hallows) (by decide)

end Layout

end ClassAccess
