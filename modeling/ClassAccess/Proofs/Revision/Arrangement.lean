import ClassAccess.Proofs.Revision.Sources

/-!
# Events told in another order

A revision takes each event for the next spot of a table of the class: the header, the records of
inner classes, the fields, or the methods with their calls. The tables need not be told one after
the other. So a revision that succeeds comes to what the same events come to in the order of the
class.

* `Table`, `EventKind.table` -- the table that an event belongs to;
* `Event.arranged` -- **the same events in the order of the class**;
* `Open.takes`, `open_of_accept`, `open_of_toCome` -- one event is taken exactly if it is of the
  kind that comes next in its table;
* `KindsAgree`, `acceptAll_paired`, `kindsAgree_of_acceptAll` -- **all events are told in the places
  of the spots** exactly if they are of their kinds, table by table;
* `revised_arranged` -- a revision that succeeded is one of the arranged events.
-/

namespace ClassAccess

open Outcome

/-! ## 1. Tables -/

/-- What the events of a class are told of, each in an order of its own. -/
inductive Table
  | header
  | innerClasses
  | fields
  | methods
  | ending
  deriving DecidableEq, Repr

/-- The table that an event of some kind belongs to. -/
def EventKind.table : EventKind → Table
  | .header => .header
  | .innerClass => .innerClasses
  | .field => .fields
  | .method | .call | .dynamicCall => .methods
  | .finish => .ending

/-- The table of a spot. -/
def Spot.table (spot : Spot) : Table := spot.event.kind.table

/-- The tables of a class in order. -/
def Table.all : List Table := [.header, .innerClasses, .fields, .methods]

/-- **Events in the order of the class**, without those that only end it. -/
def Event.arranged (events : List Event) : List Event :=
  Table.all.flatMap fun table => events.filter (·.kind.table = table)

theorem Spot.table_mem_all (spot : Spot) : spot.table ∈ Table.all := by
  cases spot <;> simp [Spot.table, Spot.event, Event.kind, EventKind.table, Table.all]

/-- What stands in front of an element and is of another table does not matter to a table. -/
theorem filter_append_cons {front : List Spot} {spot : Spot}
    (h : ∀ s ∈ front, s.table ≠ spot.table) (rest : List Spot) (table : Table) :
    (front ++ spot :: rest).filter (·.table = table) =
      (spot :: (front ++ rest)).filter (·.table = table) := by
  by_cases ht : spot.table = table
  · have hfront : front.filter (·.table = table) = [] :=
      List.filter_eq_nil_iff.2 fun s hs he => h s hs ((of_decide_eq_true he).trans ht.symm)
    simp only [List.filter_append, List.filter_cons, hfront, List.nil_append]
  · simp only [List.filter_append, List.filter_cons, ht, decide_false, Bool.false_eq_true, if_false]

/-- Spots of one table are all of that table, and none of another one. -/
theorem filter_of_forall {spots : List Spot} {table : Table} (h : ∀ s ∈ spots, s.table = table)
    (other : Table) : spots.filter (·.table = other) = if table = other then spots else [] := by
  split
  · rename_i he
    exact List.filter_eq_self.2 fun s hs => decide_eq_true ((h s hs).trans he)
  · rename_i he
    exact List.filter_eq_nil_iff.2 fun s hs hd =>
      he ((h s hs).symm.trans (of_decide_eq_true hd))

theorem table_innerClass {is : List (Placed InnerClass)} :
    ∀ s ∈ is.map Spot.innerClass, s.table = .innerClasses := by
  intro s hs
  obtain ⟨p, -, rfl⟩ := List.mem_map.1 hs
  rfl

theorem table_field {fs : List (Placed FieldDeclaration)} :
    ∀ s ∈ fs.map Spot.field, s.table = .fields := by
  intro s hs
  obtain ⟨p, -, rfl⟩ := List.mem_map.1 hs
  rfl

theorem table_methods {ms : List MethodLayout} :
    ∀ s ∈ ms.flatMap MethodLayout.spots, s.table = .methods := by
  intro s hs
  obtain ⟨m, -, hs⟩ := List.mem_flatMap.1 hs
  rcases List.mem_cons.1 hs with rfl | hs
  · rfl
  · obtain ⟨c, -, rfl⟩ := List.mem_map.1 hs
    cases c <;> rfl

/-- The spots of a class are those of its tables, one after the other. -/
theorem Layout.spots_eq_flatMap (l : Layout) :
    Table.all.flatMap (fun table => l.spots.filter (·.table = table)) = l.spots := by
  have hheader : ∀ s ∈ [Spot.header l.header], s.table = .header := by
    intro s hs
    rw [List.mem_singleton.1 hs]
    rfl
  have hspots : l.spots = [Spot.header l.header] ++ (l.innerClasses.map .innerClass
      ++ (l.fields.map .field ++ l.methods.flatMap MethodLayout.spots)) := by
    rw [spots, List.append_assoc, List.singleton_append]
  rw [hspots]
  simp only [List.filter_append, filter_of_forall hheader, filter_of_forall table_innerClass,
    filter_of_forall table_field, filter_of_forall table_methods, Table.all, List.flatMap_cons,
    List.flatMap_nil, reduceCtorEq, if_true, if_false, List.append_nil, List.nil_append]

/-! ## 2. One event -/

namespace Revision

variable {r r' r₁ : Revision} {e : Event} {events : List Event}

/-- What becomes of an event that is taken, `r'` coming after `r`: it makes its changes in the place
    of a spot that was the next one of its table; `r₁` is `r` with the spot behind it. -/
structure Takes (r : Revision) (e : Event) (spot : Spot) (r₁ r' : Revision) : Prop where
  kind : e.kind = spot.event.kind
  fault : r₁.fault = none
  layout : r₁.layout = r.layout
  remaining : ∀ table, r.remaining.filter (·.table = table) =
    (spot :: r₁.remaining).filter (·.table = table)
  carries : r'.Carries r₁ (r.draft.applyAll (spot.changes e))

/-- Whether an event of some kind is the next one of its table. -/
inductive Open (r : Revision) : EventKind → Prop
  | header (h : r.headerSeen = false) : Open r .header
  | innerClass (p : Placed InnerClass) (rest : List (Placed InnerClass))
      (h : r.innerClasses = p :: rest) : Open r .innerClass
  | field (p : Placed FieldDeclaration) (rest : List (Placed FieldDeclaration))
      (h : r.fields = p :: rest) : Open r .field
  | method (m : MethodLayout) (rest : List MethodLayout) (hidle : r.Idle)
      (h : r.methods = m :: rest) : Open r .method
  | call (m : MethodLayout) (p : Placed Call) (rest : List PlacedCall)
      (h : r.current = some (m, .direct p :: rest)) : Open r .call
  | dynamicCall (m : MethodLayout) (before : DynamicCall) (entry : BootstrapEntry)
      (rest : List PlacedCall) (h : r.current = some (m, .dynamic before entry :: rest)) :
      Open r .dynamicCall

/-- The header, as far as it is still to come. -/
theorem table_remaining_header (r : Revision) :
    ∀ s ∈ (if r.headerSeen then [] else [Spot.header r.layout.header]), s.table = .header := by
  intro s hs
  split at hs
  · cases hs
  · rw [List.mem_singleton.1 hs]
    rfl

/-- What is to come in front of the methods is of other tables. -/
theorem table_remaining_front (r : Revision) (spot : Spot) (hs : spot.table = .methods) :
    ∀ s ∈ (if r.headerSeen then [] else [.header r.layout.header]) ++
      (r.innerClasses.map Spot.innerClass ++ r.fields.map Spot.field), s.table ≠ spot.table := by
  intro s h
  rw [hs]
  rcases List.mem_append.1 h with h | h
  · rw [r.table_remaining_header s h]
    decide
  · rcases List.mem_append.1 h with h | h
    · rw [table_innerClass s h]
      decide
    · rw [table_field s h]
      decide

/-- What is still to come, cut in front of the calls. -/
theorem remaining_eq (r : Revision) :
    r.remaining = ((if r.headerSeen then [] else [.header r.layout.header]) ++
      (r.innerClasses.map Spot.innerClass ++ r.fields.map Spot.field)) ++
        ((r.current.elim [] fun c => c.2.map PlacedCall.spot) ++
          r.methods.flatMap MethodLayout.spots) := by
  unfold remaining
  simp only [List.append_assoc]

/-- The next call is behind. -/
theorem remaining_call {m : MethodLayout} {c : PlacedCall} {rest : List PlacedCall}
    (h : r.current = some (m, c :: rest)) (table : Table) :
    r.remaining.filter (·.table = table) =
      (c.spot :: ({ r with current := some (m, rest) } : Revision).remaining).filter
        (·.table = table) := by
  rw [remaining_eq, remaining_eq, h]
  exact filter_append_cons (r.table_remaining_front c.spot (by cases c <;> rfl)) _ table

/-- The next field is behind. -/
theorem remaining_field {p : Placed FieldDeclaration} {rest : List (Placed FieldDeclaration)}
    (h : r.fields = p :: rest) (table : Table) :
    r.remaining.filter (·.table = table) =
      (.field p :: ({ r with fields := rest } : Revision).remaining).filter (·.table = table) := by
  have hfront : ∀ s ∈ (if r.headerSeen then [] else [.header r.layout.header]) ++
      r.innerClasses.map Spot.innerClass, s.table ≠ (Spot.field p).table := by
    intro s hs
    rcases List.mem_append.1 hs with hs | hs
    · rw [r.table_remaining_header s hs]
      exact fun h => nomatch h
    · rw [table_innerClass s hs]
      exact fun h => nomatch h
  have hnext := filter_append_cons hfront (rest.map Spot.field ++
    ((r.current.elim [] fun c => c.2.map PlacedCall.spot) ++
      r.methods.flatMap MethodLayout.spots)) table
  rw [List.append_assoc, List.append_assoc] at hnext
  unfold remaining
  rw [h]
  exact hnext

/-- **An event for which there is a next spot is taken for it.** -/
theorem Open.takes (hr : r.fault = none) (h : r.Open e.kind) :
    ∃ spot r₁, r.Takes e spot r₁ (r.accept e) := by
  unfold accept
  rw [andThen_of_fault hr]
  cases e with
  | header x =>
      cases h with
      | header hseen =>
          refine ⟨.header r.layout.header, { r with headerSeen := true }, rfl, hr, rfl,
            fun table => ?_, carries_acceptHeader hseen x⟩
          unfold remaining
          rw [hseen]
          rfl
  | innerClass x =>
      cases h with
      | innerClass p rest hi =>
          refine ⟨.innerClass p, { r with innerClasses := rest }, rfl, hr, rfl, fun table => ?_,
            carries_acceptInnerClass hi x⟩
          unfold remaining
          rw [hi]
          refine filter_append_cons (fun s hs => ?_) _ table
          rw [r.table_remaining_header s hs]
          exact fun h => nomatch h
  | field x =>
      cases h with
      | field p rest hf =>
          exact ⟨.field p, { r with fields := rest }, rfl, hr, rfl, remaining_field hf,
            carries_acceptField hf x⟩
  | method x =>
      cases h with
      | method m rest hidle hm =>
          refine ⟨.method m.declaration, { r with methods := rest, current := some (m, m.calls) },
            rfl, hr, rfl, fun table => ?_, carries_acceptMethod hidle hm x⟩
          rw [remaining_eq, remaining_eq, hidle.calls, hm]
          exact filter_append_cons (r.table_remaining_front (.method m.declaration) rfl) _ table
  | call x =>
      cases h with
      | call m p rest hc =>
          exact ⟨.call p, { r with current := some (m, rest) }, rfl, hr, rfl, remaining_call hc,
            carries_acceptCall hc x⟩
  | dynamicCall x =>
      cases h with
      | dynamicCall m before entry rest hc =>
          exact ⟨.dynamicCall before entry, { r with current := some (m, rest) }, rfl, hr, rfl,
            remaining_call hc, carries_acceptDynamicCall hr hc x⟩
  | finish => cases h

theorem fail_fault_ne (r : Revision) (fault : Fault) : (r.fail fault).fault ≠ none :=
  fun h => nomatch h

theorem idle_of_callsComplete (h : r.callsComplete = .ok ()) : r.Idle := by
  intro m cs hc
  unfold callsComplete complete at h
  rw [hc] at h
  simp only at h
  split at h
  · rename_i hlen
    exact List.length_eq_zero_iff.1 hlen
  · cases h

/-- A call is taken where one is to come. -/
theorem exists_of_nextCall {f : Revision → PlacedCall → Revision}
    (hok : (r.nextCall f).fault = none) : ∃ m c rest, r.current = some (m, c :: rest) ∧
      (f { r with current := some (m, rest) } c).fault = none := by
  unfold nextCall at hok
  split at hok
  · exact absurd hok (fail_fault_ne _ _)
  · exact absurd hok (fail_fault_ne _ _)
  · exact ⟨_, _, _, by assumption, hok⟩

/-- **An event that is taken without a fault is for a next spot.** -/
theorem open_of_accept (hr : r.fault = none) (hne : e.kind ≠ .finish)
    (hok : (r.accept e).fault = none) : r.Open e.kind := by
  unfold accept at hok
  rw [andThen_of_fault hr] at hok
  cases e with
  | header x =>
      cases hseen : r.headerSeen with
      | false => exact .header hseen
      | true =>
          simp only [acceptHeader, hseen, if_true] at hok
          exact absurd hok (fail_fault_ne _ _)
  | innerClass x =>
      cases hi : r.innerClasses with
      | cons p rest => exact .innerClass p rest hi
      | nil =>
          simp only [acceptInnerClass, hi] at hok
          exact absurd hok (fail_fault_ne _ _)
  | field x =>
      cases hf : r.fields with
      | cons p rest => exact .field p rest hf
      | nil =>
          simp only [acceptField, hf] at hok
          exact absurd hok (fail_fault_ne _ _)
  | method x =>
      cases hc : r.callsComplete with
      | error fault =>
          simp only [acceptMethod, hc] at hok
          exact absurd hok (fail_fault_ne _ _)
      | ok =>
          cases hm : r.methods with
          | cons m rest => exact .method m rest (idle_of_callsComplete hc) hm
          | nil =>
              simp only [acceptMethod, hc, hm] at hok
              exact absurd hok (fail_fault_ne _ _)
  | call x =>
      obtain ⟨m, c, rest, hcurrent, hok⟩ := exists_of_nextCall hok
      cases c with
      | direct p => exact .call m p rest hcurrent
      | dynamic => exact absurd hok (fail_fault_ne _ _)
  | dynamicCall x =>
      obtain ⟨m, c, rest, hcurrent, hok⟩ := exists_of_nextCall hok
      cases c with
      | direct => exact absurd hok (fail_fault_ne _ _)
      | dynamic before entry => exact .dynamicCall m before entry rest hcurrent
  | finish => exact absurd rfl hne

/-- What is to come of a table. -/
def toCome (r : Revision) : Table → List Spot
  | .header => if r.headerSeen then [] else [.header r.layout.header]
  | .innerClasses => r.innerClasses.map .innerClass
  | .fields => r.fields.map .field
  | .methods => (r.current.elim [] fun c => c.2.map PlacedCall.spot) ++
      r.methods.flatMap MethodLayout.spots
  | .ending => []

theorem table_calls (r : Revision) :
    ∀ s ∈ (r.current.elim [] fun c => c.2.map PlacedCall.spot), s.table = .methods := by
  intro s hs
  cases hc : r.current with
  | none =>
      rw [hc] at hs
      cases hs
  | some c =>
      rw [hc] at hs
      obtain ⟨c, -, rfl⟩ := List.mem_map.1 hs
      cases c <;> rfl

/-- What is to come is so table by table. -/
theorem filter_remaining (r : Revision) (table : Table) :
    r.remaining.filter (·.table = table) = r.toCome table := by
  unfold remaining toCome
  simp only [List.filter_append, filter_of_forall r.table_remaining_header,
    filter_of_forall table_innerClass, filter_of_forall table_field,
    filter_of_forall r.table_calls, filter_of_forall table_methods]
  cases table <;> simp only [reduceCtorEq, if_true, if_false, List.append_nil, List.nil_append]

/-- Of the methods, either a declaration comes next or a call of the method under way. -/
theorem toCome_methods_cases {spot : Spot} {rest : List Spot}
    (h : r.toCome .methods = spot :: rest) :
    (∃ m ms, r.Idle ∧ r.methods = m :: ms ∧ spot = .method m.declaration) ∨
      ∃ m c cs, r.current = some (m, c :: cs) ∧ spot = c.spot := by
  unfold toCome at h
  by_cases hidle : r.Idle
  · simp only [hidle.calls, List.nil_append] at h
    cases hm : r.methods with
    | nil =>
        rw [hm] at h
        cases h
    | cons m ms =>
        rw [hm] at h
        cases h
        exact .inl ⟨m, ms, hidle, rfl, rfl⟩
  · unfold Idle at hidle
    push Not at hidle
    obtain ⟨m, cs, hc, hne⟩ := hidle
    obtain ⟨c, cs, rfl⟩ := List.exists_cons_of_ne_nil hne
    simp only [hc] at h
    cases h
    exact .inr ⟨m, c, cs, hc, rfl⟩

/-- **An event of the kind that comes next in its table is for a next spot.** -/
theorem open_of_toCome {kind : EventKind} {spot : Spot} {rest : List Spot}
    (h : r.toCome kind.table = spot :: rest) (hk : kind = spot.event.kind) : r.Open kind := by
  have hmethods : r.toCome .methods = spot :: rest → r.Open spot.event.kind := by
    intro h
    rcases toCome_methods_cases h with ⟨m, ms, hidle, hm, rfl⟩ | ⟨m, c, cs, hc, rfl⟩
    · exact .method m ms hidle hm
    · cases c with
      | direct p => exact .call m p cs hc
      | dynamic before entry => exact .dynamicCall m before entry cs hc
  cases kind with
  | header =>
      refine .header ?_
      cases hs : r.headerSeen with
      | false => rfl
      | true =>
          simp only [EventKind.table, toCome, hs, if_true] at h
          cases h
  | innerClass =>
      cases hi : r.innerClasses with
      | cons p ps => exact .innerClass p ps hi
      | nil =>
          simp only [EventKind.table, toCome, hi, List.map_nil] at h
          cases h
  | field =>
      cases hf : r.fields with
      | cons p ps => exact .field p ps hf
      | nil =>
          simp only [EventKind.table, toCome, hf, List.map_nil] at h
          cases h
  | method | call | dynamicCall => exact hk ▸ hmethods h
  | finish => cases h

/-! ## 3. All events -/

/-- Whether events are of the kinds of spots, table by table. -/
def KindsAgree (events : List Event) (spots : List Spot) : Prop :=
  ∀ table ∈ Table.all, (events.filter (·.kind.table = table)).map Event.kind =
    (spots.filter (·.table = table)).map (·.event.kind)

/-- An event that belongs to no table makes no difference. -/
theorem kindsAgree_cons_finish {spots : List Spot} (he : e.kind = .finish) :
    KindsAgree (e :: events) spots ↔ KindsAgree events spots := by
  refine forall₂_congr fun table ht => ?_
  rw [List.filter_cons_of_neg]
  rw [he, decide_eq_true_eq]
  rintro rfl
  simp [Table.all, EventKind.table] at ht

/-- An event and a spot of its kind that come first make no difference. -/
theorem kindsAgree_cons {spot : Spot} {spots rest : List Spot} (hk : e.kind = spot.event.kind)
    (hspots : ∀ table, spots.filter (·.table = table) = (spot :: rest).filter (·.table = table)) :
    KindsAgree (e :: events) spots ↔ KindsAgree events rest := by
  refine forall₂_congr fun table _ => ?_
  rw [hspots, List.filter_cons, List.filter_cons, hk]
  change List.map Event.kind (if decide (spot.table = table) = true then _ else _) =
    List.map _ (if decide (spot.table = table) = true then _ else _) ↔ _
  split
  · rw [List.map_cons, List.map_cons, hk, List.cons_inj_right]
  · rfl

/-- Events with the spots in whose places they are told, as they come. -/
structure Paired (spots : List Spot) (events : List Event) (told : List (Spot × Event)) : Prop where
  events : told.map Prod.snd = events.filter (·.kind ≠ .finish)
  kinds : ∀ p ∈ told, p.2.kind = p.1.event.kind
  spots : ∀ table, spots.filter (·.table = table) =
    (told.map Prod.fst).filter (·.table = table)

theorem accept_of_finish (he : e.kind = .finish) : r.accept e = r := by
  cases e
  case finish => exact r.accept_finish
  all_goals cases he

theorem fault_of_acceptAll (hok : (r.acceptAll events).fault = none) : r.fault = none := by
  cases hr : r.fault with
  | none => rfl
  | some fault =>
      rw [acceptAll_of_fault hr, hr] at hok
      cases hok

/-- Where nothing is to come of any table, nothing is to come. -/
theorem eq_nil_of_kindsAgree {spots : List Spot} (h : KindsAgree [] spots) : spots = [] := by
  refine List.eq_nil_iff_forall_not_mem.2 fun s hs => ?_
  have htable := h s.table s.table_mem_all
  rw [List.filter_nil, List.map_nil, eq_comm, List.map_eq_nil_iff, List.filter_eq_nil_iff] at htable
  exact htable s hs (decide_eq_true rfl)

/-- An event of the kind that comes next in its table is taken. -/
theorem exists_takes (hr : r.fault = none) (hk : KindsAgree (e :: events) r.remaining)
    (hne : e.kind ≠ .finish) : ∃ spot r₁, r.Takes e spot r₁ (r.accept e) := by
  have htable : e.kind.table ∈ Table.all := by
    cases he : e.kind <;> simp_all [EventKind.table, Table.all]
  have hnext := hk e.kind.table htable
  rw [List.filter_cons, if_pos (decide_eq_true rfl), List.map_cons, filter_remaining] at hnext
  obtain ⟨spot, rest, hcome, hkind, -⟩ := List.map_eq_cons_iff.1 hnext.symm
  exact Open.takes hr (open_of_toCome hcome hkind.symm)

/-- **Events of the right kinds make their changes**, whatever the order of the tables. -/
theorem acceptAll_paired (hr : r.fault = none) (hk : KindsAgree events r.remaining) :
    ∃ told, Paired r.remaining events told ∧ (r.acceptAll events).Comes r.layout []
      (r.draft.applyAll (told.flatMap fun p => p.1.changes p.2)) := by
  induction events generalizing r with
  | nil =>
      have hnil := eq_nil_of_kindsAgree hk
      refine ⟨[], ⟨rfl, fun _ h => absurd h List.not_mem_nil, fun _ => ?_⟩, rfl, hnil, hr, rfl⟩
      rw [hnil, List.map_nil]
  | cons e events ih =>
      by_cases hne : e.kind = .finish
      · obtain ⟨told, htold, hcomes⟩ := ih hr ((kindsAgree_cons_finish hne).1 hk)
        refine ⟨told, ⟨htold.events.trans ?_, htold.kinds, htold.spots⟩, ?_⟩
        · rw [List.filter_cons_of_neg]
          rw [hne]
          decide
        · show ((r.accept e).acceptAll events).Comes _ _ _
          rw [accept_of_finish hne]
          exact hcomes
      · obtain ⟨spot, r₁, htakes⟩ := exists_takes hr hk hne
        have hk₁ := (kindsAgree_cons htakes.kind htakes.remaining).1 hk
        have hpaired : ∀ {told}, Paired r₁.remaining events told →
            Paired r.remaining (e :: events) ((spot, e) :: told) := by
          intro told htold
          refine ⟨?_, List.forall_mem_cons.2 ⟨htakes.kind, htold.kinds⟩, fun table => ?_⟩
          · rw [List.map_cons, htold.events, List.filter_cons, if_pos (decide_eq_true hne)]
          · rw [htakes.remaining, List.map_cons, List.filter_cons, List.filter_cons, htold.spots]
        have hcarries := htakes.carries
        change ∃ told, _ ∧ ((r.accept e).acceptAll events).Comes _ _ _
        cases hd : r.draft.applyAll (spot.changes e) with
        | error fault =>
            -- the rest is not looked at, but it has its places all the same
            obtain ⟨told, htold, -⟩ := ih htakes.fault hk₁
            refine ⟨(spot, e) :: told, hpaired htold, ?_⟩
            rw [hd] at hcarries
            rw [acceptAll_of_fault hcarries, List.flatMap_cons, Draft.applyAll_append, hd]
            exact hcarries
        | ok d =>
            rw [hd] at hcarries
            obtain ⟨told, htold, hcomes⟩ := ih
              (r := { r₁ with pool := d.pool, patches := d.patches }) htakes.fault hk₁
            refine ⟨(spot, e) :: told, hpaired htold, ?_⟩
            rw [show r.accept e = _ from hcarries, List.flatMap_cons, Draft.applyAll_append, hd,
              ← htakes.layout]
            exact hcomes

theorem Carries.remaining_of_fault {x : Except Fault Draft} (h : r'.Carries r₁ x)
    (hok : r'.fault = none) : r'.remaining = r₁.remaining := by
  cases x with
  | error fault =>
      rw [show r'.fault = some fault from h] at hok
      cases hok
  | ok d =>
      rw [show r' = { r₁ with pool := d.pool, patches := d.patches } from h]
      rfl

/-- **Where all events were taken and nothing is to come, they were of the right kinds.** -/
theorem kindsAgree_of_acceptAll (hok : (r.acceptAll events).fault = none)
    (hend : (r.acceptAll events).remaining = []) : KindsAgree events r.remaining := by
  induction events generalizing r with
  | nil =>
      rw [show r.remaining = [] from hend]
      exact fun _ _ => rfl
  | cons e events ih =>
      have hr := fault_of_acceptAll hok
      have hok' : ((r.accept e).acceptAll events).fault = none := hok
      have hend' : ((r.accept e).acceptAll events).remaining = [] := hend
      by_cases hne : e.kind = .finish
      · rw [accept_of_finish hne] at hok' hend'
        exact (kindsAgree_cons_finish hne).2 (ih hok' hend')
      · have hacc := fault_of_acceptAll hok'
        obtain ⟨spot, r₁, htakes⟩ := (open_of_accept hr hne hacc).takes hr
        have hrest := ih hok' hend'
        rw [htakes.carries.remaining_of_fault hacc] at hrest
        exact (kindsAgree_cons htakes.kind htakes.remaining).2 hrest

/-- Where a revision got through to the end of the class, nothing is to come. -/
theorem remaining_of_check (h : r.check = .ok ()) : r.fault = none ∧ r.remaining = [] := by
  have hcomplete : ∀ {what : Counted} {toCome present : Nat},
      complete what toCome present = .ok () → toCome = 0 := by
    intro what toCome present hc
    unfold complete at hc
    split at hc
    · assumption
    · cases hc
  unfold check at h
  split at h
  · cases h
  · rename_i hfault
    split at h
    · rename_i hseen
      obtain ⟨⟨⟩, hinner, h⟩ := exists_of_bind_ok h
      obtain ⟨⟨⟩, hfields, h⟩ := exists_of_bind_ok h
      obtain ⟨⟨⟩, hmethods, hcalls⟩ := exists_of_bind_ok h
      refine ⟨hfault, ?_⟩
      unfold remaining
      rw [if_pos hseen, List.length_eq_zero_iff.1 (hcomplete hinner),
        List.length_eq_zero_iff.1 (hcomplete hfields), (idle_of_callsComplete hcalls).calls,
        List.length_eq_zero_iff.1 (hcomplete hmethods)]
      rfl
    · cases h

end Revision

/-! ## 4. The order of the class -/

namespace Layout

variable {l : Layout} {d : Draft} {made made' : List Change} {events : List Event}
  {told : List (Spot × Event)} {table : Table}

/-- An invariant of changes does not depend on their order. -/
theorem sound_congr (h : d.Sound l made) (hmem : ∀ c, c ∈ made ↔ c ∈ made') : d.Sound l made' where
  healthy := h.healthy
  grown := h.grown
  settled := fun c hc => h.settled c ((hmem c).2 hc)
  sourced := fun o p hp => by
    obtain ⟨c, hc, ha⟩ := h.sourced o p hp
    exact ⟨c, (hmem c).1 hc, ha⟩

/-- The events that only end a class belong to no table of it. -/
theorem filter_table_of_ne_finish (h : table ∈ Table.all) (events : List Event) :
    (events.filter (·.kind ≠ .finish)).filter (·.kind.table = table) =
      events.filter (·.kind.table = table) := by
  rw [List.filter_filter]
  refine List.filter_congr fun e _ => ?_
  rw [Bool.and_eq_left_iff_imp]
  intro he
  refine decide_eq_true fun hfinish => ?_
  rw [decide_eq_true_eq, hfinish] at he
  subst he
  simp [Table.all, EventKind.table] at h

/-- **Table by table, the events are told in the places of the spots.** -/
theorem filter_paired (h : Revision.Paired l.spots events told) (ht : table ∈ Table.all) :
    (told.filter (·.1.table = table)).map Prod.fst = l.spots.filter (·.table = table) ∧
      (told.filter (·.1.table = table)).map Prod.snd =
        events.filter (·.kind.table = table) := by
  constructor
  · rw [h.spots, List.filter_map]
    rfl
  · rw [← filter_table_of_ne_finish ht, ← h.events, List.filter_map]
    refine congrArg (List.map Prod.snd) (List.filter_congr fun p hp => ?_)
    rw [Function.comp_apply, h.kinds p hp]
    rfl

/-- **The changes are those that the arranged events ask for**, in another order. -/
theorem mem_changes_paired (h : Revision.Paired l.spots events told) (c : Change) :
    c ∈ (told.flatMap fun p => p.1.changes p.2) ↔
      c ∈ Spot.changesAll l.spots (Event.arranged events) := by
  -- the same pairs, table by table
  let arranged := Table.all.flatMap fun table => told.filter (·.1.table = table)
  have hfst : arranged.map Prod.fst = l.spots := by
    rw [List.map_flatMap, ← l.spots_eq_flatMap]
    exact List.flatMap_congr fun table ht => (filter_paired h ht).1
  have hsnd : arranged.map Prod.snd = Event.arranged events := by
    rw [List.map_flatMap]
    exact List.flatMap_congr fun table ht => (filter_paired h ht).2
  have hmem : ∀ p, p ∈ arranged ↔ p ∈ told := by
    intro p
    simp only [arranged, List.mem_flatMap, List.mem_filter, decide_eq_true_eq]
    exact ⟨fun ⟨_, _, hp, _⟩ => hp, fun hp => ⟨_, p.1.table_mem_all, hp, rfl⟩⟩
  have hchanges : Spot.changesAll l.spots (Event.arranged events) =
      arranged.flatMap fun p => p.1.changes p.2 := by
    rw [← hfst, ← hsnd, Spot.changesAll, List.zipWith_map, List.zipWith_self]
    rfl
  simp only [hchanges, List.mem_flatMap, hmem]

/-- Events of the right kinds, table by table, are arranged into the right kinds. -/
theorem kinds_arranged (h : Revision.KindsAgree events l.spots) :
    (Event.arranged events).map Event.kind = l.spots.map (·.event.kind) := by
  conv_rhs => rw [← l.spots_eq_flatMap]
  rw [Event.arranged, List.map_flatMap, List.map_flatMap]
  exact List.flatMap_congr h

/-- **What a revision comes to** whose events are of the right kinds, table by table. -/
theorem exists_paired (l : Layout) (h : Revision.KindsAgree events l.spots) :
    ∃ told, Revision.Paired l.spots events told ∧ l.revise events =
      l.draft.applyAll (told.flatMap fun p => p.1.changes p.2) >>= fun d => d.bytes l := by
  obtain ⟨told, htold, hcomes⟩ := Revision.acceptAll_paired (r := l.revision) rfl
    (by rw [remaining_revision]; exact h)
  rw [remaining_revision] at htold
  exact ⟨told, htold, hcomes.finish_eq⟩

/-- **A revision that succeeded was told events of the right kinds**, table by table. -/
theorem kindsAgree_of_revise {out : Bytes} (h : l.revise events = .ok out) :
    Revision.KindsAgree events l.spots := by
  obtain ⟨⟨⟩, hcheck, -⟩ := exists_of_bind_ok h
  obtain ⟨hfault, hremaining⟩ := Revision.remaining_of_check hcheck
  have hkinds := Revision.kindsAgree_of_acceptAll hfault hremaining
  rwa [remaining_revision] at hkinds

/-- The changes of the arranged events are made once those of the events as they come are. -/
theorem revised_of_paired {data : Bytes} (h : ofBytes data = .ok l)
    (hk : Revision.KindsAgree events l.spots) (htold : Revision.Paired l.spots events told)
    (hd : l.draft.applyAll (told.flatMap fun p => p.1.changes p.2) = .ok d) :
    l.Revised (Event.arranged events) d := by
  have hl := sound_of_ofBytes h
  have hdraft := Draft.sound_applyAll (Draft.sound_draft l hl.healthy) hd
  rw [List.nil_append] at hdraft
  have hsound := sound_congr hdraft (mem_changes_paired htold)
  refine ⟨⟨hl, kinds_arranged hk, fun fault hc => ?_⟩, hsound⟩
  obtain ⟨_, _, ha, -⟩ := hsound.settled _ hc
  cases ha

/-- **A revision that succeeded is one of the arranged events**: the changes it made are those that
    these ask for in the places of the spots. -/
theorem revised_arranged {data out : Bytes} (h : ofBytes data = .ok l)
    (hout : l.revise events = .ok out) :
    ∃ d made, l.Revised (Event.arranged events) d ∧ d.bytes l = .ok out ∧
      l.draft.applyAll made = .ok d ∧
        ∀ c, c ∈ made ↔ c ∈ Spot.changesAll l.spots (Event.arranged events) := by
  have hk := kindsAgree_of_revise hout
  obtain ⟨told, htold, hrun⟩ := l.exists_paired hk
  rw [hrun] at hout
  obtain ⟨d, hd, hbytes⟩ := exists_of_bind_ok hout
  exact ⟨d, _, revised_of_paired h hk htold hd, hbytes, hd, mem_changes_paired htold⟩

end Layout

end ClassAccess
