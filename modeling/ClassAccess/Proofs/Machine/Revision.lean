import ClassAccess.Machine.Revision
import ClassAccess.Proofs.Machine.Layout

/-!
# Events taken without a trap

A machine that revises a class counts the rows that were told, where a revision holds those that are
to come. Both go on alike, whatever the events and their order:

* `intern_agrees` -- entries of a pool that has room are found and added by numbers of two bytes;
* `Ahead` -- what is to come of a table, by the number of its rows that were told, and
  `Ahead.nextRow` -- its next row, found by this number;
* `IndexedRevision.Tracks` -- **the invariant**: the numbers of a machine stand for what is to come;
* `Tracks.accept` -- **one event** keeps to it, and `Tracks.acceptAll` -- any number of them does;
* `Tracks.check_eq` -- whether all of the class was told.
-/

namespace ClassAccess

open Machine (of words sum sum_eq nth_eq narrow_eq done_bind)
open Outcome

/-! ## 1. Entries of the pool -/

namespace Machine

variable {pool : ConstantPool} {c : Constant}

theorem find?_eq (h : pool.Healthy) : find? pool c = done (pool.find? c) := by
  have hbounded := h.bounded
  unfold find? ConstantPool.find?
  cases hk : pool.slots.findIdx? (· == c) with
  | none => rfl
  | some k =>
      obtain ⟨hlt, -⟩ := Array.findIdx?_eq_some_iff_getElem.1 hk
      unfold ConstantPool.count ConstantPool.capacity at hbounded
      cases k with
      | zero => rfl
      | succ k =>
          simp only
          rw [narrow_eq (by omega)]
          rfl

variable [Words]

theorem push_agrees (h : pool.Healthy) :
    (push pool c).Agrees (pool.push c) fun p q => p = q ∧ q.2.Healthy := by
  have hbounded := h.bounded
  have hslots := c.slots_bounds
  unfold ConstantPool.capacity at hbounded
  unfold push ConstantPool.push ConstantPool.overflow?
  rw [sum_eq (lt_words (by omega)), done_bind]
  simp only
  split
  · rfl
  · rename_i hroom
    rw [narrow_eq (by omega)]
    exact ⟨_, rfl, rfl, h.add (Nat.not_lt.1 hroom)⟩

/-- **An entry is found or added without a trap**, and words of two bytes still do for the pool. -/
theorem intern_agrees (h : pool.Healthy) :
    (intern pool c).Agrees (pool.intern c) fun p q => p = q ∧ q.2.Healthy := by
  unfold intern ConstantPool.intern
  rw [find?_eq h, done_bind]
  cases pool.find? c with
  | none => exact push_agrees h
  | some index => exact ⟨_, rfl, rfl, h⟩

end Machine

/-! ## 2. What is to come -/

/-- Of a table some rows were told, and others are to come. -/
structure Ahead {α : Type} (rows : List α) (told : Nat) (toCome : List α) : Prop where
  le : told ≤ rows.length
  eq : toCome = rows.drop told

/-- The next row of a table: on a machine the one whose number is that of the rows told, where
    otherwise it is the first one to come. -/
inductive NextRow [Words] {α β : Type} (R : α → β → Prop) (rows : List α) (rows' : List β)
    (told : Nat) : List β → Prop
  | none (get : rows[told]? = none) : NextRow R rows rows' told []
  | some (a : α) (b : β) (rest : List β) (get : rows[told]? = some a)
      (row : rows'[told]? = some b) (tells : R a b) (count : sum told 1 = .done (told + 1))
      (next : Ahead rows' (told + 1) rest) :
      NextRow R rows rows' told (b :: rest)

namespace Ahead

variable {α β : Type} {rows toCome : List α} {told : Nat}

theorem start (rows : List α) : Ahead rows 0 rows := ⟨Nat.zero_le _, rfl⟩

theorem length_eq (h : Ahead rows told toCome) : toCome.length = rows.length - told := by
  rw [h.eq, List.length_drop]

/-- **The next row is found by its number, and told**, as long as the rows can be counted. -/
theorem nextRow [Words] {R : β → α → Prop} {indexed : List β} (h : Ahead rows told toCome)
    (htells : List.Forall₂ R indexed rows) (hcount : rows.length < words) :
    NextRow R indexed rows told toCome := by
  cases toCome with
  | nil =>
      have hend := List.drop_eq_nil_iff.1 h.eq.symm
      exact .none (List.getElem?_eq_none (htells.length_eq ▸ hend))
  | cons b rest =>
      have hlt := Machine.lt_of_drop h.eq.symm
      have hb : rows[told]? = some b := Machine.getElem?_of_drop h.eq.symm 0
      obtain ⟨a, ha, hr⟩ := exists_getElem?_of_forall₂ htells hb
      refine .some a b rest ha hb hr (sum_eq (by omega)) ⟨by omega, ?_⟩
      rw [← List.drop_drop, ← h.eq, List.drop_succ_cons, List.drop_zero]

end Ahead

/-- The method under way, by the number of the next method and the number of its calls that were
    told. -/
inductive UnderWay (methods : List MethodLayout) :
    (nextMethod nextCall : Nat) → Option (MethodLayout × List PlacedCall) → Prop
  | none (nextCall : Nat) : UnderWay methods 0 nextCall none
  | some (last nextCall : Nat) (method : MethodLayout) (toCome : List PlacedCall)
      (get : methods[last]? = some method) (ahead : Ahead method.calls nextCall toCome) :
      UnderWay methods (last + 1) nextCall (some (method, toCome))

namespace IndexedRevision

variable [Words]

/-- **The numbers of a machine stand for what is to come of a revision.** -/
structure Tracks (w : IndexedRevision) (r : Revision) : Prop where
  layout : w.layout.Tells r.layout
  countable : r.layout.Countable
  healthy : r.pool.Healthy
  pool : w.pool = r.pool
  patches : w.patches = r.patches
  headerSeen : w.headerSeen = r.headerSeen
  fault : w.fault = r.fault
  innerClasses : Ahead r.layout.innerClasses w.nextInnerClass r.innerClasses
  fields : Ahead r.layout.fields w.nextField r.fields
  methods : Ahead r.layout.methods w.nextMethod r.methods
  current : UnderWay r.layout.methods w.nextMethod w.nextCall r.current

/-- Steps of a machine end without a trap, and where a revision is. -/
def Follows (x : Machine IndexedRevision) (r : Revision) : Prop := ∃ w, x = .done w ∧ w.Tracks r

variable {w : IndexedRevision} {r : Revision}

theorem Tracks.follows (h : w.Tracks r) : Follows (pure w) r := ⟨w, rfl, h⟩

theorem Follows.bind {x : Machine IndexedRevision} {f : IndexedRevision → Machine IndexedRevision}
    {r' : Revision} (h : Follows x r) (hf : ∀ w, w.Tracks r → Follows (f w) r') :
    Follows (x >>= f) r' := by
  obtain ⟨w, rfl, hw⟩ := h
  exact hf w hw

theorem Follows.ite {c : Prop} [Decidable c] {x y : Machine IndexedRevision} {r' : Revision}
    (hx : Follows x r) (hy : Follows y r') :
    Follows (if c then x else y) (if c then r else r') := by
  split
  · exact hx
  · exact hy

namespace Tracks

theorem fail (h : w.Tracks r) (fault : Fault) : (w.fail fault).Tracks (r.fail fault) :=
  { h with fault := rfl }

theorem patch (h : w.Tracks r) (offset : Nat) (p : Patch) :
    (w.patch offset p).Tracks (r.patch offset p) := by
  have hrevised : IndexedRevision.Tracks { w with patches := w.patches.insert offset p }
      { r with patches := r.patches.insert offset p } :=
    { h with patches := by rw [h.patches] }
  unfold IndexedRevision.patch Revision.patch
  rw [h.patches]
  rw [h.patches] at hrevised
  cases r.patches[offset]? with
  | none => exact hrevised
  | some earlier =>
      simp only
      split
      · exact hrevised
      · exact hrevised.fail _

theorem setAccess (h : w.Tracks r) (offset : Nat) (before after : AccessFlags) :
    (w.setAccess offset before after).Tracks (r.setAccess offset before after) := by
  unfold IndexedRevision.setAccess Revision.setAccess
  split
  · exact h
  · exact h.patch _ _

theorem andThen {f : IndexedRevision → Machine IndexedRevision} {g : Revision → Revision}
    (h : w.Tracks r) (hfg : Follows (f w) (g r)) : Follows (w.andThen f) (r.andThen g) := by
  unfold IndexedRevision.andThen Revision.andThen
  rw [h.fault]
  exact h.follows.ite hfg

/-! ## 3. Declarations -/

theorem acceptHeader (h : w.Tracks r) (header : Header) :
    (w.acceptHeader header).Tracks (r.acceptHeader header) := by
  have hseen : IndexedRevision.Tracks { w with headerSeen := true } { r with headerSeen := true } :=
    { h with headerSeen := rfl }
  unfold IndexedRevision.acceptHeader Revision.acceptHeader
  simp only [h.headerSeen, h.layout.header]
  split
  · exact h.fail _
  · split
    · exact hseen.setAccess _ _ _
    · exact hseen.fail _

theorem acceptInnerClass (h : w.Tracks r) (record : InnerClass) :
    Follows (w.acceptInnerClass record) (r.acceptInnerClass record) := by
  have hrows : List.Forall₂ Eq w.layout.innerClasses r.layout.innerClasses := by
    rw [h.layout.innerClasses]
    exact List.forall₂_refl _
  have hnext := h.innerClasses.nextRow hrows h.countable.innerClasses
  unfold IndexedRevision.acceptInnerClass Revision.acceptInnerClass
  generalize r.innerClasses = toCome at hnext
  cases hnext with
  | none get =>
      rw [get]
      exact (h.fail _).follows
  | some p _ rest get _ tells count next =>
      subst tells
      have htold : IndexedRevision.Tracks { w with nextInnerClass := w.nextInnerClass + 1 }
          { r with innerClasses := rest } := { h with innerClasses := next }
      rw [get]
      simp only
      rw [count, done_bind]
      exact (htold.setAccess _ _ _).follows.ite (htold.fail _).follows

theorem acceptField (h : w.Tracks r) (declaration : FieldDeclaration) :
    Follows (w.acceptField declaration) (r.acceptField declaration) := by
  have hrows : List.Forall₂ Eq w.layout.fields r.layout.fields := by
    rw [h.layout.fields]
    exact List.forall₂_refl _
  have hnext := h.fields.nextRow hrows h.countable.fields
  unfold IndexedRevision.acceptField Revision.acceptField
  generalize r.fields = toCome at hnext
  cases hnext with
  | none get =>
      rw [get]
      exact (h.fail _).follows
  | some p _ rest get _ tells count next =>
      subst tells
      have htold : IndexedRevision.Tracks { w with nextField := w.nextField + 1 }
          { r with fields := rest } := { h with fields := next }
      rw [get]
      simp only
      rw [count, done_bind]
      exact (htold.setAccess _ _ _).follows.ite (htold.fail _).follows

omit [Words] in
theorem complete_eq {α : Type} {what : Counted} {rows toCome : List α} {told : Nat}
    (h : Ahead rows told toCome) :
    complete what told rows.length = of (Revision.complete what toCome.length rows.length) := by
  have hle := h.le
  have hlength := h.length_eq
  have htold : rows.length - toCome.length = told := by omega
  unfold complete Revision.complete
  rw [htold]
  by_cases hall : told = rows.length
  · rw [if_pos hall, if_pos (by omega)]
    rfl
  · rw [if_neg hall, if_neg (by omega)]
    rfl

/-- Whether every call of the method under way was told. -/
theorem callsComplete_eq (h : w.Tracks r) : w.callsComplete = of r.callsComplete := by
  have hcurrent := h.current
  unfold IndexedRevision.callsComplete Revision.callsComplete
  generalize w.nextMethod = next at hcurrent
  generalize r.current = now at hcurrent
  cases hcurrent with
  | none => rfl
  | some last _ method toCome get ahead =>
      obtain ⟨indexed, hindexed, htells⟩ := exists_getElem?_of_forall₂ h.layout.methods get
      simp only
      rw [nth_eq hindexed, done_bind, htells.calls.length_eq]
      exact complete_eq ahead

theorem acceptMethod (h : w.Tracks r) (declaration : MethodDeclaration) :
    Follows (w.acceptMethod declaration) (r.acceptMethod declaration) := by
  have hnext := h.methods.nextRow h.layout.methods h.countable.methods
  unfold IndexedRevision.acceptMethod Revision.acceptMethod
  rw [h.callsComplete_eq]
  cases r.callsComplete with
  | error fault => exact (h.fail _).follows
  | ok _ =>
      simp only [of, Machine.attempt, done_bind]
      generalize r.methods = toCome at hnext
      cases hnext with
      | none get =>
          rw [get]
          exact (h.fail _).follows
      | some indexed method rest get row tells count next =>
          have htold : IndexedRevision.Tracks
              { w with nextMethod := w.nextMethod + 1, nextCall := 0 }
              { r with methods := rest, current := some (method, method.calls) } :=
            { h with methods := next, current := .some _ _ _ _ row (.start _) }
          rw [get]
          simp only
          rw [count, done_bind, tells.declaration]
          exact (htold.setAccess _ _ _).follows.ite (htold.fail _).follows

/-! ## 4. Calls -/

/-- The next call of the method under way is taken on both sides, if there is one. -/
theorem withCall {f : IndexedRevision → IndexedCall → Machine IndexedRevision}
    {g : Revision → PlacedCall → Revision} (h : w.Tracks r)
    (hfg : ∀ w r c p, w.Tracks r → IndexedCall.Tells r.layout.bootstraps c p →
      Follows (f w c) (g r p)) :
    Follows (w.withCall f) (r.nextCall g) := by
  have hcurrent := h.current
  unfold IndexedRevision.withCall Revision.nextCall
  generalize hnext : w.nextMethod = next at hcurrent
  generalize hnow : r.current = now at hcurrent
  cases hcurrent with
  | none => exact (h.fail _).follows
  | some last _ method toCome get ahead =>
      obtain ⟨indexed, hindexed, htells⟩ := exists_getElem?_of_forall₂ h.layout.methods get
      simp only
      rw [nth_eq hindexed, done_bind]
      have hrow := ahead.nextRow htells.calls
        (h.countable.calls method (List.mem_of_getElem? get))
      cases hrow with
      | none hget =>
          rw [hget, htells.declaration]
          exact (h.fail _).follows
      | some c call rest hget _ hcall count next =>
          rw [hget]
          simp only
          rw [count, done_bind]
          refine hfg _ _ _ _ { h with methods := ?_, current := .some _ _ _ _ get next } hcall
          rw [← hnext]
          exact h.methods

theorem acceptCall (h : w.Tracks r) (call : Call) :
    Follows (w.acceptCall call) (r.acceptCall call) := by
  refine h.withCall fun w r c p h htells => ?_
  cases htells with
  | dynamic => exact (h.fail _).follows
  | direct placed =>
      refine (h.fail _).follows.ite (h.follows.ite ?_)
      cases Revision.kindFault? placed.value.target placed.value.kind call.kind with
      | some cause => exact (h.fail _).follows
      | none => exact (h.patch _ _).follows

theorem acceptHandle (h : w.Tracks r) (slot : Placed UInt16) (before after : Handle) :
    Follows (w.acceptHandle slot before after) (r.acceptHandle slot before after) := by
  unfold IndexedRevision.acceptHandle Revision.acceptHandle
  refine h.follows.ite ((h.fail _).follows.ite ((h.fail _).follows.ite ?_))
  rw [h.pool]
  cases hentry : r.pool.get slot.value with
  | error fault => exact (h.fail _).follows
  | ok entry =>
      cases entry
      case methodHandle kind reference =>
        have hadded := Machine.intern_agrees h.healthy
          (c := .methodHandle after.kind.code reference)
        simp only
        cases hintern : r.pool.intern (.methodHandle after.kind.code reference) with
        | error fault =>
            rw [hintern] at hadded
            rw [show Machine.intern _ _ = _ from hadded]
            exact (h.fail _).follows
        | ok entered =>
            rw [hintern] at hadded
            obtain ⟨_, hdone, heq, hhealthy⟩ := hadded
            obtain ⟨index, pool⟩ := entered
            rw [hdone, heq]
            have hgrown : IndexedRevision.Tracks { w with pool := pool }
                { r with pool := pool } := { h with pool := rfl, healthy := hhealthy }
            exact (hgrown.patch _ _).follows
      all_goals exact (h.fail _).follows

theorem acceptArgument (h : w.Tracks r) (name : String) (slot : Placed UInt16)
    (before after : BootstrapArgument) :
    Follows (w.acceptArgument name slot before after)
      (r.acceptArgument name slot before after) := by
  have hsame : Follows
      (if before = after then pure w else pure (w.fail (.unsupported (.argument name))))
      (if before = after then r else r.fail (.unsupported (.argument name))) :=
    h.follows.ite (h.fail _).follows
  cases before
  case handle before =>
      cases after
      case handle after => exact h.acceptHandle _ _ _
      all_goals exact hsame
  all_goals exact hsame

/-- **Arguments are taken on both sides** as long as there is a slot, an argument before and one
    after; the induction is on the slots. -/
theorem acceptArguments (name : String) (slots : List (Placed UInt16))
    (befores afters : List BootstrapArgument) {w : IndexedRevision} {r : Revision}
    (h : w.Tracks r) :
    Follows (IndexedRevision.acceptArguments name slots befores afters w)
      (Revision.acceptArguments name slots befores afters r) := by
  induction slots generalizing befores afters w r with
  | nil => exact h.follows
  | cons slot slots ih =>
      cases befores with
      | nil => exact h.follows
      | cons before befores =>
          cases afters with
          | nil => exact h.follows
          | cons after afters =>
              refine (h.acceptArgument name slot before after).bind fun w h => ?_
              exact h.andThen (ih befores afters h)

theorem acceptDynamicCall (h : w.Tracks r) (call : DynamicCall) :
    Follows (w.acceptDynamicCall call) (r.acceptDynamicCall call) := by
  refine h.withCall fun w r c p h htells => ?_
  cases htells with
  | direct => exact (h.fail _).follows
  | dynamic before row entry get =>
      refine (h.fail _).follows.ite ?_
      rw [h.layout.bootstraps, nth_eq get, done_bind]
      refine (h.acceptHandle entry.handle _ _).bind fun w h => ?_
      exact h.andThen (h.acceptArguments _ _ _ _)

/-! ## 5. Whole revisions -/

/-- **One event** is taken without a trap, and the numbers still stand for what is to come. -/
theorem accept (h : w.Tracks r) (event : Event) : Follows (w.accept event) (r.accept event) := by
  refine h.andThen ?_
  cases event with
  | header header => exact (h.acceptHeader header).follows
  | innerClass record => exact h.acceptInnerClass record
  | field declaration => exact h.acceptField declaration
  | method declaration => exact h.acceptMethod declaration
  | call call => exact h.acceptCall call
  | dynamicCall call => exact h.acceptDynamicCall call
  | finish => exact h.follows

/-- **Any number of events** in any order. -/
theorem acceptAll (h : w.Tracks r) (events : List Event) :
    Follows (w.acceptAll events) (r.acceptAll events) := by
  induction events generalizing w r with
  | nil => exact h.follows
  | cons event events ih =>
      exact (h.accept event).bind fun w h => ih h

/-- Whether all of the class was told. -/
theorem check_eq (h : w.Tracks r) : w.check = of r.check := by
  unfold IndexedRevision.check Revision.check
  rw [h.fault, h.headerSeen, h.layout.innerClasses, h.layout.fields, h.layout.methods.length_eq,
    h.callsComplete_eq, complete_eq h.innerClasses, complete_eq h.fields, complete_eq h.methods]
  cases r.fault with
  | some fault => rfl
  | none =>
      cases r.headerSeen
      case false => rfl
      case true => simp only [if_true, Machine.of_bind]

end Tracks

/-- Of a class that was read, nothing was told yet. -/
theorem tracks_revision {n : IndexedLayout} {l : Layout} (h : n.Tells l) (hcountable : l.Countable)
    (hhealthy : l.pool.Healthy) : n.revision.Tracks l.revision where
  layout := h
  countable := hcountable
  healthy := hhealthy
  pool := h.pool
  patches := rfl
  headerSeen := rfl
  fault := rfl
  innerClasses := .start _
  fields := .start _
  methods := .start _
  current := .none _

end IndexedRevision

end ClassAccess
