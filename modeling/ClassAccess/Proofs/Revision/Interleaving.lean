import ClassAccess.Proofs.Revision.Arrangement
import ClassAccess.Proofs.Revision.Room

/-!
# How strictly events are ordered

The events of one table of a class have to be told in the order of the class, each of them once. The
order between tables is not looked at, and it makes no difference: the handles that are added to the
pool are all asked for by one table, and the other changes do not depend on each other.

* `Change.isPoint`, `Change.grow` -- the changes for which the pool may grow; `pool_applyAll` --
  **no other change matters to the pool**;
* `Revised.consistent` -- changes that were made go together;
* `applyAll_congr` -- **the same changes in another order** make the same of a class, if those for
  which the pool may grow stay in order;
* `revise_congr` -- **the order between tables makes no difference**;
* `revise_ordered` -- a revision fails unless the events of every table are of the right kinds.
-/

namespace ClassAccess

open Outcome ConstantPool

/-! ## 1. Changes for which the pool may grow -/

namespace Change

/-- Whether a change points a slot to a handle. -/
def isPoint : Change → Bool
  | point .. => true
  | _ => false

/-- What a change makes of the pool. -/
def grow (pool : ConstantPool) : Change → Except Fault ConstantPool
  | point slot kind =>
    match pool.get slot.value with
    | .error fault => .error fault
    | .ok (.methodHandle _ reference) =>
      Prod.snd <$> pool.intern (.methodHandle kind.code reference)
    | .ok _ => .error (.mismatch slot.value .methodHandle)
  | _ => .ok pool

/-- Handles that a slot is pointed to with one patch are of one kind. -/
theorem Asks.kind_eq {pool : ConstantPool} {a : Placed UInt16} {kind kind' : HandleKind} {o : Nat}
    {p : Patch} (hpool : pool.Healthy) (h : (Change.point a kind).Asks pool o p)
    (h' : (Change.point a kind').Asks pool o p) : kind = kind' := by
  cases h with
  | point _ _ before reference index get find =>
      generalize a.offset = o at h'
      cases h' with
      | point _ _ before' reference' _ get' find' =>
          rw [get] at get'
          cases get'
          have hentry := hpool.find?_eq_some (fun hu => by cases hu) find
          rw [hpool.find?_eq_some (fun hu => by cases hu) find'] at hentry
          have hcode := (Constant.methodHandle.inj (Except.ok.inj hentry)).1
          exact (HandleKind.code_injective hcode).symm

end Change

/-- Only dynamic calls ask for handles. -/
theorem Spot.table_of_isPoint {spot : Spot} {e : Event} {c : Change} (hc : c ∈ spot.changes e)
    (hp : c.isPoint = true) : spot.table = .methods := by
  rcases Spot.mem_changes hc with ⟨cause, rfl⟩ | ⟨s, -, ⟨p, -, rfl⟩, -⟩ |
    ⟨before, entry, after, rfl, rfl⟩
  · cases hp
  · cases hp
  · rfl

namespace Draft

variable {l : Layout} {d d' : Draft} {c : Change}

theorem grow_of_apply (h : d.apply c = .ok d') : c.grow d.pool = .ok d'.pool := by
  cases c with
  | refuse fault => cases h
  | write o p => exact congrArg Except.ok (note_ok h).1.symm
  | point slot kind =>
      obtain ⟨before, reference, index, pool, hget, hintern, hnote⟩ := point_ok h
      rw [(note_ok hnote).1]
      simp only [Change.grow, hget, hintern]
      rfl

/-- **Of the changes, only those that ask for handles matter to the pool.** -/
theorem pool_applyAll {cs : List Change} (h : d.applyAll cs = .ok d') :
    (cs.filter Change.isPoint).foldlM Change.grow d.pool = .ok d'.pool := by
  induction cs generalizing d with
  | nil =>
      cases h
      rfl
  | cons c cs ih =>
      rw [applyAll_cons] at h
      obtain ⟨d₁, hd₁, hcs⟩ := exists_of_bind_ok h
      have hgrow := grow_of_apply hd₁
      rw [List.filter_cons]
      split
      · rw [List.foldlM_cons, hgrow]
        exact ih hcs
      · rename_i hp
        have hpool : d₁.pool = d.pool := by
          cases c with
          | refuse fault => cases hd₁
          | write o p => exact (note_ok hd₁).1
          | point slot kind => exact absurd rfl hp
        rw [← hpool]
        exact ih hcs

/-- Patches that are found alike are written alike. -/
theorem bytes_congr (hpool : d.pool = d'.pool)
    (hpatches : ∀ o : Nat, d.patches[o]? = d'.patches[o]?) :
    d.bytes l = d'.bytes l := by
  have hequiv : d.patches.Equiv d'.patches := Std.TreeMap.Equiv.of_forall_constGet?_eq hpatches
  have hall : Patch.applyAll d.patches l.data = Patch.applyAll d'.patches l.data := by
    unfold Patch.applyAll
    rw [hequiv.foldl_eq]
  unfold bytes Revision.bytes Revision.added
  simp only [Layout.revision, hpool, hall]
  rfl

/-- Drafts that came out of the same changes and have the same pool have the same patches. -/
theorem Sound.patches_congr {made made' : List Change} (h : d.Sound l made) (h' : d'.Sound l made')
    (hmem : ∀ c ∈ made, c ∈ made') (hpool : d.pool = d'.pool) {o : Nat} {p : Patch}
    (hp : d.patches[o]? = some p) : d'.patches[o]? = some p := by
  obtain ⟨c, hc, ha⟩ := h.sourced o p hp
  obtain ⟨o', p', ha', hp'⟩ := h'.settled c (hmem c hc)
  rw [hpool] at ha
  have ho : o = o' := Option.some.inj (ha.offset?_eq.symm.trans ha'.offset?_eq)
  subst ho
  rw [hp', ha.unique ha']

end Draft

/-! ## 2. The same changes in another order -/

namespace Layout

variable {l : Layout} {told : List Event} {d : Draft} {made made' : List Change}

/-- **Changes that were made go together**: a place has one patch, which is for handles of one
    kind. -/
theorem Revised.consistent (h : l.Revised told d) :
    Change.Consistent (Spot.changesAll l.spots told) := by
  intro c hc c' hc' ho
  rcases h.sound.eq_or_points hc hc' (h.noneRefused c hc) (h.noneRefused c' hc') ho with heq |
    ⟨a, handle, handle', kind, kind', rfl, -, rfl, -⟩
  · exact heq
  · obtain ⟨o, p, ha, hp⟩ := h.draft.settled _ hc
    obtain ⟨o', p', ha', hp'⟩ := h.draft.settled _ hc'
    have hoo : o = o' := Option.some.inj (ha.offset?_eq.symm.trans (ho.trans ha'.offset?_eq))
    subst hoo
    rw [hp] at hp'
    cases hp'
    rw [ha.kind_eq h.draft.healthy ha']

/-- The entries that changes need do not depend on their order. -/
theorem countAfter_congr (hmem : ∀ c, c ∈ made ↔ c ∈ made') :
    l.draft.countAfter l made = l.draft.countAfter l made' := by
  unfold Draft.countAfter
  have hmissing : l.draft.pool.missing (made.filterMap (Change.wanted? l.pool)) =
      l.draft.pool.missing (made'.filterMap (Change.wanted? l.pool)) := by
    ext entry
    simp only [mem_missing, List.mem_filterMap, hmem]
  rw [hmissing]

/-- **Changes that were made in one order can be made in any.** -/
theorem Revised.exists_applyAll (h : l.Revised told d) (hmade : l.draft.applyAll made = .ok d)
    (hmem : ∀ c, c ∈ made ↔ c ∈ Spot.changesAll l.spots told)
    (hmem' : ∀ c, c ∈ made' ↔ c ∈ Spot.changesAll l.spots told) :
    ∃ d', l.draft.applyAll made' = .ok d' := by
  have hcases := fun {cs : List Change} (hcs : ∀ c, c ∈ cs ↔ c ∈ Spot.changesAll l.spots told) =>
    h.sound.applyAll_cases (fun c hc => (hcs c).1 hc)
      (fun c hc => h.noneRefused c ((hcs c).1 hc))
      (fun c hc c' hc' => h.consistent c ((hcs c).1 hc) c' ((hcs c').1 hc'))
  have hsame := countAfter_congr (l := l) fun c => (hmem c).trans (hmem' c).symm
  rcases hcases hmem with ⟨hroom, -⟩ | ⟨-, hfault⟩
  · rcases hcases hmem' with ⟨-, d', hd', -⟩ | ⟨hover, -⟩
    · exact ⟨d', hd'⟩
    · omega
  · rw [hmade] at hfault
    cases hfault

/-- **The same changes in another order make the same of a class**, if those for which the pool may
    grow stay in order. -/
theorem Revised.applyAll_congr (h : l.Revised told d) (hmade : l.draft.applyAll made = .ok d)
    (hmem : ∀ c, c ∈ made ↔ c ∈ Spot.changesAll l.spots told)
    (hmem' : ∀ c, c ∈ made' ↔ c ∈ Spot.changesAll l.spots told)
    (hpoints : made.filter Change.isPoint = made'.filter Change.isPoint) :
    ∃ d', l.draft.applyAll made' = .ok d' ∧ d'.bytes l = d.bytes l := by
  obtain ⟨d', hd'⟩ := h.exists_applyAll hmade hmem hmem'
  have hpool : d.pool = d'.pool := by
    have hgrown := Draft.pool_applyAll hmade
    rw [hpoints, Draft.pool_applyAll hd'] at hgrown
    exact (Except.ok.inj hgrown).symm
  have hdraft := Draft.sound_draft l h.sound.healthy
  have hsound := Draft.sound_applyAll hdraft hmade
  have hsound' := Draft.sound_applyAll hdraft hd'
  rw [List.nil_append] at hsound hsound'
  refine ⟨d', hd', (Draft.bytes_congr hpool fun o => Option.ext fun p => ?_).symm⟩
  exact ⟨hsound.patches_congr hsound' (fun c hc => (hmem' c).2 ((hmem c).1 hc)) hpool,
    hsound'.patches_congr hsound (fun c hc => (hmem c).2 ((hmem' c).1 hc)) hpool.symm⟩

/-! ## 3. The order between tables -/

variable {events events' : List Event} {pairs pairs' : List (Spot × Event)}

/-- The handles that are asked for are asked for by one table. -/
theorem filter_isPoint (pairs : List (Spot × Event)) :
    (pairs.flatMap fun p => p.1.changes p.2).filter Change.isPoint =
      ((pairs.filter (·.1.table = .methods)).flatMap fun p => p.1.changes p.2).filter
        Change.isPoint := by
  induction pairs with
  | nil => rfl
  | cons p pairs ih =>
      rw [List.flatMap_cons, List.filter_append, ih, List.filter_cons]
      split
      · rw [List.flatMap_cons, List.filter_append]
      · rename_i hp
        rw [List.filter_eq_nil_iff.2, List.nil_append]
        exact fun c hc hpoint => hp (decide_eq_true (Spot.table_of_isPoint hc hpoint))

/-- Events that are the same table by table are told in the same places. -/
theorem filter_paired_congr (h : Revision.Paired l.spots events pairs)
    (h' : Revision.Paired l.spots events' pairs') {table : Table} (ht : table ∈ Table.all)
    (hsame : events'.filter (·.kind.table = table) = events.filter (·.kind.table = table)) :
    pairs.filter (·.1.table = table) = pairs'.filter (·.1.table = table) := by
  obtain ⟨hfst, hsnd⟩ := filter_paired h ht
  obtain ⟨hfst', hsnd'⟩ := filter_paired h' ht
  rw [List.zip_of_prod hfst hsnd, List.zip_of_prod hfst' hsnd', hsame]

/-- **The order between tables makes no difference**: events that are the same table by table make
    the same of a class. -/
theorem revise_congr {data out : Bytes} (h : ofBytes data = .ok l)
    (hsame : ∀ table ∈ Table.all,
      events'.filter (·.kind.table = table) = events.filter (·.kind.table = table))
    (hout : l.revise events = .ok out) : l.revise events' = .ok out := by
  have hk := kindsAgree_of_revise hout
  have hk' : Revision.KindsAgree events' l.spots := fun table ht => by
    rw [hsame table ht]
    exact hk table ht
  obtain ⟨pairs, hpairs, hrun⟩ := l.exists_paired hk
  obtain ⟨pairs', hpairs', hrun'⟩ := l.exists_paired hk'
  have harranged : Event.arranged events' = Event.arranged events := List.flatMap_congr hsame
  have hmem' := mem_changes_paired hpairs'
  rw [harranged] at hmem'
  have hpoints := filter_isPoint pairs
  rw [filter_paired_congr hpairs hpairs' (by decide) (hsame .methods (by decide)),
    ← filter_isPoint] at hpoints
  rw [hrun] at hout
  obtain ⟨d, hd, hbytes⟩ := exists_of_bind_ok hout
  obtain ⟨d', hd', hsame'⟩ := (revised_of_paired h hk hpairs hd).applyAll_congr hd
    (mem_changes_paired hpairs) hmem' hpoints
  rw [hrun', hd']
  exact hsame'.trans hbytes

/-- **How strictly events are ordered.** A revision fails if of some table of the class the events
    are not of the right kinds in the right order: one is missing, or told twice, or one too many,
    or told out of its turn. The order between tables does not matter: the same events in the same
    order table by table make the same of a class. -/
theorem revise_ordered {data : Bytes} (h : ofBytes data = .ok l) (events : List Event) :
    ((∃ table ∈ Table.all, (events.filter (·.kind.table = table)).map Event.kind ≠
        (l.events.filter (·.kind.table = table)).map Event.kind) →
      ∃ fault, l.revise events = .error fault) ∧
    ∀ events', (∀ table ∈ Table.all,
        events'.filter (·.kind.table = table) = events.filter (·.kind.table = table)) →
      ∀ out, l.revise events = .ok out ↔ l.revise events' = .ok out := by
  constructor
  · rintro ⟨table, ht, hne⟩
    cases hout : l.revise events with
    | error fault => exact ⟨fault, rfl⟩
    | ok out =>
        have hkinds := kindsAgree_of_revise hout table ht
        exact absurd (hkinds.trans (kindsAgree_of_revise l.revise_self table ht).symm) hne
  · exact fun events' hsame out =>
      ⟨revise_congr h hsame, revise_congr h fun table ht => (hsame table ht).symm⟩

/-- The events of the class with its header told last. -/
def headerLast : List Event :=
  [.method ⟨2, "m", "()V"⟩, .call ⟨.special, sharedMember⟩,
    .dynamicCall (sharedCall .invokeSpecial), .dynamicCall (sharedCall .invokeSpecial), .finish,
    .header ⟨⟨61, 0⟩, 0, "A", none, []⟩]

/-- Without one of its calls the class is not taken, with its header told last it is. -/
theorem revise_ordered_sharedRow : ∃ l, ofBytes sharedRow = .ok l ∧
    (∃ fault, l.revise (l.events.eraseIdx 4) = .error fault) ∧
      ∀ out, l.revise l.events = .ok out ↔ l.revise headerLast = .ok out := by
  obtain ⟨l, out, hl, hevents, -⟩ := exists_revise_sharedRow
  refine ⟨l, hl, (revise_ordered hl (l.events.eraseIdx 4)).1 ⟨.methods, by decide, ?_⟩,
    (revise_ordered hl l.events).2 headerLast ?_⟩
  · rw [hevents]
    decide
  · rw [hevents]
    decide

/-- **Not every order but that of the class is refused**: the header may be told last. -/
theorem not_revise_ordered_all : ¬ ∀ (data : Bytes) (l : Layout) (events : List Event),
    ofBytes data = .ok l →
      (events.map Event.kind).filter (· ≠ .finish) ≠
          (l.events.map Event.kind).filter (· ≠ .finish) →
        ∃ fault, l.revise events = .error fault := by
  intro h
  obtain ⟨l, out, hl, hevents, -⟩ := exists_revise_sharedRow
  have hrun : (do let l ← ofBytes sharedRow; l.revise headerLast) = .ok sharedRow := by
    decide +kernel
  rw [hl] at hrun
  obtain ⟨fault, hfault⟩ := h sharedRow l headerLast hl (by rw [hevents]; decide)
  rw [show l.revise headerLast = .ok sharedRow from hrun] at hfault
  cases hfault

end Layout

end ClassAccess
