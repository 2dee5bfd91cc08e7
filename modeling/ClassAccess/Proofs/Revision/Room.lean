import ClassAccess.Proofs.Revision.Readback

/-!
# When there is room for changes

Changes that go together and are possible one by one can be made as long as the pool has room for
the entries they need. An entry counts once, however many changes need it, and not at all if the
pool has it.

* `Change.wanted?`, `Change.Possible` -- the entry that a change needs, and changes that only want
  for room; `Consistent` -- changes that go together;
* `Draft.Applied`, `applied_apply` -- **one change**: it needs nothing new, or adds its entry, or
  finds the pool full;
* `Draft.countAfter`, `applyAll_cases` -- **all changes**: one change keeps the count that is come
  to, so they are made if there is room for the entries that are missing, and fail otherwise;
* `Sound.eq_or_points`, `Sound.consistent` -- **which changes of a class go together**;
* `Layout.revise_cases` -- the same of a revision whose events are allowed.
-/

namespace ClassAccess

open Outcome ConstantPool

/-! ## 1. Changes one by one -/

namespace Change

/-- The place that a change is for. -/
def offset? : Change → Option Nat
  | refuse _ => none
  | write offset _ => some offset
  | point slot _ => some slot.offset

/-- The entry that a change needs: a handle of the new kind for what the handle in the slot refers
    to. -/
def wanted? (pool : ConstantPool) : Change → Option Constant
  | point slot kind =>
    match pool.get slot.value with
    | .ok (.methodHandle _ reference) => some (.methodHandle kind.code reference)
    | _ => none
  | _ => none

/-- A change that can be made if there is room. -/
inductive Possible (pool : ConstantPool) : Change → Prop
  | write (offset : Nat) (p : Patch) : Possible pool (.write offset p)
  | point (slot : Placed UInt16) (kind : HandleKind) (before : UInt8) (reference : UInt16)
      (get : pool.get slot.value = .ok (.methodHandle before reference)) :
      Possible pool (.point slot kind)

/-- Changes no two of which are for the same place. -/
def Consistent (cs : List Change) : Prop :=
  ∀ c ∈ cs, ∀ c' ∈ cs, c.offset? = c'.offset? → c = c'

theorem Consistent.left {cs cs' : List Change} (h : Consistent (cs ++ cs')) : Consistent cs :=
  fun c hc c' hc' => h c (List.mem_append_left _ hc) c' (List.mem_append_left _ hc')

variable {pool : ConstantPool} {c : Change}

theorem Asks.offset?_eq {o : Nat} {p : Patch} (h : c.Asks pool o p) : c.offset? = some o := by
  cases h with
  | write | point => rfl

/-- A change asks for one patch. -/
theorem Asks.unique {o : Nat} {p p' : Patch} (h : c.Asks pool o p) (h' : c.Asks pool o p') :
    p = p' := by
  cases h with
  | write => cases h'; rfl
  | point slot kind before reference index get find =>
      generalize hoff : slot.offset = o' at h'
      cases h' with
      | point _ _ before' reference' index' get' find' =>
          rw [get] at get'
          cases get'
          rw [find] at find'
          rw [Option.some.inj find']

theorem wanted?_point {slot : Placed UInt16} {before : UInt8} {reference : UInt16}
    (h : pool.get slot.value = .ok (.methodHandle before reference)) (kind : HandleKind) :
    (point slot kind).wanted? pool = some (.methodHandle kind.code reference) := by
  simp only [wanted?, h]

end Change

/-! ## 2. Making them -/

namespace Draft

open Change

variable {l : Layout} {d : Draft} {made : List Change} {c : Change}

/-- Contents that go together with the changes that were made are noted. -/
theorem Sound.exists_note {pool : ConstantPool} {o : Nat} {p : Patch} (h : d.Sound l made)
    (hext : d.pool.Extends pool) (ha : c.Asks pool o p) (hc : Consistent (made ++ [c])) :
    ∃ d', Draft.note { d with pool := pool } o p = .ok d' ∧ d'.pool = pool := by
  unfold Draft.note
  cases hp : d.patches[o]? with
  | none => exact ⟨_, rfl, rfl⟩
  | some earlier =>
      obtain ⟨c', hc', ha'⟩ := h.sourced o earlier hp
      have hcc : c' = c := hc c' (List.mem_append_left _ hc') c
        (List.mem_append_right _ (List.mem_singleton_self c))
        (ha'.offset?_eq.trans ha.offset?_eq.symm)
      rw [hcc] at ha'
      exact ⟨_, if_pos ((ha'.mono hext).unique ha), rfl⟩

/-- What becomes of one change: it needs nothing new, or it adds its entry, or the pool is full. -/
inductive Applied (l : Layout) (d : Draft) (c : Change) : Except Fault Draft → Prop
  | kept (d' : Draft) (pool : d'.pool = d.pool)
      (entry : ∀ e, c.wanted? l.pool = some e → e ∈ d.pool.slots) : Applied l d c (.ok d')
  | added (d' : Draft) (e : Constant) (pool : d'.pool = d.pool.add e) (narrow : e.isWide = false)
      (entry : c.wanted? l.pool = some e) (new : e ∉ d.pool.slots)
      (room : d.pool.count < capacity) : Applied l d c (.ok d')
  | full (e : Constant) (entry : c.wanted? l.pool = some e) (new : e ∉ d.pool.slots)
      (full : ¬ d.pool.count < capacity) : Applied l d c (.error (.poolOverflow (capacity + 1)))

/-- **What becomes of one change.** -/
theorem applied_apply (h : d.Sound l made) (hp : c.Possible l.pool)
    (hc : Consistent (made ++ [c])) : Applied l d c (d.apply c) := by
  cases hp with
  | write o p =>
      obtain ⟨d', hd', hpool⟩ := h.exists_note (.refl d.pool) (.write o p) hc
      rw [show d.apply (.write o p) = .ok d' from hd']
      exact .kept d' hpool fun e he => by cases he
  | point slot kind before reference hget =>
      have hentry := wanted?_point hget kind
      have hget' := h.within.get hget
      have husable : Constant.methodHandle kind.code reference ≠ .unusable := fun hu => by cases hu
      have hstep : ∀ {index pool}, d.pool.intern (.methodHandle kind.code reference) =
          .ok (index, pool) → d.apply (.point slot kind) =
            note { d with pool := pool } slot.offset (.word index) := by
        intro index pool hintern
        simp only [apply, hget', hintern]
      by_cases hm : Constant.methodHandle kind.code reference ∈ d.pool.slots
      · obtain ⟨index, hintern, hfind, -⟩ := intern_of_mem h.healthy husable hm
        obtain ⟨d', hd', hpool⟩ := h.exists_note (.refl d.pool)
          (.point slot kind before reference index hget' hfind) hc
        rw [hstep hintern, hd']
        refine .kept d' hpool fun e he => ?_
        rw [hentry] at he
        cases he
        exact hm
      · by_cases hroom : d.pool.count < capacity
        · have hext : d.pool.Extends (d.pool.add (.methodHandle kind.code reference)) :=
            extends_add
          obtain ⟨d', hd', hpool⟩ := h.exists_note hext (.point slot kind before reference _
            (hext.within.get hget') (h.healthy.find?_add_self hm)) hc
          rw [hstep (intern_of_not_mem h.healthy husable hm hroom), hd']
          exact .added d' _ hpool rfl hentry hm hroom
        · have hcount : d.pool.count = capacity :=
            Nat.le_antisymm h.healthy.bounded (Nat.not_lt.1 hroom)
          have herror : d.apply (.point slot kind) = .error (.poolOverflow (capacity + 1)) := by
            simp only [apply, hget', intern_full h.healthy husable hm hroom]
            rw [hcount]
            rfl
          rw [herror]
          exact .full _ hentry hm hroom

/-- The number of slots of the pool once changes are made: those it has, and one for each entry that
    is missing. -/
def countAfter (l : Layout) (d : Draft) (cs : List Change) : Nat :=
  d.pool.count + (d.pool.missing (cs.filterMap (wanted? l.pool))).card

/-- **A change that is made leaves the count that is come to as it was.** -/
theorem Applied.countAfter_eq {d' : Draft} (h : Applied l d c (.ok d')) (cs : List Change) :
    d.countAfter l (c :: cs) = d'.countAfter l cs := by
  unfold countAfter
  cases h with
  | kept _ hpool hentry =>
      rw [hpool]
      cases he : c.wanted? l.pool with
      | none => rw [List.filterMap_cons_none he]
      | some e => rw [List.filterMap_cons_some he, missing_cons_of_mem _ (hentry e he)]
  | added _ e hpool hnarrow hentry hnew =>
      rw [hpool, List.filterMap_cons_some hentry, card_missing_cons hnarrow _ hnew,
        count_add, Constant.slots_of_narrow hnarrow, Nat.add_assoc, Nat.add_comm 1]

/-- A change for which the pool is full comes to a count that is too large. -/
theorem Applied.overflow {fault : Fault} (h : Applied l d c (.error fault)) (cs : List Change) :
    fault = .poolOverflow (capacity + 1) ∧ capacity < d.countAfter l (c :: cs) := by
  cases h with
  | full e hentry hnew hfull =>
      have hmem : e ∈ d.pool.missing ((c :: cs).filterMap (wanted? l.pool)) := by
        rw [List.filterMap_cons_some hentry, mem_missing]
        exact ⟨List.mem_cons_self, hnew⟩
      have hpos := Finset.card_pos.2 ⟨e, hmem⟩
      unfold countAfter
      exact ⟨rfl, by omega⟩

/-- **What becomes of all changes.** They are made if there is room for the entries that are
    missing, and those are added; otherwise the pool runs full. -/
theorem applyAll_cases {cs : List Change} (h : d.Sound l made) (hp : ∀ c ∈ cs, c.Possible l.pool)
    (hc : Consistent (made ++ cs)) :
    d.countAfter l cs ≤ capacity ∧
        (∃ d', d.applyAll cs = .ok d' ∧ d'.pool.count = d.countAfter l cs) ∨
      capacity < d.countAfter l cs ∧ d.applyAll cs = .error (.poolOverflow (capacity + 1)) := by
  induction cs generalizing d made with
  | nil => exact .inl ⟨h.healthy.bounded, d, rfl, rfl⟩
  | cons c cs ih =>
      rw [List.append_cons] at hc
      have hstep := applied_apply h (hp c List.mem_cons_self) hc.left
      rw [applyAll_cons]
      cases hd : d.apply c with
      | error fault =>
          rw [hd] at hstep
          obtain ⟨rfl, hover⟩ := hstep.overflow cs
          exact .inr ⟨hover, rfl⟩
      | ok d₁ =>
          rw [hd] at hstep
          rw [hstep.countAfter_eq]
          exact ih (sound_apply h hd) (fun c' hc' => hp c' (List.mem_cons_of_mem _ hc')) hc

end Draft

/-! ## 3. Events that are allowed -/

namespace Layout

variable {l : Layout} {told : List Event}

/-- **What is asked of a place can be done if there is room**: the place holds a handle. -/
theorem Sound.possible (h : l.Sound) {c : Change} (hc : c ∈ Spot.changesAll l.spots told)
    (hne : c.fault? = none) : c.Possible l.pool := by
  rcases change_cases hc with ⟨cause, rfl⟩ | ⟨_, _, _, -, -, s, -, ⟨p, -, rfl⟩, -⟩ |
    ⟨a, handle, kind, ht, rfl⟩
  · cases hne
  · exact .write s.offset p
  · obtain ⟨reference, hget, -⟩ :=
      handleAt_eq_ok_iff.1 (argumentAt_eq_handle_iff.1 (h.place ht).2)
    exact .point a kind handle.kind.code reference hget

/-- **Changes for one place are the same**, unless they point a place of the table of bootstrap
    methods to handles of some kinds. -/
theorem Sound.eq_or_points (h : l.Sound) {c c' : Change} (hc : c ∈ Spot.changesAll l.spots told)
    (hc' : c' ∈ Spot.changesAll l.spots told) (hne : c.fault? = none) (hne' : c'.fault? = none)
    (ho : c.offset? = c'.offset?) : c = c' ∨ ∃ a handle handle' kind kind',
      c = .point a kind ∧ l.Tells told a (.handle handle) (.handle ⟨kind, handle.target⟩) ∧
      c' = .point a kind' ∧ l.Tells told a (.handle handle') (.handle ⟨kind', handle'.target⟩) := by
  rcases change_cases hc with ⟨cause, rfl⟩ | ⟨i, spot, e, hi, he, s, hs, ⟨p, -, rfl⟩, hone⟩ |
    ⟨a, handle, kind, ht, rfl⟩
  · cases hne
  · rcases change_cases hc' with ⟨cause, rfl⟩ |
      ⟨j, spot', e', hj, he', s', hs', ⟨p', -, rfl⟩, hone'⟩ | ⟨a', handle', kind', ht', rfl⟩
    · cases hne'
    · have hij := h.own_unique hi hj hs hs' (Option.some.inj ho)
      subst hij
      rw [hi] at hj
      rw [he] at he'
      cases hj
      cases he'
      rw [hone] at hone'
      exact .inl (List.singleton_inj.1 hone')
    · exact absurd (Option.some.inj ho)
        (h.own_ne_place (List.mem_of_getElem? hi) hs (h.place ht').1)
  · rcases change_cases hc' with ⟨cause, rfl⟩ |
      ⟨j, spot', e', hj, -, s', hs', ⟨p', -, rfl⟩, -⟩ | ⟨a', handle', kind', ht', rfl⟩
    · cases hne'
    · exact absurd (Option.some.inj ho).symm
        (h.own_ne_place (List.mem_of_getElem? hj) hs' (h.place ht).1)
    · have haa := h.place_unique (h.place ht).1 (h.place ht').1 (Option.some.inj ho)
      subst haa
      exact .inr ⟨a, handle, handle', kind, kind', rfl, ht, rfl, ht'⟩

/-- **Where rows are told alike, the changes go together**, as far as they can be made. -/
theorem Sound.consistent (h : l.Sound) (hagree : l.RowsAgree told) {cs : List Change}
    (hcs : ∀ c ∈ cs, c ∈ Spot.changesAll l.spots told)
    (hnone : Change.NoneRefused cs) : Change.Consistent cs := by
  intro c hc c' hc' ho
  rcases h.eq_or_points (hcs c hc) (hcs c' hc') (hnone c hc) (hnone c' hc') ho with heq |
    ⟨a, handle, handle', kind, kind', rfl, ht, rfl, ht'⟩
  · exact heq
  · have hx := BootstrapArgument.handle.inj (h.tells_unique hagree ht ht')
    have hkind : kind = kind' := congrArg Handle.kind hx
    rw [hkind]

/-- Changes that are asked for and go together, none of which is refused, are made if there is
    room; otherwise the pool runs full. -/
theorem Sound.applyAll_cases (h : l.Sound) {cs : List Change}
    (hcs : ∀ c ∈ cs, c ∈ Spot.changesAll l.spots told)
    (hnone : Change.NoneRefused cs) (hgo : Change.Consistent cs) :
    l.draft.countAfter l cs ≤ capacity ∧
        (∃ d, l.draft.applyAll cs = .ok d ∧ d.pool.count = l.draft.countAfter l cs) ∨
      capacity < l.draft.countAfter l cs ∧
        l.draft.applyAll cs = .error (.poolOverflow (capacity + 1)) :=
  Draft.applyAll_cases (Draft.sound_draft l h.healthy)
    (fun c hc => h.possible (hcs c hc) (hnone c hc)) hgo

theorem Allowed.noneRefused (h : l.Allowed told) :
    Change.NoneRefused (Spot.changesAll l.spots told) := by
  intro c hc
  cases c with
  | refuse fault => exact absurd hc (h.allowed fault)
  | write | point => rfl

/-- **Events that are allowed, and tell shared rows alike, make a revised class if there is room**
    for the entries they need; otherwise the pool runs full, and nothing else. -/
theorem revise_cases {data : Bytes} (h : ofBytes data = .ok l) (ha : l.Allowed told)
    (hagree : l.RowsAgree told) :
    let count := l.draft.countAfter l (Spot.changesAll l.spots told)
    count ≤ ConstantPool.capacity ∧ (∃ out, l.revise (told ++ [.finish]) = .ok out) ∨
      ConstantPool.capacity < count ∧
        l.revise (told ++ [.finish]) = .error (.poolOverflow (ConstantPool.capacity + 1)) := by
  intro count
  rw [revise_eq l ha.kinds]
  have hgo := ha.sound.consistent hagree (fun _ hc => hc) ha.noneRefused
  rcases ha.sound.applyAll_cases (fun _ hc => hc) ha.noneRefused hgo with
    ⟨hroom, d, hd, -⟩ | ⟨hover, hfault⟩
  · obtain ⟨new, written, -, -, -, hbytes⟩ := (revised_of_applyAll h ha.kinds hd).bytes_eq
    rw [hd]
    exact .inl ⟨hroom, _, hbytes⟩
  · rw [hfault]
    exact .inr ⟨hover, rfl⟩

end Layout

end ClassAccess
