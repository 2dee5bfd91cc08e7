import ClassAccess.Proofs.Revision.Drafts

/-!
# Where patches come from

A revision that succeeded has made every change that was asked for, and nothing else. Each slot of
the class belongs either to one spot or to a place of the table of bootstrap methods, which several
dynamic calls may share.

* `Layout.places`, `Sound.place_unique`, `Sound.own_unique` -- **an offset belongs to one place, or
  to one spot**;
* `Layout.Tells` -- what some dynamic call tells in a place, and what was there before;
* `change_cases` -- **every change that can be made is the only one of its spot, or for such a
  place**;
* `Layout.Allowed` -- events that ask for nothing that cannot be done;
* `Layout.Revised` -- a revision that succeeded; `Revised.settled` -- every change has its patch;
* `Revised.source` -- **every patch has its change**, and `Revised.fit` -- keeps to a slot.
-/

namespace ClassAccess

open Outcome

/-! ## 1. Places -/

namespace Layout

variable {l : Layout}

/-- The numbers in the table of bootstrap methods. -/
def places (l : Layout) : List (Placed UInt16) := l.bootstraps.flatMap BootstrapEntry.places

theorem slots_eq (l : Layout) : l.slots = l.spots.flatMap Spot.own ++ l.places.map Placed.slot := by
  rw [slots, places, List.map_flatMap]
  rfl

theorem place_of_entry {a : Placed UInt16} {entry : BootstrapEntry} (he : entry ∈ l.bootstraps)
    (ha : a ∈ entry.places) : a ∈ l.places := List.mem_flatMap.2 ⟨entry, he, ha⟩

theorem slot_of_place {a : Placed UInt16} (ha : a ∈ l.places) : a.slot ∈ l.slots := by
  rw [slots_eq]
  exact List.mem_append_right _ (List.mem_map_of_mem ha)

theorem slot_of_own {spot : Spot} (hspot : spot ∈ l.spots) {s : Slot} (hs : s ∈ spot.own) :
    s ∈ l.slots :=
  List.mem_append_left _ (List.mem_flatMap.2 ⟨spot, hspot, hs⟩)

/-- A place is known by its offset. -/
theorem Sound.place_unique (h : l.Sound) {a b : Placed UInt16} (ha : a ∈ l.places)
    (hb : b ∈ l.places) (ho : a.offset = b.offset) : a = b := by
  have hapart := h.apart
  rw [slots_eq, List.pairwise_append, List.pairwise_map] at hapart
  have : Std.Symm fun a b : Placed UInt16 => a.slot.Apart b.slot := ⟨fun _ _ => Slot.Apart.symm⟩
  by_cases hab : a = b
  · exact hab
  · exact absurd ho (hapart.2.1.forall ha hb hab).offset_ne

/-- No place is where a spot has a slot of its own. -/
theorem Sound.own_ne_place (h : l.Sound) {spot : Spot} (hspot : spot ∈ l.spots) {s : Slot}
    (hs : s ∈ spot.own) {a : Placed UInt16} (ha : a ∈ l.places) : s.offset ≠ a.offset := by
  have hapart := h.apart
  rw [slots_eq, List.pairwise_append] at hapart
  exact (hapart.2.2 s (List.mem_flatMap.2 ⟨spot, hspot, hs⟩) a.slot
    (List.mem_map_of_mem ha)).offset_ne

/-- A spot is known by the offset of a slot of its own. -/
theorem Sound.own_unique (h : l.Sound) {i j : Nat} {spot spot' : Spot}
    (hi : l.spots[i]? = some spot) (hj : l.spots[j]? = some spot') {s s' : Slot} (hs : s ∈ spot.own)
    (hs' : s' ∈ spot'.own) (ho : s.offset = s'.offset) : i = j := by
  have hapart := h.apart
  rw [slots, List.pairwise_append, List.pairwise_flatMap] at hapart
  have hspots := List.pairwise_iff_getElem.1 hapart.1.2
  obtain ⟨hi', rfl⟩ := List.getElem?_eq_some_iff.1 hi
  obtain ⟨hj', rfl⟩ := List.getElem?_eq_some_iff.1 hj
  rcases Nat.lt_trichotomy i j with hlt | heq | hlt
  · exact absurd ho (hspots i j hi' hj' hlt s hs s' hs').offset_ne
  · exact heq
  · exact absurd ho.symm (hspots j i hj' hi' hlt s' hs' s hs).offset_ne

end Layout

/-! ## 2. Changes and who asked for them -/

theorem Spot.mem_changesAll {spots : List Spot} {told : List Event} {c : Change} :
    c ∈ changesAll spots told ↔ ∃ (i : Nat) (spot : Spot) (e : Event),
      spots[i]? = some spot ∧ told[i]? = some e ∧ c ∈ spot.changes e := mem_flatten_zipWith

theorem BootstrapArgument.changesAll_eq (name : String) (slots : List (Placed UInt16))
    (befores afters : List BootstrapArgument) : changesAll name slots befores afters =
      (slots.zip (befores.zip afters)).flatMap fun t => changes name t.1 t.2.1 t.2.2 := by
  induction slots generalizing befores afters with
  | nil => rfl
  | cons slot slots ih =>
      cases befores with
      | nil => rfl
      | cons before befores =>
          cases afters with
          | nil => rfl
          | cons after afters =>
              rw [changesAll, ih, List.zip_cons_cons, List.zip_cons_cons, List.flatMap_cons]

/-- **A dynamic call asks for changes place by place**, or for nothing that can be done. -/
theorem DynamicCall.changes_cases (before : DynamicCall) (entry : BootstrapEntry)
    (after : DynamicCall) :
    (∃ cause, before.changes entry after = [.refuse (.unsupported cause)]) ∨
      after.name = before.name ∧ after.descriptor = before.descriptor ∧
        after.told.length = before.told.length ∧
        before.changes entry after = (entry.places.zip (before.told.zip after.told)).flatMap
          fun t => BootstrapArgument.changes before.name t.1 t.2.1 t.2.2 := by
  unfold changes
  split
  · exact .inl ⟨_, rfl⟩
  · rename_i h
    simp only [not_or, not_not] at h
    refine .inr ⟨h.1, h.2.1, congrArg (· + 1) h.2.2, ?_⟩
    rw [BootstrapArgument.changesAll_eq]
    rfl

/-- An argument stays, or its change is refused, or it is a handle for which another kind is asked.
    -/
theorem BootstrapArgument.changes_cases (name : String) (slot : Placed UInt16)
    (b x : BootstrapArgument) : b = x ∧ changes name slot b x = [] ∨
      (∃ cause, changes name slot b x = [.refuse (.unsupported cause)]) ∨
      ∃ h kind, b = .handle h ∧ x = .handle ⟨kind, h.target⟩ ∧
        changes name slot b x = [.point slot kind] := by
  have hother : ∀ cause : Unsupported,
      b = x ∧ (if b = x then [] else [Change.refuse (.unsupported cause)]) = [] ∨
        ∃ cause', (if b = x then [] else [Change.refuse (.unsupported cause)]) =
          [.refuse (.unsupported cause')] := by
    intro cause
    by_cases h : b = x
    · exact .inl ⟨h, if_pos h⟩
    · exact .inr ⟨_, if_neg h⟩
  cases b with
  | handle h =>
      cases x with
      | handle h' =>
          unfold changes Handle.changes
          simp only
          split
          · rename_i heq
            exact .inl ⟨congrArg _ heq, rfl⟩
          split
          · exact .inr (.inl ⟨_, rfl⟩)
          · rename_i htarget
            split
            · exact .inr (.inl ⟨_, rfl⟩)
            · rw [not_not] at htarget
              exact .inr (.inr ⟨h, h'.kind, rfl, by rw [htarget], rfl⟩)
      | methodType | constant => exact (hother _).imp_right .inl
  | methodType | constant => exact (hother _).imp_right .inl

/-- A declaration is refused, or it is the old one with its own access flags. -/
theorem Placed.changes_cases {α : Type} [Declaration α] [DecidableEq α] (p : Placed α) (after : α)
    (otherwise : Unsupported) :
    (∃ cause, p.changes after otherwise = [.refuse (.unsupported cause)]) ∨
      Declaration.withAccess p.value (Declaration.access after) = after ∧
        (Declaration.access p.value = Declaration.access after ∧ p.changes after otherwise = [] ∨
          p.changes after otherwise = [.write p.offset (.word (Declaration.access after))]) := by
  unfold changes
  simp only
  split
  · rename_i hw
    right
    refine ⟨by rw [← hw, Declaration.withAccess_withAccess, Declaration.withAccess_access], ?_⟩
    split
    · rename_i ha
      exact .inl ⟨ha, rfl⟩
    · exact .inr rfl
  · exact .inl ⟨_, rfl⟩

/-- Kinds that may change into each other are those of plain calls. -/
theorem isPlain_of_kindFault? {target : Member} {before after : CallKind}
    (h : Revision.kindFault? target before after = none) :
    before.isPlain = true ∧ after.isPlain = true := by
  unfold Revision.kindFault? at h
  split at h
  · cases h
  split at h
  · cases h
  · rename_i hplain
    simpa using hplain

/-- A direct call is refused, or it calls the old target in a way that is as long. -/
theorem Call.changes_cases (p : Placed Call) (after : Call) :
    (∃ cause, changes p after = [.refuse (.unsupported cause)]) ∨
      ∃ kind, after = ⟨kind, p.value.target⟩ ∧ (kind = p.value.kind ∧ changes p after = [] ∨
        (p.value.kind.isPlain = true ∧ kind.isPlain = true) ∧
          changes p after = [.write p.offset (.byte kind.opcode)]) := by
  unfold changes
  simp only
  split
  · exact .inl ⟨_, rfl⟩
  · rename_i htarget
    rw [not_not] at htarget
    split
    · rename_i hkind
      exact .inr ⟨after.kind, by rw [← htarget], .inl ⟨hkind, rfl⟩⟩
    · split
      · exact .inl ⟨_, rfl⟩
      · rename_i hfault
        exact .inr ⟨after.kind, by rw [← htarget], .inr ⟨isPlain_of_kindFault? hfault, rfl⟩⟩

/-- New contents for a slot, as long as the slot. -/
def Change.For (s : Slot) (c : Change) : Prop :=
  ∃ p : Patch, s.width = p.bytes.length ∧ c = .write s.offset p

/-- Where one change at most is asked for, in a slot, a change that is asked for is that one. -/
theorem Change.for_of_mem {s : Slot} {cs : List Change} {c : Change}
    (h : cs = [] ∨ ∃ p : Patch, s.width = p.bytes.length ∧ cs = [.write s.offset p])
    (hc : c ∈ cs) : c.For s ∧ cs = [c] := by
  rcases h with rfl | ⟨p, hw, rfl⟩
  · cases hc
  · cases List.mem_singleton.1 hc
    exact ⟨⟨p, hw, rfl⟩, rfl⟩

/-- A declaration asks for one change at most, which is for its access flags. -/
theorem Placed.mem_changes {α : Type} [Declaration α] [DecidableEq α] {p : Placed α} {after : α}
    {otherwise : Unsupported} {c : Change} (hc : c ∈ p.changes after otherwise) :
    (∃ cause, c = .refuse (.unsupported cause)) ∨
      c.For p.slot ∧ p.changes after otherwise = [c] := by
  rcases p.changes_cases after otherwise with ⟨cause, hf⟩ | ⟨-, hone⟩
  · rw [hf] at hc
    exact .inl ⟨cause, List.mem_singleton.1 hc⟩
  · exact .inr (Change.for_of_mem (hone.imp And.right fun hwrite => ⟨_, rfl, hwrite⟩) hc)

/-- A direct call asks for one change at most, which is for its opcode. -/
theorem Call.mem_changes {p : Placed Call} {after : Call} {c : Change} (hc : c ∈ changes p after) :
    (∃ cause, c = .refuse (.unsupported cause)) ∨
      c.For (.opcode p.offset p.value.kind.opcode) ∧ changes p after = [c] := by
  rcases changes_cases p after with ⟨cause, hf⟩ | ⟨kind, -, hone⟩
  · rw [hf] at hc
    exact .inl ⟨cause, List.mem_singleton.1 hc⟩
  · exact .inr (Change.for_of_mem (hone.imp And.right fun hwrite => ⟨_, rfl, hwrite.2⟩) hc)

/-- A change is refused, or is the only one of a spot and for a slot that the spot has for itself,
    or is one of a dynamic call. -/
theorem Spot.mem_changes {spot : Spot} {e : Event} {c : Change} (hc : c ∈ spot.changes e) :
    (∃ cause, c = .refuse (.unsupported cause)) ∨ (∃ s ∈ spot.own, c.For s ∧ spot.changes e = [c]) ∨
      ∃ before entry after, spot = .dynamicCall before entry ∧ e = .dynamicCall after := by
  unfold changes at hc
  split at hc
  · exact (Placed.mem_changes hc).imp_right fun h => .inl ⟨_, List.mem_singleton_self _, h⟩
  · exact (Placed.mem_changes hc).imp_right fun h => .inl ⟨_, List.mem_singleton_self _, h⟩
  · exact (Placed.mem_changes hc).imp_right fun h => .inl ⟨_, List.mem_singleton_self _, h⟩
  · exact (Placed.mem_changes hc).imp_right fun h => .inl ⟨_, List.mem_singleton_self _, h⟩
  · exact (Call.mem_changes hc).imp_right fun h => .inl ⟨_, List.mem_singleton_self _, h⟩
  · exact .inr (.inr ⟨_, _, _, rfl, rfl⟩)
  · cases hc

/-! ## 3. Events that are allowed -/

namespace Layout

/-- In place `a` of the table of bootstrap methods, some dynamic call told `x` where `b` was. -/
def Tells (l : Layout) (told : List Event) (a : Placed UInt16) (b x : BootstrapArgument) : Prop :=
  ∃ (i : Nat) (before : DynamicCall) (entry : BootstrapEntry) (after : DynamicCall),
    l.spots[i]? = some (.dynamicCall before entry) ∧ told[i]? = some (.dynamicCall after) ∧
      (a, b, x) ∈ entry.places.zip (before.told.zip after.told)

section Cases

variable {l : Layout} {told : List Event} {a : Placed UInt16} {b x : BootstrapArgument} {c : Change}

/-- What stands in one row of a place, of what was there and of what is told is told there. -/
theorem tells_of_getElem? {i k : Nat} {before after : DynamicCall} {entry : BootstrapEntry}
    (hi : l.spots[i]? = some (.dynamicCall before entry))
    (he : told[i]? = some (.dynamicCall after)) (ha : entry.places[k]? = some a)
    (hb : before.told[k]? = some b) (hx : after.told[k]? = some x) : l.Tells told a b x := by
  refine ⟨i, before, entry, after, hi, he, List.mem_iff_getElem?.2 ⟨k, ?_⟩⟩
  exact List.getElem?_zip_eq_some.2 ⟨ha, List.getElem?_zip_eq_some.2 ⟨hb, hx⟩⟩

/-- **A change is refused, or the only one of its spot, or for a place** in which some dynamic call
    told something new. -/
theorem change_cases (hc : c ∈ Spot.changesAll l.spots told) :
    (∃ cause, c = .refuse (.unsupported cause)) ∨
    (∃ (i : Nat) (spot : Spot) (e : Event), l.spots[i]? = some spot ∧ told[i]? = some e ∧
        ∃ s ∈ spot.own, c.For s ∧ spot.changes e = [c]) ∨
      ∃ a handle kind, l.Tells told a (.handle handle) (.handle ⟨kind, handle.target⟩) ∧
        c = .point a kind := by
  obtain ⟨i, spot, e, hi, he, hc⟩ := Spot.mem_changesAll.1 hc
  rcases Spot.mem_changes hc with hrefused | hown | ⟨before, entry, after, rfl, rfl⟩
  · exact .inl hrefused
  · exact .inr (.inl ⟨i, spot, e, hi, he, hown⟩)
  · have hc' : c ∈ before.changes entry after := hc
    rcases before.changes_cases entry after with ⟨cause, hf⟩ | ⟨-, -, -, hplaces⟩
    · rw [hf] at hc'
      exact .inl ⟨cause, List.mem_singleton.1 hc'⟩
    · rw [hplaces] at hc'
      obtain ⟨⟨a, b, x⟩, hmem, hc'⟩ := List.mem_flatMap.1 hc'
      simp only at hc'
      rcases BootstrapArgument.changes_cases before.name a b x with
        ⟨-, hnil⟩ | ⟨cause, hf⟩ | ⟨handle, kind, rfl, rfl, hpoint⟩
      · rw [hnil] at hc'
        cases hc'
      · rw [hf] at hc'
        exact .inl ⟨cause, List.mem_singleton.1 hc'⟩
      · rw [hpoint] at hc'
        exact .inr (.inr ⟨a, handle, kind, ⟨i, before, entry, after, hi, he, hmem⟩,
          List.mem_singleton.1 hc'⟩)

/-- A place in which something is told is a place of the class, and what was there is looked up. -/
theorem Sound.place (h : l.Sound) (ht : l.Tells told a b x) :
    a ∈ l.places ∧ argumentAt l.pool a.value = .ok b := by
  obtain ⟨i, before, entry, after, hi, he, hmem⟩ := ht
  obtain ⟨hentry, hrow⟩ := h.row before entry (List.mem_of_getElem? hi)
  refine ⟨place_of_entry hentry (List.of_mem_zip hmem).1, ?_⟩
  obtain ⟨k, hk⟩ := List.mem_iff_getElem?.1 hmem
  obtain ⟨hka, hkb⟩ := List.getElem?_zip_eq_some.1 hk
  have hkb := (List.getElem?_zip_eq_some.1 hkb).1
  exact forall₂_getElem? hrow hka hkb

end Cases

/-- Events in the places of those of `l`, none of which asks for what a revision cannot do. -/
structure Allowed (l : Layout) (told : List Event) : Prop where
  sound : l.Sound
  kinds : told.map Event.kind = l.spots.map (·.event.kind)
  allowed : ∀ fault, .refuse fault ∉ Spot.changesAll l.spots told

variable {l : Layout} {told : List Event} {d : Draft} {i : Nat} {spot : Spot} {e : Event}
  {a : Placed UInt16} {b x : BootstrapArgument} {c : Change}

namespace Allowed

theorem kind_eq (h : l.Allowed told) (hi : l.spots[i]? = some spot) (he : told[i]? = some e) :
    e.kind = spot.event.kind := by
  have hk := congrArg (fun ks : List EventKind => ks[i]?) h.kinds
  simp only [List.getElem?_map, hi, he, Option.map_some] at hk
  exact Option.some.inj hk

theorem length_eq (h : l.Allowed told) : told.length = l.spots.length := by
  have hlen := congrArg List.length h.kinds
  rwa [List.length_map, List.length_map] at hlen

theorem not_refused (h : l.Allowed told) (fault : Fault) (hi : l.spots[i]? = some spot)
    (he : told[i]? = some e) : .refuse fault ∉ spot.changes e :=
  fun hc => h.allowed fault (Spot.mem_changesAll.2 ⟨i, spot, e, hi, he, hc⟩)

/-- **A dynamic call may tell new handles in its places**, and nothing else that is new. -/
theorem dynamicCall (h : l.Allowed told) {before after : DynamicCall} {entry : BootstrapEntry}
    (hi : l.spots[i]? = some (.dynamicCall before entry))
    (he : told[i]? = some (.dynamicCall after)) :
    after.name = before.name ∧ after.descriptor = before.descriptor ∧
      after.told.length = before.told.length ∧
      before.changes entry after = (entry.places.zip (before.told.zip after.told)).flatMap
        fun t => BootstrapArgument.changes before.name t.1 t.2.1 t.2.2 := by
  rcases before.changes_cases entry after with ⟨cause, hf⟩ | hcases
  · refine absurd ?_ (h.not_refused (.unsupported cause) hi he)
    rw [show (Spot.dynamicCall before entry).changes (.dynamicCall after) = _ from hf]
    exact List.mem_singleton_self _
  · exact hcases

/-- What a dynamic call tells in a place stays, or is a handle of another kind for the same member.
    -/
theorem tells_cases (h : l.Allowed told) (ht : l.Tells told a b x) :
    b = x ∨ ∃ handle kind, b = .handle handle ∧ x = .handle ⟨kind, handle.target⟩ ∧
      .point a kind ∈ Spot.changesAll l.spots told := by
  obtain ⟨i, before, entry, after, hi, he, hmem⟩ := ht
  have hchanges := (h.dynamicCall hi he).2.2.2
  have hsub : ∀ c ∈ BootstrapArgument.changes before.name a b x,
      c ∈ Spot.changesAll l.spots told := by
    intro c hc
    refine Spot.mem_changesAll.2 ⟨i, _, _, hi, he, ?_⟩
    show c ∈ before.changes entry after
    rw [hchanges]
    exact List.mem_flatMap.2 ⟨(a, b, x), hmem, hc⟩
  rcases BootstrapArgument.changes_cases before.name a b x with
    ⟨hbx, -⟩ | ⟨cause, hf⟩ | ⟨handle, kind, hb, hx, hc⟩
  · exact .inl hbx
  · refine absurd (hsub (.refuse (.unsupported cause)) ?_) (h.allowed _)
    rw [hf]
    exact List.mem_singleton_self _
  · refine .inr ⟨handle, kind, hb, hx, hsub (.point a kind) ?_⟩
    rw [hc]
    exact List.mem_singleton_self _

/-- **A change is the only one of its spot, or for a place** in which some dynamic call told
    something new. -/
theorem change_cases (h : l.Allowed told) (hc : c ∈ Spot.changesAll l.spots told) :
    (∃ (i : Nat) (spot : Spot) (e : Event), l.spots[i]? = some spot ∧ told[i]? = some e ∧
        ∃ s ∈ spot.own, c.For s ∧ spot.changes e = [c]) ∨
      ∃ a handle kind, l.Tells told a (.handle handle) (.handle ⟨kind, handle.target⟩) ∧
        c = .point a kind := by
  rcases Layout.change_cases hc with ⟨cause, rfl⟩ | hcases
  · exact absurd hc (h.allowed _)
  · exact hcases

end Allowed

/-! ## 4. A revision that succeeded -/

/-- A draft of `l` in which all changes are made that the events `told` ask for. -/
structure Revised (l : Layout) (told : List Event) (d : Draft) : Prop extends l.Allowed told where
  draft : d.Sound l (Spot.changesAll l.spots told)

theorem revised_of_applyAll {data : Bytes} (h : ofBytes data = .ok l)
    (hk : told.map Event.kind = l.spots.map (·.event.kind))
    (hd : l.draft.applyAll (Spot.changesAll l.spots told) = .ok d) : l.Revised told d := by
  have hl := sound_of_ofBytes h
  have hdraft := Draft.sound_applyAll (Draft.sound_draft l hl.healthy) hd
  refine ⟨⟨hl, hk, fun fault hc => ?_⟩, hdraft⟩
  obtain ⟨_, _, ha, -⟩ := hdraft.settled _ hc
  cases ha

namespace Revised

/-- Every change that is asked for has its patch. -/
theorem settled (h : l.Revised told d) (hi : l.spots[i]? = some spot) (he : told[i]? = some e)
    (hc : c ∈ spot.changes e) : ∃ o p, c.Asks d.pool o p ∧ d.patches[o]? = some p :=
  h.draft.settled c (Spot.mem_changesAll.2 ⟨i, spot, e, hi, he, hc⟩)

/-- A patch is for a slot of one spot, or for a place in which some dynamic call told something
    new. -/
theorem source (h : l.Revised told d) {o : Nat} {p : Patch} (hp : d.patches[o]? = some p) :
    (∃ (i : Nat) (spot : Spot) (e : Event), l.spots[i]? = some spot ∧ told[i]? = some e ∧
        spot.changes e = [.write o p] ∧ ∃ s ∈ spot.own, s.offset = o ∧ s.width = p.bytes.length) ∨
      ∃ a handle kind, l.Tells told a (.handle handle) (.handle ⟨kind, handle.target⟩) ∧
        (Change.point a kind).Asks d.pool o p := by
  obtain ⟨c, hc, ha⟩ := h.draft.sourced o p hp
  rcases h.change_cases hc with ⟨i, spot, e, hi, he, s, hs, ⟨q, hw, rfl⟩, hone⟩ |
    ⟨a, handle, kind, ht, rfl⟩
  · generalize ho : s.offset = o' at ha hone
    cases ha
    exact .inl ⟨i, spot, e, hi, he, hone, s, hs, ho, hw⟩
  · exact .inr ⟨a, handle, kind, ht, ha⟩

/-- **The patches keep to the slots.** -/
theorem fit (h : l.Revised told d) : Patch.Fit d.patches l.slots := by
  refine ⟨fun o p hp => ?_, h.sound.apart⟩
  rcases h.source hp with ⟨i, spot, e, hi, -, -, s, hs, ho, hw⟩ | ⟨a, handle, kind, ht, ha⟩
  · exact ⟨s, slot_of_own (List.mem_of_getElem? hi) hs, ho, hw⟩
  · refine ⟨a.slot, slot_of_place (h.sound.place ht).1, ?_⟩
    cases ha
    exact ⟨rfl, rfl⟩

end Revised

end Layout

end ClassAccess
