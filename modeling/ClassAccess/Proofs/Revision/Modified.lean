import ClassAccess.Proofs.Revision.Acceptance
import ClassAccess.Proofs.Revision.Arrangement

/-!
# Whether a revision has changed anything

A revision says that it is modified once it has noted a patch, and a patch is known by its offset
alone. So it has to be seen that every event that is told otherwise leaves a patch, that no other
event does, and that no patch writes what was there before.

* `Layout.Altered` -- some event is told otherwise than the class tells it;
* `Spot.eq_of_changes_nil` -- **an event that asks for no change is told as it was**;
* `isModified_iff_altered` -- a revision under way is modified exactly if an event was altered;
* `Revised.told_eq` -- a revised class that still tells what it told was told so;
* `isModified_iff` -- **a revision is modified exactly if it was told something else**, and then
  exactly if it gives other bytes.
-/

namespace ClassAccess

open Outcome

/-! ## 1. Events that ask for no change -/

theorem Placed.eq_of_changes_nil {α : Type} [Declaration α] [DecidableEq α] {p : Placed α}
    {after : α} {otherwise : Unsupported} (h : p.changes after otherwise = []) :
    after = p.value := by
  rcases p.changes_cases after otherwise with ⟨cause, hf⟩ | ⟨hback, ⟨haccess, -⟩ | hwrite⟩
  · rw [hf] at h
    cases h
  · rw [← hback, ← haccess, Declaration.withAccess_access]
  · rw [hwrite] at h
    cases h

theorem Call.eq_of_changes_nil {p : Placed Call} {after : Call} (h : changes p after = []) :
    after = p.value := by
  rcases changes_cases p after with ⟨cause, hf⟩ | ⟨kind, rfl, ⟨rfl, -⟩ | ⟨-, hwrite⟩⟩
  · rw [hf] at h
    cases h
  · rfl
  · rw [hwrite] at h
    cases h

theorem BootstrapArgument.eq_of_changes_nil {name : String} {slot : Placed UInt16}
    {b x : BootstrapArgument} (h : changes name slot b x = []) : x = b := by
  rcases changes_cases name slot b x with ⟨rfl, -⟩ | ⟨cause, hf⟩ | ⟨handle, kind, -, -, hpoint⟩
  · rfl
  · rw [hf] at h
    cases h
  · rw [hpoint] at h
    cases h

/-- A dynamic call asks for a change in each place in which it tells something else, as long as the
    row has a place for all that it tells. -/
theorem DynamicCall.eq_of_changes_nil {before after : DynamicCall} {entry : BootstrapEntry}
    (hrow : entry.places.length = before.told.length) (h : before.changes entry after = []) :
    after = before := by
  rcases before.changes_cases entry after with ⟨cause, hf⟩ | ⟨hname, hdescriptor, hlen, hplaces⟩
  · rw [hf] at h
    cases h
  · rw [hplaces, List.flatMap_eq_nil_iff] at h
    refine eq_of_told hname hdescriptor (List.ext_getElem hlen fun k hk hk' => ?_)
    have hmem : (entry.places[k], before.told[k], after.told[k]) ∈
        entry.places.zip (before.told.zip after.told) := by
      refine List.mem_iff_getElem?.2 ⟨k, List.getElem?_zip_eq_some.2 ⟨?_, ?_⟩⟩
      · exact List.getElem?_eq_getElem (hrow ▸ hk')
      · exact List.getElem?_zip_eq_some.2
          ⟨List.getElem?_eq_getElem hk', List.getElem?_eq_getElem hk⟩
    exact BootstrapArgument.eq_of_changes_nil (h _ hmem)

/-- **An event that asks for no change is told as it was.** -/
theorem Spot.eq_of_changes_nil {l : Layout} (h : l.Sound) {spot : Spot} (hspot : spot ∈ l.spots)
    {e : Event} (hk : e.kind = spot.event.kind) (hnil : spot.changes e = []) : e = spot.event := by
  cases spot with
  | header p =>
      cases e
      case header => exact congrArg Event.header (Placed.eq_of_changes_nil hnil)
      all_goals cases hk
  | innerClass p =>
      cases e
      case innerClass => exact congrArg Event.innerClass (Placed.eq_of_changes_nil hnil)
      all_goals cases hk
  | field p =>
      cases e
      case field => exact congrArg Event.field (Placed.eq_of_changes_nil hnil)
      all_goals cases hk
  | method p =>
      cases e
      case method => exact congrArg Event.method (Placed.eq_of_changes_nil hnil)
      all_goals cases hk
  | call p =>
      cases e
      case call => exact congrArg Event.call (Call.eq_of_changes_nil hnil)
      all_goals cases hk
  | dynamicCall before entry =>
      cases e
      case dynamicCall after =>
        have hrow := (h.row before entry hspot).2.length_eq
        exact congrArg Event.dynamicCall (DynamicCall.eq_of_changes_nil hrow hnil)
      all_goals cases hk

/-! ## 2. Events that are told otherwise -/

namespace Layout

variable {l : Layout} {data out : Bytes} {told events : List Event} {d : Draft}

/-- Some event is told otherwise than the class tells it. -/
def Altered (l : Layout) (told : List Event) : Prop :=
  ∃ (i : Nat) (before after : Event), l.events[i]? = some before ∧ told[i]? = some after ∧
    after ≠ before

theorem not_altered_iff : ¬ l.Altered told ↔ ∀ (i : Nat) (before after : Event),
    l.events[i]? = some before → told[i]? = some after → after = before := by
  unfold Altered
  push Not
  rfl

/-- **Events ask for no change exactly if none of them is told otherwise.** -/
theorem changesAll_eq_nil_iff (h : l.Sound)
    (hk : told.map Event.kind <+: l.spots.map (·.event.kind)) :
    Spot.changesAll l.spots told = [] ↔ ¬ l.Altered told := by
  rw [not_altered_iff, forall_events_iff (P := fun before after => after = before) hk]
  constructor
  · intro hnil i spot e hi he
    refine Spot.eq_of_changes_nil h (List.mem_of_getElem? hi) (kind_eq_of_begins hk hi he) ?_
    refine List.eq_nil_iff_forall_not_mem.2 fun c hc => ?_
    have hmem := Spot.mem_changesAll.2 ⟨i, spot, e, hi, he, hc⟩
    rw [hnil] at hmem
    cases hmem
  · intro hsame
    refine List.eq_nil_iff_forall_not_mem.2 fun c hc => ?_
    obtain ⟨i, spot, e, hi, he, hc⟩ := Spot.mem_changesAll.1 hc
    rw [hsame i spot e hi he, spot.changes_self] at hc
    cases hc

/-- A revision under way, without a fault, has made the changes that were asked for so far. -/
theorem exists_comes (hk : told.map Event.kind <+: l.spots.map (·.event.kind))
    (hr : (l.revision.acceptAll told).fault = none) : ∃ d,
      l.draft.applyAll (Spot.changesAll l.spots told) = .ok d ∧
        (l.revision.acceptAll told).Comes l (l.spots.drop told.length) (.ok d) := by
  have hcomes := acceptAll_comes hk
  cases hd : l.draft.applyAll (Spot.changesAll l.spots told) with
  | error fault =>
      rw [hd] at hcomes
      rw [show (l.revision.acceptAll told).fault = some fault from hcomes] at hr
      cases hr
  | ok d =>
      rw [hd] at hcomes
      exact ⟨d, rfl, hcomes⟩

/-- **A revision under way is modified exactly if an event was told otherwise.** -/
theorem isModified_iff_altered (h : l.Sound)
    (hk : told.map Event.kind <+: l.spots.map (·.event.kind))
    (hr : (l.revision.acceptAll told).fault = none) :
    (l.revision.acceptAll told).isModified = true ↔ l.Altered told := by
  obtain ⟨d, hd, -, -, -, hdraft⟩ := exists_comes hk hr
  have hsound := Draft.sound_applyAll (Draft.sound_draft l h.healthy) hd
  have hpatches : (l.revision.acceptAll told).patches = d.patches := congrArg Draft.patches hdraft
  rw [Revision.isModified, hpatches, Bool.not_eq_true', ← Bool.not_eq_true, hsound.isEmpty_iff,
    List.nil_append, changesAll_eq_nil_iff h hk, not_not]

/-! ## 3. Bytes that stay as they are -/

/-- **An event whose spot still reads as it did was told as it was.** -/
theorem Revised.eq_event (h : l.Revised told d) {i : Nat} {spot : Spot} {e : Event}
    (hi : l.spots[i]? = some spot) (he : told[i]? = some e)
    (hreads : spot.ReadsAs (Patch.edit d.patches) d.pool spot.event) : e = spot.event := by
  by_cases hk : e.kind = .dynamicCall
  · have hspot := h.kind_eq hi he
    rw [hk] at hspot
    cases spot
    case dynamicCall before entry =>
      cases e
      case dynamicCall after =>
        obtain ⟨hname, hdescriptor, hlen, -⟩ := h.dynamicCall hi he
        obtain ⟨hentry, hrow⟩ := h.sound.row before entry (List.mem_of_getElem? hi)
        cases hreads with
        | dynamicCall _ _ _ _ _ hread =>
            refine congrArg Event.dynamicCall
              (DynamicCall.eq_of_told hname hdescriptor (List.ext_getElem hlen fun k hkx hkb => ?_))
            have ha := List.getElem?_eq_getElem (hrow.length_eq.symm ▸ hkb)
            have hb := List.getElem?_eq_getElem hkb
            have hx := List.getElem?_eq_getElem hkx
            -- what is read in the place is what was there, so nothing new was told there
            obtain ⟨y, hy, hnew, -⟩ := h.argument_read
              (place_of_entry hentry (List.mem_of_getElem? ha)) (forall₂_getElem? hrow ha hb)
            rw [forall₂_getElem? hread ha hb] at hy
            cases hy
            exact (hnew _ (tells_of_getElem? hi he ha hb hx)).elim id id
      all_goals cases hk
    all_goals cases hspot
  · exact (h.readsAs_own hi he hk).unique hreads

/-- **A revised class is the old one exactly if no event was told otherwise.** -/
theorem Revised.bytes_eq_data_iff (h : ofBytes data = .ok l) (hr : l.Revised told d)
    (hd : l.draft.applyAll (Spot.changesAll l.spots told) = .ok d) (hout : d.bytes l = .ok out) :
    out = data ↔ ¬ l.Altered told := by
  have hprefix : told.map Event.kind <+: l.spots.map (·.event.kind) := hr.kinds ▸ List.prefix_rfl
  obtain ⟨_, _, _, _, -, -, -, hdata⟩ := ofBytes_ok h
  constructor
  · intro hsame
    subst hsame
    obtain ⟨k, l', hl', -, hspots⟩ := hr.ofBytes_bytes h hout
    rw [h] at hl'
    cases hl'
    rw [not_altered_iff, forall_events_iff (P := fun before after => after = before) hprefix]
    exact fun i spot e hi he => hr.eq_event hi he (forall₂_getElem? hspots hi hi).reads
  · intro hsame
    rw [(changesAll_eq_nil_iff hr.sound hprefix).2 hsame, Draft.applyAll_nil] at hd
    cases hd
    rw [bytes_draft, hdata] at hout
    exact (Except.ok.inj hout).symm

/-! ## 4. The flag -/

/-- A front of the events comes to what the events of some first spots come to: the event that ends
    a class neither changes anything nor is told otherwise. -/
theorem exists_front (hk : events.map Event.kind = l.events.map Event.kind)
    (htold : told <+: events) : ∃ front : List Event,
      front.map Event.kind <+: l.spots.map (·.event.kind) ∧
        l.revision.acceptAll told = l.revision.acceptAll front ∧
          (l.Altered told ↔ l.Altered front) := by
  obtain ⟨all, rfl, hall⟩ := exists_told hk
  rcases List.prefix_concat_iff.1 htold with rfl | htold
  · refine ⟨all, hall ▸ List.prefix_rfl, ?_, not_iff_not.1 ?_⟩
    · unfold Revision.acceptAll
      rw [List.foldl_append, List.foldl_cons, List.foldl_nil, Revision.accept_finish]
    · have hlen : all.length = l.spots.length := by
        rw [← List.length_map Event.kind, hall, List.length_map]
      rw [not_altered_iff, not_altered_iff]
      exact forall_append_finish_iff (P := fun before after => after = before) hlen rfl
  · exact ⟨told, (htold.map _).trans (hall ▸ List.prefix_rfl), rfl, Iff.rfl⟩

/-- **Whether a revision is modified.** As long as none of the events told so far was rejected, it
    is modified exactly if one of them was told otherwise than the class tells it; and once it can
    be finished, it gives the bytes of the class exactly if it is not modified. -/
theorem isModified_iff (h : ofBytes data = .ok l)
    (hk : events.map Event.kind = l.events.map Event.kind) (htold : told <+: events) :
    ((l.revision.acceptAll told).fault = none →
      ((l.revision.acceptAll told).isModified = true ↔ l.Altered told)) ∧
    ∀ out, (l.revision.acceptAll told).finish = .ok out →
      (out = data ↔ (l.revision.acceptAll told).isModified = false) := by
  obtain ⟨front, hfront, hrun, haltered⟩ := exists_front hk htold
  rw [hrun, haltered]
  have hl := sound_of_ofBytes h
  refine ⟨isModified_iff_altered hl hfront, fun out hout => ?_⟩
  obtain ⟨⟨⟩, hcheck, hbytes⟩ := exists_of_bind_ok hout
  obtain ⟨hfault, hnothing⟩ := Revision.remaining_of_check hcheck
  obtain ⟨d, hd, hlayout, hremaining, -, hdraft⟩ := exists_comes hfront hfault
  -- nothing is to come, so all events were told
  have hkinds : front.map Event.kind = l.spots.map (·.event.kind) := by
    rw [hnothing, eq_comm, List.drop_eq_nil_iff] at hremaining
    refine hfront.eq_of_length_le ?_
    rwa [List.length_map, List.length_map]
  rw [Revision.bytes_eq, hdraft, hlayout] at hbytes
  rw [← Bool.not_eq_true, isModified_iff_altered hl hfront hfault]
  exact (revised_of_applyAll h hkinds hd).bytes_eq_data_iff h hd hbytes

/-- With another handle in one of its two dynamic calls, the class is modified, and not the old one.
    -/
theorem isModified_iff_sharedRow : ∃ l out, ofBytes sharedRow = .ok l ∧
    l.revise (sharedEvents .invokeVirtual .invokeSpecial) = .ok out ∧
    (l.revision.acceptAll (sharedEvents .invokeVirtual .invokeSpecial)).isModified = true ∧
    out ≠ sharedRow := by
  obtain ⟨l, out, hl, hevents, hout, -⟩ := exists_revise_sharedRow
  have hk : (sharedEvents .invokeVirtual .invokeSpecial).map Event.kind =
      l.events.map Event.kind := by
    rw [hevents]
    rfl
  obtain ⟨hmodified, hbytes⟩ := isModified_iff hl hk List.prefix_rfl
  obtain ⟨⟨⟩, hcheck, -⟩ := exists_of_bind_ok hout
  have htrue := (hmodified (Revision.remaining_of_check hcheck).1).2
    ⟨3, .dynamicCall (sharedCall .invokeSpecial), .dynamicCall (sharedCall .invokeVirtual),
      by rw [hevents]; rfl, rfl, by decide⟩
  refine ⟨l, out, hl, hout, htrue, fun hsame => ?_⟩
  rw [(hbytes out hout).1 hsame] at htrue
  cases htrue

end Layout

end ClassAccess
