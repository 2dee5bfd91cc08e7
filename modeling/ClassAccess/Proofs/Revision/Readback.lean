import ClassAccess.Proofs.Revision.Sources
import Mathlib.Data.List.Nodup

/-!
# What a revised class tells

A revised class is read again. What does it tell, in the places of the events that were told?

* `Revised.readsAs_own` -- **of a declaration or a direct call, what was told**;
* `Revised.argument_read` -- in a place of the table of bootstrap methods, what some call told there
  that was new, or what was there before;
* `Layout.RowsAgree` -- dynamic calls that share a row tell the same of it;
* `Revised.bytes_eq` -- the bytes of a revised class, as those of an edited one;
* `revise_tells` -- **a revised class can be read, and tells what was told exactly if the rows
  agree**; `sharedRow` is a class in which they need not.
-/

namespace ClassAccess

open Outcome

namespace Layout

variable {l : Layout} {told : List Event} {d : Draft} {i : Nat} {spot : Spot} {e : Event}
  {a : Placed UInt16} {b x : BootstrapArgument}

namespace Revised

/-! ## 1. Declarations and direct calls -/

/-- The patch in a slot that a spot has for itself is the one that its event asks for. -/
theorem changes_own (h : l.Revised told d) (hi : l.spots[i]? = some spot) (he : told[i]? = some e)
    {s : Slot} (hs : s ∈ spot.own) {p : Patch} (hp : d.patches[s.offset]? = some p) :
    spot.changes e = [.write s.offset p] := by
  rcases h.source hp with ⟨j, spot', e', hj, he', hc, s', hs', ho, -⟩ | ⟨a, handle, kind, ht, ha⟩
  · have hij := h.sound.own_unique hj hi hs' hs ho
    rw [hij, hi] at hj
    cases hj
    rw [hij, he] at he'
    cases he'
    exact hc
  · refine absurd ?_ (h.sound.own_ne_place (List.mem_of_getElem? hi) hs (h.sound.place ht).1)
    generalize s.offset = o at ha
    cases ha
    rfl

/-- Where an event asks for nothing, the slots of its spot have no patch. -/
theorem patches_own (h : l.Revised told d) (hi : l.spots[i]? = some spot) (he : told[i]? = some e)
    {s : Slot} (hs : s ∈ spot.own) (hc : spot.changes e = []) : d.patches[s.offset]? = none := by
  cases hp : d.patches[s.offset]? with
  | none => rfl
  | some p =>
      have hwrite := h.changes_own hi he hs hp
      rw [hc] at hwrite
      cases hwrite

/-- The one change that an event asks for has its patch. -/
theorem patch_of_write (h : l.Revised told d) (hi : l.spots[i]? = some spot)
    (he : told[i]? = some e) {o : Nat} {p : Patch} (hc : spot.changes e = [.write o p]) :
    d.patches[o]? = some p := by
  obtain ⟨o', q, hasks, hq⟩ := h.settled hi he (c := .write o p)
    (by rw [hc]; exact List.mem_singleton_self _)
  cases hasks
  exact hq

/-- **What was told of a declaration is read.** -/
theorem told_eq {α : Type} [Declaration α] [DecidableEq α] (h : l.Revised told d)
    (hi : l.spots[i]? = some spot) (he : told[i]? = some e) {p : Placed α} {after : α}
    {otherwise : Unsupported} (hown : spot.own = [p.slot])
    (hchanges : spot.changes e = p.changes after otherwise) :
    p.told (Patch.edit d.patches) = after := by
  have hs : p.slot ∈ spot.own := hown ▸ List.mem_singleton_self _
  have hslot := slot_of_own (List.mem_of_getElem? hi) hs
  unfold Placed.told
  rcases p.changes_cases after otherwise with ⟨cause, hf⟩ | ⟨hback, ⟨ha, hnil⟩ | hwrite⟩
  · refine absurd ?_ (h.not_refused (.unsupported cause) hi he)
    rw [hchanges, hf]
    exact List.mem_singleton_self _
  · rw [h.fit.word_of_none hslot (h.patches_own hi he hs (hchanges.trans hnil)), ha, hback]
  · rw [h.fit.word_of_some hslot (h.patch_of_write hi he (hchanges.trans hwrite)), hback]

/-- **What was told of a direct call is read.** -/
theorem call_eq (h : l.Revised told d) {p : Placed Call} {after : Call}
    (hi : l.spots[i]? = some (.call p)) (he : told[i]? = some (.call after)) :
    (Spot.call p).ReadsAs (Patch.edit d.patches) d.pool (.call after) := by
  have hs : Slot.opcode p.offset p.value.kind.opcode ∈ (Spot.call p).own :=
    List.mem_singleton_self _
  have hslot := slot_of_own (List.mem_of_getElem? hi) hs
  rcases Call.changes_cases p after with ⟨cause, hf⟩ | ⟨kind, rfl, ⟨hkind, hnil⟩ | ⟨hplain, hwrite⟩⟩
  · refine absurd ?_ (h.not_refused (.unsupported cause) hi he)
    show _ ∈ Call.changes p after
    rw [hf]
    exact List.mem_singleton_self _
  · refine .call p kind ?_ (.inl hkind)
    rw [h.fit.opcode_of_none hslot (h.patches_own hi he hs hnil), hkind]
  · exact .call p kind (h.fit.opcode_of_some hslot (h.patch_of_write hi he hwrite) _) (.inr hplain)

/-- **Of a declaration or a direct call, what was told is read.** -/
theorem readsAs_own (h : l.Revised told d) (hi : l.spots[i]? = some spot) (he : told[i]? = some e)
    (hk : e.kind ≠ .dynamicCall) : spot.ReadsAs (Patch.edit d.patches) d.pool e := by
  have hkind := h.kind_eq hi he
  cases spot with
  | header p =>
      cases e
      case header x => exact h.told_eq hi he rfl rfl ▸ .header p
      all_goals cases hkind
  | innerClass p =>
      cases e
      case innerClass x => exact h.told_eq hi he rfl rfl ▸ .innerClass p
      all_goals cases hkind
  | field p =>
      cases e
      case field x => exact h.told_eq hi he rfl rfl ▸ .field p
      all_goals cases hkind
  | method p =>
      cases e
      case method x => exact h.told_eq hi he rfl rfl ▸ .method p
      all_goals cases hkind
  | call p =>
      cases e
      case call x => exact h.call_eq hi he
      all_goals cases hkind
  | dynamicCall before entry => exact absurd hkind hk

/-! ## 2. Places that dynamic calls share -/

/-- The patch of a place is for a handle of another kind, which some call told there. -/
theorem source_of_place (h : l.Revised told d) (ha : a ∈ l.places)
    (hb : argumentAt l.pool a.value = .ok b) {p : Patch} (hp : d.patches[a.offset]? = some p) :
    ∃ handle kind, b = .handle handle ∧ l.Tells told a b (.handle ⟨kind, handle.target⟩) ∧
      (Change.point a kind).Asks d.pool a.offset p := by
  rcases h.source hp with ⟨i, spot, e, hi, -, -, s, hs, ho, -⟩ | ⟨a', handle, kind, ht, hasks⟩
  · exact absurd ho (h.sound.own_ne_place (List.mem_of_getElem? hi) hs ha)
  · obtain ⟨ha', hb'⟩ := h.sound.place ht
    have haa : a' = a := by
      refine h.sound.place_unique ha' ha ?_
      generalize a.offset = o at hasks
      cases hasks
      rfl
    subst haa
    rw [hb] at hb'
    cases hb'
    exact ⟨handle, kind, rfl, ht, hasks⟩

/-- **A place that held a handle holds one for what it referred to**, pointed to or not. -/
theorem get_place (h : l.Revised told d) (ha : a ∈ l.places) {handle : Handle}
    (hb : argumentAt l.pool a.value = .ok (.handle handle)) : ∃ reference code,
      l.pool.get a.value = .ok (.methodHandle handle.kind.code reference) ∧
      d.pool.get ((Patch.edit d.patches).word a.offset a.value) =
        .ok (.methodHandle code reference) := by
  have hslot := slot_of_place ha
  obtain ⟨reference, hget, -⟩ := handleAt_eq_ok_iff.1 (argumentAt_eq_handle_iff.1 hb)
  have hget' := h.draft.within.get hget
  cases hp : d.patches[a.offset]? with
  | none =>
      rw [h.fit.word_of_none hslot hp]
      exact ⟨reference, _, hget, hget'⟩
  | some p =>
      obtain ⟨_, kind, -, -, hasks⟩ := h.source_of_place ha hb hp
      cases hasks with
      | point _ _ before reference' index hget'' hfind =>
          rw [hget'] at hget''
          cases hget''
          rw [h.fit.word_of_some hslot hp]
          exact ⟨reference, _, hget, h.draft.healthy.find?_eq_some (fun hu => by cases hu) hfind⟩

/-- A handle that is pointed to is read with its new kind, and the member it had before. -/
theorem handleAt_of_asks (h : l.Revised told d) {handle : Handle} {kind : HandleKind}
    (hb : handleAt l.pool a.value = .ok handle) {o : Nat} {p : Patch}
    (hasks : (Change.point a kind).Asks d.pool o p) :
    ∃ index, p = .word index ∧ o = a.offset ∧
      handleAt d.pool index = .ok ⟨kind, handle.target⟩ := by
  cases hasks with
  | point _ _ before reference index hget hfind =>
      refine ⟨index, rfl, rfl, ?_⟩
      obtain ⟨reference', hget', htarget⟩ := handleAt_eq_ok_iff.1 hb
      have hsame := h.draft.within.get hget'
      rw [hget] at hsame
      cases hsame
      refine handleAt_eq_ok_iff.2 ⟨reference, ?_, h.draft.within.member htarget⟩
      exact h.draft.healthy.find?_eq_some (fun hu => by cases hu) hfind

/-- **What is read in a place of the table of bootstrap methods**: what some call told there that
    was new, or what was there before. -/
theorem argument_read (h : l.Revised told d) (ha : a ∈ l.places)
    (hb : argumentAt l.pool a.value = .ok b) :
    ∃ y, argumentAt d.pool ((Patch.edit d.patches).word a.offset a.value) = .ok y ∧
      (∀ x, l.Tells told a b x → x = b ∨ x = y) ∧ (y = b ∨ l.Tells told a b y) := by
  have hslot := slot_of_place ha
  cases hp : d.patches[a.offset]? with
  | none =>
      rw [h.fit.word_of_none hslot hp]
      refine ⟨b, argumentAt_within h.draft.within hb, fun x hx => ?_, .inl rfl⟩
      rcases h.tells_cases hx with hbx | ⟨handle, kind, rfl, -, hc⟩
      · exact .inl hbx.symm
      · obtain ⟨o, p, hasks, hsome⟩ := h.draft.settled _ hc
        obtain ⟨index, -, rfl, -⟩ := h.handleAt_of_asks (argumentAt_eq_handle_iff.1 hb) hasks
        rw [hp] at hsome
        cases hsome
  | some p =>
      obtain ⟨handle, kind, rfl, ht, hasks⟩ := h.source_of_place ha hb hp
      have hhandle := argumentAt_eq_handle_iff.1 hb
      obtain ⟨index, rfl, -, hread⟩ := h.handleAt_of_asks hhandle hasks
      rw [h.fit.word_of_some hslot hp]
      refine ⟨.handle ⟨kind, handle.target⟩, argumentAt_eq_handle_iff.2 hread, fun x hx => ?_,
        .inr ht⟩
      rcases h.tells_cases hx with hbx | ⟨handle', kind', hb', rfl, hc⟩
      · exact .inl hbx.symm
      · cases hb'
        obtain ⟨o, p', hasks', hsome⟩ := h.draft.settled _ hc
        obtain ⟨index', rfl, rfl, hread'⟩ := h.handleAt_of_asks hhandle hasks'
        rw [hp] at hsome
        cases hsome
        rw [hread] at hread'
        exact .inr (congrArg BootstrapArgument.handle (Except.ok.inj hread').symm)

/-- **A dynamic call can be read**, whatever was told of it. -/
theorem readsAs_dynamic (h : l.Revised told d) {before : DynamicCall} {entry : BootstrapEntry}
    (hspot : .dynamicCall before entry ∈ l.spots) :
    ∃ e, (Spot.dynamicCall before entry).ReadsAs (Patch.edit d.patches) d.pool e := by
  obtain ⟨hentry, hrow⟩ := h.sound.row before entry hspot
  obtain ⟨ys, hys, hkept⟩ := mapM_transfer
    (fun a => argumentAt d.pool ((Patch.edit d.patches).word a.offset a.value))
    (fun b y => y = b ∨ ∃ h h', b = BootstrapArgument.handle h ∧ y = .handle h')
    (mapM_eq_ok_iff.2 hrow) fun a ha b _ hb => by
      obtain ⟨y, hy, -, hyb⟩ := h.argument_read (place_of_entry hentry ha) hb
      refine ⟨y, hy, ?_⟩
      rcases hyb with hyb | ht
      · exact .inl hyb
      · rcases h.tells_cases ht with hby | ⟨handle, kind, hb', hy', -⟩
        · exact .inl hby.symm
        · exact .inr ⟨handle, _, hb', hy'⟩
  rw [mapM_eq_ok_iff] at hys
  -- in the first place there is a handle, now as before
  cases hkept with
  | cons hfirst _ =>
      rename_i y ys _
      have hy : ∃ bootstrap, y = .handle bootstrap := by
        rcases hfirst with rfl | ⟨_, bootstrap, -, rfl⟩
        · exact ⟨_, rfl⟩
        · exact ⟨bootstrap, rfl⟩
      obtain ⟨bootstrap, rfl⟩ := hy
      exact ⟨_, .dynamicCall before ⟨before.name, before.descriptor, bootstrap, ys⟩ entry rfl rfl
        hys⟩

/-- **Every spot can be read**, whatever was told of it. -/
theorem exists_readsAs (h : l.Revised told d) :
    ∃ events, List.Forall₂ (Spot.ReadsAs (Patch.edit d.patches) d.pool) l.spots events := by
  refine exists_forall₂ fun spot hspot => ?_
  obtain ⟨i, hi⟩ := List.mem_iff_getElem?.1 hspot
  have hlen := h.length_eq
  obtain ⟨hlt, -⟩ := List.getElem?_eq_some_iff.1 hi
  obtain ⟨e, he⟩ : ∃ e, told[i]? = some e := ⟨_, List.getElem?_eq_getElem (hlen ▸ hlt)⟩
  by_cases hk : e.kind = .dynamicCall
  · rw [h.kind_eq hi he] at hk
    cases spot
    case dynamicCall before entry => exact h.readsAs_dynamic hspot
    all_goals cases hk
  · exact ⟨_, h.readsAs_own hi he hk⟩

end Revised

/-! ## 3. Rows that are told alike -/

/-- Dynamic calls that share a row of the table of bootstrap methods tell the same of it. -/
def RowsAgree (l : Layout) (events : List Event) : Prop :=
  ∀ (i j : Nat) (before before' after after' : DynamicCall) (entry : BootstrapEntry),
    l.spots[i]? = some (.dynamicCall before entry) →
    l.spots[j]? = some (.dynamicCall before' entry) → events[i]? = some (.dynamicCall after) →
    events[j]? = some (.dynamicCall after') → after.told = after'.told

/-- A row is known by one of its places. -/
theorem Sound.row_unique (h : l.Sound) {entry entry' : BootstrapEntry} (he : entry ∈ l.bootstraps)
    (he' : entry' ∈ l.bootstraps) (ha : a ∈ entry.places) (ha' : a ∈ entry'.places) :
    entry = entry' := by
  have hapart := h.apart
  rw [slots, List.pairwise_append, List.pairwise_flatMap (l := l.bootstraps)] at hapart
  have : Std.Symm fun e e' : BootstrapEntry => ∀ x ∈ e.slots, ∀ y ∈ e'.slots, Slot.Apart x y :=
    ⟨fun _ _ hxy x hx y hy => (hxy y hy x hx).symm⟩
  by_cases heq : entry = entry'
  · exact heq
  · exact absurd rfl (hapart.2.1.2.forall he he' heq a.slot (List.mem_map_of_mem ha) a.slot
      (List.mem_map_of_mem ha')).offset_ne

/-- A row has no place twice. -/
theorem Sound.nodup_places (h : l.Sound) {entry : BootstrapEntry} (he : entry ∈ l.bootstraps) :
    entry.places.Nodup := by
  have hapart := h.apart
  rw [slots, List.pairwise_append, List.pairwise_flatMap (l := l.bootstraps)] at hapart
  have hrow := hapart.2.1.1 entry he
  rw [BootstrapEntry.slots, List.pairwise_map] at hrow
  exact hrow.imp fun hab heq => hab.offset_ne (congrArg Placed.offset heq)

/-- Where rows are told alike, no two calls tell different things in a place. -/
theorem Sound.tells_unique (h : l.Sound) (hagree : l.RowsAgree told) {b' x' : BootstrapArgument}
    (hx : l.Tells told a b x) (hx' : l.Tells told a b' x') : x = x' := by
  obtain ⟨i, before, entry, after, hi, he, hmem⟩ := hx
  obtain ⟨j, before', entry', after', hj, he', hmem'⟩ := hx'
  have hentry := (h.row before entry (List.mem_of_getElem? hi)).1
  have hentry' := (h.row before' entry' (List.mem_of_getElem? hj)).1
  cases h.row_unique hentry hentry' (List.of_mem_zip hmem).1 (List.of_mem_zip hmem').1
  have htold := hagree i j before before' after after' entry hi hj he he'
  obtain ⟨k, hk⟩ := List.mem_iff_getElem?.1 hmem
  obtain ⟨k', hk'⟩ := List.mem_iff_getElem?.1 hmem'
  obtain ⟨hka, hkx⟩ := List.getElem?_zip_eq_some.1 hk
  obtain ⟨hka', hkx'⟩ := List.getElem?_zip_eq_some.1 hk'
  have hkk : k = k' := by
    obtain ⟨hlt, hget⟩ := List.getElem?_eq_some_iff.1 hka
    obtain ⟨hlt', hget'⟩ := List.getElem?_eq_some_iff.1 hka'
    exact (List.Nodup.getElem_inj_iff (h.nodup_places hentry)).1 (hget.trans hget'.symm)
  have hxk := (List.getElem?_zip_eq_some.1 hkx).2
  have hxk' := (List.getElem?_zip_eq_some.1 hkx').2
  rw [htold, hkk, hxk'] at hxk
  exact (Option.some.inj hxk).symm

namespace Allowed

/-- The event behind those of the spots says nothing of any row. -/
theorem rowsAgree_append (h : l.Allowed told) (e : Event) :
    l.RowsAgree (told ++ [e]) ↔ l.RowsAgree told := by
  have hget : ∀ {i : Nat} {spot : Spot}, l.spots[i]? = some spot →
      (told ++ [e])[i]? = told[i]? := by
    intro i spot hi
    refine List.getElem?_append_left ?_
    rw [h.length_eq]
    exact (List.getElem?_eq_some_iff.1 hi).1
  constructor
  · intro hagree i j before before' after after' entry hi hj he he'
    rw [← hget hi] at he
    rw [← hget hj] at he'
    exact hagree i j before before' after after' entry hi hj he he'
  · intro hagree i j before before' after after' entry hi hj he he'
    rw [hget hi] at he
    rw [hget hj] at he'
    exact hagree i j before before' after after' entry hi hj he he'

end Allowed

namespace Revised

/-- **Where rows are told alike, every spot reads as it was told.** -/
theorem readsAs_told (h : l.Revised told d) (hagree : l.RowsAgree told) :
    List.Forall₂ (Spot.ReadsAs (Patch.edit d.patches) d.pool) l.spots told := by
  refine forall₂_of_getElem? h.length_eq.symm fun i spot e hi he => ?_
  by_cases hk : e.kind = .dynamicCall
  · have hspot := h.kind_eq hi he
    rw [hk] at hspot
    cases spot
    case dynamicCall before entry =>
      cases e
      case dynamicCall after =>
        obtain ⟨hname, hdescriptor, htold, -⟩ := h.dynamicCall hi he
        obtain ⟨hentry, hrow⟩ := h.sound.row before entry (List.mem_of_getElem? hi)
        refine .dynamicCall before after entry hname hdescriptor
          (forall₂_of_getElem? (hrow.length_eq.trans htold.symm) fun k a x hka hkx => ?_)
        have hlt : k < before.told.length := by
          rw [← htold]
          exact (List.getElem?_eq_some_iff.1 hkx).1
        have hkb : before.told[k]? = some before.told[k] := List.getElem?_eq_getElem hlt
        have hx : l.Tells told a before.told[k] x := tells_of_getElem? hi he hka hkb hkx
        obtain ⟨y, hy, hnew, hyb⟩ := h.argument_read
          (place_of_entry hentry (List.mem_of_getElem? hka)) (forall₂_getElem? hrow hka hkb)
        rw [hy]
        rcases hnew x hx with hxb | hxy
        · rcases hyb with hyb | hyt
          · rw [hyb, hxb]
          · rw [h.sound.tells_unique hagree hyt hx]
        · rw [hxy]
      all_goals cases hk
    all_goals cases hspot
  · exact h.readsAs_own hi he hk

/-- Calls that share a row read the same of it. -/
theorem rowsAgree_of_readsAs {E : Edit} {pool : ConstantPool} {events : List Event}
    (hreads : List.Forall₂ (Spot.ReadsAs E pool) l.spots events) : l.RowsAgree events := by
  intro i j before before' after after' entry hi hj he he'
  have h₁ := forall₂_getElem? hreads hi he
  have h₂ := forall₂_getElem? hreads hj he'
  cases h₁ with
  | dynamicCall _ _ _ _ _ hrow =>
      cases h₂ with
      | dynamicCall _ _ _ _ _ hrow' =>
          have h := mapM_eq_ok_iff.2 hrow
          rw [mapM_eq_ok_iff.2 hrow'] at h
          exact (Except.ok.inj h).symm

end Revised

/-! ## 4. The bytes of a revised class -/

/-- **The bytes of a revised class are those of an edited one**, with method handles added. -/
theorem Revised.bytes_eq (h : l.Revised told d) : ∃ new written,
    d.pool = l.pool.grown new ∧ (∀ c ∈ new, c.isHandle = true) ∧
      new.mapM Constant.bytes = .ok written ∧
      d.bytes l = .ok (l.editedBytes (Patch.edit d.patches) new written) := by
  obtain ⟨new, hnew, hhandles⟩ := h.draft.grown
  obtain ⟨written, hwritten, -, -⟩ := ConstantPool.fill_handles hhandles
  refine ⟨new, written, hnew, hhandles, hwritten, ?_⟩
  have hcount : d.pool.count = l.pool.count + new.length := by rw [hnew, ConstantPool.count_grown]
  have hadded : d.pool.count - l.pool.count = new.length := by omega
  have hfrom : d.pool.bytesFrom l.pool.count = .ok written.flatten := by
    rw [hnew]
    exact ConstantPool.bytesFrom_grown hwritten
  unfold editedBytes
  rw [Draft.bytes_eq, hadded, Patch.applyAll_eq, hfrom, hcount]
  by_cases hn : new = []
  · rw [if_pos (List.length_eq_zero_iff.2 hn), if_pos hn]
  · rw [if_neg fun hz => hn (List.length_eq_zero_iff.1 hz), if_neg hn]
    rfl

/-- An edited class has four bytes more for each entry that its pool has got. -/
theorem length_editedBytes {E : Edit} {new : List Constant} {written : List Bytes}
    (hfront : 10 ≤ l.poolEnd) (hend : l.poolEnd ≤ l.data.length)
    (hwritten : written.flatten.length = 4 * new.length) :
    (l.editedBytes E new written).length = l.data.length + 4 * new.length := by
  have hlen := E.length_apply 0 l.data
  unfold editedBytes
  by_cases hn : new = []
  · rw [if_pos hn, hlen, hn]
    rfl
  · simp only
    rw [if_neg hn]
    simp only [List.length_append, List.length_take, List.length_drop, hlen,
      BigEndian.length_bytes16, hwritten]
    omega

/-- A revised class is longer by the entries that its pool has got. -/
theorem Revised.length_bytes {data out : Bytes} (h : ofBytes data = .ok l)
    (hr : l.Revised told d) (hout : d.bytes l = .ok out) :
    out.length + 4 * l.pool.count = l.data.length + 4 * d.pool.count := by
  obtain ⟨new, written, hnew, hhandles, hwritten, hbytes⟩ := hr.bytes_eq
  obtain ⟨_, hwritten', hlen⟩ := ConstantPool.bytes_handles hhandles
  rw [hwritten] at hwritten'
  cases hwritten'
  rw [hbytes] at hout
  cases hout
  rw [length_editedBytes hr.sound.front (poolEnd_le h) hlen, hnew, ConstantPool.count_grown]
  omega

/-- **A revised class can be read**: its pool is that of the draft, and its spots are those of the
    class, with the patches. -/
theorem Revised.ofBytes_bytes {data out : Bytes} (h : ofBytes data = .ok l) (hr : l.Revised told d)
    (hout : d.bytes l = .ok out) : ∃ k l', ofBytes out = .ok l' ∧ l'.pool = d.pool ∧
      List.Forall₂ (Spot.Retold (Patch.edit d.patches) k d.pool) l.spots l'.spots := by
  obtain ⟨new, written, hnew, hhandles, hwritten, hbytes⟩ := hr.bytes_eq
  rw [hbytes] at hout
  cases hout
  have hroom : l.pool.count + new.length ≤ ConstantPool.capacity := by
    rw [← ConstantPool.count_grown, ← hnew]
    exact hr.draft.healthy.bounded
  obtain ⟨read, hread⟩ := hr.exists_readsAs
  rw [hnew] at hread ⊢
  refine ⟨4 * new.length, ofBytes_edited h (fun i hi b => hr.fit.quiet hi b) hhandles hroom hwritten
    fun spot hspot => ?_⟩
  obtain ⟨e, -, he⟩ := exists_of_forall₂ hread hspot
  exact ⟨e, he⟩

/-- **A revised class can be read**, and each of its spots tells what it reads as. -/
theorem ofBytes_revise {data out : Bytes} {events : List Event} (h : ofBytes data = .ok l)
    (hk : events.map Event.kind = l.events.map Event.kind) (hout : l.revise events = .ok out) :
    ∃ told d read l', events = told ++ [.finish] ∧ l.Revised told d ∧
      List.Forall₂ (Spot.ReadsAs (Patch.edit d.patches) d.pool) l.spots read ∧
      ofBytes out = .ok l' ∧ l'.events = read ++ [.finish] := by
  obtain ⟨told, rfl, hkt⟩ := exists_told hk
  rw [revise_eq l hkt] at hout
  obtain ⟨d, hd, hout⟩ := exists_of_bind_ok hout
  have hr := revised_of_applyAll h hkt hd
  obtain ⟨k, l', hl', -, hspots⟩ := hr.ofBytes_bytes h hout
  exact ⟨told, d, l'.spots.map Spot.event, l', rfl, hr,
    List.forall₂_map_right_iff.2 (hspots.imp fun _ _ hretold => hretold.reads), hl', l'.events_eq⟩

/-- Where rows are told alike, a revised class tells what was told. -/
theorem events_revise {data out : Bytes} {events : List Event} (h : ofBytes data = .ok l)
    (hk : events.map Event.kind = l.events.map Event.kind) (hagree : l.RowsAgree events)
    (hout : l.revise events = .ok out) : ∃ l', ofBytes out = .ok l' ∧ l'.events = events := by
  obtain ⟨told, d, read, l', rfl, hr, hread, hl', hevents⟩ := ofBytes_revise h hk hout
  refine ⟨l', hl', ?_⟩
  rw [hr.rowsAgree_append] at hagree
  rw [hevents, Spot.events_unique hread (hr.readsAs_told hagree)]

/-- **What a revised class tells.** It can be read, and tells what was told of declarations and
    direct calls. It tells what was told altogether exactly if rows were told alike: a call that is
    told as before reads otherwise when another call with the same row is not. -/
theorem revise_tells {data out : Bytes} {events : List Event} (h : ofBytes data = .ok l)
    (hk : events.map Event.kind = l.events.map Event.kind) (hout : l.revise events = .ok out) :
    ∃ l', ofBytes out = .ok l' ∧
      (∀ (i : Nat) (e : Event), events[i]? = some e → e.kind ≠ .dynamicCall →
        l'.events[i]? = some e) ∧
      (l'.events = events ↔ l.RowsAgree events) := by
  obtain ⟨told, d, read, l', rfl, hr, hread, hl', hevents⟩ := ofBytes_revise h hk hout
  have hlen := hr.length_eq
  have hlen' : read.length = told.length := by rw [hlen, hread.length_eq]
  refine ⟨l', hl', fun i e he hne => ?_, ?_⟩
  · rw [hevents]
    by_cases hlt : i < told.length
    · rw [List.getElem?_append_left hlt] at he
      rw [List.getElem?_append_left (hlen' ▸ hlt)]
      obtain ⟨spot, hi⟩ : ∃ spot, l.spots[i]? = some spot :=
        ⟨_, List.getElem?_eq_getElem (hlen ▸ hlt)⟩
      obtain ⟨e', he'⟩ : ∃ e', read[i]? = some e' := ⟨_, List.getElem?_eq_getElem (hlen' ▸ hlt)⟩
      rw [he', (forall₂_getElem? hread hi he').unique (hr.readsAs_own hi he hne)]
    · rw [List.getElem?_append_right (by omega)] at he ⊢
      rw [hlen']
      exact he
  · rw [hevents, hr.rowsAgree_append, List.append_cancel_right_eq]
    constructor
    · rintro rfl
      exact Revised.rowsAgree_of_readsAs hread
    · exact fun hagree => Spot.events_unique hread (hr.readsAs_told hagree)

/-! ## 5. Two calls that share a row -/

/-- The class `A` with a private method `m` that calls itself without dynamic dispatch, and makes
    two dynamic calls with one row of the table of bootstrap methods. -/
def sharedRow : Bytes :=
  [0xCA, 0xFE, 0xBA, 0xBE, 0, 0, 0, 61, 0, 12, 1, 0, 1, 65, 7, 0, 1, 1, 0, 1, 109,
    1, 0, 3, 40, 41, 86, 12, 0, 3, 0, 4, 10, 0, 2, 0, 5, 15, 7, 0, 6, 15, 6, 0, 6, 18, 0, 0, 0, 5,
    1, 0, 4, 67, 111, 100, 101,
    1, 0, 16, 66, 111, 111, 116, 115, 116, 114, 97, 112, 77, 101, 116, 104, 111, 100, 115,
    0, 0, 0, 2, 0, 0, 0, 0, 0, 0, 0, 1, 0, 2, 0, 3, 0, 4, 0, 1, 0, 10, 0, 0, 0, 26,
    0, 0, 0, 0, 0, 0, 0, 14, 0xB7, 0, 6, 0xBA, 0, 9, 0, 0, 0xBA, 0, 9, 0, 0, 0xB1, 0, 0, 0, 0,
    0, 1, 0, 11, 0, 0, 0, 8, 0, 1, 0, 8, 0, 1, 0, 7]

/-- The method `m`. -/
def sharedMember : Member := ⟨"A", "m", "()V", false⟩

/-- A dynamic call whose only argument is a handle of some kind for `m`. -/
def sharedCall (kind : HandleKind) : DynamicCall :=
  ⟨"m", "()V", ⟨.invokeStatic, sharedMember⟩, [.handle ⟨kind, sharedMember⟩]⟩

/-- The events of the class, with handles of some kinds in its two dynamic calls. -/
def sharedEvents (first second : HandleKind) : List Event :=
  [.header ⟨⟨61, 0⟩, 0, "A", none, []⟩, .method ⟨2, "m", "()V"⟩, .call ⟨.special, sharedMember⟩,
    .dynamicCall (sharedCall first), .dynamicCall (sharedCall second), .finish]

theorem events_sharedRow :
    Layout.events <$> ofBytes sharedRow = .ok (sharedEvents .invokeSpecial .invokeSpecial) := by
  decide +kernel

/-- The class is revised with one of its two dynamic calls changed, and read again. -/
theorem exists_revise_sharedRow : ∃ l out, ofBytes sharedRow = .ok l ∧
    l.events = sharedEvents .invokeSpecial .invokeSpecial ∧
    l.revise (sharedEvents .invokeVirtual .invokeSpecial) = .ok out ∧
    Layout.events <$> ofBytes out = .ok (sharedEvents .invokeVirtual .invokeVirtual) := by
  have hrun : (do
      let l ← ofBytes sharedRow
      let out ← l.revise (sharedEvents .invokeVirtual .invokeSpecial)
      Layout.events <$> ofBytes out) = .ok (sharedEvents .invokeVirtual .invokeVirtual) := by
    decide +kernel
  obtain ⟨l, hl, hrun⟩ := exists_of_bind_ok hrun
  obtain ⟨out, hout, hread⟩ := exists_of_bind_ok hrun
  refine ⟨l, out, hl, ?_, hout, hread⟩
  have hevents := events_sharedRow
  rw [hl] at hevents
  exact Except.ok.inj hevents

theorem revise_tells_sharedRow : ∃ l out l', ofBytes sharedRow = .ok l ∧
    l.revise (sharedEvents .invokeVirtual .invokeSpecial) = .ok out ∧ ofBytes out = .ok l' ∧
    (l'.events = sharedEvents .invokeVirtual .invokeSpecial ↔
      l.RowsAgree (sharedEvents .invokeVirtual .invokeSpecial)) := by
  obtain ⟨l, out, hl, hevents, hout, -⟩ := exists_revise_sharedRow
  have hk : (sharedEvents .invokeVirtual .invokeSpecial).map Event.kind =
      l.events.map Event.kind := by
    rw [hevents]
    rfl
  obtain ⟨l', hl', -, hiff⟩ := revise_tells hl hk hout
  exact ⟨l, out, l', hl, hout, hl', hiff⟩

/-- **Not every revised class tells what was told**: where two dynamic calls share a row, changing
    one of them changes what the other one reads as. -/
theorem not_revise_tells_all : ¬ ∀ (data out : Bytes) (l : Layout) (events : List Event),
    ofBytes data = .ok l → events.map Event.kind = l.events.map Event.kind →
      l.revise events = .ok out → ∃ l', ofBytes out = .ok l' ∧ l'.events = events := by
  intro h
  obtain ⟨l, out, hl, hevents, hout, hread⟩ := exists_revise_sharedRow
  obtain ⟨l', hl', hsame⟩ := h sharedRow out l (sharedEvents .invokeVirtual .invokeSpecial) hl
    (by rw [hevents]; rfl) hout
  rw [hl'] at hread
  have hother : l'.events = sharedEvents .invokeVirtual .invokeVirtual := Except.ok.inj hread
  rw [hsame] at hother
  exact absurd hother (by decide)

end Layout

end ClassAccess
