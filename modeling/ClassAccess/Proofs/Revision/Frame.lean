import ClassAccess.Proofs.Revision.Arrangement
import ClassAccess.Proofs.Revision.Room
import Mathlib.Data.Set.List

/-!
# What a revision leaves alone

A revised class is the old one but for little, whatever events made it, and in whatever order.

* `Draft.Grown`, `grown_applyAll` -- the pool grows by the entries that are wanted and missing,
  each once;
* `Layout.Requests`, `Layout.Writes` -- what events ask of the pool, and what they write where;
* `Revised.writes_iff` -- **the patches are what the events write**;
* `Layout.Framed`, `revise_frame` -- **the bytes of a revised class**: the count and the entries of
  the pool, what the events write, and nothing else.
-/

namespace ClassAccess

open Outcome

/-! ## 1. The entries that are added -/

namespace Draft

variable {l : Layout} {d d' : Draft} {made : List Change} {c : Change}

/-- The pool has grown by the entries that the changes `made` want and that were missing, each
    once. -/
def Grown (l : Layout) (d : Draft) (made : List Change) : Prop :=
  ∃ new, d.pool = l.pool.grown new ∧ new.Nodup ∧
    ∀ e, e ∈ new ↔ e ∈ made.filterMap (Change.wanted? l.pool) ∧ e ∉ l.pool.slots

theorem grown_draft (l : Layout) : l.draft.Grown l [] :=
  ⟨[], l.pool.grown_nil.symm, .nil, fun _ => ⟨fun h => absurd h List.not_mem_nil,
    fun h => absurd h.1 List.not_mem_nil⟩⟩

theorem mem_slots_grown {pool : ConstantPool} {new : List Constant} {e : Constant} :
    e ∈ (pool.grown new).slots ↔ e ∈ pool.slots ∨ e ∈ new := by
  simp only [ConstantPool.grown, Array.mem_append, List.mem_toArray]

/-- The pool has grown by what was missing. -/
theorem Grown.missing (h : d.Grown l made) :
    d.pool.count = l.pool.count +
        (l.pool.missing (made.filterMap (Change.wanted? l.pool))).card ∧
      ∀ e, e ∈ d.pool.slots ↔
        e ∈ l.pool.slots ∨ e ∈ l.pool.missing (made.filterMap (Change.wanted? l.pool)) := by
  obtain ⟨new, hnew, hnodup, hmem⟩ := h
  have hmissing : ∀ e, e ∈ new ↔ e ∈ l.pool.missing (made.filterMap (Change.wanted? l.pool)) :=
    fun e => by rw [hmem, ConstantPool.mem_missing]
  have hset : l.pool.missing (made.filterMap (Change.wanted? l.pool)) = new.toFinset :=
    Finset.ext fun e => by rw [List.mem_toFinset, hmissing]
  refine ⟨?_, fun e => by rw [hnew, mem_slots_grown, hmissing]⟩
  rw [hset, List.toFinset_card_of_nodup hnodup, hnew, ConstantPool.count_grown]

/-- **One change adds the entry that it wants**, unless the pool has it. -/
theorem grown_apply (hs : d.Sound l made) (hg : d.Grown l made) (hp : c.Possible l.pool)
    (hc : d.apply c = .ok d') : d'.Grown l (made ++ [c]) := by
  obtain ⟨new, hnew, hnodup, hmem⟩ := hg
  cases hp with
  | write o p =>
      refine ⟨new, (note_ok hc).1.trans hnew, hnodup, fun e => ?_⟩
      rw [hmem, List.filterMap_append]
      exact and_congr_left' (by rw [show List.filterMap _ [Change.write o p] = [] from rfl,
        List.append_nil])
  | point slot kind before reference hget =>
      have hwanted := Change.wanted?_point hget kind
      obtain ⟨before', reference', index, pool, hget', hintern, hnote⟩ := point_ok hc
      rw [hs.within.get hget] at hget'
      cases hget'
      have hpool : d'.pool = pool := (note_ok hnote).1
      have hmade : ∀ e, e ∈ (made ++ [Change.point slot kind]).filterMap
          (Change.wanted? l.pool) ↔ e ∈ made.filterMap (Change.wanted? l.pool) ∨
            e = .methodHandle kind.code reference := by
        intro e
        rw [List.filterMap_append, List.filterMap_cons_some hwanted, List.filterMap_nil,
          List.mem_append, List.mem_singleton]
      obtain ⟨-, ⟨rfl, hin⟩ | ⟨rfl, hout, -⟩⟩ :=
        hs.healthy.intern_ok (by nofun) hintern
      · -- the entry was there, or had been added before
        refine ⟨new, hpool.trans hnew, hnodup, fun e => ?_⟩
        rw [hnew, mem_slots_grown] at hin
        rw [hmade, hmem]
        refine ⟨fun ⟨h, hne⟩ => ⟨.inl h, hne⟩, ?_⟩
        rintro ⟨h | rfl, hne⟩
        · exact ⟨h, hne⟩
        · exact (hmem _).1 (hin.resolve_left hne)
      · rw [hnew, mem_slots_grown, not_or] at hout
        refine ⟨new ++ [.methodHandle kind.code reference], ?_, ?_, fun e => ?_⟩
        · rw [hpool, hnew]
          exact ConstantPool.grown_add _ _ rfl
        · exact List.nodup_append.2 ⟨hnodup, List.nodup_singleton _, fun e he e' he' heq =>
            hout.2 (by rw [← List.mem_singleton.1 he', ← heq]; exact he)⟩
        · rw [hmade, List.mem_append, List.mem_singleton, hmem]
          constructor
          · rintro (⟨h, hne⟩ | rfl)
            · exact ⟨.inl h, hne⟩
            · exact ⟨.inr rfl, hout.1⟩
          · rintro ⟨h | rfl, hne⟩
            · exact .inl ⟨h, hne⟩
            · exact .inr rfl

/-- **All changes add the entries that they want**, as far as the pool does not have them. -/
theorem grown_applyAll {cs : List Change} (hs : d.Sound l made) (hg : d.Grown l made)
    (hp : ∀ c ∈ cs, c.Possible l.pool) (hcs : d.applyAll cs = .ok d') :
    d'.Grown l (made ++ cs) := by
  induction cs generalizing d made with
  | nil =>
      cases hcs
      rwa [List.append_nil]
  | cons c cs ih =>
      rw [applyAll_cons] at hcs
      obtain ⟨d₁, hd₁, hcs⟩ := exists_of_bind_ok hcs
      have hrun := ih (sound_apply hs hd₁) (grown_apply hs hg (hp c List.mem_cons_self) hd₁)
        (fun c' hc' => hp c' (List.mem_cons_of_mem _ hc')) hcs
      rwa [List.append_assoc, List.singleton_append] at hrun

end Draft

/-! ## 2. What events ask for and write -/

/-- The access flags of a declaration, and where they stand. -/
def Spot.access? : Spot → Option (Placed AccessFlags)
  | header p => some ⟨p.value.access, p.offset⟩
  | innerClass p => some ⟨p.value.access, p.offset⟩
  | field p => some ⟨p.value.access, p.offset⟩
  | method p => some ⟨p.value.access, p.offset⟩
  | _ => none

/-- The access flags that are told of a declaration. -/
def Event.access? : Event → Option AccessFlags
  | header h => some h.access
  | innerClass record => some record.access
  | field d => some d.access
  | method d => some d.access
  | _ => none

/-- The entry for a handle of some kind, and its bytes. -/
def handleEntry (q : HandleKind × UInt16) : Constant := .methodHandle q.1.code q.2

/-- The four bytes of the entry. -/
def handleBytes (q : HandleKind × UInt16) : Bytes := 15 :: q.1.code :: BigEndian.bytes16 q.2

theorem handleEntry_injective : Function.Injective handleEntry := fun q q' h => by
  obtain ⟨hkind, hreference⟩ := Constant.methodHandle.inj h
  exact Prod.ext (HandleKind.code_injective hkind) hreference

/-- What a change wants is an entry for a handle. -/
theorem Change.mem_range_of_wanted? {pool : ConstantPool} {c : Change} {e : Constant}
    (h : c.wanted? pool = some e) : e ∈ Set.range handleEntry := by
  cases c with
  | refuse | write => cases h
  | point slot kind =>
      unfold wanted? at h
      simp only at h
      split at h
      · cases h
        exact ⟨(kind, _), rfl⟩
      · cases h

namespace Layout

/-- Whether some dynamic call tells another handle in place `a` of the table of bootstrap methods,
    and with it asks for an entry: the new kind, and what the handle there refers to. -/
def Requests (l : Layout) (told : List Event) (a : Placed UInt16) (kind : HandleKind)
    (reference : UInt16) : Prop :=
  ∃ before after code, l.Tells told a (.handle before) (.handle after) ∧ after ≠ before ∧
    after.kind = kind ∧ l.pool.get a.value = .ok (.methodHandle code reference)

/-- **What events write where**, the pool having become `pool`: new access flags, new opcodes, and
    the numbers of handles that are asked for. -/
inductive Writes (l : Layout) (told : List Event) (pool : ConstantPool) : Nat → Bytes → Prop
  | access (i : Nat) (spot : Spot) (e : Event) (before after : AccessFlags) (offset : Nat)
      (spot_eq : l.spots[i]? = some spot) (event_eq : told[i]? = some e)
      (was : spot.access? = some ⟨before, offset⟩) (is : e.access? = some after)
      (new : after ≠ before) : Writes l told pool offset (BigEndian.bytes16 after)
  | opcode (i : Nat) (p : Placed Call) (call : Call) (spot_eq : l.spots[i]? = some (.call p))
      (event_eq : told[i]? = some (.call call)) (new : call.kind ≠ p.value.kind) :
      Writes l told pool p.offset [call.kind.opcode]
  | handle (a : Placed UInt16) (kind : HandleKind) (reference index : UInt16)
      (asked : l.Requests told a kind reference)
      (found : pool.find? (.methodHandle kind.code reference) = some index) :
      Writes l told pool a.offset (BigEndian.bytes16 index)

end Layout

/-! ## 3. The patches are what events write -/

/-- A declaration that is not refused asks for its access flags, if they are new. -/
theorem Placed.changes_of_allowed {α : Type} [Declaration α] [DecidableEq α] {p : Placed α}
    {after : α} {otherwise : Unsupported}
    (h : ∀ fault, .refuse fault ∉ p.changes after otherwise) :
    p.changes after otherwise =
      if Declaration.access after = Declaration.access p.value then []
      else [.write p.offset (.word (Declaration.access after))] := by
  unfold changes at h ⊢
  simp only at h ⊢
  split at h
  · rename_i hw
    rw [if_pos hw]
    by_cases ha : Declaration.access after = Declaration.access p.value
    · rw [if_pos ha.symm, if_pos ha]
    · rw [if_neg (Ne.symm ha), if_neg ha]
  · exact absurd (List.mem_singleton_self _) (h _)

/-- A direct call that is not refused asks for its opcode, if its kind is new. -/
theorem Call.changes_of_allowed {p : Placed Call} {after : Call}
    (h : ∀ fault, .refuse fault ∉ changes p after) :
    changes p after = if after.kind = p.value.kind then []
      else [.write p.offset (.byte after.kind.opcode)] := by
  unfold changes at h ⊢
  simp only at h ⊢
  split at h
  · exact absurd (List.mem_singleton_self _) (h _)
  · rename_i htarget
    rw [if_neg htarget]
    split at h
    · rename_i hkind
      rw [if_pos hkind, if_pos hkind]
    · rename_i hkind
      rw [if_neg hkind, if_neg hkind]
      cases hf : Revision.kindFault? p.value.target p.value.kind after.kind with
      | some cause =>
          rw [hf] at h
          exact absurd (List.mem_singleton_self _) (h _)
      | none => rfl

/-- A declaration that is told of another one asks for its access flags, if they are new. -/
theorem Spot.changes_of_access? {spot : Spot} {e : Event} {before : AccessFlags} {offset : Nat}
    (hwas : spot.access? = some ⟨before, offset⟩) (hk : e.kind = spot.event.kind)
    (h : ∀ fault, .refuse fault ∉ spot.changes e) : ∃ after, e.access? = some after ∧
      spot.changes e = if after = before then [] else [.write offset (.word after)] := by
  cases spot with
  | header p =>
      cases hwas
      cases e
      case header x => exact ⟨x.access, rfl, Placed.changes_of_allowed h⟩
      all_goals cases hk
  | innerClass p =>
      cases hwas
      cases e
      case innerClass x => exact ⟨x.access, rfl, Placed.changes_of_allowed h⟩
      all_goals cases hk
  | field p =>
      cases hwas
      cases e
      case field x => exact ⟨x.access, rfl, Placed.changes_of_allowed h⟩
      all_goals cases hk
  | method p =>
      cases hwas
      cases e
      case method x => exact ⟨x.access, rfl, Placed.changes_of_allowed h⟩
      all_goals cases hk
  | call | dynamicCall => cases hwas

/-- A spot that has a slot of its own is that of a declaration or of a direct call. -/
theorem Spot.own_cases {spot : Spot} {s : Slot} (hs : s ∈ spot.own) :
    (∃ before offset, spot.access? = some ⟨before, offset⟩) ∨ ∃ p, spot = .call p := by
  cases spot with
  | header p | innerClass p | field p | method p => exact .inl ⟨_, _, rfl⟩
  | call p => exact .inr ⟨p, rfl⟩
  | dynamicCall => cases hs

namespace Layout

variable {l : Layout} {told : List Event} {d : Draft}

/-- **A handle is asked for in a place where some dynamic call told another one.** -/
theorem Allowed.tells_of_point (h : l.Allowed told) {a : Placed UInt16} {kind : HandleKind}
    (hc : .point a kind ∈ Spot.changesAll l.spots told) : ∃ before : Handle,
      l.Tells told a (.handle before) (.handle ⟨kind, before.target⟩) ∧ kind ≠ before.kind := by
  obtain ⟨i, spot, e, hi, he, hc⟩ := Spot.mem_changesAll.1 hc
  rcases Spot.mem_changes hc with
    ⟨cause, hf⟩ | ⟨s, -, ⟨p, -, hw⟩, -⟩ | ⟨before, entry, after, rfl, rfl⟩
  · cases hf
  · cases hw
  · have hc' : Change.point a kind ∈ before.changes entry after := hc
    rw [(h.dynamicCall hi he).2.2.2] at hc'
    obtain ⟨⟨slot, b, x⟩, hmem, hc'⟩ := List.mem_flatMap.1 hc'
    simp only at hc'
    rcases BootstrapArgument.changes_cases before.name slot b x with
      ⟨-, hnil⟩ | ⟨cause, hf⟩ | ⟨handle, kind', rfl, rfl, hpoint⟩
    · rw [hnil] at hc'
      cases hc'
    · rw [hf] at hc'
      cases List.mem_singleton.1 hc'
    · have hne : kind' ≠ handle.kind := by
        rintro rfl
        rw [BootstrapArgument.changes_self] at hpoint
        cases hpoint
      rw [hpoint] at hc'
      cases List.mem_singleton.1 hc'
      exact ⟨handle, ⟨i, before, entry, after, hi, he, hmem⟩, hne⟩

namespace Revised

/-- What events write has its patch. -/
theorem patch_of_writes (h : l.Revised told d) {o : Nat} {bs : Bytes}
    (hw : l.Writes told d.pool o bs) : ∃ p : Patch, d.patches[o]? = some p ∧ p.bytes = bs := by
  cases hw with
  | access i spot e before after offset hi he hwas his hne =>
      obtain ⟨after', his', hchanges⟩ := Spot.changes_of_access? hwas (h.kind_eq hi he)
        fun fault => h.not_refused fault hi he
      rw [his] at his'
      cases his'
      rw [if_neg hne] at hchanges
      exact ⟨_, h.patch_of_write hi he hchanges, rfl⟩
  | opcode i p call hi he hne =>
      have hchanges : Call.changes p call = _ :=
        Call.changes_of_allowed fun fault => h.not_refused fault hi he
      rw [if_neg hne] at hchanges
      exact ⟨_, h.patch_of_write hi he hchanges, rfl⟩
  | handle a kind reference index hasked hfound =>
      obtain ⟨before, after, code, ht, hne, rfl, hget⟩ := hasked
      rcases h.tells_cases ht with heq | ⟨handle, kind, hb, hx, hc⟩
      · exact absurd (BootstrapArgument.handle.inj heq).symm hne
      · cases hb
        cases hx
        obtain ⟨o, p, ha, hp⟩ := h.draft.settled _ hc
        cases ha with
        | point _ _ before' reference' index' hget' hfind =>
            rw [h.draft.within.get hget] at hget'
            cases hget'
            rw [hfound] at hfind
            cases hfind
            exact ⟨_, hp, rfl⟩

/-- A patch is what some event writes. -/
theorem writes_of_patch (h : l.Revised told d) {o : Nat} {p : Patch}
    (hp : d.patches[o]? = some p) : l.Writes told d.pool o p.bytes := by
  obtain ⟨c, hc, ha⟩ := h.draft.sourced o p hp
  cases ha with
  | write =>
      rcases h.change_cases hc with ⟨i, spot, e, hi, he, s, hs, -, hone⟩ | ⟨_, _, _, -, hpoint⟩
      · rcases Spot.own_cases hs with ⟨before, offset, hwas⟩ | ⟨q, rfl⟩
        · obtain ⟨after, his, hchanges⟩ := Spot.changes_of_access? hwas (h.kind_eq hi he)
            fun fault => h.not_refused fault hi he
          rw [hone] at hchanges
          split at hchanges
          · cases hchanges
          · rename_i hne
            cases hchanges
            exact .access i spot e before after _ hi he hwas his hne
        · have hk := h.kind_eq hi he
          cases e
          case call call =>
            have hchanges : Call.changes q call = _ :=
              Call.changes_of_allowed fun fault => h.not_refused fault hi he
            have hone' : Call.changes q call = _ := hone
            rw [hone'] at hchanges
            split at hchanges
            · cases hchanges
            · rename_i hne
              cases hchanges
              exact .opcode i q call hi he hne
          all_goals cases hk
      · cases hpoint
  | point slot kind before reference index hget hfind =>
      obtain ⟨handle, ht, hne⟩ := h.tells_of_point hc
      obtain ⟨reference', hget', -⟩ :=
        handleAt_eq_ok_iff.1 (argumentAt_eq_handle_iff.1 (h.sound.place ht).2)
      rw [h.draft.within.get hget'] at hget
      cases hget
      exact .handle slot kind reference index
        ⟨handle, _, _, ht, fun heq => hne (congrArg Handle.kind heq), rfl, hget'⟩ hfind

/-- **The patches are what the events write.** -/
theorem writes_iff (h : l.Revised told d) {o : Nat} {bs : Bytes} :
    l.Writes told d.pool o bs ↔ ∃ p : Patch, d.patches[o]? = some p ∧ p.bytes = bs :=
  ⟨h.patch_of_writes, fun ⟨_, hp, hbs⟩ => hbs ▸ h.writes_of_patch hp⟩

/-- What is asked for is what the changes want. -/
theorem wanted_iff (h : l.Revised told d) {kind : HandleKind} {reference : UInt16} :
    .methodHandle kind.code reference ∈
        (Spot.changesAll l.spots told).filterMap (Change.wanted? l.pool) ↔
      ∃ a, l.Requests told a kind reference := by
  rw [List.mem_filterMap]
  constructor
  · rintro ⟨c, hc, hw⟩
    cases c with
    | refuse | write => cases hw
    | point a kind' =>
        obtain ⟨handle, ht, hne⟩ := h.tells_of_point hc
        obtain ⟨reference', hget, -⟩ :=
          handleAt_eq_ok_iff.1 (argumentAt_eq_handle_iff.1 (h.sound.place ht).2)
        rw [Change.wanted?_point hget] at hw
        have hentry := Constant.methodHandle.inj (Option.some.inj hw)
        have hkind : kind' = kind := HandleKind.code_injective hentry.1
        subst hkind
        exact ⟨a, handle, _, _, ht, fun heq => hne (congrArg Handle.kind heq), rfl,
          hentry.2 ▸ hget⟩
  · rintro ⟨a, before, after, code, ht, hne, rfl, hget⟩
    rcases h.tells_cases ht with heq | ⟨handle, kind, hb, hx, hc⟩
    · exact absurd (BootstrapArgument.handle.inj heq).symm hne
    · cases hx
      exact ⟨_, hc, Change.wanted?_point hget kind⟩

/-- **The entries that are added** are those that are asked for and missing, each once. -/
theorem exists_entries (h : l.Revised told d) {made : List Change}
    (hmade : l.draft.applyAll made = .ok d)
    (hmem : ∀ c, c ∈ made ↔ c ∈ Spot.changesAll l.spots told) :
    ∃ new : List (HandleKind × UInt16), new.Nodup ∧ d.pool = l.pool.grown (new.map handleEntry) ∧
      ∀ q, q ∈ new ↔
        (∃ a, l.Requests told a q.1 q.2) ∧ handleEntry q ∉ l.pool.slots := by
  have hgrown := Draft.grown_applyAll (Draft.sound_draft l h.sound.healthy) (Draft.grown_draft l)
    (fun c hc => h.sound.possible ((hmem c).1 hc) (h.noneRefused c ((hmem c).1 hc))) hmade
  rw [List.nil_append] at hgrown
  obtain ⟨new, hnew, hnodup, hentries⟩ := hgrown
  have hwanted : ∀ e, e ∈ made.filterMap (Change.wanted? l.pool) ↔
      e ∈ (Spot.changesAll l.spots told).filterMap (Change.wanted? l.pool) := fun e => by
    simp only [List.mem_filterMap, hmem]
  have hrange : ∀ e ∈ new, e ∈ Set.range handleEntry := by
    intro e he
    obtain ⟨c, -, hc⟩ := List.mem_filterMap.1 ((hentries e).1 he).1
    exact Change.mem_range_of_wanted? hc
  obtain ⟨qs, rfl⟩ : new ∈ Set.range (List.map handleEntry) := by
    rw [Set.range_list_map]
    exact hrange
  refine ⟨qs, hnodup.of_map, hnew, fun q => ?_⟩
  rw [← List.mem_map_of_injective handleEntry_injective, hentries, hwanted]
  exact and_congr_left' h.wanted_iff

end Revised

/-! ## 4. The count of the pool -/

/-- A pool that has an entry to give has two slots at least, since its first one cannot be used. -/
theorem two_le_count {pool : ConstantPool} (h : pool.Healthy) {index : UInt16} {c : Constant}
    (hc : pool.get index = .ok c) : 2 ≤ pool.count := by
  obtain ⟨hslot, hne⟩ := ConstantPool.get_eq_ok_iff.1 hc
  obtain ⟨hlt, -⟩ := Array.getElem?_eq_some_iff.1 hslot
  by_contra hsmall
  have hzero : index.toNat = 0 := by
    unfold ConstantPool.count at hsmall
    omega
  rw [hzero, h.first] at hslot
  exact hne (Option.some.inj hslot).symm

/-- A class has a name, and so its pool has an entry to give. -/
theorem exists_get_of_reading {version : Version} {pool : ConstantPool} {s t : Source}
    {parts : Parts} (h : Parts.reading version pool s = .ok (parts, t)) :
    ∃ index c, pool.get index = .ok c := by
  obtain ⟨header, _, hheader, -⟩ := Reading.exists_of_bind_ok h
  obtain ⟨_, _, -, hheader⟩ := Reading.exists_of_bind_ok hheader
  obtain ⟨_, _, -, hheader⟩ := Reading.exists_of_bind_ok hheader
  obtain ⟨index, _, -, hheader⟩ := Reading.exists_of_bind_ok hheader
  obtain ⟨_, _, hname, -⟩ := Reading.exists_of_bind_ok hheader
  obtain ⟨c, hc, -⟩ := exists_of_bind_ok (Reading.check_ok hname).1
  exact ⟨index, c, hc⟩

/-- **The count of the pool stands in the ninth and tenth byte.** -/
theorem count_of_ofBytes {data : Bytes} {l : Layout} (h : ofBytes data = .ok l) :
    (l.data.take 10).drop 8 = BigEndian.bytes16 l.pool.count.toUInt16 := by
  obtain ⟨version, s, parts, t, hs, hparts, -, hdata⟩ := ofBytes_ok h
  obtain ⟨index, c, hc⟩ := exists_get_of_reading hparts
  have htwo := two_le_count (sound_of_ofBytes h).healthy hc
  rw [preamble_eq] at hs
  obtain ⟨_, s₁, hversion, hs⟩ := Reading.exists_of_bind_ok hs
  obtain ⟨pool, s₂, hpool, hs⟩ := Reading.exists_of_bind_ok hs
  have hsame : l.pool = pool := congrArg (·.1.2.1) (Except.ok.inj hs).symm
  rw [hsame] at htwo ⊢
  obtain ⟨x, hx, hrest, -⟩ := versionReading_ok hversion
  obtain ⟨count, s₃, met, hcount, -, hgrown, hlength⟩ := ConstantPool.reading_ok hpool
  obtain ⟨a, b, hab, -, rfl⟩ := Reading.word16_ok hcount
  have hsize : pool.count = 1 + ((BigEndian.word16 a b).toNat - 1) := by
    rw [hgrown, ConstantPool.count_grown, hlength]
    rfl
  have hcount : pool.count.toUInt16 = BigEndian.word16 a b := by
    have hlt := (BigEndian.word16 a b).toNat_lt
    rw [← UInt16.toNat_inj]
    show pool.count % 65536 = _
    omega
  have hstart : data = x ++ a :: b :: s₃.rest := hrest.trans (by rw [hab])
  rw [hdata, hstart, show 10 = x.length + 2 by omega, List.take_length_add_append,
    List.drop_left' hx]
  show [a, b] = BigEndian.bytes16 pool.count.toUInt16
  rw [hcount, BigEndian.bytes16_word16]

/-! ## 5. The bytes -/

/-- **What a revised class is, byte by byte.** `new` are the entries that the pool has got: those
    that are asked for and missing, each once. `edited` are the bytes of the old class with what the
    events write, and with nothing else changed; what they write stands behind the pool. -/
structure Framed (l : Layout) (told : List Event) (new : List (HandleKind × UInt16))
    (edited out : Bytes) : Prop where
  distinct : new.Nodup
  entries : ∀ q, q ∈ new ↔ (∃ a, l.Requests told a q.1 q.2) ∧ handleEntry q ∉ l.pool.slots
  served : ∀ a kind reference, l.Requests told a kind reference →
    ∃ index, (l.pool.grown (new.map handleEntry)).find? (.methodHandle kind.code reference) =
      some index ∧ (l.pool.grown (new.map handleEntry)).get index =
        .ok (.methodHandle kind.code reference)
  count : (l.data.take 10).drop 8 = BigEndian.bytes16 l.pool.count.toUInt16
  room : l.pool.count + new.length ≤ 0xFFFF
  bytes : out = l.data.take 8 ++ BigEndian.bytes16 (l.pool.count + new.length).toUInt16
    ++ (l.data.take l.poolEnd).drop 10 ++ new.flatMap handleBytes ++ edited.drop l.poolEnd
  length : edited.length = l.data.length
  written : ∀ o bs, l.Writes told (l.pool.grown (new.map handleEntry)) o bs →
    l.poolEnd ≤ o ∧ ∀ k < bs.length, edited[o + k]? = bs[k]?
  kept : ∀ i, (∀ o bs, l.Writes told (l.pool.grown (new.map handleEntry)) o bs →
    ¬ (o ≤ i ∧ i < o + bs.length)) → edited[i]? = l.data[i]?

/-- A byte that no patch reaches stays as it is. -/
theorem edit_of_forall {patches : Std.TreeMap Nat Patch} {i : Nat}
    (h : ∀ o p, patches[o]? = some p → ¬ (o ≤ i ∧ i < o + p.bytes.length)) (b : UInt8) :
    Patch.edit patches i b = b := by
  unfold Patch.edit
  rw [Std.TreeMap.foldl_eq_foldl_toList]
  refine Patch.foldl_put_of_forall (fun q hq b => ?_) b
  have hout := h q.1 q.2 (Std.TreeMap.mem_toList_iff_getElem?_eq_some.1 hq)
  unfold Patch.put
  split
  · rw [List.getD_eq_getElem?_getD, List.getElem?_eq_none (by omega), Option.getD_none]
  · rfl

/-- Handles are written four bytes each. -/
theorem mapM_bytes_handleEntry (new : List (HandleKind × UInt16)) :
    (new.map handleEntry).mapM Constant.bytes = .ok (new.map handleBytes) := by
  rw [mapM_eq_ok_iff, List.forall₂_map_left_iff, List.forall₂_map_right_iff]
  exact List.forall₂_same.2 fun q _ => rfl

theorem length_flatMap_handleBytes (new : List (HandleKind × UInt16)) :
    (new.flatMap handleBytes).length = 4 * new.length := by
  induction new with
  | nil => rfl
  | cons q new ih =>
      rw [List.flatMap_cons, List.length_append, ih, List.length_cons]
      show 4 + _ = _
      omega

theorem grown_injective {pool : ConstantPool} {new new' : List Constant}
    (h : pool.grown new = pool.grown new') : new = new' := by
  have hslots := congrArg (fun pool : ConstantPool => pool.slots.toList) h
  simp only [ConstantPool.grown, Array.toList_append] at hslots
  exact List.append_cancel_left hslots

/-- **The bytes of an edited class**, with the head of the old one. -/
theorem editedBytes_eq {data : Bytes} {l : Layout} (h : ofBytes data = .ok l) {E : Edit}
    (hquiet : ∀ i, (∀ s ∈ l.slots, ¬ s.Covers i) → ∀ b, E i b = b)
    (new : List (HandleKind × UInt16)) :
    l.editedBytes E (new.map handleEntry) (new.map handleBytes) =
      l.data.take 8 ++ BigEndian.bytes16 (l.pool.count + new.length).toUInt16
        ++ (l.data.take l.poolEnd).drop 10 ++ new.flatMap handleBytes
        ++ (E.apply 0 l.data).drop l.poolEnd := by
  have hcount := count_of_ofBytes h
  obtain ⟨version, x, rest, parts, t, ha⟩ := anatomy_of_ofBytes h
  have h10 := ha.front.length
  have hdata : l.data = x ++ rest := ha.layout_data.trans ha.data_eq
  have htake : l.data.take l.poolEnd = x := by rw [hdata, ha.poolEnd_eq, List.take_left]
  have htake8 : l.data.take 8 = x.take 8 := by
    rw [hdata, List.take_append_of_le_length (by omega)]
  rw [hdata, List.take_append_of_le_length h10] at hcount
  have hdrop : (x ++ E.apply l.poolEnd rest).drop l.poolEnd = E.apply l.poolEnd rest :=
    List.drop_left' ha.poolEnd_eq.symm
  unfold editedBytes
  rw [ha.apply_eq hquiet, htake, htake8, hdrop]
  cases new with
  | nil =>
      have hhead : x.take 8 ++ (x.take 10).drop 8 ++ x.drop 10 = x := by
        have h8 : x.take 8 = (x.take 10).take 8 := by rw [List.take_take]; rfl
        rw [h8, List.take_append_drop, List.take_append_drop]
      rw [List.map_nil, if_pos rfl, List.length_nil, Nat.add_zero, ← hcount, List.flatMap_nil,
        List.append_nil, hhead]
  | cons q new =>
      have htake8' : (x ++ E.apply l.poolEnd rest).take 8 = x.take 8 :=
        List.take_append_of_le_length (by omega)
      have htake' : (x ++ E.apply l.poolEnd rest).take l.poolEnd = x :=
        List.take_left' ha.poolEnd_eq.symm
      simp only [List.map_cons, reduceCtorEq, if_false, htake8', htake', hdrop, List.length_cons,
        List.length_map]
      rfl

/-- A revised class is framed. -/
theorem Revised.framed {data out : Bytes} {l : Layout} {told : List Event} {d : Draft}
    {made : List Change} (h : ofBytes data = .ok l) (hr : l.Revised told d)
    (hbytes : d.bytes l = .ok out) (hmade : l.draft.applyAll made = .ok d)
    (hmem : ∀ c, c ∈ made ↔ c ∈ Spot.changesAll l.spots told) :
    ∃ new, l.Framed told new ((Patch.edit d.patches).apply 0 l.data) out := by
  obtain ⟨new, hdistinct, hpool, hentries⟩ := hr.exists_entries hmade hmem
  obtain ⟨new', written, hpool', -, hwritten, heq⟩ := hr.bytes_eq
  cases grown_injective (hpool'.symm.trans hpool)
  rw [mapM_bytes_handleEntry] at hwritten
  cases hwritten
  rw [hbytes] at heq
  have hroom := hr.draft.healthy.bounded
  rw [hpool, ConstantPool.count_grown, List.length_map] at hroom
  have hat : ∀ i, ((Patch.edit d.patches).apply 0 l.data)[i]? =
      l.data[i]?.map (Patch.edit d.patches i) := fun i => by
    rw [Edit.getElem?_apply, Nat.zero_add]
  refine ⟨new, hdistinct, hentries, fun a kind reference hasked => ?_, count_of_ofBytes h, hroom,
    ?_, Edit.length_apply _ _, fun o bs hw => ?_, fun i hi => ?_⟩
  · have hentry : handleEntry (kind, reference) ∈ d.pool.slots := by
      rw [hpool, Draft.mem_slots_grown, List.mem_map_of_injective handleEntry_injective, hentries]
      by_cases hin : handleEntry (kind, reference) ∈ l.pool.slots
      · exact .inl hin
      · exact .inr ⟨⟨a, hasked⟩, hin⟩
    have husable : handleEntry (kind, reference) ≠ .unusable := fun hu => by cases hu
    obtain ⟨index, -, hfind, hget⟩ :=
      ConstantPool.intern_of_mem hr.draft.healthy husable hentry
    rw [hpool] at hfind hget
    exact ⟨index, hfind, hget⟩
  · exact (Except.ok.inj heq).trans (editedBytes_eq h (fun i hi b => hr.fit.quiet hi b) new)
  · rw [← hpool, hr.writes_iff] at hw
    obtain ⟨p, hp, rfl⟩ := hw
    obtain ⟨s, hs, rfl, hwidth⟩ := hr.fit.slot o p hp
    obtain ⟨hlo, hhi⟩ := hr.sound.bounds s hs
    refine ⟨hlo, fun k hk => ?_⟩
    have hlt : s.offset + k < l.data.length := by
      unfold Slot.finish at hhi
      omega
    rw [hat, List.getElem?_eq_getElem hlt, Option.map_some, hr.fit.edit_of_some hs hp hk,
      List.getElem?_eq_getElem hk]
  · have hkept : Patch.edit d.patches i = id := funext fun b =>
      edit_of_forall (fun o p hp => hi o p.bytes (by
        rw [← hpool]
        exact hr.writes_of_patch hp)) b
    rw [hat, hkept, Option.map_id, id]

theorem Framed.length_out {l : Layout} {told : List Event} {new : List (HandleKind × UInt16)}
    {edited out : Bytes} (h : l.Framed told new edited out) (hfront : 10 ≤ l.poolEnd)
    (hend : l.poolEnd ≤ l.data.length) : out.length = l.data.length + 4 * new.length := by
  rw [h.bytes]
  simp only [List.length_append, List.length_take, List.length_drop, h.length,
    BigEndian.length_bytes16, length_flatMap_handleBytes]
  omega

/-- **What a revision leaves alone.** A revised class is the old one with the entries that are asked
    for and missing at the end of its pool, with their number added to the count of the pool, and
    with what the events write; the events may come in any order that is taken. -/
theorem revise_frame {data out : Bytes} {l : Layout} {events : List Event}
    (h : ofBytes data = .ok l) (hout : l.revise events = .ok out) :
    l.data = data ∧ (Event.arranged events).map Event.kind = l.spots.map (·.event.kind) ∧
      ∃ new edited, l.Framed (Event.arranged events) new edited out ∧
        out.length = data.length + 4 * new.length := by
  obtain ⟨d, made, hr, hbytes, hmade, hmem⟩ := revised_arranged h hout
  obtain ⟨new, hframed⟩ := Revised.framed h hr hbytes hmade hmem
  obtain ⟨_, _, _, _, -, -, -, hdata⟩ := ofBytes_ok h
  refine ⟨hdata, hr.kinds, new, _, hframed, ?_⟩
  rw [← hdata]
  exact hframed.length_out hr.sound.front (poolEnd_le h)

theorem revise_frame_sharedRow : ∃ l out new edited, ofBytes sharedRow = .ok l ∧
    l.revise (sharedEvents .invokeVirtual .invokeSpecial) = .ok out ∧
    l.Framed (Event.arranged (sharedEvents .invokeVirtual .invokeSpecial)) new edited out := by
  obtain ⟨l, out, hl, -, hout, -⟩ := exists_revise_sharedRow
  obtain ⟨-, -, new, edited, hframed, -⟩ := revise_frame hl hout
  exact ⟨l, out, new, edited, hl, hout, hframed⟩

end Layout

end ClassAccess
