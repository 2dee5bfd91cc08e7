import ClassAccess.Proofs.Revision.Frame
import ClassAccess.Proofs.TransformSet.Needs
import ClassAccess.Proofs.TransformSet.Twice

/-!
# Applying a set, and then a larger one

What a set has made of a class, a larger set makes of it anyway. Applied after the smaller set, it
needs what it would have needed without, less what is there already.

* `Layout.arguments`, `mem_needed` -- where a set looks for what it needs;
* `needed?_iff_of_le` -- **one place**: what the larger set needs there is needed by the smaller one
  too, or is left;
* `Transformed`, `exists_transformed` -- a class to which a set was applied, with its pool and its
  places;
* `Transformed.needed_of_le`, `Transformed.count_eq` -- **what the larger set needs** is what the
  smaller one needs and what is left, so that the pool comes to the same count;
* `transform_absorbs` -- **applying both comes to the same as applying the larger one**.
-/

namespace ClassAccess

open Outcome

/-! ## 1. Places of arguments -/

namespace Spot

/-- The arguments of a dynamic call, each with its place. -/
def arguments : Spot → List (Placed UInt16 × BootstrapArgument)
  | dynamicCall told entry => entry.arguments.zip told.arguments
  | _ => []

theorem arguments_of_row?_eq_none {spot : Spot} (h : spot.row? = none) : spot.arguments = [] := by
  cases spot with
  | header | innerClass | field | method | call => rfl
  | dynamicCall => cases h

/-- A spot to which a set was applied has its arguments in the places it had them, and those are
    what the rule says. -/
theorem Retold.arguments_eq {s : TransformSet} {visited : String} {E : Edit} {k : Nat}
    {pool : ConstantPool} {spot spot' : Spot} (h : spot.Retold E k pool spot')
    (hevent : spot'.event = s.rule visited spot.event) :
    spot'.arguments =
      spot.arguments.map (Prod.map (Placed.editedIndex E k) (s.argumentRule visited)) := by
  have hrow := h.row
  cases spot with
  | header | innerClass | field | method | call => rw [arguments_of_row?_eq_none hrow]; rfl
  | dynamicCall call entry =>
      cases spot' with
      | header | innerClass | field | method | call => cases hrow
      | dynamicCall call' entry' =>
          cases hrow
          cases hevent
          exact List.zip_map

end Spot

namespace Layout

/-- The arguments of all dynamic calls of a class, each with its place. -/
def arguments (l : Layout) : List (Placed UInt16 × BootstrapArgument) :=
  l.spots.flatMap Spot.arguments

/-- The places of arguments are places of the class, and the arguments are what is looked up. -/
theorem Sound.argument {l : Layout} (h : l.Sound) {p : Placed UInt16 × BootstrapArgument}
    (hp : p ∈ l.arguments) : p.1 ∈ l.places ∧ argumentAt l.pool p.1.value = .ok p.2 := by
  obtain ⟨spot, hspot, hp⟩ := List.mem_flatMap.1 hp
  cases spot with
  | header | innerClass | field | method | call => cases hp
  | dynamicCall call entry =>
      obtain ⟨hentry, hrow⟩ := h.row call entry hspot
      obtain ⟨-, harguments⟩ := List.forall₂_cons.1 hrow
      refine ⟨place_of_entry hentry (List.mem_cons_of_mem _ (List.of_mem_zip hp).1), ?_⟩
      obtain ⟨i, hi⟩ := List.mem_iff_getElem?.1 hp
      obtain ⟨ha, hx⟩ := List.getElem?_zip_eq_some.1 hi
      exact forall₂_getElem? harguments ha hx

end Layout

namespace TransformSet

open ConstantPool

variable {s t : TransformSet} {visited : String} {data out : Bytes} {l l' : Layout} {d : Draft}
  {k : Nat}

/-! ## 2. What is needed in one place -/

/-- A constant is needed if it is needed in some place, and the class does not have it. -/
theorem mem_needed {e : Constant} : e ∈ s.needed l ↔
    (∃ p ∈ l.arguments, s.needed? l.name l.pool p.1 p.2 = some e) ∧ e ∉ l.pool.slots := by
  have hspot : s.neededBy l.name l.pool =
      fun spot => spot.arguments.filterMap fun p => s.needed? l.name l.pool p.1 p.2 := by
    funext spot
    cases spot with
    | header | innerClass | field | method | call | dynamicCall => rfl
  unfold needed
  rw [mem_missing, hspot, ← List.filterMap_flatMap, List.mem_filterMap]
  rfl

/-- What is needed in a place depends on what the handle there refers to. -/
theorem needed?_congr {pool pool' : ConstantPool} {a a' : Placed UInt16} {code code' : UInt8}
    {reference : UInt16} (h : pool.get a.value = .ok (.methodHandle code reference))
    (h' : pool'.get a'.value = .ok (.methodHandle code' reference)) (x : BootstrapArgument) :
    s.needed? visited pool a x = s.needed? visited pool' a' x := by
  cases x with
  | handle x =>
      unfold needed?
      simp only [h, h']
  | methodType | constant => rfl

theorem needed?_eq_none {pool : ConstantPool} {a : Placed UInt16} {x : Handle}
    (h : ¬ (x.kind = .invokeSpecial ∧ s.Widens visited x.target)) :
    s.needed? visited pool a (.handle x) = none := if_neg h

/-- **What a larger set needs in a place**, the smaller one needs there too, or it is needed of the
    argument that the smaller one has made. -/
theorem needed?_iff_of_le (h : s ≤ t) {pool : ConstantPool} {a : Placed UInt16}
    {x : BootstrapArgument} {e : Constant} : t.needed? visited pool a x = some e ↔
      s.needed? visited pool a x = some e ∨
        t.needed? visited pool a (s.argumentRule visited x) = some e := by
  cases x with
  | handle x =>
      by_cases hw : x.kind = .invokeSpecial ∧ s.Widens visited x.target
      · -- the smaller set makes the handle virtual, and nothing is left to be needed
        have hleft : t.needed? visited pool a (.handle { x with kind := .invokeVirtual }) = none :=
          needed?_eq_none fun hspecial => by cases hspecial.1
        have hboth : t.needed? visited pool a (.handle x) = s.needed? visited pool a (.handle x) :=
          (if_pos ⟨hw.1, hw.2.mono h⟩).trans (if_pos hw).symm
        rw [argumentRule_virtual hw, hleft, hboth, or_iff_left nofun]
      · rw [argumentRule_same hw, needed?_eq_none hw, or_iff_right nofun]
  | methodType | constant => exact (or_iff_right nofun).symm

/-- A larger set needs more. -/
theorem needed_mono (h : s ≤ t) : s.needed l ⊆ t.needed l := by
  intro e he
  rw [mem_needed] at he ⊢
  obtain ⟨⟨p, hp, hneeded⟩, hnew⟩ := he
  exact ⟨⟨p, hp, (needed?_iff_of_le h).2 (.inl hneeded)⟩, hnew⟩

/-! ## 3. A class to which a set was applied -/

/-- The class `l'` is what came of `l` when the set was applied, through the draft `d`; all that
    stands behind the pool was moved by `k` bytes. -/
structure Transformed (s : TransformSet) (l : Layout) (d : Draft) (k : Nat) (l' : Layout) :
    Prop where
  revised : l.Revised (s.told l) d
  grown : d.Grown l (Spot.changesAll l.spots (s.told l))
  pool : l'.pool = d.pool
  spots : List.Forall₂ (Spot.Retold (Patch.edit d.patches) k d.pool) l.spots l'.spots

/-- **What comes of a class** to which a set is applied, and the length of its file. -/
theorem exists_transformed (hl : Layout.ofBytes data = .ok l) (hout : s.transform data = .ok out) :
    ∃ d k l', Layout.ofBytes out = .ok l' ∧ s.Transformed l d k l' ∧
      out.length + 4 * l.pool.count = data.length + 4 * l'.pool.count := by
  have hsound := Layout.sound_of_ofBytes hl
  have hallowed := s.allowed_rule hsound
  obtain ⟨_, _, _, _, -, -, -, hdata⟩ := Layout.ofBytes_ok hl
  rw [transform_eq s hl, map_rule_events, Layout.revise_eq l hallowed.kinds] at hout
  obtain ⟨d, hd, hbytes⟩ := exists_of_bind_ok hout
  have hr := Layout.revised_of_applyAll hl hallowed.kinds hd
  have hgrown := Draft.grown_applyAll (Draft.sound_draft l hsound.healthy) (Draft.grown_draft l)
    (fun c hc => hsound.possible hc (hallowed.noneRefused c hc)) hd
  obtain ⟨k, l', hl', hpool, hspots⟩ := hr.ofBytes_bytes hl hbytes
  refine ⟨d, k, l', hl', ⟨hr, hgrown, hpool, hspots⟩, ?_⟩
  rw [hpool, hr.length_bytes hl hbytes, hdata]

namespace Transformed

/-- Its events are what the rule says. -/
theorem told (h : s.Transformed l d k l') : l'.spots.map Spot.event = s.told l := by
  have hagree := s.rowsAgree_rule l.name h.revised.sound
  rw [map_rule_events, h.revised.rowsAgree_append] at hagree
  have hreads := h.spots.imp fun _ _ hretold => hretold.reads
  exact Spot.events_unique (List.forall₂_map_right_iff.2 hreads) (h.revised.readsAs_told hagree)

theorem events (h : s.Transformed l d k l') : l'.events = l.events.map (s.rule l.name) := by
  rw [map_rule_events, l'.events_eq, h.told]

theorem arguments (h : s.Transformed l d k l') : l'.arguments = l.arguments.map
    (Prod.map (Placed.editedIndex (Patch.edit d.patches) k) (s.argumentRule l.name)) := by
  have htold := h.told
  have hspots := h.spots
  unfold Layout.arguments
  unfold TransformSet.told at htold
  generalize l.spots = spots, l'.spots = spots' at htold hspots
  induction hspots with
  | nil => rfl
  | cons hretold _ ih =>
      rw [List.map_cons, List.map_cons, List.cons.injEq] at htold
      rw [List.flatMap_cons, List.flatMap_cons, List.map_append, hretold.arguments_eq htold.1,
        ih htold.2]

/-- Its pool has got what the set needs. -/
theorem grown_needed (h : s.Transformed l d k l') :
    l'.pool.count = l.pool.count + (s.needed l).card ∧
      ∀ e, e ∈ l'.pool.slots ↔ e ∈ l.pool.slots ∨ e ∈ s.needed l := by
  have hmissing := h.grown.missing
  rwa [missing_rule, ← h.pool] at hmissing

/-- In the places of its arguments, a set needs what it would need of the arguments that the rule
    has made. -/
theorem needed?_eq (h : s.Transformed l d k l') {p : Placed UInt16 × BootstrapArgument}
    (hp : p ∈ l.arguments) :
    t.needed? visited l'.pool (p.1.editedIndex (Patch.edit d.patches) k)
        (s.argumentRule visited p.2) =
      t.needed? visited l.pool p.1 (s.argumentRule visited p.2) := by
  obtain ⟨a, x⟩ := p
  obtain ⟨ha, hx⟩ := h.revised.sound.argument hp
  cases x with
  | handle x =>
      obtain ⟨reference, code, hget, hget'⟩ := h.revised.get_place ha hx
      rw [h.pool]
      exact (needed?_congr hget hget' _).symm
  | methodType | constant => rfl

/-- What is left to be needed once the set was applied. -/
theorem mem_needed_iff (h : s.Transformed l d k l') {e : Constant} : e ∈ t.needed l' ↔
    (∃ p ∈ l.arguments, t.needed? l.name l.pool p.1 (s.argumentRule l.name p.2) = some e) ∧
      e ∉ l'.pool.slots := by
  rw [mem_needed, name_of_events h.events, h.arguments]
  refine and_congr_left' ⟨?_, ?_⟩
  · rintro ⟨_, hp', hneeded⟩
    obtain ⟨p, hp, rfl⟩ := List.mem_map.1 hp'
    exact ⟨p, hp, (h.needed?_eq hp).symm.trans hneeded⟩
  · rintro ⟨p, hp, hneeded⟩
    exact ⟨_, List.mem_map_of_mem hp, (h.needed?_eq hp).trans hneeded⟩

/-- **What a larger set needs** is what the smaller one needs, and what is left to be needed. -/
theorem needed_of_le (h : s.Transformed l d k l') (hle : s ≤ t) :
    t.needed l = s.needed l ∪ t.needed l' := by
  obtain ⟨-, hslots⟩ := h.grown_needed
  refine Finset.ext fun e => ?_
  rw [Finset.mem_union]
  constructor
  · intro he
    obtain ⟨⟨p, hp, hneeded⟩, hnew⟩ := mem_needed.1 he
    rcases (needed?_iff_of_le hle).1 hneeded with hsmall | hneeded
    · exact .inl (mem_needed.2 ⟨⟨p, hp, hsmall⟩, hnew⟩)
    · -- what the smaller set has added for another place is there for this one
      by_cases hadded : e ∈ s.needed l
      · exact .inl hadded
      · have hout : e ∉ l'.pool.slots := fun hin => ((hslots e).1 hin).elim hnew hadded
        exact .inr (h.mem_needed_iff.2 ⟨⟨p, hp, hneeded⟩, hout⟩)
  · rintro (he | he)
    · exact needed_mono hle he
    · obtain ⟨⟨p, hp, hneeded⟩, hnew⟩ := h.mem_needed_iff.1 he
      exact mem_needed.2 ⟨⟨p, hp, (needed?_iff_of_le hle).2 (.inr hneeded)⟩,
        fun hin => hnew ((hslots e).2 (.inl hin))⟩

/-- Nothing that the set has added is left to be needed. -/
theorem disjoint_needed (h : s.Transformed l d k l') (t : TransformSet) :
    Disjoint (s.needed l) (t.needed l') :=
  Finset.disjoint_left.2 fun e he he' =>
    (h.mem_needed_iff.1 he').2 ((h.grown_needed.2 e).2 (.inr he))

/-- **A larger set comes to the same count of the pool**, whether the smaller one was applied before
    or not. -/
theorem count_eq (h : s.Transformed l d k l') (hle : s ≤ t) :
    l'.pool.count + (t.needed l').card = l.pool.count + (t.needed l).card := by
  rw [h.grown_needed.1, h.needed_of_le hle, Finset.card_union_of_disjoint (h.disjoint_needed t),
    Nat.add_assoc]

end Transformed

/-! ## 4. Both sets -/

/-- A set can be applied to a class if there is room for what it needs. -/
theorem exists_transform_iff (hl : Layout.ofBytes data = .ok l) :
    (∃ out, s.transform data = .ok out) ↔ l.pool.count + (s.needed l).card ≤ capacity := by
  have hcases := s.transform_cases data
  rw [hl] at hcases
  simp only at hcases
  split at hcases
  · rename_i hover
    rw [hcases]
    exact iff_of_false nofun (Nat.not_le.2 hover)
  · rename_i hroom
    exact iff_of_true hcases (Nat.not_lt.1 hroom)

/-- **Applying a set, and then a larger one, comes to the same as applying the larger one**: it can
    be done exactly if that can be done, the file becomes as long, and it tells the same events. The
    larger set is one that does not change when the smaller one is merged into it. -/
theorem transform_absorbs (h : (t.merge s).same t = true) (data : Bytes) :
    ((∃ out, (s.transform data >>= t.transform) = .ok out) ↔
        ∃ out, t.transform data = .ok out) ∧
      ∀ out out', (s.transform data >>= t.transform) = .ok out → t.transform data = .ok out' →
        out.length = out'.length ∧ ∃ l l', Layout.ofBytes out = .ok l ∧
          Layout.ofBytes out' = .ok l' ∧ l.events = l'.events := by
  have hle := le_iff_same.2 h
  refine ⟨⟨fun ⟨out, hout⟩ => ?_, fun ⟨out, hout⟩ => ?_⟩, fun out out' hout hout' => ?_⟩
  · obtain ⟨mid, hmid, hout⟩ := exists_of_bind_ok hout
    obtain ⟨l, hl, -⟩ := transform_ok hmid
    obtain ⟨d, k, l', hl', htransformed, -⟩ := exists_transformed hl hmid
    rw [exists_transform_iff hl, ← htransformed.count_eq hle, ← exists_transform_iff hl']
    exact ⟨out, hout⟩
  · obtain ⟨l, hl, -⟩ := transform_ok hout
    have hroom := (exists_transform_iff hl).1 ⟨out, hout⟩
    have hfewer := Finset.card_le_card (needed_mono (l := l) hle)
    obtain ⟨mid, hmid⟩ := (exists_transform_iff hl).2 (show l.pool.count + (s.needed l).card ≤ _ by
      omega)
    obtain ⟨d, k, l', hl', htransformed, -⟩ := exists_transformed hl hmid
    rw [← htransformed.count_eq hle, ← exists_transform_iff hl'] at hroom
    obtain ⟨out', hout'⟩ := hroom
    exact ⟨out', by rw [hmid]; exact hout'⟩
  · obtain ⟨mid, hmid, hout⟩ := exists_of_bind_ok hout
    obtain ⟨l, hl, -⟩ := transform_ok hmid
    obtain ⟨_, _, l₁, hl₁, hfirst, hlength₁⟩ := exists_transformed hl hmid
    obtain ⟨_, _, l₂, hl₂, hsecond, hlength₂⟩ := exists_transformed hl₁ hout
    obtain ⟨_, _, l₃, hl₃, halone, hlength₃⟩ := exists_transformed hl hout'
    have hcount : l₂.pool.count = l₃.pool.count := by
      rw [hsecond.grown_needed.1, halone.grown_needed.1, hfirst.count_eq hle]
    refine ⟨by omega, l₂, l₃, hl₂, hl₃, ?_⟩
    rw [hsecond.events, halone.events, name_of_events hfirst.events, hfirst.events, List.map_map]
    exact List.map_congr_left fun e _ => rule_of_le hle l.name e

/-- The set that asks for what `publicShared` asks for, and for all methods of the class to be
    protected and not final. -/
def looserShared : TransformSet :=
  publicShared.mergeAt "A" .allMethods ⟨.protectedAccess, .remove⟩

/-- The constant that both sets need is added once, whether by the one or by the other. -/
theorem transform_absorbs_sharedRow : (looserShared.merge publicShared).same looserShared = true ∧
    ∃ out out' l l',
      (publicShared.transform Layout.sharedRow >>= looserShared.transform) = .ok out ∧
      looserShared.transform Layout.sharedRow = .ok out' ∧
      out.length = Layout.sharedRow.length + 4 ∧ out'.length = Layout.sharedRow.length + 4 ∧
      Layout.ofBytes out = .ok l ∧ Layout.ofBytes out' = .ok l' ∧ l.events = l'.events := by
  have hsame : (looserShared.merge publicShared).same looserShared = true := by decide +kernel
  have hrun : List.length <$> looserShared.transform Layout.sharedRow =
      .ok (Layout.sharedRow.length + 4) := by decide +kernel
  obtain ⟨out', hout', hlength'⟩ := exists_of_map_ok hrun
  obtain ⟨hiff, hboth⟩ := transform_absorbs hsame Layout.sharedRow
  obtain ⟨out, hout⟩ := hiff.2 ⟨out', hout'⟩
  obtain ⟨hlength, l, l', hl, hl', hevents⟩ := hboth out out' hout hout'
  exact ⟨hsame, out, out', l, l', hout, hout', hlength.trans hlength', hlength', hl, hl', hevents⟩

end TransformSet

end ClassAccess
