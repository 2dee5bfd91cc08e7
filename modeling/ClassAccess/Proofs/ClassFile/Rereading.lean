import ClassAccess.Proofs.ClassFile.Spots
import ClassAccess.Proofs.ConstantPool.Rereading

/-!
# Reading an edited class file

A class file is edited in its slots, method handles are added to its pool, and everything behind the
pool moves. What does reading give then?

* `Layout.Front` -- what stands in front of the parts, before and after the pool has grown;
* `Spot.ReadsAs` -- the event that an edited spot tells;
* `resolve_edited` -- one call, looked up after the edit;
* `ofBytes_edited` -- **the edited file can be read, and its spots are those of the file, edited**.
-/

namespace ClassAccess

open Outcome

/-! ## 1. In front of the parts -/

namespace Layout

/-- Magic number and version. -/
def versionReading : Reading Version := do
  let found ← Reading.word32
  if found ≠ magic then Reading.fail (.invalidMagic found)
  let minor ← Reading.word16
  let major ← Reading.word16
  return ⟨major, minor⟩

theorem preamble_eq : preamble = (do
    let version ← versionReading
    let pool ← ConstantPool.reading
    let poolEnd ← Reading.offset
    return (version, pool, poolEnd)) := by
  unfold preamble versionReading
  rw [bind_assoc]
  refine bind_congr fun found => ?_
  by_cases h : found = magic
  · simp only [h, ne_eq, not_true_eq_false, if_false, bind_assoc, pure_bind]
  · simp only [h, ne_eq, not_false_eq_true, if_true, bind_assoc]
    rfl

theorem versionReading_ok {s t : Source} {v : Version} (h : versionReading s = .ok (v, t)) :
    ∃ x : Bytes, x.length = 8 ∧ s.rest = x ++ t.rest ∧ t.offset = s.offset + 8 ∧
      ∀ u, versionReading ⟨s.offset, x ++ u⟩ = .ok (v, ⟨t.offset, u⟩) := by
  obtain ⟨found, s₁, hfound, h⟩ := Reading.exists_of_bind_ok h
  by_cases hm : found = magic
  · simp only [hm, ne_eq, not_true_eq_false, if_false] at h
    obtain ⟨minor, s₂, hminor, h⟩ := Reading.exists_of_bind_ok h
    obtain ⟨major, s₃, hmajor, h⟩ := Reading.exists_of_bind_ok h
    cases h
    obtain ⟨a, b, c, d, h₁, ho₁, rfl⟩ := Reading.word32_ok hfound
    obtain ⟨e, f, h₂, ho₂, rfl⟩ := Reading.word16_ok hminor
    obtain ⟨g, i, h₃, ho₃, rfl⟩ := Reading.word16_ok hmajor
    refine ⟨[a, b, c, d, e, f, g, i], rfl, by rw [h₁, h₂, h₃]; rfl, by omega, fun u => ?_⟩
    have hword : Reading.word32 ⟨s.offset, [a, b, c, d, e, f, g, i] ++ u⟩ =
        .ok (BigEndian.word32 a b c d, ⟨s.offset + 4, [e, f, g, i] ++ u⟩) := rfl
    rw [versionReading, Reading.bind_ok hword]
    simp only [hm, ne_eq, not_true_eq_false, if_false]
    rw [ho₃, ho₂, ho₁]
    rfl
  · simp only [hm, ne_eq, not_false_eq_true, if_true] at h
    cases h

/-- What stands in front of the parts, and what may stand there once the pool has grown. -/
structure Front (version : Version) (pool : ConstantPool) (x : Bytes) : Prop where
  healthy : pool.Healthy
  length : 10 ≤ x.length
  again : ∀ u, preamble ⟨0, x ++ u⟩ = .ok ((version, pool, x.length), ⟨x.length, u⟩)
  grown : ∀ (new : List Constant) (xs : List Bytes) (u : Bytes), (∀ c ∈ new, c.isHandle = true) →
    pool.count + new.length ≤ ConstantPool.capacity → new.mapM Constant.bytes = .ok xs →
      preamble ⟨0, x.take 8 ++ BigEndian.bytes16 (pool.count + new.length).toUInt16 ++ x.drop 10
        ++ xs.flatten ++ u⟩ = .ok ((version, pool.grown new, x.length + 4 * new.length),
          ⟨x.length + 4 * new.length, u⟩)

theorem preamble_of {data : Bytes} {version : Version} {pool : ConstantPool} {s t : Source}
    (hv : versionReading ⟨0, data⟩ = .ok (version, s))
    (hp : ConstantPool.reading s = .ok (pool, t)) :
    preamble ⟨0, data⟩ = .ok ((version, pool, t.offset), t) := by
  rw [preamble_eq, Reading.bind_ok hv, Reading.bind_ok hp]
  rfl

/-- **What stands in front of the parts can be read again, and with a grown pool.** -/
theorem front_of_preamble {data : Bytes} {version : Version} {pool : ConstantPool} {poolEnd : Nat}
    {s : Source} (h : preamble ⟨0, data⟩ = .ok ((version, pool, poolEnd), s)) :
    ∃ x, data = x ++ s.rest ∧ s.offset = x.length ∧ poolEnd = x.length ∧ Front version pool x := by
  rw [preamble_eq] at h
  obtain ⟨v, s₁, hv, h⟩ := Reading.exists_of_bind_ok h
  obtain ⟨p, s₂, hp, h⟩ := Reading.exists_of_bind_ok h
  cases h
  obtain ⟨x, hx, hrest, hoff, hread⟩ := versionReading_ok hv
  obtain ⟨y, hy, hyo, hw⟩ := ConstantPool.written_of_reading hp
  have h8 : s₁.offset = 8 := by rw [hoff]
  rw [h8] at hyo hw hread
  have hfin : s.offset = (x ++ y).length := by rw [hyo, List.length_append, hx]
  refine ⟨x ++ y, ?_, hfin, hfin, hw.healthy, ?_, fun u => ?_, fun new xs u hnew hroom hxs => ?_⟩
  · rw [List.append_assoc, ← hy]
    exact hrest
  · have := hw.length
    rw [List.length_append, hx]
    omega
  · rw [List.append_assoc, preamble_of (hread (y ++ u)) (hw.again u), List.length_append, hx]
  · have hdrop : (x ++ y).drop 10 = y.drop 2 := by
      rw [List.drop_append, hx, List.drop_eq_nil_of_le (by omega)]
      rfl
    have htake : (x ++ y).take 8 = x := List.take_left' hx
    rw [htake, hdrop, List.append_assoc, List.append_assoc, List.append_assoc]
    have hpool := hw.grown new xs u hnew hroom hxs
    rw [List.append_assoc, List.append_assoc] at hpool
    rw [preamble_of (hread _) hpool, List.length_append, hx]

end Layout

/-! ## 2. What a spot tells after an edit -/

/-- What a dynamic call tells of its row: the bootstrap method, then the arguments. -/
def DynamicCall.told (c : DynamicCall) : List BootstrapArgument :=
  .handle c.bootstrap :: c.arguments

/-- **A dynamic call says its name, its descriptor and what it tells of its row**, nothing else. -/
theorem DynamicCall.eq_of_told {c c' : DynamicCall} (hname : c.name = c'.name)
    (hdescriptor : c.descriptor = c'.descriptor) (htold : c.told = c'.told) : c = c' := by
  cases c
  cases c'
  cases htold
  simp only at hname hdescriptor
  rw [hname, hdescriptor]

/-- The event that a spot tells once the edit is made, where the numbers of the edited file are
    looked up in `pool`. -/
inductive Spot.ReadsAs (E : Edit) (pool : ConstantPool) : Spot → Event → Prop
  | header (p : Placed Header) : ReadsAs E pool (.header p) (.header (p.told E))
  | innerClass (p : Placed InnerClass) : ReadsAs E pool (.innerClass p) (.innerClass (p.told E))
  | field (p : Placed FieldDeclaration) : ReadsAs E pool (.field p) (.field (p.told E))
  | method (p : Placed MethodDeclaration) : ReadsAs E pool (.method p) (.method (p.told E))
  | call (p : Placed Call) (kind : CallKind) (opcode : E p.offset p.value.kind.opcode = kind.opcode)
      (fits : kind = p.value.kind ∨ p.value.kind.isPlain = true ∧ kind.isPlain = true) :
      ReadsAs E pool (.call p) (.call ⟨kind, p.value.target⟩)
  | dynamicCall (before after : DynamicCall) (entry : BootstrapEntry)
      (name : after.name = before.name) (descriptor : after.descriptor = before.descriptor)
      (row : List.Forall₂ (fun a x => Layout.argumentAt pool
        (E.word (Placed.offset a) (Placed.value a)) = .ok x) entry.places after.told) :
      ReadsAs E pool (.dynamicCall before entry) (.dynamicCall after)

namespace Spot

variable {E : Edit} {pool : ConstantPool}

/-- The row of the table of bootstrap methods that a spot uses. -/
def row? : Spot → Option BootstrapEntry
  | dynamicCall _ entry => some entry
  | _ => none

/-- A spot of the edited file tells what a spot of the file reads as, and uses the same row,
    edited. -/
structure Retold (E : Edit) (k : Nat) (pool : ConstantPool) (spot spot' : Spot) : Prop where
  reads : spot.ReadsAs E pool spot'.event
  row : spot'.row? = spot.row?.map (BootstrapEntry.edited E k)

/-- **A spot tells one event at most.** -/
theorem ReadsAs.unique {spot : Spot} {e e' : Event} (h : spot.ReadsAs E pool e)
    (h' : spot.ReadsAs E pool e') : e = e' := by
  cases h with
  | header | innerClass | field | method =>
      cases h'
      rfl
  | call p kind hop =>
      cases h' with
      | call _ kind' hop' => rw [CallKind.opcode_injective (hop.symm.trans hop')]
  | dynamicCall before after entry hname hdesc hrow =>
      cases h' with
      | dynamicCall _ after' _ hname' hdesc' hrow' =>
          have h := mapM_eq_ok_iff.2 hrow
          rw [mapM_eq_ok_iff.2 hrow'] at h
          rw [DynamicCall.eq_of_told (hname.trans hname'.symm) (hdesc.trans hdesc'.symm)
            (Except.ok.inj h).symm]

/-- The events of a row of spots are determined by what the spots read as. -/
theorem events_unique {spots : List Spot} {events events' : List Event}
    (h : List.Forall₂ (ReadsAs E pool) spots events)
    (h' : List.Forall₂ (ReadsAs E pool) spots events') : events = events' := by
  induction h generalizing events' with
  | nil => cases h'; rfl
  | cons he _ ih =>
      cases h' with
      | cons he' h' => rw [he.unique he', ih h']

end Spot

/-! ## 3. Looking up edited calls -/

namespace Layout

variable {E : Edit} {k : Nat} {pool pool' : ConstantPool} {bootstraps : List BootstrapEntry}

/-- **An edited call is looked up**, and tells the event its spot reads as. -/
theorem resolve_edited (hp : pool.Within pool') {c : Code.CallBytes} {placed : PlacedCall}
    (h : resolve pool bootstraps c = .ok placed) {e : Event}
    (he : placed.spot.ReadsAs E pool' e) :
    ∃ placed', resolve pool' (bootstraps.map (BootstrapEntry.edited E k)) (c.edited E k) =
      .ok placed' ∧ placed.spot.Retold E k pool' placed'.spot := by
  by_cases hc : c.opcode = Code.dynamicOpcode
  · rw [resolve_dynamic hc, dynamicCallAt_eq_ok_iff] at h
    obtain ⟨b, signature, entry, before, hget, hentry, hname, -, -, rfl⟩ := h
    have hc' : (c.edited E k).opcode = Code.dynamicOpcode := (if_pos hc).trans hc
    cases he with
    | dynamicCall _ after _ hn hd hrow =>
        refine ⟨.dynamic after (entry.edited E k), ?_,
          .dynamicCall before after entry hn hd hrow, rfl⟩
        obtain ⟨hboot, hargs⟩ := List.forall₂_cons.1 hrow
        rw [resolve_dynamic hc', dynamicCallAt_eq_ok_iff]
        refine ⟨b, signature, entry.edited E k, after, hp.get hget, ?_, ?_,
          argumentAt_eq_handle_iff.1 hboot, List.forall₂_map_left_iff.2 hargs, rfl⟩
        · rw [List.getElem?_map, hentry]
          rfl
        · rw [hn, hd]
          exact hp.nameAndType hname
  · rw [resolve_direct hc, directCallAt_eq_ok_iff] at h
    obtain ⟨constant, kind, target, hget, hfield, htarget, hop, rfl⟩ := h
    cases he with
    | call _ kind' hop' hfits =>
        have hopcode : (c.edited E k).opcode = kind'.opcode := by
          show (if c.opcode = Code.dynamicOpcode then c.opcode else E c.offset c.opcode) = _
          rw [if_neg hc, ← hop]
          exact hop'
        have hc' : (c.edited E k).opcode ≠ Code.dynamicOpcode := by
          rw [hopcode]
          exact kind'.opcode_ne_dynamic
        refine ⟨.direct ⟨⟨kind', target⟩, c.offset + k⟩, ?_,
          .call ⟨⟨kind, target⟩, c.offset⟩ kind' hop' hfits, rfl⟩
        rw [resolve_direct hc', directCallAt_eq_ok_iff]
        exact ⟨constant, kind', target, hp.get hget, hfield, hp.member htarget, hopcode.symm, rfl⟩

theorem resolveMethod_edited (hp : pool.Within pool')
    {m : Placed MethodDeclaration × List Code.CallBytes} {placed : MethodLayout}
    (h : resolveMethod pool bootstraps m = .ok placed)
    (he : ∀ spot ∈ placed.spots, ∃ e, spot.ReadsAs E pool' e) :
    ∃ placed', resolveMethod pool' (bootstraps.map (BootstrapEntry.edited E k))
        (Parts.editedMethod E k m) = .ok placed' ∧
      List.Forall₂ (Spot.Retold E k pool') placed.spots placed'.spots := by
  obtain ⟨calls, hcalls, h⟩ := exists_of_bind_ok h
  cases h
  obtain ⟨calls', hcalls', hall⟩ := mapM_transfer
    (resolve pool' (bootstraps.map (BootstrapEntry.edited E k)) ∘ Code.CallBytes.edited E k)
    (fun c c' => c.spot.Retold E k pool' c'.spot) hcalls fun c _ placed hplaced hc => by
      obtain ⟨e, he⟩ := he placed.spot (List.mem_cons_of_mem _ (List.mem_map_of_mem hplaced))
      exact resolve_edited hp hc he
  refine ⟨⟨m.1.edited E k, calls'⟩, ?_, .cons ⟨.method m.1, rfl⟩ ?_⟩
  · unfold resolveMethod Parts.editedMethod
    simp only [List.mapM_map]
    rw [hcalls']
    rfl
  · rw [List.forall₂_map_left_iff, List.forall₂_map_right_iff]
    exact hall

theorem resolveMethods_edited (hp : pool.Within pool')
    {methods : List (Placed MethodDeclaration × List Code.CallBytes)} {placed : List MethodLayout}
    (h : methods.mapM (resolveMethod pool bootstraps) = .ok placed)
    (he : ∀ spot ∈ placed.flatMap MethodLayout.spots, ∃ e, spot.ReadsAs E pool' e) :
    ∃ placed', (methods.map (Parts.editedMethod E k)).mapM
        (resolveMethod pool' (bootstraps.map (BootstrapEntry.edited E k))) = .ok placed' ∧
      List.Forall₂ (Spot.Retold E k pool')
        (placed.flatMap MethodLayout.spots) (placed'.flatMap MethodLayout.spots) := by
  obtain ⟨placed', hplaced', hall⟩ := mapM_transfer
    (resolveMethod pool' (bootstraps.map (BootstrapEntry.edited E k)) ∘ Parts.editedMethod E k)
    (fun m m' : MethodLayout => List.Forall₂ (Spot.Retold E k pool') m.spots m'.spots) h
    fun m _ placed hm hok => resolveMethod_edited hp hok fun spot hs =>
      he spot (List.mem_flatMap.2 ⟨placed, hm, hs⟩)
  refine ⟨placed', by rw [List.mapM_map]; exact hplaced', ?_⟩
  clear hplaced' he h
  induction hall with
  | nil => exact .nil
  | cons h _ ih =>
      rw [List.flatMap_cons, List.flatMap_cons]
      exact List.rel_append h ih

end Layout

/-! ## 4. The whole file -/

namespace Layout

/-- What holds of every layout that was read. -/
structure Sound (l : Layout) : Prop where
  healthy : l.pool.Healthy
  front : 10 ≤ l.poolEnd
  bounds : ∀ s ∈ l.slots, l.poolEnd ≤ s.offset ∧ s.finish ≤ l.data.length
  apart : l.slots.Pairwise Slot.Apart
  row : ∀ call entry, Spot.dynamicCall call entry ∈ l.spots → entry ∈ l.bootstraps ∧
    List.Forall₂ (fun a x => argumentAt l.pool (Placed.value a) = .ok x) entry.places call.told

/-- A dynamic call was looked up in a row of the table. -/
theorem row_of_methods {pool : ConstantPool} {bootstraps : List BootstrapEntry}
    {methods : List (Placed MethodDeclaration × List Code.CallBytes)} {placed : List MethodLayout}
    (h : methods.mapM (resolveMethod pool bootstraps) = .ok placed) {m : MethodLayout}
    (hm : m ∈ placed) {call : DynamicCall} {entry : BootstrapEntry}
    (hspot : Spot.dynamicCall call entry ∈ m.spots) : entry ∈ bootstraps ∧ List.Forall₂
      (fun a x => argumentAt pool (Placed.value a) = .ok x) entry.places call.told := by
  obtain ⟨found, -, hfound⟩ := exists_of_forall₂_right (mapM_eq_ok_iff.1 h) hm
  obtain ⟨calls, hcalls, hok⟩ := exists_of_bind_ok hfound
  cases hok
  rcases List.mem_cons.1 hspot with hspot | hspot
  · cases hspot
  obtain ⟨c, hc, hspot⟩ := List.mem_map.1 hspot
  cases c with
  | direct => cases hspot
  | dynamic =>
      cases hspot
      obtain ⟨b, -, hb⟩ := exists_of_forall₂_right (mapM_eq_ok_iff.1 hcalls) hc
      by_cases hop : b.opcode = Code.dynamicOpcode
      · rw [resolve_dynamic hop, dynamicCallAt_eq_ok_iff] at hb
        obtain ⟨_, _, _, _, -, hentry, -, hhandle, hargs, heq⟩ := hb
        cases heq
        exact ⟨List.mem_of_getElem? hentry, .cons (argumentAt_eq_handle_iff.2 hhandle) hargs⟩
      · rw [resolve_direct hop, directCallAt_eq_ok_iff] at hb
        obtain ⟨_, _, _, -, -, -, -, heq⟩ := hb
        cases heq

/-- A file in its pieces: what stands in front, what follows, and the parts read from there. -/
structure Anatomy (data : Bytes) (l : Layout) (version : Version) (x rest : Bytes) (parts : Parts)
    (t : Source) : Prop where
  data_eq : data = x ++ rest
  layout_data : l.data = data
  poolEnd_eq : l.poolEnd = x.length
  front : Front version l.pool x
  read : Parts.reading version l.pool ⟨l.poolEnd, rest⟩ = .ok (parts, t)
  made : l.MadeFrom parts

theorem anatomy_of_ofBytes {data : Bytes} {l : Layout} (h : ofBytes data = .ok l) :
    ∃ version x rest parts t, Anatomy data l version x rest parts t := by
  obtain ⟨version, s, parts, t, hs, hparts, hmade, hdata⟩ := ofBytes_ok h
  obtain ⟨x, hx, hoff, hend, hfront⟩ := front_of_preamble hs
  rw [show s = ⟨l.poolEnd, s.rest⟩ by rw [hend, ← hoff]] at hparts
  exact ⟨version, x, s.rest, parts, t, hx, hdata, hend, hfront, hparts, hmade⟩

theorem Anatomy.ascend {data : Bytes} {l : Layout} {version : Version} {x rest : Bytes}
    {parts : Parts} {t : Source} (h : Anatomy data l version x rest parts t) :
    Slot.Ascend l.poolEnd data.length parts.slots := by
  obtain ⟨y, hy, hyo, hasc, -⟩ := Parts.follows (E := Edit.none) (k := 0)
    (ConstantPool.Within.refl _) version _ _ _ h.read
  refine hasc.mono (Nat.le_refl _) ?_
  have hrest : rest = y ++ t.rest := hy
  have hoff : t.offset = l.poolEnd + y.length := hyo
  rw [hoff, h.poolEnd_eq, h.data_eq, hrest, List.length_append, List.length_append]
  omega

/-- **The slots of a class file that was read share no byte**, and stand behind its pool. -/
theorem sound_of_ofBytes {data : Bytes} {l : Layout} (h : ofBytes data = .ok l) : l.Sound := by
  obtain ⟨version, x, rest, parts, t, ha⟩ := anatomy_of_ofBytes h
  have hperm := slots_perm ha.made
  refine ⟨ha.front.healthy, ?_, fun s hs => ?_, ?_, fun call entry hspot => ?_⟩
  · rw [ha.poolEnd_eq]
    exact ha.front.length
  · rw [ha.layout_data]
    exact ha.ascend.bounds (hperm.mem_iff.1 hs)
  · exact (hperm.pairwise_iff Slot.Apart.symm).2 ha.ascend.pairwise
  · have hmem : Spot.dynamicCall call entry ∈ l.methods.flatMap MethodLayout.spots := by
      unfold spots at hspot
      simpa using hspot
    obtain ⟨m, hm, hspot⟩ := List.mem_flatMap.1 hmem
    exact row_of_methods ha.made.methods hm hspot

/-- The pool ends inside of the file. -/
theorem poolEnd_le {data : Bytes} {l : Layout} (h : ofBytes data = .ok l) :
    l.poolEnd ≤ l.data.length := by
  obtain ⟨version, x, rest, parts, t, ha⟩ := anatomy_of_ofBytes h
  rw [ha.layout_data, ha.data_eq, ha.poolEnd_eq, List.length_append]
  exact Nat.le_add_right _ _

/-- The bytes of a class whose slots are edited and to whose pool the entries `new`, written as
    `written`, are added. -/
def editedBytes (l : Layout) (E : Edit) (new : List Constant) (written : List Bytes) : Bytes :=
  let data := E.apply 0 l.data
  if new = [] then data
  else data.take 8 ++ BigEndian.bytes16 (l.pool.count + new.length).toUInt16
    ++ (data.take l.poolEnd).drop 10 ++ written.flatten ++ data.drop l.poolEnd

/-- An edit whose spots can be read fits every slot. -/
theorem respects_of_readsAs {l : Layout} {E : Edit} {pool : ConstantPool} (lo hi : Nat)
    (hquiet : ∀ i, (∀ s ∈ l.slots, ¬ s.Covers i) → ∀ b, E i b = b)
    (hreads : ∀ spot ∈ l.spots, ∃ e, spot.ReadsAs E pool e) : E.Respects l.slots lo hi := by
  refine ⟨fun i _ _ => hquiet i, fun s hs => ?_⟩
  cases s with
  | word o => exact trivial
  | opcode o before =>
      rcases List.mem_append.1 hs with hs | hs
      · obtain ⟨spot, hspot, hs⟩ := List.mem_flatMap.1 hs
        obtain ⟨e, he⟩ := hreads spot hspot
        cases he with
        | call p kind hop hfits =>
            cases List.mem_singleton.1 hs
            show E p.offset _ = _ ∨ _
            rw [hop, CallKind.isPlainCall_opcode, CallKind.isPlainCall_opcode]
            rcases hfits with rfl | hfits
            · exact .inl rfl
            · exact .inr hfits
        | header | innerClass | field | method => cases List.mem_singleton.1 hs
        | dynamicCall => cases hs
      · obtain ⟨entry, -, hs⟩ := List.mem_flatMap.1 hs
        rcases List.mem_cons.1 hs with hs | hs
        · cases hs
        · obtain ⟨a, -, ha⟩ := List.mem_map.1 hs
          cases ha

/-- The bytes of an edited file in two pieces. -/
theorem Anatomy.apply_eq {data : Bytes} {l : Layout} {version : Version} {x rest : Bytes}
    {parts : Parts} {t : Source} (h : Anatomy data l version x rest parts t) {E : Edit}
    (hquiet : ∀ i, (∀ s ∈ l.slots, ¬ s.Covers i) → ∀ b, E i b = b) :
    E.apply 0 l.data = x ++ E.apply l.poolEnd rest := by
  have hx : E.Quiet 0 (0 + x.length) := by
    intro i _ hi
    refine hquiet i fun s hs hc => ?_
    have h1 := (h.ascend.bounds ((slots_perm h.made).mem_iff.1 hs)).1
    have h2 := hc.1
    rw [h.poolEnd_eq] at h1
    omega
  rw [h.layout_data, h.data_eq, Edit.apply_append, hx.apply_eq, Nat.zero_add, ← h.poolEnd_eq]

/-- What stands in front of the parts of the edited file is read as the grown pool. -/
theorem Anatomy.editedBytes_eq {data : Bytes} {l : Layout} {version : Version} {x rest : Bytes}
    {parts : Parts} {t : Source} (h : Anatomy data l version x rest parts t) {E : Edit}
    (hquiet : ∀ i, (∀ s ∈ l.slots, ¬ s.Covers i) → ∀ b, E i b = b) {new : List Constant}
    {written : List Bytes} (hnew : ∀ c ∈ new, c.isHandle = true)
    (hroom : l.pool.count + new.length ≤ ConstantPool.capacity)
    (hwritten : new.mapM Constant.bytes = .ok written) :
    preamble ⟨0, l.editedBytes E new written⟩ =
      .ok ((version, l.pool.grown new, l.poolEnd + 4 * new.length),
        ⟨l.poolEnd + 4 * new.length, E.apply l.poolEnd rest⟩) := by
  unfold editedBytes
  rw [h.apply_eq hquiet]
  by_cases hn : new = []
  · subst hn
    rw [if_pos rfl, ConstantPool.grown_nil, h.poolEnd_eq]
    exact h.front.again _
  · have h10 := h.front.length
    have htake8 : (x ++ E.apply l.poolEnd rest).take 8 = x.take 8 :=
      List.take_append_of_le_length (by omega)
    have htake : (x ++ E.apply l.poolEnd rest).take l.poolEnd = x :=
      List.take_left' h.poolEnd_eq.symm
    have hdrop : (x ++ E.apply l.poolEnd rest).drop l.poolEnd = E.apply l.poolEnd rest :=
      List.drop_left' h.poolEnd_eq.symm
    simp only
    rw [if_neg hn, htake8, htake, hdrop, h.poolEnd_eq]
    exact h.front.grown new written _ hnew hroom hwritten

/-- The spots of the layout that is made from the edited parts are the edited spots. -/
theorem MadeFrom.spots_edited {l : Layout} {parts : Parts} (h : l.MadeFrom parts) {E : Edit}
    {pool : ConstantPool} {methods : List MethodLayout} (data : Bytes) (poolEnd k : Nat)
    (hall : List.Forall₂ (Spot.Retold E k pool) (l.methods.flatMap MethodLayout.spots)
      (methods.flatMap MethodLayout.spots)) :
    List.Forall₂ (Spot.Retold E k pool) l.spots
      (make data pool poolEnd (parts.edited E k) methods).spots := by
  have hinner : (parts.edited E k).tables.flatMap Prod.fst =
      l.innerClasses.map (Placed.edited E k) := by
    rw [h.innerClasses, List.map_flatMap]
    exact List.flatMap_map _ _ _
  unfold spots make
  rw [hinner, h.header, h.fields]
  refine .cons ⟨.header _, rfl⟩ (List.rel_append (List.rel_append ?_ ?_) hall)
  · rw [List.forall₂_map_left_iff, List.forall₂_map_right_iff, List.forall₂_map_right_iff]
    exact List.forall₂_same.2 fun p _ => ⟨.innerClass p, rfl⟩
  · rw [List.forall₂_map_left_iff, List.forall₂_map_right_iff]
    show List.Forall₂ _ _ (parts.fields.map _)
    rw [List.forall₂_map_right_iff]
    exact List.forall₂_same.2 fun p _ => ⟨.field p, rfl⟩

/-- **The edited file can be read, and its spots are those of the file, edited.** -/
theorem ofBytes_edited {data : Bytes} {l : Layout} (h : ofBytes data = .ok l) {E : Edit}
    {new : List Constant} {written : List Bytes}
    (hquiet : ∀ i, (∀ s ∈ l.slots, ¬ s.Covers i) → ∀ b, E i b = b)
    (hnew : ∀ c ∈ new, c.isHandle = true)
    (hroom : l.pool.count + new.length ≤ ConstantPool.capacity)
    (hwritten : new.mapM Constant.bytes = .ok written)
    (hreads : ∀ spot ∈ l.spots, ∃ e, spot.ReadsAs E (l.pool.grown new) e) :
    ∃ l', ofBytes (l.editedBytes E new written) = .ok l' ∧ l'.pool = l.pool.grown new ∧
      List.Forall₂ (Spot.Retold E (4 * new.length) (l.pool.grown new)) l.spots l'.spots := by
  obtain ⟨version, x, rest, parts, t, ha⟩ := anatomy_of_ofBytes h
  have hwithin := l.pool.within_grown new
  -- the parts are read from the edited bytes, whatever stands behind them
  obtain ⟨y, hy, -, hasc, hread⟩ := Parts.follows (E := E) (k := 4 * new.length) hwithin version
    _ _ _ ha.read
  have hE : E.Respects parts.slots l.poolEnd t.offset := by
    have hE := respects_of_readsAs l.poolEnd t.offset hquiet hreads
    exact ⟨fun i h1 h2 hs => hE.quiet i h1 h2 fun s hm => hs s ((slots_perm ha.made).mem_iff.1 hm),
      fun s hm => hE.fits s ((slots_perm ha.made).mem_iff.2 hm)⟩
  have hparts := hread hE (E.apply (l.poolEnd + y.length) t.rest)
  rw [← Edit.apply_append, ← hy] at hparts
  -- the methods are looked up in the grown pool
  obtain ⟨methods, hmethods, hall⟩ := resolveMethods_edited (E := E) (k := 4 * new.length)
    hwithin ha.made.methods fun spot hs => hreads spot (List.mem_cons_of_mem _
      (List.mem_append_right _ hs))
  have hboot : (parts.edited E (4 * new.length)).tables.flatMap Prod.snd =
      l.bootstraps.map (BootstrapEntry.edited E (4 * new.length)) := by
    rw [ha.made.bootstraps, List.map_flatMap]
    exact List.flatMap_map _ _ _
  rw [← hboot] at hmethods
  have hfront := ha.editedBytes_eq hquiet hnew hroom hwritten
  exact ⟨_, ofBytes_of_parts hfront hparts hmethods, rfl,
    ha.made.spots_edited _ _ (4 * new.length) hall⟩

end Layout

end ClassAccess
