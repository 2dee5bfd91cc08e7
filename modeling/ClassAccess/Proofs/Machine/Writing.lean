import ClassAccess.Proofs.Machine.Revision
import ClassAccess.Proofs.Revision.Arrangement
import ClassAccess.Proofs.Revision.Readback

/-!
# Class files revised without a trap

What a revision writes is put together from parts of the old file, and then each patch is written
at its place. Every part is one of the old file, since the constants end within it, and every patch
lies between the end of the constants and the end of the file.

* `write_eq` -- one patch, and `foldlM_write` -- **all patches**: what they come to is an edit of
  the bytes behind the constants;
* `Tracks.grown_eq` -- the old bytes, with the constants that the pool has got between them, and
  `Tracks.bytes_eq` -- **the bytes of a revised class**;
* `Tells.revise_eq` -- a whole revision, whatever is told;
* `untrapped` -- **no file, and no events in any order, ask for a step that a machine cannot take**.
-/

namespace ClassAccess

open Machine (of Fits words done_bind)

/-! ## 1. One patch -/

namespace Patch

/-- A patch written over as many bytes as it has. -/
theorem apply_put {bs u v t : Bytes} (hv : v.length = bs.length) (o : Nat) :
    Edit.apply (put bs (o + u.length)) o (u ++ v ++ t) = u ++ bs ++ t := by
  have hu : Edit.Quiet (put bs (o + u.length)) o (o + u.length) :=
    fun i _ hi _ => if_neg (Nat.not_le.2 hi)
  have ht : Edit.Quiet (put bs (o + u.length)) (o + (u ++ v).length)
      (o + (u ++ v).length + t.length) := by
    intro i hi _ b
    rw [List.length_append] at hi
    unfold put
    rw [if_pos (by omega), List.getD_eq_getElem?_getD, List.getElem?_eq_none (by omega),
      Option.getD_none]
  have hmid : Edit.apply (put bs (o + u.length)) (o + u.length) v = bs := by
    refine List.ext_getElem? fun i => ?_
    rw [Edit.getElem?_apply]
    by_cases hi : i < v.length
    · rw [List.getElem?_eq_getElem hi, List.getElem?_eq_getElem (hv ▸ hi), Option.map_some]
      unfold put
      rw [if_pos (Nat.le_add_right _ _), Nat.add_sub_cancel_left, List.getD_eq_getElem?_getD,
        List.getElem?_eq_getElem (hv ▸ hi), Option.getD_some]
    · rw [List.getElem?_eq_none (Nat.not_lt.1 hi),
        List.getElem?_eq_none (hv ▸ Nat.not_lt.1 hi), Option.map_none]
  rw [Edit.apply_append, Edit.apply_append, hu.apply_eq, ht.apply_eq, hmid]

end Patch

/-- Two edits after each other are one. -/
theorem Edit.apply_apply (E E' : Edit) (offset : Nat) (x : Bytes) :
    E'.apply offset (E.apply offset x) = Edit.apply (fun i b => E' i (E i b)) offset x := by
  induction x generalizing offset with
  | nil => rfl
  | cons b x ih => rw [apply_cons, apply_cons, apply_cons, ih]

namespace IndexedRevision

open Machine (sum_eq set_eq setSlice_eq)

variable [Words] {poolEnd shift : Nat}

/-- A patch is written without a trap over as many bytes as it has. -/
theorem write_splice {x v t : Bytes} {q : Nat × Patch} (hle : poolEnd ≤ q.1)
    (hplace : q.1 + shift = x.length) (hv : v.length = q.2.bytes.length)
    (hfits : (x ++ v ++ t).length < words) :
    write poolEnd shift (x ++ v ++ t) q = .done (x ++ q.2.bytes ++ t) := by
  obtain ⟨place, p⟩ := q
  simp only [List.length_append] at hfits hle hplace hv
  unfold write
  simp only
  rw [if_pos hle, sum_eq (by omega), done_bind, hplace]
  cases p with
  | byte value =>
      obtain ⟨b, rfl⟩ := List.length_eq_one_iff.1 hv
      simp only
      rw [set_eq (by simp), List.append_assoc, List.set_append_right _ _ (Nat.le_refl _),
        Nat.sub_self]
      simp [Patch.bytes]
  | word value =>
      have hvalue : v.length = (BigEndian.bytes16 value).length := hv
      have hlength := BigEndian.length_bytes16 value
      simp only
      rw [sum_eq (by omega), done_bind, ← hlength, setSlice_eq (by simp; omega), ← hvalue]
      simp [Patch.bytes]

variable {front rest : Bytes}

/-- **A patch between the constants and the end of the file is written without a trap**, and what
    stands in front of `rest` stays as it is. -/
theorem write_eq {q : Nat × Patch} (hfront : front.length = poolEnd + shift)
    (hfits : front.length + rest.length < words) (hle : poolEnd ≤ q.1)
    (hend : q.1 + q.2.bytes.length ≤ poolEnd + rest.length) :
    write poolEnd shift (front ++ rest) q =
      .done (front ++ Edit.apply (Patch.put q.2.bytes q.1) poolEnd rest) := by
  -- the bytes that the patch is written over, with those in front of them and behind
  obtain ⟨u, v, t, rfl, hu, hv⟩ : ∃ u v t, rest = u ++ v ++ t ∧ u.length = q.1 - poolEnd ∧
      v.length = q.2.bytes.length := by
    refine ⟨rest.take (q.1 - poolEnd), (rest.drop (q.1 - poolEnd)).take q.2.bytes.length,
      (rest.drop (q.1 - poolEnd)).drop q.2.bytes.length, ?_, ?_, ?_⟩
    · rw [List.append_assoc, List.take_append_drop, List.take_append_drop]
    · exact List.length_take_of_le (by omega)
    · exact List.length_take_of_le (by rw [List.length_drop]; omega)
  have hplace : q.1 = poolEnd + u.length := by omega
  have hsplit : front ++ (u ++ v ++ t) = front ++ u ++ v ++ t := by
    simp only [List.append_assoc]
  rw [← List.length_append, hsplit] at hfits
  rw [hsplit, write_splice hle (by rw [List.length_append]; omega) hv hfits, hplace,
    Patch.apply_put hv]
  simp only [List.append_assoc]

/-- **The patches are written one by one** behind the constants, each at its place; the induction is
    on the patches that are left. -/
theorem foldlM_write {patches : List (Nat × Patch)} (hfront : front.length = poolEnd + shift)
    (hfits : front.length + rest.length < words)
    (h : ∀ q ∈ patches, poolEnd ≤ q.1 ∧ q.1 + q.2.bytes.length ≤ poolEnd + rest.length) :
    patches.foldlM (write poolEnd shift) (front ++ rest) =
      .done (front ++ Edit.apply
        (fun i b => patches.foldl (fun b q => Patch.put q.2.bytes q.1 i b) b) poolEnd rest) := by
  induction patches generalizing rest with
  | nil => exact congrArg (fun y => Machine.done (front ++ y)) (Edit.none_apply poolEnd rest).symm
  | cons q patches ih =>
      obtain ⟨hle, hend⟩ := h q List.mem_cons_self
      have hlength := Edit.length_apply (E := Patch.put q.2.bytes q.1) poolEnd rest
      rw [List.foldlM_cons, write_eq hfront hfits hle hend, done_bind, ih (by rwa [hlength]),
        Edit.apply_apply]
      · rfl
      · intro q' hq'
        rw [hlength]
        exact h q' (List.mem_cons_of_mem _ hq')

end IndexedRevision

/-! ## 2. The old bytes and the new constants -/

namespace Layout

variable {l : Layout} {data : Bytes}

/-- **The bytes of an edited class in two pieces**: the constants, which no edit reaches, and what
    follows them. -/
theorem exists_editedBytes_eq (h : ofBytes data = .ok l) {new : List Constant}
    {written : List Bytes} (hwritten : written.flatten.length = 4 * new.length) :
    ∃ front, front.length = l.poolEnd + 4 * new.length ∧
      ∀ E : Edit, (∀ i, (∀ s ∈ l.slots, ¬ s.Covers i) → ∀ b, E i b = b) →
        l.editedBytes E new written = front ++ E.apply l.poolEnd (l.data.drop l.poolEnd) := by
  obtain ⟨version, x, rest, parts, t, ha⟩ := anatomy_of_ofBytes h
  have h10 := ha.front.length
  have hend := ha.poolEnd_eq
  have hrest : l.data.drop l.poolEnd = rest := by
    rw [ha.layout_data, ha.data_eq]
    exact List.drop_left' hend.symm
  by_cases hn : new = []
  · refine ⟨x, by rw [hn, hend]; rfl, fun E hquiet => ?_⟩
    rw [editedBytes, if_pos hn, ha.apply_eq hquiet, hrest]
  · refine ⟨x.take 8 ++ BigEndian.bytes16 (l.pool.count + new.length).toUInt16 ++ x.drop 10
      ++ written.flatten, ?_, fun E hquiet => ?_⟩
    · simp only [List.length_append, List.length_take, List.length_drop,
        BigEndian.length_bytes16, hwritten]
      omega
    · have htake : (x ++ E.apply l.poolEnd rest).take l.poolEnd = x :=
        List.take_left' hend.symm
      have hdrop : (x ++ E.apply l.poolEnd rest).drop l.poolEnd = E.apply l.poolEnd rest :=
        List.drop_left' hend.symm
      rw [editedBytes, if_neg hn, ha.apply_eq hquiet, hrest, htake, hdrop,
        List.take_append_of_le_length (by omega)]

end Layout

/-- Every patch of a revised class lies between the constants and the end of the file. -/
theorem Layout.Revised.patch_bounds {l : Layout} {told : List Event} {d : Draft}
    (h : l.Revised told d) {q : Nat × Patch} (hq : q ∈ d.patches.toList) :
    l.poolEnd ≤ q.1 ∧ q.1 + q.2.bytes.length ≤ l.data.length := by
  obtain ⟨s, hs, ho, hw⟩ :=
    h.fit.slot q.1 q.2 (Std.TreeMap.mem_toList_iff_getElem?_eq_some.1 hq)
  rw [← ho, ← hw]
  exact h.sound.bounds s hs

namespace IndexedRevision

open Machine (slice_eq difference_eq sum_eq lt_words)

variable [Words] {w : IndexedRevision} {r : Revision}

/-- **The old bytes are taken apart and put together without a trap**, as long as the constants lie
    within them. -/
theorem Tracks.grown_eq (h : w.Tracks r) {new : List Constant} {written : List Bytes}
    (hpool : r.pool = r.layout.pool.grown new) (hwritten : new.mapM Constant.bytes = .ok written)
    (hfront : 10 ≤ r.layout.poolEnd) (hend : r.layout.poolEnd ≤ r.layout.data.length) :
    w.grown = .done (r.layout.editedBytes Edit.none new written) := by
  have hbounded := h.healthy.bounded
  have hcount : r.pool.count = r.layout.pool.count + new.length := by
    rw [hpool, ConstantPool.count_grown]
  unfold ConstantPool.capacity at hbounded
  unfold grown Layout.editedBytes
  simp only [h.pool, h.layout.pool, h.layout.data, h.layout.poolEnd, Edit.none_apply]
  by_cases hn : new = []
  · rw [if_pos hn, if_pos (by rw [hcount, hn]; rfl)]
    rfl
  · have hpos := List.length_pos_iff.2 hn
    have hnew : r.pool.bytesFrom r.layout.pool.count = .ok written.flatten := by
      rw [hpool]
      exact ConstantPool.bytesFrom_grown hwritten
    rw [if_neg hn, if_neg (by omega), if_pos (by omega), slice_eq (Nat.zero_le _) (by omega),
      done_bind, slice_eq hfront hend, done_bind, hnew, of, done_bind,
      slice_eq hend (Nat.le_refl _), done_bind, hcount, List.take_length, List.drop_zero]
    rfl

/-- **The bytes of a revised class are written without a trap.** -/
theorem Tracks.bytes_eq {data : Bytes} {told : List Event} (h : w.Tracks r)
    (hl : Layout.ofBytes data = .ok r.layout) (hfits : Fits r.layout.data)
    (hr : r.layout.Revised told r.draft) : w.bytes = of r.bytes := by
  obtain ⟨new, written, hpool, hhandles, hwritten, hbytes⟩ := hr.bytes_eq
  obtain ⟨_, hwritten', hlength⟩ := ConstantPool.bytes_handles hhandles
  cases hwritten.symm.trans hwritten'
  obtain ⟨front, hfront, hedited⟩ := Layout.exists_editedBytes_eq hl hlength
  have hend := Layout.poolEnd_le hl
  have hcount : r.pool.count = r.layout.pool.count + new.length := by
    rw [show r.pool = _ from hpool, ConstantPool.count_grown]
  have hbounded := h.healthy.bounded
  have hrest : (r.layout.data.drop r.layout.poolEnd).length =
      r.layout.data.length - r.layout.poolEnd := List.length_drop
  have hpatches : ∀ q ∈ r.patches.toList, r.layout.poolEnd ≤ q.1 ∧ q.1 + q.2.bytes.length ≤
      r.layout.poolEnd + (r.layout.data.drop r.layout.poolEnd).length := by
    intro q hq
    rw [hrest, Nat.add_sub_of_le hend]
    exact hr.patch_bounds hq
  have hedit : Patch.edit r.patches =
      fun i b => r.patches.toList.foldl (fun b q => Patch.put q.2.bytes q.1 i b) b := by
    funext i b
    exact Std.TreeMap.foldl_eq_foldl_toList
  have hout : r.bytes = .ok (front ++ (Patch.edit r.patches).apply r.layout.poolEnd
      (r.layout.data.drop r.layout.poolEnd)) := by
    rw [Revision.bytes_eq, hbytes]
    exact congrArg _ (hedited _ fun i hi b => hr.fit.quiet hi b)
  unfold ConstantPool.capacity at hbounded
  unfold bytes
  simp only [h.layout.data, h.layout.poolEnd, h.patches]
  rw [sum_eq (hfits.lt_words (by omega)), done_bind,
    h.grown_eq hpool hwritten hr.sound.front hend, done_bind, hedited Edit.none fun _ _ _ => rfl, Edit.none_apply,
    difference_eq (by rw [List.length_append]; omega), done_bind,
    foldlM_write (by rw [List.length_append]; omega) (hfits.lt_words (by omega)) hpatches,
    done_bind, ← hedit, added, h.pool, h.layout.pool, difference_eq (by omega), done_bind, hout]
  rfl

end IndexedRevision

/-! ## 3. Whole revisions -/

/-- A revision that got through to the end of the class has the changes of its events, in the order
    of the class. -/
theorem Layout.revised_of_check {data : Bytes} {l : Layout} {events : List Event}
    (h : ofBytes data = .ok l) (hcheck : (l.revision.acceptAll events).check = .ok ()) :
    (l.revision.acceptAll events).layout = l ∧
      l.Revised (Event.arranged events) (l.revision.acceptAll events).draft := by
  obtain ⟨hfault, hremaining⟩ := Revision.remaining_of_check hcheck
  have hkinds := Revision.kindsAgree_of_acceptAll hfault hremaining
  obtain ⟨told, htold, hcomes⟩ := Revision.acceptAll_paired rfl hkinds
  rw [remaining_revision] at hkinds htold
  cases hd : l.revision.draft.applyAll (told.flatMap fun p => p.1.changes p.2) with
  | error fault =>
      rw [hd] at hcomes
      rw [show _ = some fault from hcomes] at hfault
      cases hfault
  | ok d =>
      rw [hd] at hcomes
      obtain ⟨hlayout, -, -, hdraft⟩ := hcomes
      rw [hdraft]
      exact ⟨hlayout, revised_of_paired h hkinds htold hd⟩

namespace IndexedLayout

variable [Words] {data code : Bytes}

/-- **A whole revision** on a machine comes to what it comes to, whatever is told. -/
theorem Tells.revise_eq {n : IndexedLayout} {l : Layout} (h : n.Tells l) (hfits : Fits data)
    (hl : Layout.ofBytes data = .ok l) (events : List Event) :
    n.revise events = of (l.revise events) := by
  have hcountable := Layout.countable_of_ofBytes hfits hl
  have hhealthy := (Layout.sound_of_ofBytes hl).healthy
  obtain ⟨w, hw, htracks⟩ :=
    (IndexedRevision.tracks_revision h hcountable hhealthy).acceptAll events
  unfold revise Layout.revise
  rw [hw, done_bind]
  unfold IndexedRevision.finish Revision.finish
  rw [htracks.check_eq]
  cases hcheck : (l.revision.acceptAll events).check with
  | error fault => rfl
  | ok =>
      obtain ⟨hlayout, hrevised⟩ := Layout.revised_of_check hl hcheck
      obtain ⟨_, _, _, _, _, ha⟩ := Layout.anatomy_of_ofBytes hl
      generalize l.revision.acceptAll events = r at htracks hlayout hrevised
      subst hlayout
      exact htracks.bytes_eq hl (ha.layout_data ▸ hfits) hrevised

/-- **Reading and revising a class** on a machine come to what they come to, for every file and
    whatever is told. -/
theorem agrees_revise (h : Fits data) : (ofBytes data).Agrees (Layout.ofBytes data) fun n l =>
    n.events = l.events ∧ ∀ events, n.revise events = of (l.revise events) := by
  have hread := agrees_ofBytes h
  cases hl : Layout.ofBytes data with
  | error fault =>
      rw [hl] at hread
      exact hread
  | ok l =>
      rw [hl] at hread
      obtain ⟨n, hn, htells⟩ := hread
      exact ⟨n, hn, htells.events, htells.revise_eq h hl⟩

/-- **There is no step that a machine cannot take**, whatever the file, the code and the place in
    it, and whatever events are told in whatever order. Looking for the length of an instruction,
    reading a class file and revising it come to what they come to elsewhere in this library. -/
theorem untrapped (hdata : Fits data) (hcode : Fits code) :
    (∀ pc trap, Machine.lengthAt code pc ≠ .trapped trap) ∧
      (∀ trap, ofBytes data ≠ .trapped trap) ∧
      (∀ n, ofBytes data = .done n → ∀ events trap, n.revise events ≠ .trapped trap) ∧
      (∀ pc, Machine.lengthAt code pc = of (Instruction.length code pc)) ∧
      (ofBytes data).Agrees (Layout.ofBytes data) fun n l =>
        n.events = l.events ∧ ∀ events, n.revise events = of (l.revise events) := by
  have hlength := Machine.lengthAt_eq hcode
  have hagrees := agrees_revise hdata
  refine ⟨fun pc => ?_, hagrees.not_trapped, fun n hn events => ?_, hlength, hagrees⟩
  · rw [hlength]
    exact (Machine.agrees_of _).not_trapped
  · obtain ⟨l, -, -, hrevise⟩ := hagrees.exists_ok hn
    rw [hrevise]
    exact (Machine.agrees_of _).not_trapped

omit [Words] in
/-- With words of 64 bits a class is read and revised, also with an event out of its place, and an
    instruction is looked for as far out as the machine can count. -/
theorem untrapped_sharedRow : letI := Words.bits64; ∃ n out, ofBytes Layout.sharedRow = .done n ∧
    n.revise (Layout.sharedEvents .invokeVirtual .invokeSpecial) = .done out ∧
    n.revise [.call ⟨.virtual, Layout.sharedMember⟩] =
      .failed (.disorder .instructionOutsideMethod) ∧
    Machine.lengthAt [0xAA] 0xFFFFFFFFFFFFFFFF =
      .failed (.truncatedInstruction 0xFFFFFFFFFFFFFFFF) := by
  let := Words.bits64
  obtain ⟨l, out, hl, -, hout, -⟩ := Layout.exists_revise_sharedRow
  have hdata : Fits Layout.sharedRow := by decide +kernel
  have hcode : Fits ([0xAA] : Bytes) := by decide
  obtain ⟨-, -, -, hlength, hagrees⟩ := untrapped hdata hcode
  rw [hl] at hagrees
  obtain ⟨n, hn, -, hrevise⟩ := hagrees
  refine ⟨n, out, hn, ?_, ?_, ?_⟩
  · rw [hrevise, hout]
    rfl
  · rw [hrevise]
    rfl
  · rw [hlength]
    rfl

end IndexedLayout

end ClassAccess
