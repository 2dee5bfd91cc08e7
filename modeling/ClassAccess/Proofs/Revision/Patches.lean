import ClassAccess.ClassFile.Revision
import ClassAccess.Proofs.Reading.Edit
import Mathlib.Data.List.Pairwise

/-!
# Patches as an edit

The patches of a revision are written over the bytes of the file one after the other. Byte by byte
this is an edit, and where each patch keeps to a slot of its own, the edit puts into every slot the
patch for it, or leaves the slot as it is.

* `Patch.edit`, `applyAll_eq` -- **writing all patches is making the edit**;
* `Patch.Fit` -- patches that keep to slots, none of which share a byte;
* `Fit.quiet`, `Fit.word_of_some`, `Fit.opcode_of_some` -- what the edit leaves alone, and what it
  puts into a slot.
-/

namespace ClassAccess

theorem Edit.getElem?_apply (E : Edit) (offset : Nat) (x : Bytes) (i : Nat) :
    (E.apply offset x)[i]? = x[i]?.map (E (offset + i)) := by
  induction x generalizing offset i with
  | nil => rfl
  | cons b x ih =>
      cases i with
      | zero => rfl
      | succ i =>
          rw [Edit.apply_cons, List.getElem?_cons_succ, List.getElem?_cons_succ, ih, Nat.add_assoc,
            Nat.add_comm 1 i]

namespace Patch

/-! ## 1. The edit -/

/-- What writing `bs` from offset `o` on makes of the byte at offset `i`. -/
def put (bs : Bytes) (o i : Nat) (b : UInt8) : UInt8 := if o ≤ i then bs.getD (i - o) b else b

/-- What all patches make of the bytes of a file. -/
def edit (patches : Std.TreeMap Nat Patch) : Edit :=
  fun i b => patches.foldl (fun b o p => put p.bytes o i b) b

theorem put_cons (a : UInt8) (bs : Bytes) (o i : Nat) (b : UInt8) :
    put (a :: bs) o i b = put bs (o + 1) i (if o = i then a else b) := by
  unfold put
  rcases Nat.lt_trichotomy o i with h | rfl | h
  · rw [if_pos (by omega), if_pos (by omega), if_neg (by omega),
      show i - o = i - (o + 1) + 1 by omega, List.getD_cons_succ]
  · rw [if_pos (Nat.le_refl _), if_neg (by omega), if_pos rfl, Nat.sub_self, List.getD_cons_zero]
  · rw [if_neg (by omega), if_neg (by omega), if_neg (by omega)]

theorem getElem?_overwrite (data : Array UInt8) (o i : Nat) (bs : Bytes) :
    (overwrite data o bs)[i]? = data[i]?.map (put bs o i) := by
  induction bs generalizing data o with
  | nil =>
      have hput : put [] o i = id := by
        funext b
        unfold put
        rw [List.getD_nil, ite_self]
        rfl
      rw [overwrite, hput, Option.map_id, id]
  | cons a bs ih =>
      have hset : (data.setIfInBounds o a)[i]? = data[i]?.map fun b => if o = i then a else b := by
        rw [Array.getElem?_setIfInBounds]
        by_cases h : o = i
        · subst h
          by_cases hlt : o < data.size
          · simp only [if_true, if_pos hlt, Array.getElem?_eq_getElem hlt, Option.map_some]
          · simp only [if_true, if_neg hlt, Array.getElem?_eq_none (Nat.not_lt.1 hlt),
              Option.map_none]
        · simp only [if_neg h, Option.map_id']
      rw [overwrite, ih, hset, Option.map_map]
      exact congrArg (data[i]?.map ·) (funext fun b => (put_cons a bs o i b).symm)

theorem getElem?_foldl_overwrite (patches : List (Nat × Patch)) (data : Array UInt8) (i : Nat) :
    (patches.foldl (fun bytes q => overwrite bytes q.1 q.2.bytes) data)[i]? =
      data[i]?.map fun b => patches.foldl (fun b q => put q.2.bytes q.1 i b) b := by
  induction patches generalizing data with
  | nil => simp only [List.foldl_nil, Option.map_id']
  | cons q patches ih =>
      rw [List.foldl_cons, ih, getElem?_overwrite, Option.map_map]
      rfl

/-- **Writing all patches over a file is making the edit in it.** -/
theorem applyAll_eq (patches : Std.TreeMap Nat Patch) (data : Bytes) :
    applyAll patches data = (edit patches).apply 0 data := by
  unfold applyAll edit
  refine List.ext_getElem? fun i => ?_
  rw [Edit.getElem?_apply, Nat.zero_add, Array.getElem?_toList,
    Std.TreeMap.foldl_eq_foldl_toList, getElem?_foldl_overwrite, List.getElem?_toArray]
  simp only [Std.TreeMap.foldl_eq_foldl_toList]

/-! ## 2. Patches in slots -/

/-- Every patch is for a slot and as long as the slot. No two slots share a byte. -/
structure Fit (patches : Std.TreeMap Nat Patch) (slots : List Slot) : Prop where
  slot : ∀ o p, patches[o]? = some p → ∃ s ∈ slots, s.offset = o ∧ s.width = p.bytes.length
  apart : slots.Pairwise Slot.Apart

variable {patches : Std.TreeMap Nat Patch} {slots : List Slot}

theorem put_of_not_covers {bs : Bytes} {s : Slot} {i : Nat} (hw : s.width = bs.length)
    (h : ¬ s.Covers i) (b : UInt8) : put bs s.offset i b = b := by
  unfold put
  split
  · rename_i hle
    have hi : s.offset + s.width ≤ i := by
      unfold Slot.Covers Slot.finish at h
      omega
    rw [List.getD_eq_getElem?_getD, List.getElem?_eq_none (by omega), Option.getD_none]
  · rfl

/-- Patches none of which reaches a byte leave it as it is. -/
theorem foldl_put_of_forall {l : List (Nat × Patch)} {i : Nat}
    (h : ∀ q ∈ l, ∀ b, put q.2.bytes q.1 i b = b) (b : UInt8) :
    l.foldl (fun b q => put q.2.bytes q.1 i b) b = b := by
  induction l with
  | nil => rfl
  | cons q l ih =>
      rw [List.foldl_cons, h q List.mem_cons_self, ih fun q hq => h q (List.mem_cons_of_mem _ hq)]

/-- A byte that one patch reaches and no other one is what this patch makes it. -/
theorem foldl_put_of_mem {l : List (Nat × Patch)} {i : Nat} {q : Nat × Patch} {v : UInt8}
    (hq : q ∈ l) (hv : ∀ b, put q.2.bytes q.1 i b = v)
    (h : ∀ q' ∈ l, q' = q ∨ ∀ b, put q'.2.bytes q'.1 i b = b) (b : UInt8) :
    l.foldl (fun b q => put q.2.bytes q.1 i b) b = v := by
  induction l generalizing b with
  | nil => cases hq
  | cons q' l ih =>
      rw [List.foldl_cons]
      by_cases hmem : q ∈ l
      · exact ih hmem (fun q' hq' => h q' (List.mem_cons_of_mem _ hq')) _
      · rcases List.mem_cons.1 hq with rfl | hq
        · rw [hv, foldl_put_of_forall]
          intro q' hq'
          rcases h q' (List.mem_cons_of_mem _ hq') with rfl | hq''
          · exact absurd hq' hmem
          · exact hq''
        · exact absurd hq hmem

namespace Fit

/-- Two slots of a file that both cover a byte are one slot. -/
theorem eq_of_covers (h : Fit patches slots) {s t : Slot} (hs : s ∈ slots) (ht : t ∈ slots)
    {i : Nat} (hsi : s.Covers i) (hti : t.Covers i) : s = t := by
  by_cases hne : s = t
  · exact hne
  have hapart := h.apart.forall hs ht hne
  unfold Slot.Apart at hapart
  unfold Slot.Covers at hsi hti
  omega

/-- **The edit leaves alone what belongs to no slot.** -/
theorem quiet (h : Fit patches slots) {i : Nat} (hi : ∀ s ∈ slots, ¬ s.Covers i) (b : UInt8) :
    edit patches i b = b := by
  unfold edit
  rw [Std.TreeMap.foldl_eq_foldl_toList]
  refine foldl_put_of_forall (fun q hq b => ?_) b
  obtain ⟨s, hs, ho, hw⟩ := h.slot q.1 q.2 (Std.TreeMap.mem_toList_iff_getElem?_eq_some.1 hq)
  rw [← ho]
  exact put_of_not_covers hw (hi s hs) b

/-- A byte of a slot for which there is no patch stays as it is. -/
theorem edit_of_none (h : Fit patches slots) {s : Slot} (hs : s ∈ slots)
    (hp : patches[s.offset]? = none) {i : Nat} (hi : s.Covers i) (b : UInt8) :
    edit patches i b = b := by
  unfold edit
  rw [Std.TreeMap.foldl_eq_foldl_toList]
  refine foldl_put_of_forall (fun q hq b => ?_) b
  have hget := Std.TreeMap.mem_toList_iff_getElem?_eq_some.1 hq
  obtain ⟨t, ht, ho, hw⟩ := h.slot q.1 q.2 hget
  rw [← ho]
  refine put_of_not_covers hw (fun hti => ?_) b
  rw [← ho, h.eq_of_covers ht hs hti hi, hp] at hget
  cases hget

/-- A byte of a slot for which there is a patch is that of the patch. -/
theorem edit_of_some (h : Fit patches slots) {s : Slot} (hs : s ∈ slots) {p : Patch}
    (hp : patches[s.offset]? = some p) {k : Nat} (hk : k < p.bytes.length) (b : UInt8) :
    edit patches (s.offset + k) b = p.bytes[k] := by
  unfold edit
  rw [Std.TreeMap.foldl_eq_foldl_toList]
  have hw : s.width = p.bytes.length := by
    obtain ⟨t, ht, ho, hw⟩ := h.slot _ p hp
    rw [← hw, h.eq_of_covers hs ht s.covers_offset (ho ▸ t.covers_offset)]
  refine foldl_put_of_mem (q := (s.offset, p)) (Std.TreeMap.mem_toList_iff_getElem?_eq_some.2 hp)
    (fun b => ?_) (fun q hq => ?_) b
  · unfold put
    simp only
    rw [if_pos (Nat.le_add_right _ _), Nat.add_sub_cancel_left, List.getD_eq_getElem?_getD,
      List.getElem?_eq_getElem hk, Option.getD_some]
  · have hget := Std.TreeMap.mem_toList_iff_getElem?_eq_some.1 hq
    obtain ⟨t, ht, ho, hwt⟩ := h.slot q.1 q.2 hget
    by_cases hti : t.Covers (s.offset + k)
    · left
      have hst := h.eq_of_covers ht hs hti ⟨Nat.le_add_right _ _, by unfold Slot.finish; omega⟩
      have hq1 : q.1 = s.offset := by rw [← ho, hst]
      rw [hq1, hp] at hget
      cases q
      cases hget
      simp only at hq1
      rw [hq1]
    · right
      rw [← ho]
      exact put_of_not_covers hwt hti

/-- **What a word is after the edit.** -/
theorem word_of_some (h : Fit patches slots) {o : Nat} (hs : Slot.word o ∈ slots) {v : UInt16}
    (hp : patches[o]? = some (.word v)) (w : UInt16) : (edit patches).word o w = v := by
  have h0 := h.edit_of_some hs hp (k := 0) Nat.zero_lt_two (w >>> 8).toUInt8
  have h1 := h.edit_of_some hs hp (k := 1) Nat.one_lt_two w.toUInt8
  unfold Edit.word
  rw [show edit patches o _ = _ from h0, show edit patches (o + 1) _ = _ from h1]
  exact BigEndian.word16_bytes16 v

theorem word_of_none (h : Fit patches slots) {o : Nat} (hs : Slot.word o ∈ slots)
    (hp : patches[o]? = none) (w : UInt16) : (edit patches).word o w = w := by
  refine Edit.Quiet.word_eq (fun i h1 h2 b => ?_) w
  exact h.edit_of_none hs hp ⟨h1, h2⟩ b

/-- **What an opcode is after the edit.** -/
theorem opcode_of_some (h : Fit patches slots) {o : Nat} {before v : UInt8}
    (hs : Slot.opcode o before ∈ slots) (hp : patches[o]? = some (.byte v)) (b : UInt8) :
    edit patches o b = v :=
  h.edit_of_some hs hp (k := 0) Nat.zero_lt_one b

theorem opcode_of_none (h : Fit patches slots) {o : Nat} {before : UInt8}
    (hs : Slot.opcode o before ∈ slots) (hp : patches[o]? = none) (b : UInt8) :
    edit patches o b = b :=
  h.edit_of_none hs hp ⟨Nat.le_refl _, Nat.lt_succ_self _⟩ b

end Fit

end Patch

end ClassAccess
