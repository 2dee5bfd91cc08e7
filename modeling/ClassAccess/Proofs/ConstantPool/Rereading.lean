import ClassAccess.Proofs.ConstantPool.Codec
import ClassAccess.Proofs.ConstantPool.Growth

/-!
# Reading a pool to which entries were added

New entries are written behind the old ones, and the count in front is raised. Reading such a pool
gives the old entries and then the new ones:

* `Constant.copied_reading` -- an entry of a file that is not moved is read again as it was;
* `ConstantPool.Meets` -- the entries that reading meets, each with the bytes that it takes;
* `Meets.fill_again` -- **entries that are met are met again**, whatever stands behind them;
* `fill_handles` -- method handles are read as they were written;
* `Written`, `written_of_reading` -- **a pool with method handles written at its end is the grown
  pool**.
-/

namespace ClassAccess

open Outcome

/-! ## 1. Entries -/

section Entries

variable {E : Edit} {k : Nat}

theorem Reading.copied_fail {α : Type} (fault fault' : Fault) :
    Reading.Copied E k (Reading.fail (α := α) fault) (Reading.fail fault') := by
  intro s a t h
  cases h

theorem Reading.copied_offset : Reading.Copied E 0 Reading.offset Reading.offset := by
  intro s o t h
  cases h
  exact Reading.replays_offset s

theorem Reading.copied_word64 : Reading.Copied E k Reading.word64 Reading.word64 :=
  Reading.copied_word32.bind fun _ => Reading.copied_word32.bind fun _ => Reading.copied_pure _

theorem Constant.copied_body (tag : UInt8) (start : Nat) :
    Reading.Copied E 0 (Constant.body tag start) (Constant.body tag start) := by
  have one : ∀ f : UInt16 → Constant, Reading.Copied E 0
      (do return f (← Reading.word16)) (do return f (← Reading.word16)) :=
    fun f => Reading.copied_word16.bind fun _ => Reading.copied_pure _
  have two : ∀ f : UInt16 → UInt16 → Constant, Reading.Copied E 0
      (do return f (← Reading.word16) (← Reading.word16))
      (do return f (← Reading.word16) (← Reading.word16)) :=
    fun f => Reading.copied_word16.bind fun _ => one (f _)
  unfold Constant.body
  split
  · exact Reading.copied_word16.bind fun n => Reading.copied_offset.bind fun first =>
      (Reading.copied_bytes n.toNat).bind fun spelled =>
        (Reading.copied_check fun _ h => h).bind fun value => Reading.copied_pure _
  · exact Reading.copied_word32.bind fun _ => Reading.copied_pure _
  · exact Reading.copied_word32.bind fun _ => Reading.copied_pure _
  · exact Reading.copied_word64.bind fun _ => Reading.copied_pure _
  · exact Reading.copied_word64.bind fun _ => Reading.copied_pure _
  · exact one _
  · exact one _
  · exact two _
  · exact two _
  · exact two _
  · exact two _
  · exact Reading.copied_byte.bind fun kind => one _
  · exact one _
  · exact two _
  · exact two _
  · exact one _
  · exact one _
  · exact Reading.copied_fail _ _

/-- Whether an entry is a method handle. -/
def Constant.isHandle : Constant → Bool
  | .methodHandle _ _ => true
  | _ => false

theorem Constant.exists_of_isHandle {c : Constant} (h : c.isHandle = true) :
    ∃ kind reference, c = .methodHandle kind reference := by
  unfold Constant.isHandle at h
  split at h
  · exact ⟨_, _, rfl⟩
  · cases h

/-- **An entry is read again as it was**, as long as it stays where it is. -/
theorem Constant.copied_reading :
    Reading.Copied E 0 Constant.reading Constant.reading :=
  Reading.copied_offset.bind fun start => Reading.copied_byte.bind fun tag =>
    Constant.copied_body tag start

end Entries

namespace Edit

/-- The edit that changes nothing. -/
def none : Edit := fun _ b => b

theorem quiet_none (lo hi : Nat) : none.Quiet lo hi := fun _ _ _ _ => rfl

@[simp] theorem none_apply (offset : Nat) (x : Bytes) : none.apply offset x = x :=
  (quiet_none _ _).apply_eq

theorem respects_none (slots : List Slot) (lo hi : Nat) : none.Respects slots lo hi := by
  refine ⟨fun _ _ _ _ _ => rfl, fun s _ => ?_⟩
  cases s with
  | word => exact trivial
  | opcode => exact .inl rfl

end Edit

/-- A step that is copied where nothing moves looks only at the bytes that it takes. -/
theorem Reading.Copied.local {α : Type} {r : Reading α} (hr : Reading.Copied Edit.none 0 r r)
    {s t : Source} {a : α} (h : r s = .ok (a, t)) :
    ∃ x, s.rest = x ++ t.rest ∧ t.offset = s.offset + x.length ∧
      ∀ u, r ⟨s.offset, x ++ u⟩ = .ok (a, ⟨t.offset, u⟩) := by
  obtain ⟨x, hx, ho, _, hu⟩ := hr s a t h
  refine ⟨x, hx, ho, fun u => ?_⟩
  have := hu (Edit.respects_none _ _ _) u
  rwa [Edit.none_apply] at this

namespace ConstantPool

/-! ## 2. Filling slots -/

/-- Reading meets some entries one behind the other, each with the bytes that it takes. -/
inductive Meets : Source → List (Constant × Bytes) → Source → Prop
  | nil (s : Source) : Meets s [] s
  | cons {s s' t : Source} {c : Constant} {x : Bytes} {met : List (Constant × Bytes)} :
      Constant.reading s = .ok (c, s') → s.rest = x ++ s'.rest → Meets s' met t →
      Meets s ((c, x) :: met) t

variable {met : List (Constant × Bytes)} {s t : Source}

/-- **Slots are filled by entries that are met.** -/
theorem exists_of_fill {count : UInt16} {n : Nat} {acc slots : Array Constant}
    (h : fill count (n + 1) acc s = .ok (slots, t)) :
    ∃ c s' m, Constant.reading s = .ok (c, s') ∧ n + 1 = c.slots + m ∧
      fill count m (acc ++ c.row.toArray) s' = .ok (slots, t) := by
  suffices hm : ∃ c s' m, Constant.reading s = .ok (c, s') ∧ n + 1 = c.slots + m by
    obtain ⟨c, s', m, hc, hm⟩ := hm
    exact ⟨c, s', m, hc, hm, by rw [← fill_entry hc, ← hm, h]⟩
  cases n with
  | zero =>
      simp only [fill] at h
      split at h
      · cases h
      · rename_i c s' hc
        cases hw : c.isWide with
        | true => rw [hw] at h; cases h
        | false => exact ⟨c, s', 0, hc, by rw [Constant.slots_of_narrow hw]⟩
  | succ n =>
      simp only [fill] at h
      split at h
      · cases h
      · rename_i c s' hc
        cases hw : c.isWide with
        | true => exact ⟨c, s', n, hc, by rw [Constant.slots_of_wide hw]; omega⟩
        | false => exact ⟨c, s', n + 1, hc, by rw [Constant.slots_of_narrow hw]; omega⟩

theorem meets_of_fill {count : UInt16} {n : Nat} {acc slots : Array Constant}
    (h : fill count n acc s = .ok (slots, t)) :
    ∃ met, Meets s met t ∧ slots = acc ++ (rows (met.map Prod.fst)).toArray ∧
      (rows (met.map Prod.fst)).length = n := by
  induction n using Nat.strong_induction_on generalizing acc s with
  | _ n ih =>
      cases n with
      | zero =>
          cases h
          exact ⟨[], .nil _, by rw [List.map_nil, rows_nil, Array.append_empty], rfl⟩
      | succ n =>
          obtain ⟨c, s', m, hc, hm, hfill⟩ := exists_of_fill h
          have hlt : m < n + 1 := by
            have hpos : 0 < c.slots := by
              unfold Constant.slots
              split <;> omega
            omega
          obtain ⟨x, hx, -⟩ := Constant.copied_reading.local hc
          obtain ⟨met, hmet, hslots, hlength⟩ := ih m hlt hfill
          refine ⟨(c, x) :: met, .cons hc hx hmet, ?_, ?_⟩
          · rw [hslots, List.map_cons, rows_cons, Array.append_assoc]
            simp only [List.append_toArray]
          · rw [List.map_cons, rows_cons, List.length_append, Constant.length_row, hlength, hm]

/-- An entry that is read takes the same bytes again, whatever stands behind them. -/
theorem reads_again {s' : Source} {c : Constant} {x : Bytes} (hc : Constant.reading s = .ok (c, s'))
    (hx : s.rest = x ++ s'.rest) : s'.offset = s.offset + x.length ∧
      ∀ u, Constant.reading ⟨s.offset, x ++ u⟩ = .ok (c, ⟨s'.offset, u⟩) := by
  obtain ⟨y, hy, hoffset, hread⟩ := Constant.copied_reading.local hc
  rw [List.append_cancel_right (hx.symm.trans hy)]
  exact ⟨hoffset, hread⟩

/-- The bytes of the entries that are met. -/
theorem Meets.rest (h : Meets s met t) :
    s.rest = (met.map Prod.snd).flatten ++ t.rest ∧
      t.offset = s.offset + (met.map Prod.snd).flatten.length := by
  induction h with
  | nil => exact ⟨rfl, rfl⟩
  | @cons s s' t c x met hc hx _ ih =>
      rw [List.map_cons, List.flatten_cons, hx, ih.1, ih.2, (reads_again hc hx).1]
      exact ⟨(List.append_assoc _ _ _).symm, by rw [List.length_append, Nat.add_assoc]⟩

/-- **Entries that are met are met again**, whatever stands behind them. -/
theorem Meets.fill_again (h : Meets s met t) (count : UInt16) (m : Nat) (acc : Array Constant)
    (u : Bytes) :
    fill count ((rows (met.map Prod.fst)).length + m) acc
        ⟨s.offset, (met.map Prod.snd).flatten ++ u⟩ =
      fill count m (acc ++ (rows (met.map Prod.fst)).toArray) ⟨t.offset, u⟩ := by
  induction h generalizing acc with
  | nil => rw [List.map_nil, rows_nil, Array.append_empty, List.length_nil, Nat.zero_add]; rfl
  | @cons s s' t c x met hc hx _ ih =>
      rw [List.map_cons, List.map_cons, List.flatten_cons, rows_cons, List.length_append,
        Constant.length_row, List.append_assoc, Nat.add_assoc,
        fill_entry ((reads_again hc hx).2 _), ih, Array.append_assoc]
      simp only [List.append_toArray]

/-! ## 3. Pools with method handles at their end -/

/-- The entries that a pool has got are what is written from its old end on. -/
theorem bytesFrom_grown {pool : ConstantPool} {new : List Constant} {written : List Bytes}
    (h : new.mapM Constant.bytes = .ok written) :
    (pool.grown new).bytesFrom pool.count = .ok written.flatten := by
  have hdrop : (pool.grown new).slots.toList.drop pool.count = new := by
    simp only [ConstantPool.grown, Array.toList_append, ConstantPool.count]
    exact List.drop_left' Array.length_toList
  rw [bytesFrom, hdrop, h]
  rfl

/-- Method handles are written in four bytes each. -/
theorem bytes_handles {new : List Constant} (h : ∀ c ∈ new, c.isHandle = true) :
    ∃ xs, new.mapM Constant.bytes = .ok xs ∧ xs.flatten.length = 4 * new.length := by
  induction new with
  | nil => exact ⟨[], rfl, rfl⟩
  | cons c new ih =>
      obtain ⟨xs, hxs, hlen⟩ := ih fun d hd => h d (List.mem_cons_of_mem _ hd)
      obtain ⟨kind, reference, rfl⟩ := Constant.exists_of_isHandle (h c List.mem_cons_self)
      refine ⟨(15 :: kind :: BigEndian.bytes16 reference) :: xs, ?_, ?_⟩
      · rw [mapM_cons, hxs]
        rfl
      · simp only [List.flatten_cons, List.length_append, hlen, List.length_cons,
          BigEndian.length_bytes16]
        omega

/-- **Method handles are written in four bytes each, and read as they were written.** -/
theorem fill_handles {new : List Constant} (h : ∀ c ∈ new, c.isHandle = true) :
    ∃ xs, new.mapM Constant.bytes = .ok xs ∧ xs.flatten.length = 4 * new.length ∧
      ∀ (count : UInt16) (acc : Array Constant) (o : Nat) (u : Bytes),
        fill count new.length acc ⟨o, xs.flatten ++ u⟩ =
          .ok (acc ++ new.toArray, ⟨o + 4 * new.length, u⟩) := by
  obtain ⟨xs, hxs, hlen⟩ := bytes_handles h
  have hrows : rows new = new := rows_of_narrow fun c hc => by
    obtain ⟨kind, reference, rfl⟩ := Constant.exists_of_isHandle (h c hc)
    rfl
  have hu : ∀ c ∈ new, c ≠ .unusable := fun c hc => by
    obtain ⟨kind, reference, rfl⟩ := Constant.exists_of_isHandle (h c hc)
    nofun
  refine ⟨xs, hxs, hlen, fun count acc o u => ?_⟩
  obtain ⟨_, hfill, rfl⟩ := takes_fill count acc hu hxs o u
  rw [hrows] at hfill
  rw [hfill, hlen]

/-- The bytes `x` of a pool: read as the pool wherever they stand in front, and as the grown pool
    with new entries behind them and a new count in front. -/
structure Written (pool : ConstantPool) (o : Nat) (x : Bytes) : Prop where
  healthy : pool.Healthy
  length : 2 ≤ x.length
  again : ∀ u, reading ⟨o, x ++ u⟩ = .ok (pool, ⟨o + x.length, u⟩)
  grown : ∀ (new : List Constant) (xs : List Bytes) (u : Bytes), (∀ c ∈ new, c.isHandle = true) →
    pool.count + new.length ≤ capacity → new.mapM Constant.bytes = .ok xs →
      reading ⟨o, BigEndian.bytes16 (pool.count + new.length).toUInt16 ++ x.drop 2 ++ xs.flatten
          ++ u⟩ = .ok (pool.grown new, ⟨o + x.length + 4 * new.length, u⟩)

/-- **A pool that is read** is its number of slots and the entries that fill them. -/
theorem reading_ok {pool : ConstantPool} (h : reading s = .ok (pool, t)) :
    ∃ count s₁ met, Reading.word16 s = .ok (count, s₁) ∧ Meets s₁ met t ∧
      pool = ConstantPool.grown {} (rows (met.map Prod.fst)) ∧
      (rows (met.map Prod.fst)).length = count.toNat - 1 := by
  obtain ⟨count, s₁, hcount, h⟩ := Reading.exists_of_bind_ok h
  obtain ⟨slots, s₂, hfill, h⟩ := Reading.exists_of_bind_ok h
  cases h
  obtain ⟨met, hmet, hslots, hlength⟩ := meets_of_fill hfill
  exact ⟨count, s₁, met, hcount, hmet, congrArg mk hslots, hlength⟩

theorem healthy_of_reading {pool : ConstantPool} (h : reading s = .ok (pool, t)) :
    pool.Healthy := by
  obtain ⟨count, s₁, met, -, -, hpool, hlength⟩ := reading_ok h
  have hcount := count.toNat_lt
  rw [hpool]
  refine healthy_empty.grown ?_
  rw [hlength]
  show 1 + (count.toNat - 1) ≤ 0xFFFF
  omega

/-- **A pool that is read can be read again, and grown.** -/
theorem written_of_reading {pool : ConstantPool} (h : reading s = .ok (pool, t)) :
    ∃ x, s.rest = x ++ t.rest ∧ t.offset = s.offset + x.length ∧ Written pool s.offset x := by
  have hh := healthy_of_reading h
  obtain ⟨count, s₁, met, hcount, hmet, hpool, hlength⟩ := reading_ok h
  obtain ⟨a, b, hab, hoff, rfl⟩ := Reading.word16_ok hcount
  obtain ⟨hrest, hoffset⟩ := hmet.rest
  have hsize : pool.count = 1 + ((BigEndian.word16 a b).toNat - 1) := by
    rw [hpool, count_grown, hlength]
    rfl
  have hagain := hmet.fill_again
  rw [hlength, hoff] at hagain
  refine ⟨a :: b :: (met.map Prod.snd).flatten, by rw [hab, hrest]; rfl, ?_, hh, ?_,
    fun u => ?_, ?_⟩
  · rw [hoffset, hoff, List.length_cons, List.length_cons]
    omega
  · simp only [List.length_cons]
    omega
  · have hw : Reading.word16 ⟨s.offset, (a :: b :: (met.map Prod.snd).flatten) ++ u⟩ =
        .ok (BigEndian.word16 a b, ⟨s.offset + 2, (met.map Prod.snd).flatten ++ u⟩) := rfl
    have hf := hagain (BigEndian.word16 a b) 0 #[.unusable] u
    rw [Nat.add_zero] at hf
    rw [reading, Reading.bind_ok hw, Reading.bind_ok (hf.trans rfl), hoffset, hoff, hpool]
    simp only [Reading.run_pure, grown, List.length_cons, Nat.add_assoc, Nat.add_comm 2]
  · intro new xs u hnew hroom hxs
    obtain ⟨xs', hxs', hlen, hnewfill⟩ := fill_handles hnew
    rw [hxs] at hxs'
    cases hxs'
    rw [hsize] at hroom ⊢
    have hnat : (1 + ((BigEndian.word16 a b).toNat - 1) + new.length).toUInt16.toNat - 1 =
        (BigEndian.word16 a b).toNat - 1 + new.length := by
      unfold capacity at hroom
      show (1 + ((BigEndian.word16 a b).toNat - 1) + new.length) % 65536 - 1 = _
      omega
    have hf := hagain (1 + ((BigEndian.word16 a b).toNat - 1) + new.length).toUInt16 new.length
      #[.unusable] (xs.flatten ++ u)
    rw [hnewfill, ← hnat] at hf
    show reading ⟨s.offset,
      BigEndian.bytes16 _ ++ (met.map Prod.snd).flatten ++ xs.flatten ++ u⟩ = _
    rw [List.append_assoc, List.append_assoc, reading,
      Reading.bind_ok (Reading.word16_bytes16 _ _ _), Reading.bind_ok hf, hoffset, hoff, hpool]
    simp only [Reading.run_pure, grown, List.length_cons, Nat.add_assoc, Nat.add_comm 2]

end ConstantPool

end ClassAccess
