import ClassAccess.ConstantPool.Binary
import ClassAccess.Proofs.ConstantPool.Growth
import ClassAccess.Proofs.ModifiedUtf8.Roundtrip
import ClassAccess.Proofs.Reading.Taking

/-!
# A constant pool that is written is read back

* `Constant.takes_reading` -- **every entry is read back** from the bytes it is written as;
* `ConstantPool.LaidOut` -- pools as adding entries lays them out: behind an entry that takes two
  slots stands one that cannot be used, and nowhere else;
* `ConstantPool.bytesFrom_one` -- **such a pool is written entry by entry**;
* `ConstantPool.takes_reading` -- **a pool is read back**, slot by slot.
-/

namespace ClassAccess

open Outcome Reading

/-! ## 1. One entry -/

namespace Constant

theorem takes_of_body {tag : UInt8} {x : Bytes} {q : Constant → Prop}
    (h : ∀ start, Takes (body tag start) x q) : Takes reading (tag :: x) q :=
  Takes.offset_bind fun start => (takes_byte tag).bind fun _ ha => by rw [ha]; exact h start

/-- An entry that is a number behind its tag. -/
theorem takes_tagged {tag : UInt8} {make : UInt16 → Constant}
    (h : ∀ start, body tag start = do return make (← word16)) (a : UInt16) :
    Takes reading (tagged tag a) (· = make a) := by
  refine takes_of_body fun start => ?_
  rw [h]
  exact (takes_word16 a).map _ fun _ ha => by rw [ha]

/-- An entry that is two numbers behind its tag. -/
theorem takes_tagged2 {tag : UInt8} {make : UInt16 → UInt16 → Constant}
    (h : ∀ start, body tag start = do return make (← word16) (← word16)) (a b : UInt16) :
    Takes reading (tagged2 tag a b) (· = make a b) := by
  refine takes_of_body fun start => ?_
  rw [h]
  exact Takes.word16_bind ((takes_word16 b).map _ fun _ hb => by rw [hb])

theorem takes_text {value : String} {x : Bytes} (h : bytes (.text value) = .ok x) :
    Takes reading x (· = .text value) := by
  unfold bytes at h
  simp only at h
  split at h
  · rename_i hlen
    cases h
    have hn : (ModifiedUtf8.encode value).length.toUInt16.toNat =
        (ModifiedUtf8.encode value).length := by
      show (ModifiedUtf8.encode value).length % 65536 = _
      omega
    refine takes_of_body fun start => Takes.word16_bind (Takes.offset_bind fun first => ?_)
    rw [hn, ← List.append_nil (ModifiedUtf8.encode value)]
    refine (takes_bytes (List.append_nil _ ▸ rfl)).bind fun spelled hspelled => ?_
    rw [hspelled]
    exact Takes.check_bind (ModifiedUtf8.decode_encode first value) (takes_pure rfl)
  · cases h

/-- **An entry that is written is read back.** -/
theorem takes_reading {c : Constant} (hc : c ≠ .unusable) {x : Bytes} (h : c.bytes = .ok x) :
    Takes reading x (· = c) := by
  cases c
  case unusable => exact absurd rfl hc
  case text => exact takes_text h
  all_goals cases h
  case integer value =>
    exact takes_of_body fun _ => (takes_word32 _).map _ fun _ ha => by rw [ha]; rfl
  case float bits =>
    exact takes_of_body fun _ => (takes_word32 bits).map _ fun _ ha => by rw [ha]
  case long value =>
    exact takes_of_body fun _ => (takes_word64 _).map _ fun _ ha => by rw [ha]; rfl
  case double bits =>
    exact takes_of_body fun _ => (takes_word64 bits).map _ fun _ ha => by rw [ha]
  case classEntry | string | methodType | moduleEntry | packageEntry =>
    exact takes_tagged (fun _ => rfl) _
  case field | method | interfaceMethod | nameAndType | dynamic | callSite =>
    exact takes_tagged2 (fun _ => rfl) _ _
  case methodHandle kind reference =>
    refine takes_of_body fun _ => ?_
    refine (takes_byte kind).bind fun _ ha => (takes_word16 reference).map _ fun _ hb => ?_
    rw [ha, hb]

end Constant

/-! ## 2. All entries -/

namespace ConstantPool

/-- The slots that some entries fill, one entry behind the other. -/
def rows (entries : List Constant) : List Constant := entries.flatMap Constant.row

@[simp] theorem rows_nil : rows [] = [] := rfl

theorem rows_cons (c : Constant) (entries : List Constant) :
    rows (c :: entries) = c.row ++ rows entries := List.flatMap_cons

theorem rows_append (entries entries' : List Constant) :
    rows (entries ++ entries') = rows entries ++ rows entries' := List.flatMap_append

theorem rows_singleton (c : Constant) : rows [c] = c.row := List.append_nil _

/-- Entries that take one slot each fill their own slots. -/
theorem rows_of_narrow {entries : List Constant} (h : ∀ c ∈ entries, c.isWide = false) :
    rows entries = entries := by
  induction entries with
  | nil => rfl
  | cons c entries ih =>
      rw [rows_cons, Constant.row_of_narrow (h c List.mem_cons_self),
        ih fun d hd => h d (List.mem_cons_of_mem _ hd)]
      rfl

/-- A pool whose slots, behind the first one, are those that entries fill. -/
def LaidOut (pool : ConstantPool) : Prop :=
  ∃ entries, (∀ c ∈ entries, c ≠ .unusable) ∧ pool.slots.toList = .unusable :: rows entries

theorem laidOut_empty : ConstantPool.LaidOut {} := ⟨[], nofun, rfl⟩

theorem LaidOut.grown {pool : ConstantPool} {new : List Constant} (h : pool.LaidOut)
    (hnew : ∀ c ∈ new, c ≠ .unusable) : (pool.grown (rows new)).LaidOut := by
  obtain ⟨entries, hentries, hslots⟩ := h
  refine ⟨entries ++ new, fun c hc => (List.mem_append.1 hc).elim (hentries c) (hnew c), ?_⟩
  rw [ConstantPool.grown, Array.toList_append, hslots, rows_append]
  rfl

/-- The slot that cannot be used is written as no bytes. -/
theorem mapM_bytes_row (c : Constant) (rest : List Constant) :
    List.flatten <$> (c.row ++ rest).mapM Constant.bytes = (do
      let x ← c.bytes
      let xs ← List.flatten <$> rest.mapM Constant.bytes
      return x ++ xs) := by
  cases hw : c.isWide with
  | false =>
      rw [Constant.row_of_narrow hw, List.singleton_append, mapM_cons]
      cases c.bytes with
      | error => rfl
      | ok x => cases rest.mapM Constant.bytes <;> rfl
  | true =>
      rw [Constant.row_of_wide hw, List.cons_append, mapM_cons, List.singleton_append, mapM_cons]
      cases c.bytes with
      | error => rfl
      | ok x => cases rest.mapM Constant.bytes <;> rfl

/-- **A pool that is laid out is written entry by entry.** -/
theorem bytesFrom_one {pool : ConstantPool} {entries : List Constant}
    (hslots : pool.slots.toList = .unusable :: rows entries) :
    pool.bytesFrom 1 = List.flatten <$> entries.mapM Constant.bytes := by
  have hrows : List.flatten <$> (rows entries).mapM Constant.bytes =
      List.flatten <$> entries.mapM Constant.bytes := by
    clear hslots
    induction entries with
    | nil => rfl
    | cons c entries ih =>
        rw [rows_cons, mapM_bytes_row, ih, mapM_cons]
        cases c.bytes with
        | error => rfl
        | ok x => cases entries.mapM Constant.bytes <;> rfl
  rw [← hrows, bytesFrom, hslots]
  cases h : (rows entries).mapM Constant.bytes with
  | error => exact congrArg (· >>= _) h
  | ok => exact congrArg (· >>= _) h

/-- **An entry fills its slots**, and filling goes on behind it. -/
theorem fill_entry {count : UInt16} {acc : Array Constant} {s s' : Source} {c : Constant}
    (hc : Constant.reading s = .ok (c, s')) (n : Nat) :
    fill count (c.slots + n) acc s = fill count n (acc ++ c.row.toArray) s' := by
  cases hw : c.isWide with
  | false =>
      rw [Constant.slots_of_narrow hw, Constant.row_of_narrow hw, Nat.add_comm 1,
        Array.append_singleton]
      cases n with
      | zero => simp only [fill, hc, hw, Bool.false_eq_true, if_false]
      | succ n => simp only [fill, hc, hw, Bool.false_eq_true, if_false]
  | true =>
      rw [Constant.slots_of_wide hw, Constant.row_of_wide hw, Nat.add_comm 2,
        ← List.push_append_toArray, Array.append_singleton]
      simp only [fill, hc, hw, if_true]

/-- **Slots are filled from the entries that fill them.** -/
theorem takes_fill (count : UInt16) (slots : Array Constant) {entries : List Constant}
    (hu : ∀ c ∈ entries, c ≠ .unusable) {xs : List Bytes}
    (h : entries.mapM Constant.bytes = .ok xs) :
    Takes (fill count (rows entries).length slots) xs.flatten
      (· = slots ++ (rows entries).toArray) := by
  induction entries generalizing slots xs with
  | nil =>
      cases h
      exact fun _ _ => ⟨slots, rfl, by rw [rows_nil, Array.append_empty]⟩
  | cons c entries ih =>
      rw [mapM_cons] at h
      obtain ⟨x, hx, h⟩ := exists_of_bind_ok h
      obtain ⟨xs', hxs, h⟩ := exists_of_bind_ok h
      cases h
      rw [List.flatten_cons]
      intro o u
      obtain ⟨d, hread, hd⟩ :=
        Constant.takes_reading (hu c List.mem_cons_self) hx o (xs'.flatten ++ u)
      rw [hd] at hread
      obtain ⟨_, hfill, rfl⟩ :=
        ih (slots ++ c.row.toArray) (fun d hd => hu d (List.mem_cons_of_mem _ hd)) hxs
          (o + x.length) u
      refine ⟨_, ?_, rfl⟩
      rw [List.append_assoc, rows_cons, List.length_append, Constant.length_row, fill_entry hread,
        hfill, List.length_append, Nat.add_assoc, Array.append_assoc]
      simp only [List.append_toArray]

/-- **A pool that is written is read back.** -/
theorem takes_reading {pool : ConstantPool} (hl : pool.LaidOut) (hroom : pool.count ≤ capacity)
    {x : Bytes} (h : pool.bytesFrom 1 = .ok x) :
    Takes reading (BigEndian.bytes16 pool.count.toUInt16 ++ x) (· = pool) := by
  obtain ⟨entries, hu, hslots⟩ := hl
  rw [bytesFrom_one hslots] at h
  obtain ⟨xs, hxs, rfl⟩ := exists_of_map_ok h
  have hcount : pool.count = (rows entries).length + 1 := by
    rw [count, ← Array.length_toList, hslots, List.length_cons]
  have hn : pool.count.toUInt16.toNat - 1 = (rows entries).length := by
    show pool.count % 65536 - 1 = _
    unfold capacity at hroom
    omega
  refine Takes.word16_bind ?_
  rw [hn]
  refine (takes_fill _ _ hu hxs).map _ fun slots hs => ?_
  rw [hs, show #[Constant.unusable] ++ (rows entries).toArray = pool.slots from
    Array.toList_inj.1 (by simp [hslots])]

end ConstantPool

end ClassAccess
