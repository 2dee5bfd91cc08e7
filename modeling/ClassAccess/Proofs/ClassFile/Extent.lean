import ClassAccess.Proofs.ClassFile.Rereading
import ClassAccess.Proofs.Reading.Extent

/-!
# How far a class file reaches

A class file ends behind its last attribute. What stands there does not matter, and a file that ends
before is told to be too short, whatever it holds.

* `Attribute.Enclosed` -- what is found in the body of an attribute without looking behind it;
* `Attribute.delimited_check` -- **an attribute and what is found in it**: the block is skipped
  before its body is looked at, so that of a body cut off nothing else is told;
* `ConstantPool.delimited_reading` -- a pool; `Parts.delimited_reading` -- the parts behind it;
* `Layout.ofBytes_extent` -- **a class file is read from exact bytes**.

The calls are looked up when all bytes have been read: this takes none, and fails for the whole file
if it fails at all.
-/

namespace ClassAccess

open Outcome Reading

/-! ## 1. Attributes -/

namespace Attribute

variable {α β : Type} {pool : ConstantPool} {f g : Attribute → Except Fault β}

/-- What is found in the body of an attribute does not depend on what stands behind the body. -/
def Enclosed (f : Attribute → Except Fault β) : Prop :=
  Followed Edit.none 0 f f (fun _ => []) id

/-- **What a delimited step finds in the body of an attribute is found inside of it.** -/
theorem enclosed_contents {r : Reading β} (hr : Delimited r) :
    Enclosed fun a : Attribute => a.contents r := by
  refine followed_contents fun s a t h => ?_
  obtain ⟨x, hx, ho, hexact⟩ := hr s a t h
  refine ⟨x, hx, ho, ho ▸ Nat.le_add_right _ _, fun _ u => ?_⟩
  rw [Edit.none_apply, ho]
  exact hexact.again u

theorem enclosed_const (b : β) : Enclosed fun _ => .ok b :=
  followed_of_eq (fun _ => rfl) (fun _ => rfl) rfl rfl

theorem Enclosed.ite (name : String) (hf : Enclosed f) (hg : Enclosed g) :
    Enclosed fun a => if a.name = name then f a else g a :=
  Followed.ite name hf hg

theorem Enclosed.map {h : Attribute → Except Fault α} (m : α → β) (hh : Enclosed h) :
    Enclosed fun a => m <$> h a :=
  Followed.map hh (fun _ => rfl) fun _ => rfl

/-- An attribute of which nothing but the bytes is wanted. -/
def skip (pool : ConstantPool) : Reading Unit := do
  let _ ← Attribute.reading pool
  return ()

theorem skip_eq (pool : ConstantPool) : skip pool = (do
    let p ← front pool
    let _ ← Reading.bytes p.2.toNat
    return ()) := by
  simp only [skip, reading_eq, bind_assoc, pure_bind]
  rfl

theorem delimited_skip (pool : ConstantPool) : Delimited (skip pool) := by
  have hfront : Delimited (front pool) :=
    delimited_word16.bind fun _ => (delimited_check _).bind fun _ => delimited_word32.map
  rw [skip_eq]
  exact hfront.bind fun p => (delimited_bytes p.2.toNat).map

/-- A step fails wherever its bytes cannot be skipped. -/
theorem error_of_skip {s : Source} {fault : Fault} (h : skip pool s = .error fault) :
    Attribute.reading pool s = .error fault := by
  unfold skip at h
  rw [run_bind] at h
  cases ha : Attribute.reading pool s with
  | error fault' =>
      rw [ha] at h
      cases h
      rfl
  | ok p =>
      rw [ha] at h
      cases h

/-- **An attribute and what is found in it** take exact bytes, if what is found is enclosed. -/
theorem delimited_check (hf : Enclosed f) :
    Delimited (do let a ← Attribute.reading pool; Reading.check (f a)) := by
  refine delimited_of_copied (follows_attribute (ConstantPool.Within.refl _) hf)
    fun o x b t h ht n hn => ?_
  obtain ⟨a, s, ha, h⟩ := Reading.exists_of_bind_ok h
  obtain ⟨-, rfl⟩ := check_ok h
  have hskip : skip pool ⟨o, x⟩ = .ok ((), s) := Reading.bind_ok ha
  obtain ⟨y, hy, -, hexact⟩ := delimited_skip pool _ _ _ hskip
  rw [ht, List.append_nil] at hy
  cases hy
  obtain ⟨offset, hfault⟩ := hexact.short n hn
  exact ⟨offset, by rw [run_bind, error_of_skip hfault]⟩

end Attribute

/-! ## 2. The constant pool -/

theorem Constant.delimited_reading : Delimited Constant.reading := by
  refine delimited_offset.bind fun start => delimited_byte.bind fun tag => ?_
  have one : ∀ f : UInt16 → Constant, Delimited (do return f (← word16)) :=
    fun f => delimited_word16.map
  have two : ∀ f : UInt16 → UInt16 → Constant, Delimited (do return f (← word16) (← word16)) :=
    fun f => delimited_word16.bind fun _ => one _
  unfold body
  split
  · exact delimited_word16.bind fun n => delimited_offset.bind fun first =>
      (delimited_bytes n.toNat).bind fun spelled => (Reading.delimited_check _).map
  · exact delimited_word32.map
  · exact delimited_word32.map
  · exact delimited_word64.map
  · exact delimited_word64.map
  · exact one _
  · exact one _
  · exact two _
  · exact two _
  · exact two _
  · exact two _
  · exact delimited_byte.bind fun kind => one _
  · exact one _
  · exact two _
  · exact two _
  · exact one _
  · exact one _
  · exact delimited_fail _

namespace ConstantPool

variable {count : UInt16}

theorem fill_one (slots : Array Constant) : fill count 1 slots = (do
    let c ← Constant.reading
    if c.isWide then Reading.fail (.invalidIndex count) else return slots.push c) := by
  funext s
  rw [run_bind, fill]
  cases Constant.reading s with
  | error fault => rfl
  | ok p =>
      simp only
      split
      · rfl
      · rfl

theorem fill_succ (n : Nat) (slots : Array Constant) : fill count (n + 2) slots = (do
    let c ← Constant.reading
    if c.isWide then fill count n ((slots.push c).push .unusable)
    else fill count (n + 1) (slots.push c)) := by
  funext s
  rw [run_bind, fill]
  cases Constant.reading s with
  | error fault => rfl
  | ok p =>
      simp only
      split
      · rfl
      · rfl

/-- **Slots are filled from exact bytes**, though an entry may fill two of them. -/
theorem delimited_fill : ∀ (n : Nat) (slots : Array Constant), Delimited (fill count n slots)
  | 0, slots => delimited_pure slots
  | 1, slots => by
      rw [fill_one]
      refine Constant.delimited_reading.bind fun c => ?_
      split
      · exact delimited_fail _
      · exact delimited_pure _
  | n + 2, slots => by
      rw [fill_succ]
      refine Constant.delimited_reading.bind fun c => ?_
      split
      · exact delimited_fill n _
      · exact delimited_fill (n + 1) _

theorem delimited_reading : Delimited reading :=
  delimited_word16.bind fun _ => (delimited_fill _ _).map

end ConstantPool

/-! ## 3. The parts -/

namespace Layout

variable (pool : ConstantPool)

theorem delimited_version : Delimited versionReading := by
  refine delimited_word32.bind fun found => ?_
  by_cases h : found = magic
  · simp only [h, ne_eq, not_true_eq_false, if_false]
    exact delimited_word16.bind fun _ => delimited_word16.map
  · simp only [h, ne_eq, not_false_eq_true, if_true]
    exact (delimited_fail _).bind fun _ => delimited_word16.bind fun _ => delimited_word16.map

theorem delimited_preamble : Delimited preamble := by
  rw [preamble_eq]
  exact delimited_version.bind fun _ => ConstantPool.delimited_reading.bind fun _ =>
    delimited_offset.map

theorem delimited_index : Delimited indexReading :=
  delimited_offset.bind fun _ => delimited_word16.map

theorem delimited_header (version : Version) : Delimited (headerReading version pool) := by
  rw [headerReading_eq]
  refine delimited_index.bind fun _ => Delimited.map ?_
  exact delimited_word16.bind fun _ => (delimited_check _).bind fun _ =>
    delimited_word16.bind fun _ => (delimited_check _).bind fun _ =>
      (delimited_word16.bind fun _ => delimited_check _).counted.map

theorem delimited_memberNames : Delimited (memberNames pool) :=
  delimited_word16.bind fun _ => (delimited_check _).bind fun _ =>
    delimited_word16.bind fun _ => (delimited_check _).map

theorem delimited_field : Delimited (fieldReading pool) := by
  rw [fieldReading_eq]
  refine delimited_index.bind fun _ => Delimited.map ?_
  exact (delimited_memberNames pool).bind fun _ =>
    (Attribute.delimited_check (Attribute.enclosed_const ())).counted.map

theorem delimited_codeReading : Delimited codeReading :=
  (delimited_bytes 4).bind fun _ => delimited_word32.bind fun n => delimited_offset.bind fun _ =>
    (delimited_bytes n.toNat).map

theorem enclosed_attributeCalls : Attribute.Enclosed attributeCalls := by
  have hcode : Delimited codeCalls := delimited_codeReading.bind fun _ => delimited_check _
  exact ((Attribute.enclosed_contents hcode).ite Attribute.code
    (Attribute.enclosed_const [])).of_ok (fun _ _ h => attributeCalls_eq_ok_iff.1 h)
    fun _ _ h => attributeCalls_eq_ok_iff.2 h

theorem delimited_method : Delimited (methodReading pool) := by
  rw [methodReading_eq]
  refine delimited_index.bind fun _ => Delimited.map ?_
  exact (delimited_memberNames pool).bind fun _ =>
    (Attribute.delimited_check enclosed_attributeCalls).counted.map

theorem delimited_innerClass : Delimited (innerClassReading pool) := by
  rw [innerClassReading_eq]
  refine Delimited.bind ?_ fun _ => delimited_index.map
  exact delimited_word16.bind fun _ => (delimited_check _).bind fun _ =>
    delimited_word16.bind fun _ => (delimited_check _).bind fun _ =>
      delimited_word16.bind fun _ => (delimited_check _).map

theorem delimited_bootstrap : Delimited bootstrapReading :=
  delimited_index.bind fun _ => delimited_index.counted.map

theorem enclosed_attributeTables : Attribute.Enclosed (attributeTables pool) :=
  ((Attribute.enclosed_contents (delimited_innerClass pool).counted).map _).ite
    Attribute.innerClasses
    (((Attribute.enclosed_contents delimited_bootstrap.counted).map _).ite
      Attribute.bootstrapMethods (Attribute.enclosed_const _))

end Layout

theorem Parts.delimited_reading (version : Version) (pool : ConstantPool) :
    Delimited (reading version pool) :=
  (Layout.delimited_header pool version).bind fun _ => (Layout.delimited_field pool).counted.bind
    fun _ => (Layout.delimited_method pool).counted.bind fun _ =>
      (Attribute.delimited_check (Layout.enclosed_attributeTables pool)).counted.map

/-! ## 4. The whole file -/

namespace Layout

variable {data : Bytes} {l : Layout}

theorem delimited_reading (data : Bytes) : Delimited (reading data) := by
  rw [reading_eq]
  exact delimited_preamble.bind fun _ => (Parts.delimited_reading _ _).bind fun _ =>
    (delimited_check _).map

/-- The bytes of the file are only kept with what is read. -/
theorem reading_data (data data' : Bytes) : reading data' = (do
    let l ← reading data
    return { l with data := data' }) := by
  simp only [reading_eq, bind_assoc, pure_bind]
  rfl

theorem ofBytes_eq (data : Bytes) : ofBytes data = Prod.fst <$> reading data ⟨0, data⟩ := by
  unfold ofBytes Source.ofBytes
  cases reading data ⟨0, data⟩ with
  | error fault => rfl
  | ok p => rfl

/-- **A class file is read from exact bytes.** They stand at the front of the file. With anything
    behind them the same is read, and of any shorter front it is told that it ends too early. -/
theorem ofBytes_extent (h : ofBytes data = .ok l) : ∃ x rest, data = x ++ rest ∧
    (∀ u, ofBytes (x ++ u) = .ok { l with data := x ++ u }) ∧
      ∀ n < x.length, ∃ offset, ofBytes (x.take n) = .error (.unexpectedEnd offset) := by
  rw [ofBytes_eq] at h
  obtain ⟨⟨l', t⟩, hread, rfl⟩ := exists_of_map_ok h
  obtain ⟨x, hx, -, hexact⟩ := delimited_reading data _ _ _ hread
  refine ⟨x, t.rest, hx, fun u => ?_, fun n hn => ?_⟩
  · rw [ofBytes_eq, reading_data data, Reading.bind_ok (hexact.again u)]
    rfl
  · obtain ⟨offset, hfault⟩ := hexact.short n hn
    exact ⟨offset, by rw [ofBytes_eq, reading_data data, run_bind, hfault]; rfl⟩

end Layout

end ClassAccess
