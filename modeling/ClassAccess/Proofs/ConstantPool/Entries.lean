import ClassAccess.Proofs.ConstantPool.Interning
import ClassAccess.Proofs.ConstantPool.Rereading

/-!
# Constant pools and their bytes

A pool that is written is read back, and a pool that was read can be written. What is written then
is what was read, except that a text may have been spelled in more bytes than it is written in.

* `Constant.Stands`, `Constant.took_reading` -- **an entry that was read can be written**, and in
  the same bytes unless it is a text that was spelled otherwise;
* `ConstantPool.ReadBack`, `LaidOut.readBack` -- pools that are read back, wherever their bytes
  stand;
* `ConstantPool.Made` -- the pools that come from the empty one by adding entries;
* `Meets.written` -- what is written of a pool that was read;
* `ofBytes_roundtrip` -- **every pool that is made, and every pool that is read**, can be written
  and is read back.
-/

namespace ClassAccess

open Outcome Reading

/-! ## 1. One entry -/

namespace Constant

variable {c : Constant} {tag : UInt8} {x : Bytes}

/-- An entry that stands somewhere in the bytes `x`. It can be written, and it is written in these
    bytes, unless it is a text that is spelled in others. -/
structure Stands (c : Constant) (x : Bytes) : Prop where
  usable : c ≠ .unusable
  written : ∃ y, c.bytes = .ok y ∧
    ((∀ value, c = .text value → x.drop 3 = ModifiedUtf8.encode value) → y = x)

/-- A constant whose text, if it is one, takes no more bytes than a length of two bytes can tell. -/
def Fits (c : Constant) : Prop :=
  ∀ value, c = .text value → (ModifiedUtf8.encode value).length ≤ 0xFFFF

/-- **Every constant that fits can be written.** -/
theorem Fits.bytes_ok (h : c.Fits) : ∃ x, c.bytes = .ok x := by
  cases c
  case text value =>
    have hlength := h value rfl
    exact ⟨_, if_pos (by omega)⟩
  all_goals exact ⟨_, rfl⟩

theorem Stands.of_bytes (hu : c ≠ .unusable) (h : c.bytes = .ok x) : c.Stands x :=
  ⟨hu, x, h, fun _ => rfl⟩

/-- An entry that is a number behind its tag. -/
theorem took_tagged {make : UInt16 → Constant} (hu : ∀ a, make a ≠ .unusable)
    (h : ∀ a, (make a).bytes = .ok (tagged tag a)) :
    Took (do return make (← word16)) fun c x => c.Stands (tag :: x) :=
  took_word16.map _ fun a x hx => by rw [hx]; exact .of_bytes (hu a) (h a)

/-- An entry that is two numbers behind its tag. -/
theorem took_tagged2 {make : UInt16 → UInt16 → Constant} (hu : ∀ a b, make a b ≠ .unusable)
    (h : ∀ a b, (make a b).bytes = .ok (tagged2 tag a b)) :
    Took (do return make (← word16) (← word16)) fun c x => c.Stands (tag :: x) :=
  took_word16.bind fun a x hx => took_word16.map _ fun b y hy => by
    rw [hx, hy]
    exact .of_bytes (hu a b) (h a b)

/-- **A text that was spelled in bytes is written in no more.** -/
theorem stands_text {value : String} {n : UInt16} {spelled : Bytes} {first : Nat}
    (hlength : spelled.length = n.toNat) (h : ModifiedUtf8.decode first spelled = .ok value) :
    Stands (.text value) (1 :: (BigEndian.bytes16 n ++ spelled)) := by
  have hle := ModifiedUtf8.length_encode_le h
  have hn := n.toNat_lt
  refine ⟨nofun, _, if_pos (by omega), fun hspelled => ?_⟩
  have hsame : spelled = ModifiedUtf8.encode value := hspelled value rfl
  rw [← hsame, hlength, Nat.toUInt16, UInt16.ofNat_toNat]

theorem took_body (tag : UInt8) (start : Nat) :
    Took (body tag start) fun c x => c.Stands (tag :: x) := by
  have htag : UInt8.ofNat tag.toNat = tag := UInt8.ofNat_toNat
  unfold body
  split
  all_goals try (rename_i hn; rw [hn] at htag; subst htag)
  · refine took_word16.bind fun n x hx => took_offset.bind fun first y hy =>
      (took_bytes n.toNat).bind fun spelled z hz => (took_check _).map _ fun value w hw => ?_
    rw [hx, hy, hw.2, List.nil_append, List.append_nil, hz.1]
    exact stands_text (hz.1 ▸ hz.2) hw.1
  · exact took_word32.map _ fun w x hx => by rw [hx]; exact .of_bytes nofun rfl
  · exact took_word32.map _ fun w x hx => by rw [hx]; exact .of_bytes nofun rfl
  · exact took_word64.map _ fun w x hx => by rw [hx]; exact .of_bytes nofun rfl
  · exact took_word64.map _ fun w x hx => by rw [hx]; exact .of_bytes nofun rfl
  · exact took_tagged nofun fun _ => rfl
  · exact took_tagged nofun fun _ => rfl
  · exact took_tagged2 nofun fun _ _ => rfl
  · exact took_tagged2 nofun fun _ _ => rfl
  · exact took_tagged2 nofun fun _ _ => rfl
  · exact took_tagged2 nofun fun _ _ => rfl
  · refine took_byte.bind fun kind x hx => took_word16.map _ fun reference y hy => ?_
    rw [hx, hy]
    exact .of_bytes nofun rfl
  · exact took_tagged nofun fun _ => rfl
  · exact took_tagged2 nofun fun _ _ => rfl
  · exact took_tagged2 nofun fun _ _ => rfl
  · exact took_tagged nofun fun _ => rfl
  · exact took_tagged nofun fun _ => rfl
  · exact fun _ _ _ h => by cases h

/-- **An entry that was read can be written**, and in the same bytes unless it is a text that was
    spelled otherwise. -/
theorem took_reading : Took reading Stands :=
  took_offset.bind fun start x hx => took_byte.bind fun tag y hy =>
    Took.mono (took_body tag start) fun c z hz => by
      rw [hx, hy]
      exact hz

end Constant

namespace ConstantPool

variable {pool : ConstantPool} {x : Bytes} {s t : Source} {met : List (Constant × Bytes)}

theorem Meets.stands (h : Meets s met t) : ∀ e ∈ met, e.1.Stands e.2 := by
  induction h with
  | nil => nofun
  | @cons s s' t c x met hc hx _ ih =>
      intro e he
      rcases List.mem_cons.1 he with rfl | he
      · obtain ⟨y, hy, hstands⟩ := Constant.took_reading s c s' hc
        rw [List.append_cancel_right (hx.symm.trans hy)]
        exact hstands
      · exact ih e he

theorem Meets.laidOut (h : Meets s met t)
    (hslots : pool.slots.toList = .unusable :: rows (met.map Prod.fst)) : pool.LaidOut := by
  refine ⟨met.map Prod.fst, fun c hc => ?_, hslots⟩
  obtain ⟨e, he, rfl⟩ := List.mem_map.1 hc
  exact (h.stands e he).usable

/-! ## 2. Pools that are read back -/

/-- A pool and its entries as they are written. With the number of the slots in front they are read
    as the pool, whatever stands in front of them and behind them, and reading ends where `tail`
    starts. -/
structure ReadBack (pool : ConstantPool) (x : Bytes) : Prop where
  bounded : pool.count ≤ capacity
  again : ∀ front tail : Bytes,
    ofBytes (front ++ BigEndian.bytes16 pool.count.toUInt16 ++ x ++ tail) front.length =
      .ok (pool, (front ++ BigEndian.bytes16 pool.count.toUInt16 ++ x).length)

/-- **A pool that is laid out is read back**, once it is written. -/
theorem LaidOut.readBack (hl : pool.LaidOut) (hroom : pool.count ≤ capacity)
    (h : pool.bytesFrom 1 = .ok x) : pool.ReadBack x := by
  refine ⟨hroom, fun front tail => ?_⟩
  obtain ⟨found, hread, hfound⟩ := takes_reading hl hroom h front.length tail
  have hsource : Source.from (front ++ BigEndian.bytes16 pool.count.toUInt16 ++ x ++ tail)
      front.length = ⟨front.length, BigEndian.bytes16 pool.count.toUInt16 ++ x ++ tail⟩ := by
    rw [Source.from, List.append_assoc, List.append_assoc, List.drop_left, List.append_assoc]
  rw [ofBytes, hsource, hread, hfound]
  simp only [List.length_append, Nat.add_assoc]
  rfl

/-- Entries that can be written, each in its bytes, are written in these. -/
theorem bytesFrom_of_forall₂ {entries : List Constant} {xs : List Bytes}
    (hslots : pool.slots.toList = .unusable :: rows entries)
    (h : List.Forall₂ (fun c x => c.bytes = .ok x) entries xs) :
    pool.bytesFrom 1 = .ok xs.flatten := by
  rw [bytesFrom_one hslots, mapM_eq_ok_iff.2 h]
  rfl

/-! ## 3. Pools that are made -/

/-- Pools that come from the empty one by adding entries, each of which fits. -/
inductive Made : ConstantPool → Prop
  | empty : Made {}
  | push {pool pool' : ConstantPool} {c : Constant} {i : UInt16} : Made pool → c ≠ .unusable →
      c.Fits → pool.push c = .ok (i, pool') → Made pool'
  | intern {pool pool' : ConstantPool} {c : Constant} {i : UInt16} : Made pool → c ≠ .unusable →
      c.Fits → pool.intern c = .ok (i, pool') → Made pool'

/-- What is added by `push`. -/
theorem push_ok {pool' : ConstantPool} {c : Constant} {i : UInt16}
    (h : pool.push c = .ok (i, pool')) :
    i = pool.count.toUInt16 ∧ pool' = pool.add c ∧ pool.count + c.slots ≤ capacity := by
  unfold push at h
  split at h
  · cases h
  · rename_i hover
    cases h
    exact ⟨rfl, rfl, overflow?_eq_none_iff.1 hover⟩

/-- **A pool that is made has grown from the empty one**, by entries that can be written. -/
theorem Made.grown (h : pool.Made) : Grown (fun c => c.bytes.isOk) {} pool := by
  induction h with
  | empty => exact .refl
  | push _ hu hfits hpush ih =>
      obtain ⟨x, hx⟩ := hfits.bytes_ok
      obtain ⟨-, rfl, hroom⟩ := push_ok hpush
      exact ih.add (by rw [hx]; rfl) hu hroom
  | intern _ hu hfits hintern ih =>
      obtain ⟨x, hx⟩ := hfits.bytes_ok
      obtain ⟨-, ⟨rfl, -⟩ | ⟨rfl, -, hroom⟩⟩ := (ih.healthy healthy_empty).intern_ok hu hintern
      · exact ih
      · exact ih.add (by rw [hx]; rfl) hu hroom

/-- **A pool that is made can be written, and is read back.** -/
theorem Made.readBack (h : pool.Made) : ∃ x, pool.bytesFrom 1 = .ok x ∧ pool.ReadBack x := by
  obtain ⟨new, hnew, hpool⟩ := h.grown.exists_grown
  have hslots : pool.slots.toList = .unusable :: rows new := by
    rw [hpool, ConstantPool.grown, Array.toList_append]
    rfl
  obtain ⟨xs, hxs⟩ := exists_forall₂ (r := fun c x => c.bytes = .ok x) (l := new) fun c hc => by
    cases hx : c.bytes with
    | ok x => exact ⟨x, rfl⟩
    | error fault =>
        have hok := (hnew c hc).2
        rw [hx] at hok
        cases hok
  have hbytes := bytesFrom_of_forall₂ hslots hxs
  have hlaid : pool.LaidOut := ⟨new, fun c hc => (hnew c hc).1, hslots⟩
  exact ⟨_, hbytes, hlaid.readBack (h.grown.healthy healthy_empty).bounded hbytes⟩

/-! ## 4. Pools that are read -/

/-- What is left behind some bytes of a file is the source from there on. -/
theorem eq_from {data : Bytes} {offset : Nat} (hrest : data.drop offset = x ++ s.rest)
    (hoffset : s.offset = offset + x.length) : s = Source.from data s.offset := by
  have hleft : data.drop s.offset = s.rest := by
    rw [hoffset, ← List.drop_drop, hrest, List.drop_left]
  rw [Source.from, hleft]

/-- **A pool that is read** is laid out as the entries that reading meets. -/
theorem ofBytes_ok {data : Bytes} {offset stop : Nat} (h : ofBytes data offset = .ok (pool, stop)) :
    ∃ met, Meets (.from data (offset + 2)) met (.from data stop) ∧
      pool.slots.toList = .unusable :: rows (met.map Prod.fst) ∧ pool.Healthy := by
  obtain ⟨⟨found, t⟩, hread, h⟩ := exists_of_bind_ok h
  cases h
  obtain ⟨count, s₁, met, hcount, hmet, hpool, -⟩ := reading_ok hread
  obtain ⟨a, b, hrest, hoffset, -⟩ := word16_ok hcount
  have hs₁ : s₁ = Source.from data (offset + 2) :=
    hoffset ▸ eq_from (x := [a, b]) hrest hoffset
  rw [hs₁] at hmet
  obtain ⟨hrest', hoffset'⟩ := hmet.rest
  rw [eq_from hrest' hoffset'] at hmet
  refine ⟨met, hmet, ?_, healthy_of_reading hread⟩
  rw [hpool, ConstantPool.grown, Array.toList_append]
  rfl

/-- **What is written of a pool that was read** is what reading met, unless a text was spelled there
    in other bytes than it is written in. -/
theorem Meets.written (h : Meets s met t)
    (hslots : pool.slots.toList = .unusable :: rows (met.map Prod.fst)) :
    ∃ x, pool.bytesFrom 1 = .ok x ∧
      ((∀ value y, (.text value, y) ∈ met → y.drop 3 = ModifiedUtf8.encode value) →
        x = (met.map Prod.snd).flatten) := by
  obtain ⟨ys, hys⟩ := exists_forall₂ fun e he => (h.stands e he).written
  refine ⟨_, bytesFrom_of_forall₂ hslots
    (List.forall₂_map_left_iff.2 (hys.imp fun _ _ hy => hy.1)), fun hspelled => ?_⟩
  have hsame : met.map Prod.snd = ys := map_eq_of_forall₂ <|
    (forall₂_mem hys).flip.imp fun y e h => (h.2.2.2 fun value htext =>
      hspelled value e.2 (htext ▸ h.1)).symm
  rw [hsame]

/-- **Every pool that is made, and every pool that is read, can be written and is read back.** What
    is written of a pool that was read is what reading met, if every text was spelled there in the
    bytes that it is written in. -/
theorem ofBytes_roundtrip :
    (∀ pool : ConstantPool, pool.Made → ∃ x, pool.bytesFrom 1 = .ok x ∧ pool.ReadBack x) ∧
    ∀ (data : Bytes) (offset : Nat) (pool : ConstantPool) (stop : Nat),
      ofBytes data offset = .ok (pool, stop) →
        ∃ x, pool.bytesFrom 1 = .ok x ∧ pool.ReadBack x ∧
          ∃ met, Meets (.from data (offset + 2)) met (.from data stop) ∧
            pool.slots.toList = .unusable :: rows (met.map Prod.fst) ∧
            ((∀ value y, (.text value, y) ∈ met → y.drop 3 = ModifiedUtf8.encode value) →
              x = (data.take stop).drop (offset + 2)) := by
  refine ⟨fun pool h => h.readBack, fun data offset pool stop h => ?_⟩
  obtain ⟨met, hmet, hslots, hhealthy⟩ := ofBytes_ok h
  obtain ⟨x, hx, hsame⟩ := hmet.written hslots
  refine ⟨x, hx, (hmet.laidOut hslots).readBack hhealthy.bounded hx, met, hmet, hslots,
    fun hspelled => ?_⟩
  obtain ⟨hrest, hoffset⟩ := hmet.rest
  rw [hsame hspelled, List.drop_take, show stop = offset + 2 + _ from hoffset,
    Nat.add_sub_cancel_left]
  show _ = (Source.from data (offset + 2)).rest.take _
  rw [hrest, List.take_left]

/-- A pool that is made of a number that takes two slots and of a text, and one that is read from
    the second of some bytes on. -/
theorem ofBytes_roundtrip_text :
    (∃ pool x, Made pool ∧ pool.slots = #[.unusable, .long (-2), .unusable, .text "x"] ∧
      pool.bytesFrom 1 = .ok x ∧ pool.ReadBack x) ∧
    ∃ pool x, ofBytes [7, 0, 2, 1, 0, 1, 0x78, 9] 1 = .ok (pool, 7) ∧
      pool.bytesFrom 1 = .ok x ∧ pool.ReadBack x ∧ x = [1, 0, 1, 0x78] := by
  obtain ⟨hmade, hread⟩ := ofBytes_roundtrip
  constructor
  · have hlong : Made ⟨#[.unusable, .long (-2), .unusable]⟩ :=
      Made.empty.push (c := .long (-2)) (i := 1) nofun nofun rfl
    have hfits : Constant.Fits (.text "x") := fun value h => by cases h; decide
    have htext : Made ⟨#[.unusable, .long (-2), .unusable, .text "x"]⟩ :=
      hlong.intern (c := .text "x") (i := 3) nofun hfits (by decide +kernel)
    obtain ⟨x, hx, hback⟩ := hmade _ htext
    exact ⟨_, x, htext, rfl, hx, hback⟩
  · have hentry : Constant.reading (.from [7, 0, 2, 1, 0, 1, 0x78, 9] 3) =
        .ok (.text "x", .from [7, 0, 2, 1, 0, 1, 0x78, 9] 7) := by decide +kernel
    have hend : ∀ c s, Constant.reading (.from [7, 0, 2, 1, 0, 1, 0x78, 9] 7) ≠ .ok (c, s) := nofun
    have hpool : ofBytes [7, 0, 2, 1, 0, 1, 0x78, 9] 1 =
        .ok (⟨#[.unusable, .text "x"]⟩, 7) := by decide +kernel
    obtain ⟨x, hx, hback, met, hmet, -, hspelled⟩ := hread _ _ _ _ hpool
    refine ⟨_, x, hpool, hx, hback, hspelled fun value y hy => ?_⟩
    cases hmet with
    | cons hc hrest hmet =>
        rw [hentry] at hc
        cases hc
        cases hmet with
        | nil =>
            cases List.mem_singleton.1 hy
            have happend : y ++ [9] = [1, 0, 1, 0x78] ++ [9] := hrest.symm
            rw [List.append_cancel_right happend]
            decide
        | cons hc => exact absurd hc (hend _ _)

end ConstantPool

end ClassAccess
