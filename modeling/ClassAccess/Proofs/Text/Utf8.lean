import ClassAccess.Proofs.Text.Words
import ClassAccess.Text.Utf8

/-!
# Text files read line by line

A file is cut into lines before it is decoded. What is found in a file of UTF-8 are the lines of its
text all the same, because neither byte that ends a line is part of another character.

* `decode?_eq_some_iff` -- **exactly the encoding of a text is decoded**, and as that text;
* `encodeChar_of_ascii` -- a byte below `0x80` stands for a character alone;
* `splitFrom_encodeAll` -- **the lines of an encoded text are its lines, encoded**;
* `lines_encode` -- a file of UTF-8 is read as the lines of its text;
* `exists_encode_of_lines`, `lines_fault` -- **a fault is found exactly in a file that is not
  UTF-8**.
-/

namespace ClassAccess.Utf8

/-! ## 1. Characters -/

/-- The bytes of some characters. -/
def encodeAll (text : List Char) : Bytes := text.flatMap String.utf8EncodeChar

theorem encode_eq (text : String) : encode text = encodeAll text.toList := by
  have hbytes : text.toUTF8 = text.toList.utf8Encode := by
    rw [← String.toByteArray_ofList, String.ofList_toList]
    rfl
  rw [encode, hbytes, List.utf8Encode, List.toList_data_toByteArray, encodeAll]

theorem encodeAll_append (a b : List Char) : encodeAll (a ++ b) = encodeAll a ++ encodeAll b :=
  List.flatMap_append

theorem encodeAll_cons (c : Char) (text : List Char) :
    encodeAll (c :: text) = String.utf8EncodeChar c ++ encodeAll text := List.flatMap_cons

theorem encodeAll_singleton (c : Char) : encodeAll [c] = String.utf8EncodeChar c :=
  List.flatMap_singleton _ _

theorem encodeAll_eq_nil_iff {text : List Char} : encodeAll text = [] ↔ text = [] := by
  constructor
  · intro h
    cases text with
    | nil => rfl
    | cons c text => exact absurd (List.append_eq_nil_iff.1 h).1 String.utf8EncodeChar_ne_nil
  · intro h
    rw [h]
    rfl

/-- **Exactly the encoding of a text is decoded**, and as that text. -/
theorem decode?_eq_some_iff {data : Bytes} {text : String} :
    decode? data = some text ↔ data = encode text := by
  have harray : ∀ a : ByteArray, a.data.toList = data ↔ a = ⟨data.toArray⟩ := by
    intro a
    rw [ByteArray.ext_iff, ← Array.toList_inj]
  unfold decode? encode String.fromUTF8? String.toUTF8
  rw [eq_comm (a := data), harray]
  split
  · rename_i hvalid
    rw [Option.some_inj, ← String.toByteArray_inj, eq_comm]
    rfl
  · rename_i hvalid
    refine iff_of_false (by rintro ⟨⟩) fun htext => hvalid ?_
    rw [← htext]
    exact text.isValidUTF8

theorem decode?_encode (text : String) : decode? (encode text) = some text :=
  decode?_eq_some_iff.2 rfl

/-- **A byte below `0x80` stands for a character alone.** -/
theorem encodeChar_of_ascii {c : Char} {b : UInt8} (h : b ∈ String.utf8EncodeChar c)
    (hb : b.toNat < 0x80) : c.toNat = b.toNat ∧ String.utf8EncodeChar c = [b] := by
  -- every byte of a longer sequence has its uppermost bit set
  have high : ∀ n : Nat, 0x80 ≤ n → n < 0x100 → b ≠ UInt8.ofNat n := by
    rintro n hlow hhigh rfl
    rw [UInt8.toNat_ofNat'] at hb
    omega
  unfold String.utf8EncodeChar at h ⊢
  simp only at h ⊢
  split at h
  · rename_i hone
    have hval : b = UInt8.ofNat c.val.toNat := List.mem_singleton.1 h
    rw [if_pos hone, ← hval, hval, UInt8.toNat_ofNat', Nat.mod_eq_of_lt (by omega)]
    exact ⟨rfl, rfl⟩
  · exfalso
    split at h
    · simp only [List.mem_cons, List.not_mem_nil, or_false] at h
      rcases h with h | h <;> exact high _ (by omega) (by omega) h
    · split at h
      · simp only [List.mem_cons, List.not_mem_nil, or_false] at h
        rcases h with h | h | h <;> exact high _ (by omega) (by omega) h
      · simp only [List.mem_cons, List.not_mem_nil, or_false] at h
        rcases h with h | h | h | h <;> exact high _ (by omega) (by omega) h

theorem encodeChar_lf : String.utf8EncodeChar '\n' = [0x0A] := rfl

theorem encodeChar_cr : String.utf8EncodeChar '\r' = [0x0D] := rfl

theorem eq_lf_of_mem {c : Char} (h : 0x0A ∈ String.utf8EncodeChar c) : c = '\n' :=
  Char.toNat_inj.1 (encodeChar_of_ascii h (by decide)).1

theorem eq_cr_of_mem {c : Char} (h : 0x0D ∈ String.utf8EncodeChar c) : c = '\r' :=
  Char.toNat_inj.1 (encodeChar_of_ascii h (by decide)).1

/-! ## 2. Lines -/

/-- An encoded line is closed as the line is. -/
theorem close_encodeAll (begun : List Char) :
    Line.close 0x0D (encodeAll begun.reverse).reverse =
      encodeAll (Line.close '\r' begun) := by
  cases begun with
  | nil => rfl
  | cons c begun =>
      rw [List.reverse_cons, encodeAll_append, encodeAll_singleton, Line.close]
      by_cases hc : c = '\r'
      · rw [if_pos hc, hc, encodeChar_cr, Line.close_concat, if_pos rfl]
      · rcases List.eq_nil_or_concat (String.utf8EncodeChar c) with hnil | ⟨front, last, hlast⟩
        · exact absurd hnil String.utf8EncodeChar_ne_nil
        rw [List.concat_eq_append] at hlast
        have hne : last ≠ 0x0D := by
          intro hcr
          rw [hcr] at hlast
          exact hc (eq_cr_of_mem (hlast ▸ List.mem_append_right _ (List.mem_singleton_self _)))
        rw [if_neg hc, hlast, ← List.append_assoc, Line.close_concat, if_neg hne,
          List.append_assoc, ← hlast, List.reverse_cons, encodeAll_append, encodeAll_singleton]

/-- **The lines of an encoded text are its lines, encoded.** -/
theorem splitFrom_encodeAll (begun text : List Char) :
    Line.splitFrom 0x0A 0x0D (encodeAll begun.reverse).reverse (encodeAll text) =
      (Line.splitFrom '\n' '\r' begun text).map encodeAll := by
  induction text generalizing begun with
  | nil =>
      show (if (encodeAll begun.reverse).reverse.isEmpty then [] else _) = _
      simp only [List.isEmpty_iff, List.reverse_eq_nil_iff, encodeAll_eq_nil_iff,
        Line.splitFrom, List.reverse_reverse]
      split <;> rfl
  | cons c text ih =>
      rw [encodeAll_cons, Line.splitFrom]
      split
      · rename_i hc
        rw [hc, encodeChar_lf, List.singleton_append, Line.splitFrom, if_pos rfl, close_encodeAll,
          List.map_cons]
        exact congrArg _ (ih [])
      · rename_i hc
        rw [Line.splitFrom_append fun h => hc (eq_lf_of_mem h), ← ih, List.reverse_cons,
          encodeAll_append, encodeAll_singleton, List.reverse_append]

/-- Lines that are encoded are decoded. -/
theorem decodeAll_map (lines : List (List Char)) :
    decodeAll (lines.map encodeAll) = (lines, none) := by
  induction lines with
  | nil => rfl
  | cons line lines ih =>
      have hline : decode? (encodeAll line) = some (String.ofList line) := by
        rw [decode?_eq_some_iff, encode_eq, String.toList_ofList]
      rw [List.map_cons, decodeAll, hline, ih]
      exact congrArg (fun l => (l :: lines, none)) String.toList_ofList

/-- **A file of UTF-8 is read as the lines of its text.** -/
theorem lines_encode (text : String) : lines (encode text) = (Line.ofText text.toList, none) := by
  have hsplit : Line.split 0x0A 0x0D (encodeAll text.toList) =
      (Line.ofText text.toList).map encodeAll := splitFrom_encodeAll [] text.toList
  rw [lines, encode_eq, hsplit, decodeAll_map]

/-- Lines of which none has a fault are encoded texts. -/
theorem decodeAll_cons_ok {line : Bytes} {rest : List Bytes}
    (h : (decodeAll (line :: rest)).2 = none) :
    ∃ text, line = encodeAll text ∧ (decodeAll rest).2 = none := by
  unfold decodeAll at h
  cases hline : decode? line with
  | none =>
      rw [hline] at h
      cases h
  | some text =>
      rw [hline] at h
      exact ⟨text.toList, (decode?_eq_some_iff.1 hline).trans (encode_eq text), h⟩

/-- What is found without a fault is the encoding of a text. The line that has begun goes with what
    comes behind it. -/
theorem exists_encode_of_lines {begun data : Bytes}
    (h : (decodeAll (Line.splitFrom 0x0A 0x0D begun data)).2 = none) :
    ∃ text, begun.reverse ++ data = encodeAll text := by
  induction data generalizing begun with
  | nil =>
      rw [List.append_nil]
      rw [Line.splitFrom] at h
      split at h
      · rename_i hempty
        rw [List.isEmpty_iff.1 hempty]
        exact ⟨[], rfl⟩
      · obtain ⟨text, htext, -⟩ := decodeAll_cons_ok h
        exact ⟨text, htext⟩
  | cons b data ih =>
      rw [Line.splitFrom] at h
      split at h
      · rename_i hb
        obtain ⟨line, hline, hrest⟩ := decodeAll_cons_ok h
        obtain ⟨rest, hdata⟩ := ih hrest
        have hclosed := Line.close_reverse 0x0D begun.reverse
        rw [List.reverse_reverse, hline] at hclosed
        rw [List.reverse_nil, List.nil_append] at hdata
        rw [hb, hdata]
        rcases hclosed with hclosed | hclosed
        · refine ⟨line ++ '\n' :: rest, ?_⟩
          rw [encodeAll_append, encodeAll_cons, encodeChar_lf, hclosed, List.singleton_append]
        · refine ⟨line ++ '\r' :: '\n' :: rest, ?_⟩
          rw [encodeAll_append, encodeAll_cons, encodeAll_cons, encodeChar_lf, encodeChar_cr,
            hclosed, List.append_assoc, List.singleton_append, List.singleton_append,
            List.singleton_append]
      · obtain ⟨text, htext⟩ := ih h
        refine ⟨text, ?_⟩
        rw [← htext, List.reverse_cons, List.append_assoc, List.singleton_append]

/-- The only fault of lines is that one is no text. -/
theorem decodeAll_fault (rest : List Bytes) :
    (decodeAll rest).2 = none ∨ (decodeAll rest).2 = some .notText := by
  induction rest with
  | nil => exact .inl rfl
  | cons line rest ih =>
      unfold decodeAll
      cases decode? line with
      | none => exact .inr rfl
      | some text => exact ih

/-- **A file that is not UTF-8 has a line that is not.** -/
theorem lines_fault {data : Bytes} (h : decode? data = none) : (lines data).2 = some .notText := by
  refine (decodeAll_fault _).resolve_left fun hnone => ?_
  obtain ⟨text, htext⟩ := exists_encode_of_lines hnone
  have htext : data = encode (String.ofList text) := by
    rw [encode_eq, String.toList_ofList]
    exact htext
  rw [htext, decode?_encode] at h
  cases h

end ClassAccess.Utf8
