import ClassAccess.ModifiedUtf8
import Mathlib.Data.List.Basic

/-!
# Text that is written is read back

Every byte that is written has a mark in its upper bits and a payload in its lower ones:

* `head?_bytes3`, `head?_pair` -- three bytes are read as the character they carry, and a pair of
  surrogates as the character it stands for;
* `head?_encodeChar` -- **one character is read back**, whatever stands behind it;
* `decode_encode` -- **a text is read back**, wherever it stands;
* `Begins`, `begins_of_head?` -- **the four forms of a sequence** that is read;
* `length_encode_le` -- **no bytes that spell a text are fewer than those that it is written in**;
* `encode_lossless` -- all of this, and that no byte that is written is zero or starts more than
  three bytes.
-/

namespace ClassAccess.ModifiedUtf8

/-! ## 1. Marks and payloads -/

/-- A byte of its own: the character itself. -/
theorem single_facts : ∀ n < 0x80, n ≠ 0 →
    n.toUInt8 ≠ 0 ∧ n.toUInt8 &&& 0x80 = 0 ∧ n.toUInt8.toNat = n := by
  decide +kernel

/-- The first of two bytes. -/
theorem lead2_facts : ∀ n < 0x20, (0xC0 ||| n.toUInt8) ≠ 0 ∧ (0xC0 ||| n.toUInt8) &&& 0x80 ≠ 0 ∧
    (0xC0 ||| n.toUInt8) &&& 0xE0 = 0xC0 ∧ ((0xC0 ||| n.toUInt8) &&& 0x1F).toNat = n := by
  decide +kernel

/-- The first of three bytes. -/
theorem lead3_facts : ∀ n < 0x10, (0xE0 ||| n.toUInt8) ≠ 0 ∧ (0xE0 ||| n.toUInt8) &&& 0x80 ≠ 0 ∧
    (0xE0 ||| n.toUInt8) &&& 0xE0 ≠ 0xC0 ∧ (0xE0 ||| n.toUInt8) &&& 0xF0 = 0xE0 ∧
      ((0xE0 ||| n.toUInt8) &&& 0x0F).toNat = n := by
  decide +kernel

/-- A byte behind the first one. -/
theorem continuation_facts : ∀ n < 0x40, isContinuation (0x80 ||| n.toUInt8) = true ∧
    ((0x80 ||| n.toUInt8) &&& 0x3F).toNat = n := by
  decide +kernel

/-! ## 2. Three bytes -/

theorem value3_bytes3 {v : Nat} (h : v < 0x10000) (rest : Bytes) :
    ∃ a b c, bytes3 v ++ rest = a :: b :: c :: rest ∧ a ≠ 0 ∧ a &&& 0x80 ≠ 0 ∧ a &&& 0xE0 ≠ 0xC0 ∧
      a &&& 0xF0 = 0xE0 ∧ isContinuation b = true ∧ isContinuation c = true ∧
        value3 a b c = v := by
  obtain ⟨hne, h80, hE0, hF0, hlead⟩ := lead3_facts (v / 0x1000) (by omega)
  obtain ⟨hmiddle, hm⟩ := continuation_facts (v / 0x40 % 0x40) (by omega)
  obtain ⟨hlast, hl⟩ := continuation_facts (v % 0x40) (by omega)
  refine ⟨_, _, _, rfl, hne, h80, hE0, hF0, hmiddle, hlast, ?_⟩
  rw [value3, hlead, hm, hl]
  omega

/-- **Three bytes are read as the character they carry**, unless it is half of a pair. -/
theorem head?_bytes3 {v : Nat} (h : v < 0x10000) (hs : v < 0xD800 ∨ 0xDFFF < v) (rest : Bytes) :
    head? (bytes3 v ++ rest) = some (Char.ofNat v, 3) := by
  obtain ⟨a, b, c, hx, hne, h80, hE0, hF0, hb, hc, hv⟩ := value3_bytes3 h rest
  have hhigh : isHighSurrogate v = false := by
    simp only [isHighSurrogate, Bool.and_eq_false_iff, decide_eq_false_iff_not]
    omega
  have hlow : isLowSurrogate v = false := by
    simp only [isLowSurrogate, Bool.and_eq_false_iff, decide_eq_false_iff_not]
    omega
  rw [hx]
  simp only [head?, hne, h80, hE0, hF0, hb, hc, hv, hhigh, hlow, if_false, if_true, Bool.and_self,
    Bool.false_eq_true]

/-- **A pair of surrogates is read as the character it stands for.** -/
theorem head?_pair {high low : Nat} (hh : isHighSurrogate high = true)
    (hl : isLowSurrogate low = true) (rest : Bytes) :
    head? (bytes3 high ++ bytes3 low ++ rest) = some (Char.ofNat (pairValue high low), 6) := by
  have hhigh : high < 0x10000 := by
    simp only [isHighSurrogate, Bool.and_eq_true, decide_eq_true_eq] at hh
    omega
  have hlow : low < 0x10000 := by
    simp only [isLowSurrogate, Bool.and_eq_true, decide_eq_true_eq] at hl
    omega
  obtain ⟨a, b, c, hx, hne, h80, hE0, hF0, hb, hc, hv⟩ := value3_bytes3 hhigh (bytes3 low ++ rest)
  obtain ⟨d, e, f, hy, -, -, -, hdF0, -, -, hw⟩ := value3_bytes3 hlow rest
  have hpair : pairAfter? high (d :: e :: f :: rest) = some (Char.ofNat (pairValue high low)) := by
    simp only [pairAfter?, hdF0, hw, hl, and_self, if_true]
  rw [List.append_assoc, hx, hy]
  simp only [head?, hne, h80, hE0, hF0, hb, hc, hv, hh, hpair, if_false, if_true, Bool.and_self,
    Option.map_some]

/-! ## 3. Characters and texts -/

theorem encodeChar_ne_nil (c : Char) : encodeChar c ≠ [] := by
  unfold encodeChar bytes3
  simp only
  split
  · simp
  split
  · simp
  split <;> simp

/-- **A character that is written is read back**, whatever stands behind it. -/
theorem head?_encodeChar (c : Char) (rest : Bytes) :
    head? (encodeChar c ++ rest) = some (c, (encodeChar c).length) := by
  have hvalid : c.toNat < 0xD800 ∨ 0xDFFF < c.toNat ∧ c.toNat < 0x110000 := c.valid
  have hc : Char.ofNat c.toNat = c := Char.ofNat_toNat c
  unfold encodeChar
  simp only
  split
  · rename_i h
    obtain ⟨hne, h80, hv⟩ := single_facts c.toNat (by omega) (by omega)
    simp only [List.singleton_append, head?, hne, h80, if_false, if_true, hv, hc,
      List.length_singleton]
  split
  · rename_i _ h
    obtain ⟨hne, h80, hC0, hlead⟩ := lead2_facts (c.toNat / 0x40) (by omega)
    obtain ⟨hcont, hl⟩ := continuation_facts (c.toNat % 0x40) (by omega)
    have hv : value2 (0xC0 ||| (c.toNat / 0x40).toUInt8) (0x80 ||| (c.toNat % 0x40).toUInt8) =
        c.toNat := by
      rw [value2, hlead, hl]
      omega
    simp only [List.cons_append, List.nil_append, head?, hne, h80, hC0, hcont, if_false, if_true,
      hv, hc, List.length_cons, List.length_nil]
  split
  · rename_i _ _ h
    rw [head?_bytes3 (by omega) (by omega), hc]
    rfl
  · rename_i _ _ h
    have hhigh : isHighSurrogate (0xD800 + (c.toNat - 0x10000) / 0x400) = true := by
      simp only [isHighSurrogate, Bool.and_eq_true, decide_eq_true_eq]
      omega
    have hlow : isLowSurrogate (0xDC00 + (c.toNat - 0x10000) % 0x400) = true := by
      simp only [isLowSurrogate, Bool.and_eq_true, decide_eq_true_eq]
      omega
    have hpair : pairValue (0xD800 + (c.toNat - 0x10000) / 0x400)
        (0xDC00 + (c.toNat - 0x10000) % 0x400) = c.toNat := by
      unfold pairValue
      omega
    rw [head?_pair hhigh hlow, hpair, hc]
    rfl

theorem decodeFrom_encodeChar (offset : Nat) (acc : List Char) (c : Char) (rest : Bytes) :
    decodeFrom offset acc (encodeChar c ++ rest) =
      decodeFrom (offset + (encodeChar c).length) (c :: acc) rest := by
  cases hx : encodeChar c with
  | nil => exact absurd hx (encodeChar_ne_nil c)
  | cons a x =>
      have hhead := head?_encodeChar c rest
      rw [hx, List.cons_append] at hhead
      rw [List.cons_append, decodeFrom]
      simp only [hhead, List.length_cons, Nat.add_sub_cancel, List.drop_left]

theorem decodeFrom_encode (offset : Nat) (acc chars : List Char) :
    decodeFrom offset acc (chars.flatMap encodeChar) = .ok (chars.reverse ++ acc) := by
  induction chars generalizing offset acc with
  | nil => rw [List.flatMap_nil, decodeFrom, List.reverse_nil, List.nil_append]
  | cons c chars ih =>
      rw [List.flatMap_cons, decodeFrom_encodeChar, ih, List.reverse_cons, List.append_assoc,
        List.singleton_append]

/-- **A text that is written is read back**, wherever it stands. -/
theorem decode_encode (base : Nat) (s : String) : decode base (encode s) = .ok s := by
  rw [decode, encode, decodeFrom_encode]
  simp only [List.append_nil, List.reverse_reverse, String.ofList_toList]

/-! ## 4. Texts that were spelled otherwise -/

theorem toNat_ofNat_le (v : Nat) : (Char.ofNat v).toNat ≤ v := by
  by_cases h : v.isValidChar
  · rw [Char.ofNat, dif_pos h]
    exact Nat.le_refl v
  · rw [Char.ofNat, dif_neg h]
    exact Nat.zero_le v

/-- The number of bytes that a character is written in. -/
theorem length_encodeChar (c : Char) : (encodeChar c).length =
    if 1 ≤ c.toNat ∧ c.toNat ≤ 0x7F then 1 else if c.toNat ≤ 0x7FF then 2
      else if c.toNat ≤ 0xFFFF then 3 else 6 := by
  unfold encodeChar
  simp only
  split
  · rfl
  split
  · rfl
  split <;> rfl

theorem length_encodeChar_bounds (c : Char) : (c.toNat ≤ 0x7FF → (encodeChar c).length ≤ 2) ∧
    (c.toNat ≤ 0xFFFF → (encodeChar c).length ≤ 3) ∧ (encodeChar c).length ≤ 6 := by
  rw [length_encodeChar]
  refine ⟨fun h => ?_, fun h => ?_, ?_⟩ <;> repeat' split
  all_goals omega

/-- A byte that spells a character by itself. -/
theorem toNat_le_of_single : ∀ n < 0x100, n.toUInt8 &&& 0x80 = 0 → n ≤ 0x7F := by
  decide +kernel

theorem value2_le (a b : UInt8) : value2 a b ≤ 0x7FF := by
  have ha : (a &&& 0x1F).toNat ≤ 0x1F := by rw [UInt8.toNat_and]; exact Nat.and_le_right
  have hb : (b &&& 0x3F).toNat ≤ 0x3F := by rw [UInt8.toNat_and]; exact Nat.and_le_right
  unfold value2
  omega

theorem value3_le (a b c : UInt8) : value3 a b c ≤ 0xFFFF := by
  have ha : (a &&& 0x0F).toNat ≤ 0x0F := by rw [UInt8.toNat_and]; exact Nat.and_le_right
  have hb : (b &&& 0x3F).toNat ≤ 0x3F := by rw [UInt8.toNat_and]; exact Nat.and_le_right
  have hc : (c &&& 0x3F).toNat ≤ 0x3F := by rw [UInt8.toNat_and]; exact Nat.and_le_right
  unfold value3
  omega

/-- The bytes at the front of some bytes that have a first character, and that character: one byte,
    two, three whose value is no surrogate, or a pair of surrogates. -/
inductive Begins : Bytes → Char → Nat → Prop
  | one {a : UInt8} {rest : Bytes} (ne : a ≠ 0) (mark : a &&& 0x80 = 0) :
      Begins (a :: rest) (Char.ofNat a.toNat) 1
  | two {a b : UInt8} {rest : Bytes} (mark : a &&& 0xE0 = 0xC0) (second : isContinuation b = true) :
      Begins (a :: b :: rest) (Char.ofNat (value2 a b)) 2
  | three {a b c : UInt8} {rest : Bytes} (mark : a &&& 0xF0 = 0xE0)
      (second : isContinuation b = true) (third : isContinuation c = true)
      (high : isHighSurrogate (value3 a b c) = false)
      (low : isLowSurrogate (value3 a b c) = false) :
      Begins (a :: b :: c :: rest) (Char.ofNat (value3 a b c)) 3
  | pair {a b c d e f : UInt8} {rest : Bytes} (mark : a &&& 0xF0 = 0xE0)
      (second : isContinuation b = true) (third : isContinuation c = true)
      (high : isHighSurrogate (value3 a b c) = true) (markBehind : d &&& 0xF0 = 0xE0)
      (low : isLowSurrogate (value3 d e f) = true) :
      Begins (a :: b :: c :: d :: e :: f :: rest)
        (Char.ofNat (pairValue (value3 a b c) (value3 d e f))) 6

/-- **What has a first character begins with a sequence for it.** -/
theorem begins_of_head? {data : Bytes} {ch : Char} {n : Nat} (h : head? data = some (ch, n)) :
    Begins data ch n := by
  cases data with
  | nil => cases h
  | cons a rest =>
      simp only [head?] at h
      split at h
      · cases h
      · rename_i hne
        split at h
        · rename_i hmark
          cases h
          exact .one hne hmark
        · split at h
          · rename_i hmark
            split at h
            · split at h
              · rename_i hb
                cases h
                exact .two hmark hb
              · cases h
            · cases h
          · split at h
            · rename_i hmark
              split at h
              · split at h
                · rename_i hcontinue
                  obtain ⟨hb, hc⟩ := Bool.and_eq_true_iff.1 hcontinue
                  split at h
                  · rename_i hhigh
                    obtain ⟨_, hpair, he⟩ := Option.map_eq_some_iff.1 h
                    unfold pairAfter? at hpair
                    split at hpair
                    · split at hpair
                      · rename_i hsecond
                        rw [← Option.some.inj hpair] at he
                        rw [← (Prod.mk.inj he).1, ← (Prod.mk.inj he).2]
                        exact .pair hmark hb hc hhigh hsecond.1 hsecond.2
                      · cases hpair
                    · cases hpair
                  · rename_i hhigh
                    split at h
                    · cases h
                    · rename_i hlow
                      cases h
                      exact .three hmark hb hc (Bool.not_eq_true _ ▸ hhigh)
                        (Bool.not_eq_true _ ▸ hlow)
                · cases h
              · cases h
            · cases h

/-- **A character takes no more bytes than spelled it.** -/
theorem Begins.length_le {data : Bytes} {ch : Char} {n : Nat} (h : Begins data ch n) :
    (encodeChar ch).length ≤ n ∧ n ≤ data.length := by
  obtain ⟨htwo, hthree, hsix⟩ := length_encodeChar_bounds ch
  cases h with
  | @one a rest hne hmark =>
      have hle : a.toNat ≤ 0x7F :=
        toNat_le_of_single a.toNat a.toNat_lt (by rwa [Nat.toUInt8, UInt8.ofNat_toNat])
      have hpos : a.toNat ≠ 0 := fun h => hne (UInt8.toNat_inj.1 h)
      have hvalue : (Char.ofNat a.toNat).toNat = a.toNat := by
        rw [Char.ofNat, dif_pos (.inl (by omega))]
        rfl
      rw [length_encodeChar, hvalue, if_pos (by omega)]
      exact ⟨Nat.le_refl _, Nat.succ_le_succ (Nat.zero_le _)⟩
  | two =>
      refine ⟨htwo (Nat.le_trans (toNat_ofNat_le _) (value2_le _ _)), ?_⟩
      exact Nat.le_add_left 2 _
  | three =>
      refine ⟨hthree (Nat.le_trans (toNat_ofNat_le _) (value3_le _ _ _)), ?_⟩
      exact Nat.le_add_left 3 _
  | pair => exact ⟨hsix, Nat.le_add_left 6 _⟩

theorem length_decodeFrom_le {offset : Nat} {acc chars : List Char} {data : Bytes}
    (h : decodeFrom offset acc data = .ok chars) :
    (chars.flatMap encodeChar).length ≤ (acc.flatMap encodeChar).length + data.length := by
  induction offset, acc, data using decodeFrom.induct with
  | case1 offset acc =>
      rw [decodeFrom] at h
      cases h
      exact Nat.le_add_right _ _
  | case2 offset acc a rest hhead =>
      rw [decodeFrom, hhead] at h
      cases h
  | case3 offset acc a rest ch n hhead ih =>
      rw [decodeFrom, hhead] at h
      have hle := ih h
      obtain ⟨hch, hn⟩ := (begins_of_head? hhead).length_le
      rw [List.flatMap_cons, List.length_append, List.length_drop] at hle
      rw [List.length_cons] at hn ⊢
      omega

/-- **No bytes that spell a text are fewer than those that it is written in.** -/
theorem length_encode_le {base : Nat} {data : Bytes} {value : String}
    (h : decode base data = .ok value) : (encode value).length ≤ data.length := by
  unfold decode at h
  split at h
  · rename_i chars hchars
    cases h
    have hle := length_decodeFrom_le hchars
    rw [List.flatMap_nil, List.length_nil, Nat.zero_add] at hle
    rw [encode, String.toList_ofList, List.length_flatMap, List.map_reverse, List.sum_reverse,
      ← List.length_flatMap]
    exact hle
  · cases h

/-! ## 5. Both directions -/

/-- The bytes that are written with a mark, or alone. -/
theorem byte_bounds : (∀ n < 0x80, n ≠ 0 → n.toUInt8 ≠ 0 ∧ n.toUInt8 < 0xF0) ∧
    (∀ n < 0x20, (0xC0 ||| n.toUInt8) ≠ 0 ∧ (0xC0 ||| n.toUInt8) < 0xF0) ∧
      (∀ n < 0x10, (0xE0 ||| n.toUInt8) ≠ 0 ∧ (0xE0 ||| n.toUInt8) < 0xF0) ∧
        ∀ n < 0x40, (0x80 ||| n.toUInt8) ≠ 0 ∧ (0x80 ||| n.toUInt8) < 0xF0 := by
  decide +kernel

theorem bounds_of_mem_bytes3 {v : Nat} (h : v < 0x10000) {b : UInt8} (hb : b ∈ bytes3 v) :
    b ≠ 0 ∧ b < 0xF0 := by
  obtain ⟨-, -, hlead, hcontinue⟩ := byte_bounds
  simp only [bytes3, List.mem_cons, List.not_mem_nil, or_false] at hb
  rcases hb with rfl | rfl | rfl
  · exact hlead _ (by omega)
  · exact hcontinue _ (by omega)
  · exact hcontinue _ (by omega)

/-- **A character is written without a zero byte**, and without a byte that starts more than
    three. -/
theorem bounds_of_mem_encodeChar {c : Char} {b : UInt8} (hb : b ∈ encodeChar c) :
    b ≠ 0 ∧ b < 0xF0 := by
  have hvalid : c.toNat < 0xD800 ∨ 0xDFFF < c.toNat ∧ c.toNat < 0x110000 := c.valid
  obtain ⟨hsingle, hlead, -, hcontinue⟩ := byte_bounds
  unfold encodeChar at hb
  simp only at hb
  split at hb
  · rw [List.mem_singleton] at hb
    subst hb
    exact hsingle _ (by omega) (by omega)
  split at hb
  · simp only [List.mem_cons, List.not_mem_nil, or_false] at hb
    rcases hb with rfl | rfl
    · exact hlead _ (by omega)
    · exact hcontinue _ (by omega)
  split at hb
  · exact bounds_of_mem_bytes3 (by omega) hb
  · rcases List.mem_append.1 hb with hb | hb
    · exact bounds_of_mem_bytes3 (by omega) hb
    · exact bounds_of_mem_bytes3 (by omega) hb

/-- **A text is written without loss**: it is read back wherever it stands, no byte of it is zero or
    starts more than three bytes, and it takes no more bytes than any that it was read from. So a
    text that was read from bytes whose number fits a word of two bytes fits back. -/
theorem encode_lossless (s : String) : (∀ base, decode base (encode s) = .ok s) ∧
    (∀ b ∈ encode s, b ≠ 0 ∧ b < 0xF0) ∧
      ∀ base data, decode base data = .ok s → (encode s).length ≤ data.length ∧
        (data.length < 0x10000 → ∃ n : UInt16, n.toNat = (encode s).length) := by
  refine ⟨fun base => decode_encode base s, fun b hb => ?_, fun base data h => ?_⟩
  · obtain ⟨c, -, hb⟩ := List.mem_flatMap.1 hb
    exact bounds_of_mem_encodeChar hb
  · have hle := length_encode_le h
    refine ⟨hle, fun hdata => ⟨(encode s).length.toUInt16, ?_⟩⟩
    exact UInt16.toNat_ofNat_of_lt' (Nat.lt_of_le_of_lt hle hdata)

/-- The null character and one beyond sixteen bits, read from bytes of which three spell a
    letter. -/
theorem encode_lossless_spelledLonger :
    decode 7 [0xC0, 0x80, 0xE0, 0x81, 0x81, 0xED, 0xA0, 0xBD, 0xED, 0xB8, 0x80] =
        .ok "\x00A😀" ∧
      (encode "\x00A😀").length ≤ 11 ∧
        decode 7 (encode "\x00A😀") = .ok "\x00A😀" := by
  have hread : decode 7 [0xC0, 0x80, 0xE0, 0x81, 0x81, 0xED, 0xA0, 0xBD, 0xED, 0xB8, 0x80] =
      .ok "\x00A😀" := by decide +kernel
  obtain ⟨hback, -, hlength⟩ := encode_lossless "\x00A😀"
  exact ⟨hread, (hlength 7 _ hread).1, hback 7⟩

end ClassAccess.ModifiedUtf8
