import ClassAccess.ModifiedUtf8.Spelling
import ClassAccess.Proofs.ModifiedUtf8.Roundtrip
import Mathlib.Order.Bounds.Basic

/-!
# Which bytes are read

Decoding takes sequences off the front as long as there is one. Besides the sequences that spell a
character it takes loose pairs: the marks of the last two bytes of a pair are not looked at.

* `LoosePair`, `Reads`, `ReadsAll` -- the sequences that are read, and bytes made of them;
* `single_iff`, `lead2_iff`, `lead3_iff`, `isContinuation_iff` -- the marks of bytes as ranges;
* `Begins.reads`, `Reads.begins`, `head?_eq_some_iff` -- **what is taken off the front is a sequence
  that is read**;
* `decodeFrom_append`, `decodeFrom_cases` -- what decoding comes to: it goes through sequences, and
  stops where none follows;
* `Decodes` -- that some rule tells what is decoded, and **up to where**;
* `decodes_readsAll`, `decodes_spellsAll_iff` -- **the sequences that are read tell what is
  decoded**, and those that spell a character do so unless a loose pair follows them.
-/

namespace ClassAccess.ModifiedUtf8

/-! ## 1. Sequences that are read -/

/-- A pair of surrogates of which one of the last two bytes has the wrong mark. It is taken for the
    pair with the same payload. -/
inductive LoosePair : Bytes → Char → Prop
  | mk {first : Bytes} {high : Nat} {e f : UInt8} : Triple first high → 0xD800 ≤ high →
      high ≤ 0xDBFF → 0x30 ≤ e.toNat % 0x40 → ¬ (Follows e ∧ Follows f) →
      LoosePair (first ++ [0xED, e, f])
        (Char.ofNat (0x10000 + (high - 0xD800) * 0x400 + e.toNat % 0x10 * 0x40 + f.toNat % 0x40))

/-- Bytes that are read as a character. -/
def Reads (bytes : Bytes) (c : Char) : Prop := Spells bytes c ∨ LoosePair bytes c

/-- Bytes that are read as a text, character by character. -/
inductive ReadsAll : Bytes → List Char → Prop
  | nil : ReadsAll [] []
  | cons {first rest : Bytes} {c : Char} {text : List Char} :
      Reads first c → ReadsAll rest text → ReadsAll (first ++ rest) (c :: text)

/-! ## 2. Marks and payloads in numbers -/

/-- What is so for each of the 256 bytes is so for a byte. -/
theorem forall_byte {p : UInt8 → Prop} (h : ∀ k : Fin 256, p (UInt8.ofFin k)) : ∀ a, p a :=
  fun a => h a.toFin

theorem single_iff (a : UInt8) : a ≠ 0 ∧ a &&& 0x80 = 0 ↔ 0x01 ≤ a.toNat ∧ a.toNat ≤ 0x7F := by
  revert a
  exact forall_byte (by decide +kernel)

theorem lead2_iff (a : UInt8) : a &&& 0xE0 = 0xC0 ↔ 0xC0 ≤ a.toNat ∧ a.toNat ≤ 0xDF := by
  revert a
  exact forall_byte (by decide +kernel)

theorem lead3_iff (a : UInt8) : a &&& 0xF0 = 0xE0 ↔ 0xE0 ≤ a.toNat ∧ a.toNat ≤ 0xEF := by
  revert a
  exact forall_byte (by decide +kernel)

theorem isContinuation_iff (b : UInt8) : isContinuation b = true ↔ Follows b := by
  revert b
  exact forall_byte (by decide +kernel)

theorem value2_eq (a b : UInt8) : value2 a b = a.toNat % 0x20 * 0x40 + b.toNat % 0x40 := by
  have ha : (a &&& 0x1F).toNat = a.toNat % 0x20 :=
    (UInt8.toNat_and _ _).trans (Nat.and_two_pow_sub_one_eq_mod _ 5)
  have hb : (b &&& 0x3F).toNat = b.toNat % 0x40 :=
    (UInt8.toNat_and _ _).trans (Nat.and_two_pow_sub_one_eq_mod _ 6)
  rw [value2, ha, hb]

theorem value3_eq (a b c : UInt8) :
    value3 a b c = a.toNat % 0x10 * 0x1000 + b.toNat % 0x40 * 0x40 + c.toNat % 0x40 := by
  have ha : (a &&& 0x0F).toNat = a.toNat % 0x10 :=
    (UInt8.toNat_and _ _).trans (Nat.and_two_pow_sub_one_eq_mod _ 4)
  have hb : ∀ x : UInt8, (x &&& 0x3F).toNat = x.toNat % 0x40 := fun x =>
    (UInt8.toNat_and _ _).trans (Nat.and_two_pow_sub_one_eq_mod _ 6)
  rw [value3, ha, hb, hb]

theorem isHighSurrogate_iff (v : Nat) : isHighSurrogate v = true ↔ 0xD800 ≤ v ∧ v ≤ 0xDBFF := by
  simp only [isHighSurrogate, Bool.and_eq_true, decide_eq_true_eq]

theorem isLowSurrogate_iff (v : Nat) : isLowSurrogate v = true ↔ 0xDC00 ≤ v ∧ v ≤ 0xDFFF := by
  simp only [isLowSurrogate, Bool.and_eq_true, decide_eq_true_eq]

/-- Three bytes that are marked carry the value of their payload. -/
theorem triple_iff {a b c : UInt8} {v : Nat} : Triple [a, b, c] v ↔
    a &&& 0xF0 = 0xE0 ∧ isContinuation b = true ∧ isContinuation c = true ∧
      value3 a b c = v := by
  rw [lead3_iff, isContinuation_iff, isContinuation_iff, value3_eq]
  constructor
  · rintro ⟨ha, ha', hb, hc⟩
    refine ⟨⟨ha, ha'⟩, hb, hc, ?_⟩
    obtain ⟨hb, hb'⟩ := hb
    obtain ⟨hc, hc'⟩ := hc
    omega
  · rintro ⟨⟨ha, ha'⟩, hb, hc, rfl⟩
    have hv := Triple.mk ha ha' hb hc
    obtain ⟨hb, hb'⟩ := hb
    obtain ⟨hc, hc'⟩ := hc
    convert hv using 1
    omega

/-- The second half of a pair starts with one byte only, and its payload tells that it is one. -/
theorem low_iff {d e f : UInt8} :
    d &&& 0xF0 = 0xE0 ∧ isLowSurrogate (value3 d e f) = true ↔
      d = 0xED ∧ 0x30 ≤ e.toNat % 0x40 := by
  rw [lead3_iff, isLowSurrogate_iff, value3_eq, ← UInt8.toNat_inj]
  show _ ↔ d.toNat = 0xED ∧ _
  omega

/-- Two bytes that are marked carry the value of their payload. -/
theorem value2_of_marks {a b : UInt8} (hlow : 0xC0 ≤ a.toNat) (hhigh : a.toNat ≤ 0xDF)
    (hb : Follows b) : value2 a b = (a.toNat - 0xC0) * 0x40 + (b.toNat - 0x80) := by
  obtain ⟨hb, hb'⟩ := hb
  rw [value2_eq]
  omega

/-- The character of a pair with a second half of which only the payload is known. -/
theorem pairValue_payload (high : Nat) {e f : UInt8} (he : 0x30 ≤ e.toNat % 0x40) :
    pairValue high (value3 0xED e f) =
      0x10000 + (high - 0xD800) * 0x400 + e.toNat % 0x10 * 0x40 + f.toNat % 0x40 := by
  have hvalue := value3_eq 0xED e f
  have hlead : (0xED : UInt8).toNat = 0xED := rfl
  unfold pairValue
  omega

/-! ## 3. One sequence -/

theorem Triple.exists_bytes {bytes : Bytes} {v : Nat} (h : Triple bytes v) :
    ∃ a b c, bytes = [a, b, c] := by
  cases h with
  | mk => exact ⟨_, _, _, rfl⟩

/-- What a first character is begun with is read as it. -/
theorem Begins.reads {data : Bytes} {ch : Char} {n : Nat} (h : Begins data ch n) :
    ∃ bytes rest, data = bytes ++ rest ∧ bytes.length = n ∧ Reads bytes ch := by
  cases h with
  | @one a rest hne hmark =>
      obtain ⟨hlow, hhigh⟩ := (single_iff a).1 ⟨hne, hmark⟩
      exact ⟨[a], rest, rfl, rfl, .inl (.one hlow hhigh)⟩
  | @two a b rest hmark hb =>
      obtain ⟨hlow, hhigh⟩ := (lead2_iff a).1 hmark
      have hb := (isContinuation_iff b).1 hb
      rw [value2_of_marks hlow hhigh hb]
      exact ⟨[a, b], rest, rfl, rfl, .inl (.two hlow hhigh hb)⟩
  | @three a b c rest hmark hb hc hhigh hlow =>
      have htriple := triple_iff.2 ⟨hmark, hb, hc, rfl⟩
      rw [← Bool.not_eq_true, isHighSurrogate_iff] at hhigh
      rw [← Bool.not_eq_true, isLowSurrogate_iff] at hlow
      exact ⟨[a, b, c], rest, rfl, rfl, .inl (.three htriple (by omega))⟩
  | @pair a b c d e f rest hmark hb hc hhigh hd hlow =>
      have hfirst := triple_iff.2 ⟨hmark, hb, hc, rfl⟩
      obtain ⟨hhigh, hhigh'⟩ := (isHighSurrogate_iff _).1 hhigh
      refine ⟨[a, b, c] ++ [d, e, f], rest, rfl, rfl, ?_⟩
      by_cases hef : Follows e ∧ Follows f
      · have hsecond := triple_iff.2
          ⟨hd, (isContinuation_iff e).2 hef.1, (isContinuation_iff f).2 hef.2, rfl⟩
        obtain ⟨hlow, hlow'⟩ := (isLowSurrogate_iff _).1 hlow
        exact .inl (.pair hfirst hhigh hhigh' hsecond hlow hlow')
      · obtain ⟨rfl, he⟩ := low_iff.1 ⟨hd, hlow⟩
        rw [pairValue_payload _ he]
        exact .inr (.mk hfirst hhigh hhigh' he hef)

/-- **What is read as a character begins with a sequence for it**, whatever comes behind. -/
theorem Reads.begins {bytes : Bytes} {ch : Char} (h : Reads bytes ch) (rest : Bytes) :
    Begins (bytes ++ rest) ch bytes.length := by
  rcases h with h | h
  · cases h with
    | @one a hlow hhigh =>
        obtain ⟨hne, hmark⟩ := (single_iff a).2 ⟨hlow, hhigh⟩
        exact .one hne hmark
    | @two a b hlow hhigh hb =>
        rw [← value2_of_marks hlow hhigh hb]
        exact .two ((lead2_iff a).2 ⟨hlow, hhigh⟩) ((isContinuation_iff b).2 hb)
    | @three bytes v htriple hv =>
        obtain ⟨a, b, c, rfl⟩ := htriple.exists_bytes
        obtain ⟨hmark, hb, hc, rfl⟩ := triple_iff.1 htriple
        refine .three hmark hb hc ?_ ?_
        · rw [← Bool.not_eq_true, isHighSurrogate_iff]
          omega
        · rw [← Bool.not_eq_true, isLowSurrogate_iff]
          omega
    | @pair first second high low hfirst hhigh hhigh' hsecond hlow hlow' =>
        obtain ⟨a, b, c, rfl⟩ := hfirst.exists_bytes
        obtain ⟨d, e, f, rfl⟩ := hsecond.exists_bytes
        obtain ⟨hmark, hb, hc, rfl⟩ := triple_iff.1 hfirst
        obtain ⟨hd, -, -, rfl⟩ := triple_iff.1 hsecond
        exact .pair hmark hb hc ((isHighSurrogate_iff _).2 ⟨hhigh, hhigh'⟩) hd
          ((isLowSurrogate_iff _).2 ⟨hlow, hlow'⟩)
  · cases h with
    | @mk first high e f hfirst hhigh hhigh' he hef =>
        obtain ⟨a, b, c, rfl⟩ := hfirst.exists_bytes
        obtain ⟨hmark, hb, hc, rfl⟩ := triple_iff.1 hfirst
        obtain ⟨hd, hlow⟩ := low_iff.2 ⟨rfl, he⟩
        rw [← pairValue_payload _ he]
        exact .pair hmark hb hc ((isHighSurrogate_iff _).2 ⟨hhigh, hhigh'⟩) hd hlow

/-- A byte of a sequence of several ones is marked. -/
theorem marked_of_le {a : UInt8} (h : 0x80 ≤ a.toNat) : a ≠ 0 ∧ a &&& 0x80 ≠ 0 := by
  have hne : a ≠ 0 := by
    rintro rfl
    exact absurd h (by decide)
  refine ⟨hne, fun hmark => ?_⟩
  have hle := ((single_iff a).1 ⟨hne, hmark⟩).2
  omega

/-- **What begins with a sequence for a character has that first character.** -/
theorem Begins.head?_eq {data : Bytes} {ch : Char} {n : Nat} (h : Begins data ch n) :
    head? data = some (ch, n) := by
  cases h with
  | one hne hmark => simp only [head?, hne, hmark, if_false, if_true]
  | @two a b rest hmark hb =>
      obtain ⟨hne, h80⟩ := marked_of_le (Nat.le_trans (by decide) ((lead2_iff a).1 hmark).1)
      simp only [head?, hne, h80, hmark, hb, if_false, if_true]
  | @three a b c rest hmark hb hc hhigh hlow =>
      have hlead := (lead3_iff a).1 hmark
      obtain ⟨hne, h80⟩ := marked_of_le (Nat.le_trans (by decide) hlead.1)
      have hE0 : a &&& 0xE0 ≠ 0xC0 := fun h => by
        have := ((lead2_iff a).1 h).2
        omega
      simp only [head?, hne, h80, hE0, hmark, hb, hc, hhigh, hlow, if_false, if_true, Bool.and_self,
        Bool.false_eq_true]
  | @pair a b c d e f rest hmark hb hc hhigh hd hlow =>
      have hlead := (lead3_iff a).1 hmark
      obtain ⟨hne, h80⟩ := marked_of_le (Nat.le_trans (by decide) hlead.1)
      have hE0 : a &&& 0xE0 ≠ 0xC0 := fun h => by
        have := ((lead2_iff a).1 h).2
        omega
      have hpair : pairAfter? (value3 a b c) (d :: e :: f :: rest) =
          some (Char.ofNat (pairValue (value3 a b c) (value3 d e f))) := by
        simp only [pairAfter?, hd, hlow, and_self, if_true]
      simp only [head?, hne, h80, hE0, hmark, hb, hc, hhigh, hpair, if_false, if_true,
        Bool.and_self, Option.map_some]

/-- **What is taken off the front is a sequence that is read.** -/
theorem head?_eq_some_iff {data : Bytes} {ch : Char} {n : Nat} : head? data = some (ch, n) ↔
    ∃ bytes rest, data = bytes ++ rest ∧ bytes.length = n ∧ Reads bytes ch := by
  constructor
  · exact fun h => (begins_of_head? h).reads
  · rintro ⟨bytes, rest, rfl, rfl, h⟩
    exact (h.begins rest).head?_eq

theorem Reads.head?_eq {bytes : Bytes} {ch : Char} (h : Reads bytes ch) (rest : Bytes) :
    head? (bytes ++ rest) = some (ch, bytes.length) :=
  head?_eq_some_iff.2 ⟨bytes, rest, rfl, rfl, h⟩

theorem Reads.ne_nil {bytes : Bytes} {ch : Char} (h : Reads bytes ch) : bytes ≠ [] := by
  rintro rfl
  have hhead := h.head?_eq []
  cases hhead

/-- **No bytes begin with two sequences.** -/
theorem Reads.unique {first first' rest rest' : Bytes} {c c' : Char} (h : Reads first c)
    (h' : Reads first' c') (heq : first ++ rest = first' ++ rest') :
    first = first' ∧ rest = rest' := by
  have hhead := h.head?_eq rest
  rw [heq, h'.head?_eq rest'] at hhead
  have hlength := congrArg Prod.snd (Option.some.inj hhead)
  exact List.append_inj heq hlength.symm

/-! ## 4. Decoding -/

theorem decodeFrom_append_reads {bytes : Bytes} {ch : Char} (h : Reads bytes ch) (offset : Nat)
    (acc : List Char) (rest : Bytes) : decodeFrom offset acc (bytes ++ rest) =
      decodeFrom (offset + bytes.length) (ch :: acc) rest := by
  have hhead := h.head?_eq rest
  cases hbytes : bytes with
  | nil => exact absurd hbytes h.ne_nil
  | cons a bytes =>
      rw [hbytes, List.cons_append] at hhead
      rw [List.cons_append, decodeFrom]
      simp only [hhead, List.length_cons, Nat.add_sub_cancel, List.drop_left]

/-- **Decoding goes through what is read as a text.** -/
theorem decodeFrom_append {data : Bytes} {text : List Char} (h : ReadsAll data text) (offset : Nat)
    (acc : List Char) (rest : Bytes) : decodeFrom offset acc (data ++ rest) =
      decodeFrom (offset + data.length) (text.reverse ++ acc) rest := by
  induction h generalizing offset acc with
  | nil => rfl
  | cons hfirst _ ih =>
      rw [List.append_assoc, decodeFrom_append_reads hfirst, ih, List.length_append, Nat.add_assoc,
        List.reverse_cons, List.append_assoc, List.singleton_append]

/-- **What decoding comes to**: it goes through a front of the bytes that is read as a text, and
    either nothing is left, or it stops there. -/
theorem decodeFrom_cases (offset : Nat) (acc : List Char) (data : Bytes) :
    ∃ front text rest, data = front ++ rest ∧ ReadsAll front text ∧
      (rest = [] ∧ decodeFrom offset acc data = .ok (text.reverse ++ acc) ∨
        rest ≠ [] ∧
          decodeFrom offset acc data = .error (.invalidText (offset + front.length))) := by
  fun_induction decodeFrom offset acc data with
  | case1 offset acc => exact ⟨[], [], [], rfl, .nil, .inl ⟨rfl, rfl⟩⟩
  | case2 offset acc a rest hhead =>
      exact ⟨[], [], a :: rest, rfl, .nil, .inr ⟨List.cons_ne_nil _ _, rfl⟩⟩
  | case3 offset acc a rest ch n hhead ih =>
      obtain ⟨first, behind, hdata, rfl, hfirst⟩ := head?_eq_some_iff.1 hhead
      have hdrop : rest.drop (first.length - 1) = behind := by
        obtain ⟨a', first', rfl⟩ := List.exists_cons_of_ne_nil hfirst.ne_nil
        rw [List.cons_append] at hdata
        rw [(List.cons.inj hdata).2, List.length_cons, Nat.add_sub_cancel, List.drop_left]
      obtain ⟨front, text, left, hbehind, hfront, hcases⟩ := ih
      rw [hdrop] at hbehind
      refine ⟨first ++ front, ch :: text, left, ?_, .cons hfirst hfront, ?_⟩
      · rw [hdata, hbehind, List.append_assoc]
      · simpa only [List.reverse_cons, List.append_assoc, List.singleton_append, List.length_append,
          Nat.add_assoc] using hcases

/-- A rule tells what is decoded: it takes the bytes for the text that they are decoded to, or they
    are at fault behind their longest front that it takes for a text. -/
structure Decodes (rule : Bytes → List Char → Prop) (base : Nat) (data : Bytes) : Prop where
  ok_iff : ∀ s : String, decode base data = .ok s ↔ rule data s.toList
  error_iff : ∀ fault, decode base data = .error fault ↔ ∃ p < data.length,
    fault = .invalidText (base + p) ∧
      IsGreatest {n | n ≤ data.length ∧ ∃ text, rule (data.take n) text} p

/-- No front beyond the place where decoding stops is read as a text. -/
theorem le_of_decodeFrom_error {base p n : Nat} {data : Bytes} {text : List Char}
    (h : decodeFrom base [] data = .error (.invalidText (base + p))) (hn : n ≤ data.length)
    (hfront : ReadsAll (data.take n) text) : n ≤ p := by
  have happ := decodeFrom_append hfront base [] (data.drop n)
  rw [List.take_append_drop, List.length_take_of_le hn, h] at happ
  obtain ⟨front, _, _, -, -, ⟨-, hok⟩ | ⟨-, herror⟩⟩ :=
    decodeFrom_cases (base + n) (text.reverse ++ []) (data.drop n)
  · rw [hok] at happ
    cases happ
  · rw [herror] at happ
    have hoffset := Fault.invalidText.inj (Except.error.inj happ)
    omega

/-- **The sequences that are read tell what is decoded.** -/
theorem decodes_readsAll (base : Nat) (data : Bytes) : Decodes ReadsAll base data := by
  have hok : ∀ text, ReadsAll data text → decode base data = .ok (String.ofList text) := by
    intro text h
    have happ := decodeFrom_append h base [] []
    rw [List.append_nil, decodeFrom, List.append_nil] at happ
    rw [decode, happ]
    simp only [List.reverse_reverse]
  obtain ⟨front, text, rest, hdata, hfront, ⟨rfl, hend⟩ | ⟨hrest, hstop⟩⟩ :=
    decodeFrom_cases base [] data
  · rw [List.append_nil] at hdata
    subst hdata
    have hdecode := hok text hfront
    refine ⟨fun s => ⟨fun h => ?_, fun h => ?_⟩, fun fault => ⟨fun h => ?_, ?_⟩⟩
    · rw [hdecode] at h
      cases h
      rwa [String.toList_ofList]
    · rw [hok _ h, String.ofList_toList]
    · rw [hdecode] at h
      cases h
    · rintro ⟨p, hp, -, -, hmax⟩
      have hle := hmax ⟨Nat.le_refl _, text, by rwa [List.take_length]⟩
      exact absurd hle (Nat.not_le_of_lt hp)
  · have hdecode : decode base data = .error (.invalidText (base + front.length)) := by
      rw [decode, hstop]
    have hlt : front.length < data.length := by
      have hpos := List.length_pos_iff.2 hrest
      rw [hdata, List.length_append]
      omega
    have hgreatest : IsGreatest {n | n ≤ data.length ∧ ∃ text, ReadsAll (data.take n) text}
        front.length := by
      refine ⟨⟨Nat.le_of_lt hlt, text, ?_⟩, ?_⟩
      · rwa [hdata, List.take_left]
      · rintro n ⟨hn, text', h⟩
        exact le_of_decodeFrom_error hstop hn h
    refine ⟨fun s => ⟨fun h => ?_, fun h => ?_⟩, fun fault => ⟨fun h => ?_, ?_⟩⟩
    · rw [hdecode] at h
      cases h
    · rw [hok _ h] at hdecode
      cases hdecode
    · rw [hdecode] at h
      cases h
      exact ⟨front.length, hlt, rfl, hgreatest⟩
    · rintro ⟨p, -, rfl, hp⟩
      rw [hdecode, hgreatest.unique hp]

/-! ## 5. Loose pairs -/

/-- A loose pair spells nothing: the bytes of a pair that spells a character are all marked. -/
theorem LoosePair.not_spells {bytes : Bytes} {c c' : Char} (h : LoosePair bytes c) :
    ¬ Spells bytes c' := by
  intro hs
  cases h with
  | @mk first high e f hfirst _ _ _ hef =>
      obtain ⟨x, y, z, rfl⟩ := hfirst.exists_bytes
      generalize hbytes : [x, y, z] ++ [0xED, e, f] = bytes at hs
      cases hs with
      | one => cases hbytes
      | two => cases hbytes
      | three htriple =>
          obtain ⟨_, _, _, rfl⟩ := htriple.exists_bytes
          cases hbytes
      | pair hfirst' _ _ hsecond =>
          obtain ⟨_, _, _, rfl⟩ := hfirst'.exists_bytes
          obtain ⟨_, _, _, rfl⟩ := hsecond.exists_bytes
          cases hbytes
          obtain ⟨-, he, hf, -⟩ := triple_iff.1 hsecond
          exact hef ⟨(isContinuation_iff e).1 he, (isContinuation_iff f).1 hf⟩

/-- A loose pair stands behind bytes that spell a text. -/
def HasLoosePair (data : Bytes) : Prop :=
  ∃ front pair rest text c, data = front ++ pair ++ rest ∧ SpellsAll front text ∧ LoosePair pair c

theorem SpellsAll.readsAll {data : Bytes} {text : List Char} (h : SpellsAll data text) :
    ReadsAll data text := by
  induction h with
  | nil => exact .nil
  | cons hfirst _ ih => exact .cons (.inl hfirst) ih

theorem ReadsAll.append {data rest : Bytes} {text behind : List Char} (h : ReadsAll data text)
    (hrest : ReadsAll rest behind) : ReadsAll (data ++ rest) (text ++ behind) := by
  induction h with
  | nil => exact hrest
  | cons hfirst _ ih =>
      rw [List.append_assoc, List.cons_append]
      exact .cons hfirst ih

theorem SpellsAll.exists_first {data : Bytes} {text : List Char} (h : SpellsAll data text)
    (hne : data ≠ []) :
    ∃ first rest c text', data = first ++ rest ∧ Spells first c ∧ SpellsAll rest text' := by
  cases h with
  | nil => exact absurd rfl hne
  | cons hfirst hrest => exact ⟨_, _, _, _, rfl, hfirst, hrest⟩

/-- Behind bytes that spell a text, bytes that spell a text go on with one. -/
theorem SpellsAll.of_append {front rest : Bytes} {text text' : List Char}
    (h : SpellsAll front text) (h' : SpellsAll (front ++ rest) text') :
    ∃ behind, SpellsAll rest behind := by
  induction h generalizing text' with
  | nil => exact ⟨text', h'⟩
  | @cons first front c text hfirst _ ih =>
      have hne : first ++ front ++ rest ≠ [] := by
        simp only [ne_eq, List.append_eq_nil_iff, hfirst.ne_nil, false_and, not_false_eq_true]
      obtain ⟨first', rest', c', text'', hdata, hfirst', hrest'⟩ := h'.exists_first hne
      rw [List.append_assoc] at hdata
      obtain ⟨rfl, rfl⟩ := Reads.unique (.inl hfirst) (.inl hfirst') hdata
      exact ih hrest'

/-- **Bytes that spell a text have no loose pair** behind a front that does. -/
theorem HasLoosePair.not_spellsAll {data : Bytes} {text : List Char} (h : HasLoosePair data) :
    ¬ SpellsAll data text := by
  obtain ⟨front, pair, rest, _, c, rfl, hfront, hpair⟩ := h
  intro hspells
  rw [List.append_assoc] at hspells
  obtain ⟨behind, hbehind⟩ := hfront.of_append hspells
  have hreads : Reads pair c := .inr hpair
  have hne : pair ++ rest ≠ [] := List.append_ne_nil_of_left_ne_nil hreads.ne_nil rest
  obtain ⟨first, rest', c', _, hdata, hfirst, -⟩ := hbehind.exists_first hne
  obtain ⟨rfl, -⟩ := hreads.unique (.inl hfirst) hdata
  exact hpair.not_spells hfirst

theorem HasLoosePair.cons {first rest : Bytes} {c : Char} (hc : Spells first c)
    (h : HasLoosePair rest) : HasLoosePair (first ++ rest) := by
  obtain ⟨front, pair, behind, text, ch, rfl, hfront, hpair⟩ := h
  refine ⟨first ++ front, pair, behind, c :: text, ch, ?_, .cons hc hfront, hpair⟩
  simp only [List.append_assoc]

/-- **Bytes that are read as a text spell it**, unless there is a loose pair. -/
theorem ReadsAll.spellsAll {data : Bytes} {text : List Char} (h : ReadsAll data text)
    (rest : Bytes) (hloose : ¬ HasLoosePair (data ++ rest)) : SpellsAll data text := by
  induction h with
  | nil => exact .nil
  | @cons first data c text hfirst _ ih =>
      rw [List.append_assoc] at hloose
      rcases hfirst with hfirst | hfirst
      · exact .cons hfirst (ih fun h => hloose (h.cons hfirst))
      · exact absurd ⟨[], first, data ++ rest, [], c, rfl, .nil, hfirst⟩ hloose

theorem Decodes.congr {rule rule' : Bytes → List Char → Prop} {base : Nat} {data : Bytes}
    (h : Decodes rule base data)
    (heq : ∀ n text, rule (data.take n) text ↔ rule' (data.take n) text) :
    Decodes rule' base data := by
  refine ⟨fun s => ?_, fun fault => ?_⟩
  · have hwhole := heq data.length s.toList
    rw [List.take_length] at hwhole
    exact (h.ok_iff s).trans hwhole
  · simp only [h.error_iff, heq]

/-- **The sequences that spell a character tell what is decoded**, unless a loose pair stands behind
    a front that spells a text. -/
theorem decodes_spellsAll_iff (base : Nat) (data : Bytes) :
    Decodes SpellsAll base data ↔ ¬ HasLoosePair data := by
  constructor
  · rintro hspells ⟨front, pair, rest, text, c, hdata, hfront, hpair⟩
    have hle : (front ++ pair).length ≤ data.length :=
      hdata ▸ (List.prefix_append (front ++ pair) rest).length_le
    have hpast : ∀ n text', (front ++ pair).length ≤ n → ¬ SpellsAll (data.take n) text' := by
      intro n text' hn
      have htake : data.take n = front ++ pair ++ rest.take (n - (front ++ pair).length) := by
        rw [hdata, List.take_append, List.take_of_length_le hn]
      exact HasLoosePair.not_spellsAll ⟨front, pair, _, text, c, htake, hfront, hpair⟩
    have hreads := decodes_readsAll base data
    cases hdecode : decode base data with
    | ok s =>
        have hs := (hspells.ok_iff s).1 hdecode
        exact hpast data.length s.toList hle (by rwa [List.take_length])
    | error fault =>
        obtain ⟨p, -, rfl, ⟨-, text', htext'⟩, -⟩ := (hspells.error_iff fault).1 hdecode
        obtain ⟨p', -, hoffset, -, hmax⟩ := (hreads.error_iff _).1 hdecode
        have hp : p = p' := Nat.add_left_cancel (Fault.invalidText.inj hoffset)
        have hone : ReadsAll pair [c] := List.append_nil pair ▸ .cons (.inr hpair) .nil
        have hpair' : ReadsAll (data.take (front ++ pair).length) (text ++ [c]) := by
          rw [hdata, List.take_left]
          exact hfront.readsAll.append hone
        exact hpast p text' (hp ▸ hmax ⟨hle, _, hpair'⟩) htext'
  · refine fun h => (decodes_readsAll base data).congr fun n text => ⟨fun hreads => ?_, ?_⟩
    · refine hreads.spellsAll (data.drop n) ?_
      rwa [List.take_append_drop]
    · exact SpellsAll.readsAll

/-- **What is decoded.** Bytes are decoded to the text that they are read as, sequence by sequence,
    or else they are at fault behind their longest front that is read as a text. Those sequences are
    the ones of modified UTF-8, as long as no loose pair stands behind a front that spells a text;
    where one does, bytes are decoded that spell no text, or the fault is found too late. -/
theorem decodes_sequences (base : Nat) (data : Bytes) :
    Decodes ReadsAll base data ∧ (Decodes SpellsAll base data ↔ ¬ HasLoosePair data) :=
  ⟨decodes_readsAll base data, decodes_spellsAll_iff base data⟩

/-- A letter and a loose pair, whose last two bytes have no mark. -/
theorem not_decodes_spellsAll :
    ¬ Decodes SpellsAll 0x10 [0x78, 0xED, 0xA0, 0x80, 0xED, 0x30, 0x00] := by
  have hletter : Spells [0x78] 'x' := .one (a := 0x78) (by decide) (by decide)
  have hhigh : Triple [0xED, 0xA0, 0x80] 0xD800 :=
    .mk (a := 0xED) (b := 0xA0) (c := 0x80) (by decide) (by decide) (by decide) (by decide)
  have hpair := LoosePair.mk (e := 0x30) (f := 0x00) hhigh (by decide) (by decide) (by decide)
    (by decide)
  rw [decodes_spellsAll_iff, not_not]
  exact ⟨[0x78], _, [], _, _, rfl, .cons hletter .nil, hpair⟩

end ClassAccess.ModifiedUtf8
