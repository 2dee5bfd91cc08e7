import ClassAccess.Machine.Text
import ClassAccess.Proofs.Machine.Code
import ClassAccess.Proofs.ModifiedUtf8.Roundtrip

/-!
# Text decoded without a trap

* `pairAt_eq`, `headAt_eq` -- one character: a byte behind the first one is read where there is one,
  and from the halves of a pair no more is taken away than they have;
* `decode_eq` -- **the text that bytes spell.**
-/

namespace ClassAccess.Machine

open ModifiedUtf8

variable {text rest : Bytes} {pos : Nat} {a b c : UInt8}

/-! ## 1. One character -/

theorem bounds_of_begins {data : Bytes} {ch : Char} {n : Nat} (h : Begins data ch n) :
    1 ≤ n ∧ n ≤ 6 := by
  cases h <;> decide

variable [Words]

theorem pairAt_eq (hfits : Fits text) (h : text.drop pos = a :: b :: c :: rest)
    (hhigh : isHighSurrogate (value3 a b c) = true) :
    pairAt text pos (value3 a b c) = done (pairAfter? (value3 a b c) rest) := by
  have hlt := lt_of_drop h
  simp only [List.length_cons] at hlt
  unfold pairAt
  rw [sum_eq (hfits.lt_words (by omega)), done_bind]
  match rest with
  | [] | [_] | [_, _] =>
      rw [if_neg (by simp only [List.length_cons, List.length_nil] at hlt; omega)]
      rfl
  | d :: e :: f :: rest =>
      simp only [List.length_cons] at hlt
      have hthird : text[pos + 3]? = some d := getElem?_of_drop h 3
      have hfourth : text[pos + 4]? = some e := getElem?_of_drop h 4
      have hfifth : text[pos + 5]? = some f := getElem?_of_drop h 5
      rw [if_pos (by omega), sum_eq (hfits.lt_words (by omega)), done_bind, nth_eq hthird,
        done_bind]
      simp only [pairAfter?]
      by_cases hmark : d &&& 0xF0 = 0xE0
      · rw [if_pos hmark, sum_eq (hfits.lt_words (by omega)), done_bind, nth_eq hfourth, done_bind,
          done_bind, nth_eq hfifth, done_bind]
        cases hlow : isLowSurrogate (value3 d e f) with
        | false =>
            rw [if_neg Bool.false_ne_true, if_neg fun hc => Bool.false_ne_true hc.2]
            rfl
        | true =>
            simp only [isHighSurrogate, isLowSurrogate, Bool.and_eq_true, decide_eq_true_eq]
              at hhigh hlow
            rw [if_pos rfl, if_pos ⟨hmark, rfl⟩, difference_eq hhigh.1, done_bind,
              difference_eq hlow.1, done_bind]
            simp only [below]
            rw [if_pos (by omega)]
            rfl
      · rw [if_neg hmark, if_neg fun hc => hmark hc.1]
        rfl

/-- **The first character is found without a trap.** -/
theorem headAt_eq (hfits : Fits text) (h : text.drop pos = a :: rest) :
    headAt text pos = done (head? (a :: rest)) := by
  have hlt := lt_of_drop h
  have hfirst : text[pos]? = some a := getElem?_of_drop h 0
  have hfit : pos + 3 < words := hfits.lt_words (by omega)
  simp only [headAt, head?]
  rw [nth_eq hfirst, done_bind]
  split
  · rfl
  split
  · rfl
  split
  · rw [sum_eq (by omega), done_bind]
    cases rest with
    | nil =>
        rw [List.length_nil] at hlt
        rw [if_pos (by omega)]
        rfl
    | cons b rest =>
        have hsecond : text[pos + 1]? = some b := getElem?_of_drop h 1
        rw [List.length_cons] at hlt
        rw [if_neg (by omega), done_bind, nth_eq hsecond, done_bind]
        simp only
        split <;> rfl
  split
  · rw [sum_eq (by omega), done_bind]
    cases rest with
    | nil =>
        rw [List.length_nil] at hlt
        rw [if_pos (by omega)]
        rfl
    | cons b rest =>
        cases rest with
        | nil =>
            rw [List.length_singleton] at hlt
            rw [if_pos (by omega)]
            rfl
        | cons c rest =>
            have hsecond : text[pos + 1]? = some b := getElem?_of_drop h 1
            have hthird : text[pos + 2]? = some c := getElem?_of_drop h 2
            simp only [List.length_cons] at hlt
            rw [if_neg (by omega), sum_eq (by omega), done_bind, nth_eq hsecond, done_bind,
              done_bind, nth_eq hthird, done_bind]
            simp only
            split
            · cases hhigh : isHighSurrogate (value3 a b c) with
              | true =>
                  rw [if_pos rfl, pairAt_eq hfits h hhigh, done_bind]
                  rfl
              | false =>
                  rw [if_neg Bool.false_ne_true]
                  split <;> rfl
            · rfl
  · rfl

/-! ## 2. Whole texts -/

/-- The steps from a place on: as many turns as bytes are left are enough, since each character has
    a byte. -/
theorem decodeFrom_eq {base : Nat} (hfits : Fits text) (hbase : base + text.length < words)
    {turns : Nat} (found : List Char) (hturns : text.length ≤ pos + turns) :
    decodeFrom base text turns pos found =
      of (ModifiedUtf8.decodeFrom (base + pos) found (text.drop pos)) := by
  induction turns generalizing pos found with
  | zero =>
      rw [List.drop_eq_nil_of_le (i := pos) hturns, ModifiedUtf8.decodeFrom, decodeFrom,
        if_neg (by omega)]
      rfl
  | succ turns ih =>
      rw [decodeFrom]
      cases hdrop : text.drop pos with
      | nil =>
          rw [ModifiedUtf8.decodeFrom, if_neg (Nat.not_lt.2 (List.drop_eq_nil_iff.1 hdrop))]
          rfl
      | cons a rest =>
          have hlt := lt_of_drop hdrop
          rw [ModifiedUtf8.decodeFrom, if_pos (by omega), headAt_eq hfits hdrop, done_bind]
          cases hhead : head? (a :: rest) with
          | none =>
              simp only
              rw [sum_eq (by omega)]
              rfl
          | some p =>
              obtain ⟨ch, n⟩ := p
              have hn := bounds_of_begins (begins_of_head? hhead)
              simp only
              rw [sum_eq (hfits.lt_words (by omega)), done_bind, drop_of_drop hdrop hn.1,
                Nat.add_assoc]
              exact ih _ (by omega)

/-- **The text that bytes spell is found without a trap.** -/
theorem decode_eq {base : Nat} (hfits : Fits text) (hbase : base + text.length < words) :
    decode base text = of (ModifiedUtf8.decode base text) := by
  unfold decode ModifiedUtf8.decode
  rw [decodeFrom_eq hfits hbase [] (Nat.le_add_left _ _), List.drop_zero, Nat.add_zero]
  cases ModifiedUtf8.decodeFrom base [] text <;> rfl

end ClassAccess.Machine
