import ClassAccess.Proofs.ConstantPool.Rereading

/-!
# How far reading reaches

A step of reading takes some bytes. Does it look at others? And what does it say when some of these
bytes are missing?

* `Reading.Exact` -- **bytes that are exactly what a step takes**: whatever stands behind them, it
  gives the same value, and of any shorter front of them it says that the bytes end too early;
* `Reading.Delimited` -- a step that takes exact bytes wherever it succeeds;
* `Delimited.bind`, `Delimited.times`, `Delimited.counted` -- steps put together of delimited steps.

The fault of a front is always the same one because no step looks at a value before all bytes of the
value are there.
-/

namespace ClassAccess

namespace Reading

variable {α β : Type} {r : Reading α}

/-! ## 1. Exact bytes -/

/-- The bytes `x` at offset `o` are exactly what the step `r` takes to give `a`. -/
structure Exact (r : Reading α) (o : Nat) (x : Bytes) (a : α) : Prop where
  again : ∀ u, r ⟨o, x ++ u⟩ = .ok (a, ⟨o + x.length, u⟩)
  short : ∀ n < x.length, ∃ offset, r ⟨o, x.take n⟩ = .error (.unexpectedEnd offset)

/-- **Bytes behind bytes**: what a step takes, and what the step that follows it takes. -/
theorem Exact.bind {f : α → Reading β} {o : Nat} {x y : Bytes} {a : α} {b : β}
    (hr : Exact r o x a) (hf : Exact (f a) (o + x.length) y b) :
    Exact (r >>= f) o (x ++ y) b := by
  refine ⟨fun u => ?_, fun n hn => ?_⟩
  · rw [List.append_assoc, bind_ok (hr.again _), hf.again, List.length_append, Nat.add_assoc]
  · rw [List.take_append]
    by_cases hx : n < x.length
    · obtain ⟨offset, h⟩ := hr.short n hx
      refine ⟨offset, ?_⟩
      rw [Nat.sub_eq_zero_of_le (Nat.le_of_lt hx), List.take_zero, List.append_nil, run_bind, h]
    · -- the first step has all of its bytes
      rw [List.take_of_length_le (Nat.not_lt.1 hx), bind_ok (hr.again _)]
      refine hf.short _ ?_
      rw [List.length_append] at hn
      omega

theorem exact_nil {o : Nat} {a : α} (h : ∀ u, r ⟨o, u⟩ = .ok (a, ⟨o, u⟩)) : Exact r o [] a :=
  ⟨h, fun _ hn => absurd hn (Nat.not_lt_zero _)⟩

/-! ## 2. Delimited steps -/

/-- A step that takes exact bytes wherever it gives a value. -/
def Delimited (r : Reading α) : Prop :=
  ∀ s a t, r s = .ok (a, t) → ∃ x, s.rest = x ++ t.rest ∧ t.offset = s.offset + x.length ∧
    Exact r s.offset x a

/-- A step that takes no bytes is delimited if it looks at none. -/
theorem delimited_of_still
    (h : ∀ s a t, r s = .ok (a, t) → s = t ∧ ∀ u, r ⟨s.offset, u⟩ = .ok (a, ⟨s.offset, u⟩)) :
    Delimited r := by
  intro s a t hr
  obtain ⟨rfl, hu⟩ := h s a t hr
  exact ⟨[], rfl, rfl, exact_nil hu⟩

/-- What is copied to where it was looks at no bytes but its own; it is left to say what it comes to
    when some of these are missing. -/
theorem delimited_of_copied (hr : Copied Edit.none 0 r r)
    (hshort : ∀ o x a t, r ⟨o, x⟩ = .ok (a, t) → t.rest = [] → ∀ n < x.length,
      ∃ offset, r ⟨o, x.take n⟩ = .error (.unexpectedEnd offset)) : Delimited r := by
  intro s a t h
  obtain ⟨x, hx, ho, hu⟩ := hr.local h
  refine ⟨x, hx, ho, fun u => ho ▸ hu u, hshort s.offset x a ⟨t.offset, []⟩ ?_ rfl⟩
  rw [← hu [], List.append_nil]

theorem delimited_pure (a : α) : Delimited (pure a) :=
  delimited_of_still fun s b t h => by cases h; exact ⟨rfl, fun _ => rfl⟩

theorem delimited_check (result : Except Fault α) : Delimited (check result) :=
  delimited_of_still fun s a t h => by
    obtain ⟨rfl, rfl⟩ := check_ok h
    exact ⟨rfl, fun _ => rfl⟩

theorem delimited_fail (fault : Fault) : Delimited (fail fault : Reading α) :=
  fun s a t h => by cases h

theorem delimited_offset : Delimited offset :=
  delimited_of_still fun s a t h => by cases h; exact ⟨rfl, fun _ => rfl⟩

theorem delimited_byte : Delimited byte :=
  delimited_of_copied copied_byte fun o x a t h ht n hn => by
    obtain ⟨hx, -⟩ := byte_ok h
    rw [ht] at hx
    cases hx
    cases Nat.lt_one_iff.1 hn
    exact ⟨o, rfl⟩

theorem delimited_word16 : Delimited word16 :=
  delimited_of_copied copied_word16 fun o x a t h ht n hn => by
    obtain ⟨b, c, hx, -, -⟩ := word16_ok h
    rw [ht] at hx
    cases hx
    refine ⟨o, ?_⟩
    match n, hn with
    | 0, _ => rfl
    | 1, _ => rfl

theorem delimited_word32 : Delimited word32 :=
  delimited_of_copied copied_word32 fun o x a t h ht n hn => by
    obtain ⟨b, c, d, e, hx, -, -⟩ := word32_ok h
    rw [ht] at hx
    cases hx
    refine ⟨o, ?_⟩
    match n, hn with
    | 0, _ => rfl
    | 1, _ => rfl
    | 2, _ => rfl
    | 3, _ => rfl

/-- **Of a block, there are all bytes or none.** -/
theorem delimited_bytes (n : Nat) : Delimited (bytes n) :=
  delimited_of_copied (copied_bytes n) fun o x a t h ht m hm => by
    obtain ⟨hx, -, hn⟩ := bytes_ok h
    have hx : x = a := by rw [← List.append_nil a, ← ht]; exact hx
    refine ⟨o, if_neg ?_⟩
    show ((x.take m).take n).length ≠ n
    rw [← hn, ← hx, List.length_take, List.length_take]
    omega

/-! ## 3. Steps put together -/

theorem Delimited.bind {f : α → Reading β} (hr : Delimited r) (hf : ∀ a, Delimited (f a)) :
    Delimited (r >>= f) := by
  intro s b v h
  obtain ⟨a, t, ha, hb⟩ := exists_of_bind_ok h
  obtain ⟨x, hx, hxo, hxr⟩ := hr s a t ha
  obtain ⟨y, hy, hyo, hyr⟩ := hf a t b v hb
  refine ⟨x ++ y, by rw [hx, hy, List.append_assoc], ?_, hxr.bind (hxo ▸ hyr)⟩
  rw [hyo, hxo, List.length_append, Nat.add_assoc]

theorem Delimited.map {f : α → β} (hr : Delimited r) : Delimited (do return f (← r)) :=
  hr.bind fun _ => delimited_pure _

/-- **A table is delimited if its rows are.** -/
theorem Delimited.times (hr : Delimited r) (n : Nat) : Delimited (times n r) := by
  induction n with
  | zero =>
      rw [times_zero]
      exact delimited_pure []
  | succ n ih =>
      rw [times_succ]
      exact hr.bind fun _ => ih.map

theorem Delimited.counted (hr : Delimited r) : Delimited (counted r) :=
  delimited_word16.bind fun n => hr.times n.toNat

theorem delimited_word64 : Delimited word64 :=
  delimited_word32.bind fun _ => delimited_word32.map

end Reading

end ClassAccess
