import ClassAccess.Proofs.Outcome
import ClassAccess.Proofs.Reading.Following

/-!
# Reading what was written

What is written piece by piece is read step by step:

* `Reading.Takes` -- **a step takes some bytes**, wherever they stand and whatever stands behind
  them, and what it gives has a property;
* `takes_word16`, `takes_word32`, `takes_word64`, `takes_bytes` -- the steps that take bytes;
* `Takes.bind`, `Takes.counted` -- steps after each other, and tables.

Where a value tells at which offset it was read, the property is what holds at every offset.

* `Reading.Took` -- the other way round: **what the bytes that a step took have to do with the
  value** that it gave.
-/

namespace ClassAccess.Reading

open Outcome

variable {α β γ : Type}

/-- The step takes the bytes `x` and nothing behind them, and gives a value with property `q`. -/
def Takes (r : Reading α) (x : Bytes) (q : α → Prop) : Prop :=
  ∀ o u, ∃ a, r ⟨o, x ++ u⟩ = .ok (a, ⟨o + x.length, u⟩) ∧ q a

/-! ## 1. Steps after each other -/

theorem Takes.mono {r : Reading α} {x : Bytes} {q q' : α → Prop} (h : Takes r x q)
    (hq : ∀ a, q a → q' a) : Takes r x q' := by
  intro o u
  obtain ⟨a, ha, hqa⟩ := h o u
  exact ⟨a, ha, hq a hqa⟩

theorem takes_pure {a : α} {q : α → Prop} (h : q a) : Takes (pure a) [] q := fun _ _ => ⟨a, rfl, h⟩

/-- **Two steps take two pieces**, the second step and piece behind the first. -/
theorem Takes.bind {r : Reading α} {f : α → Reading β} {x y : Bytes} {p : α → Prop} {q : β → Prop}
    (hr : Takes r x p) (hf : ∀ a, p a → Takes (f a) y q) : Takes (r >>= f) (x ++ y) q := by
  intro o u
  obtain ⟨a, ha, hp⟩ := hr o (y ++ u)
  obtain ⟨b, hb, hq⟩ := hf a hp (o + x.length) u
  refine ⟨b, ?_, hq⟩
  rw [List.append_assoc, bind_ok ha, hb, List.length_append, Nat.add_assoc]

/-- What is made of the value of a step takes no bytes. -/
theorem Takes.map {r : Reading α} {x : Bytes} {p : α → Prop} {q : β → Prop} (hr : Takes r x p)
    (f : α → β) (hf : ∀ a, p a → q (f a)) : Takes (do let a ← r; return f a) x q := by
  rw [← List.append_nil x]
  exact hr.bind fun a ha => takes_pure (hf a ha)

theorem Takes.offset_bind {f : Nat → Reading α} {x : Bytes} {q : α → Prop}
    (h : ∀ o, Takes (f o) x q) : Takes (offset >>= f) x q := fun o u => h o o u

theorem Takes.check_bind {result : Except Fault α} {a : α} {f : α → Reading β} {x : Bytes}
    {q : β → Prop} (ha : result = .ok a) (h : Takes (f a) x q) :
    Takes (check result >>= f) x q := by
  rw [ha]
  exact h

theorem takes_check {result : Except Fault α} {a : α} {q : α → Prop} (ha : result = .ok a)
    (h : q a) : Takes (check result) [] q := by
  rw [ha]
  exact fun _ _ => ⟨a, rfl, h⟩

/-! ## 2. Words and blocks -/

theorem takes_byte (b : UInt8) : Takes byte [b] (· = b) := fun _ _ => ⟨b, rfl, rfl⟩

theorem takes_word16 (w : UInt16) : Takes word16 (BigEndian.bytes16 w) (· = w) :=
  fun o u => ⟨w, word16_bytes16 o w u, rfl⟩

theorem takes_word32 (w : UInt32) : Takes word32 (BigEndian.bytes32 w) (· = w) := by
  intro o u
  refine ⟨w, ?_, rfl⟩
  show Except.ok (BigEndian.word32 _ _ _ _, _) = _
  rw [BigEndian.word32_bytes32]
  rfl

theorem takes_word64 (w : UInt64) : Takes word64 (BigEndian.bytes64 w) (· = w) := by
  refine (takes_word32 _).bind fun upper hupper => ?_
  refine (takes_word32 _).map _ fun lower hlower => ?_
  rw [hupper, hlower]
  exact BigEndian.word64_halves w

theorem takes_bytes {n : Nat} {x : Bytes} (h : x.length = n) : Takes (bytes n) x (· = x) := by
  intro o u
  refine ⟨x, ?_, rfl⟩
  rw [bytes_append h, h]

/-- A word in front, and what is done with it. -/
theorem Takes.word16_bind {w : UInt16} {f : UInt16 → Reading α} {x : Bytes} {q : α → Prop}
    (h : Takes (f w) x q) : Takes (word16 >>= f) (BigEndian.bytes16 w ++ x) q :=
  (takes_word16 w).bind fun _ ha => by rwa [ha]

theorem Takes.word32_bind {w : UInt32} {f : UInt32 → Reading α} {x : Bytes} {q : α → Prop}
    (h : Takes (f w) x q) : Takes (word32 >>= f) (BigEndian.bytes32 w ++ x) q :=
  (takes_word32 w).bind fun _ ha => by rwa [ha]

/-! ## 3. Tables -/

/-- **A table takes its rows**, one behind the other. -/
theorem Takes.times {row : Reading α} {r : γ → α → Prop} {xs : List Bytes} {cs : List γ}
    (h : List.Forall₂ (fun x c => Takes row x (r c)) xs cs) :
    Takes (times xs.length row) xs.flatten (List.Forall₂ r cs) := by
  induction h with
  | nil => exact takes_pure .nil
  | cons hrow _ ih =>
      rw [List.length_cons, times_succ, List.flatten_cons]
      exact hrow.bind fun a ha => ih.map _ fun rest hrest => .cons ha hrest

/-- **A table takes its rows behind their number.** -/
theorem Takes.counted {row : Reading α} {r : γ → α → Prop} {xs : List Bytes} {cs : List γ}
    (h : List.Forall₂ (fun x c => Takes row x (r c)) xs cs) (hlen : xs.length < 0x10000) :
    Takes (counted row) (BigEndian.bytes16 xs.length.toUInt16 ++ xs.flatten)
      (List.Forall₂ r cs) := by
  have hn : xs.length.toUInt16.toNat = xs.length := by
    show xs.length % 65536 = _
    omega
  refine Takes.word16_bind ?_
  rw [hn]
  exact Takes.times h

/-! ## 4. What was taken -/

/-- Wherever the step gives a value, it took some bytes, and these go with the value as `q` says. -/
def Took (r : Reading α) (q : α → Bytes → Prop) : Prop :=
  ∀ s a t, r s = .ok (a, t) → ∃ x, s.rest = x ++ t.rest ∧ q a x

theorem Took.mono {r : Reading α} {p q : α → Bytes → Prop} (h : Took r p)
    (hq : ∀ a x, p a x → q a x) : Took r q := by
  intro s a t hr
  obtain ⟨x, hx, hp⟩ := h s a t hr
  exact ⟨x, hx, hq a x hp⟩

theorem took_pure {a : α} {q : α → Bytes → Prop} (h : q a []) : Took (pure a) q := by
  intro s b t hb
  cases hb
  exact ⟨[], rfl, h⟩

/-- **Two steps took two pieces**, the second piece behind the first. -/
theorem Took.bind {r : Reading α} {f : α → Reading β} {p : α → Bytes → Prop} {q : β → Bytes → Prop}
    (hr : Took r p) (hf : ∀ a x, p a x → Took (f a) fun b y => q b (x ++ y)) :
    Took (r >>= f) q := by
  intro s b v h
  obtain ⟨a, t, ha, hb⟩ := Reading.exists_of_bind_ok h
  obtain ⟨x, hx, hp⟩ := hr s a t ha
  obtain ⟨y, hy, hq⟩ := hf a x hp t b v hb
  exact ⟨x ++ y, by rw [hx, hy, List.append_assoc], hq⟩

theorem Took.map {r : Reading α} {p : α → Bytes → Prop} {q : β → Bytes → Prop} (hr : Took r p)
    (f : α → β) (hf : ∀ a x, p a x → q (f a) x) : Took (do let a ← r; return f a) q :=
  hr.bind fun a x h => took_pure (by rw [List.append_nil]; exact hf a x h)

theorem took_offset : Took offset fun _ x => x = [] := by
  intro s o t h
  cases h
  exact ⟨[], rfl, rfl⟩

theorem took_check (result : Except Fault α) : Took (check result) fun a x =>
    result = .ok a ∧ x = [] := by
  intro s a t h
  obtain ⟨hresult, rfl⟩ := check_ok h
  exact ⟨[], rfl, hresult, rfl⟩

theorem took_byte : Took byte fun b x => x = [b] := by
  intro s b t h
  exact ⟨[b], (byte_ok h).1, rfl⟩

theorem took_word16 : Took word16 fun w x => x = BigEndian.bytes16 w := by
  intro s w t h
  obtain ⟨a, b, hrest, -, rfl⟩ := word16_ok h
  exact ⟨[a, b], hrest, (BigEndian.bytes16_word16 a b).symm⟩

theorem took_word32 : Took word32 fun w x => x = BigEndian.bytes32 w := by
  intro s w t h
  obtain ⟨a, b, c, d, hrest, -, rfl⟩ := word32_ok h
  exact ⟨[a, b, c, d], hrest, (BigEndian.bytes32_word32 a b c d).symm⟩

theorem took_word64 : Took word64 fun w x => x = BigEndian.bytes64 w := by
  refine took_word32.bind fun upper x hx => took_word32.map _ fun lower y hy => ?_
  rw [hx, hy, BigEndian.bytes64_word64]

theorem took_bytes (n : Nat) : Took (bytes n) fun block x => x = block ∧ x.length = n := by
  intro s x t h
  obtain ⟨hrest, -, hlength⟩ := bytes_ok h
  exact ⟨x, hrest, rfl, hlength⟩

end ClassAccess.Reading
