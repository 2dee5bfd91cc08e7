import ClassAccess.Proofs.Reading.Following

/-!
# What stands where it was read

A step that succeeds says where in the file its bytes stand, and what they are.

* `Stands` -- bytes that stand in a file at an offset;
* `Mark`, `Laid` -- places with what stands there, in order and **none reaching into another**;
* `Reading.Finds` -- **what a step finds** from an offset on, and up to which offset;
* `Rows`, `CountedRows` -- rows that stand one behind the other, behind their number;
* `Finds.bind`, `Finds.counted` -- steps after each other, and tables;
* `Rows.laid` -- the marks of rows are laid out if those of each row are.
-/

namespace ClassAccess

variable {data x y : Bytes} {o o' p lo hi : Nat}

/-! ## 1. Bytes in a file -/

/-- The bytes `x` stand in a file at the offset `o`. -/
def Stands (data : Bytes) (o : Nat) (x : Bytes) : Prop := x <+: data.drop o

theorem Stands.left (h : Stands data o (x ++ y)) : Stands data o x :=
  (List.prefix_append x y).trans h

theorem Stands.right (h : Stands data o (x ++ y)) : Stands data (o + x.length) y := by
  obtain ⟨rest, hrest⟩ := h
  rw [List.append_assoc] at hrest
  refine ⟨rest, ?_⟩
  rw [← List.drop_drop, ← hrest, List.drop_left]

/-- Bytes that stand behind each other stand there together. -/
theorem Stands.append (hx : Stands data o x) (hy : Stands data (o + x.length) y) :
    Stands data o (x ++ y) := by
  obtain ⟨rest, hrest⟩ := hx
  obtain ⟨rest', hrest'⟩ := hy
  rw [← List.drop_drop, ← hrest, List.drop_left] at hrest'
  exact ⟨rest', by rw [List.append_assoc, hrest', hrest]⟩

/-- A place of a file and the bytes that are said to stand there. -/
structure Mark where
  offset : Nat
  bytes : Bytes
  deriving DecidableEq, Repr

namespace Mark

/-- The offset behind the last byte. -/
def finish (m : Mark) : Nat := m.offset + m.bytes.length

/-- Two places that share no byte. -/
def Apart (m n : Mark) : Prop := m.finish ≤ n.offset ∨ n.finish ≤ m.offset

end Mark

/-- The bytes of the marks stand in the file from `lo` up to `hi`, each mark behind the end of the
    one before. -/
def Laid (data : Bytes) (lo hi : Nat) : List Mark → Prop
  | [] => lo ≤ hi
  | m :: rest => lo ≤ m.offset ∧ Stands data m.offset m.bytes ∧ Laid data m.finish hi rest

namespace Laid

variable {marks marks' : List Mark} {lo' hi' mid : Nat}

theorem le (h : Laid data lo hi marks) : lo ≤ hi := by
  induction marks generalizing lo with
  | nil => exact h
  | cons m marks ih =>
      have hle : m.offset ≤ m.finish := Nat.le_add_right _ _
      exact Nat.le_trans h.1 (Nat.le_trans hle (ih h.2.2))

theorem mono (h : Laid data lo hi marks) (hlo : lo' ≤ lo) (hhi : hi ≤ hi') :
    Laid data lo' hi' marks := by
  induction marks generalizing lo lo' with
  | nil => exact Nat.le_trans hlo (Nat.le_trans h hhi)
  | cons m marks ih => exact ⟨Nat.le_trans hlo h.1, h.2.1, ih h.2.2 (Nat.le_refl _)⟩

theorem append (h : Laid data lo mid marks) (h' : Laid data mid hi marks') :
    Laid data lo hi (marks ++ marks') := by
  induction marks generalizing lo with
  | nil => exact h'.mono h (Nat.le_refl _)
  | cons m marks ih => exact ⟨h.1, h.2.1, ih h.2.2⟩

theorem singleton {m : Mark} (hlo : lo ≤ m.offset) (h : Stands data m.offset m.bytes)
    (hhi : m.finish ≤ hi) : Laid data lo hi [m] := ⟨hlo, h, hhi⟩

/-- **Marks that are laid out stand within their bounds.** -/
theorem bounds (h : Laid data lo hi marks) {m : Mark} (hm : m ∈ marks) :
    lo ≤ m.offset ∧ m.finish ≤ hi ∧ Stands data m.offset m.bytes := by
  induction marks generalizing lo with
  | nil => cases hm
  | cons n marks ih =>
      rcases List.mem_cons.1 hm with rfl | hm
      · exact ⟨h.1, h.2.2.le, h.2.1⟩
      · have hle : n.offset ≤ n.finish := Nat.le_add_right _ _
        obtain ⟨hlo, hrest⟩ := ih h.2.2 hm
        exact ⟨Nat.le_trans h.1 (Nat.le_trans hle hlo), hrest⟩

end Laid

/-! ## 2. Rows -/

section Rows

variable {α β : Type} {R R' : Nat → α → Nat → Prop} {as : List α}

/-- Rows that stand one behind the other: where one ends, the next one starts. -/
inductive Rows (R : Nat → α → Nat → Prop) : Nat → List α → Nat → Prop
  | nil (o : Nat) : Rows R o [] o
  | cons {o m o' : Nat} {a : α} {as : List α} : R o a m → Rows R m as o' → Rows R o (a :: as) o'

/-- Rows that stand behind their number. -/
structure CountedRows (data : Bytes) (R : Nat → α → Nat → Prop) (o : Nat) (as : List α)
    (o' : Nat) : Prop where
  length_lt : as.length < 0x10000
  number : Stands data o (BigEndian.bytes16 as.length.toUInt16)
  rows : Rows R (o + 2) as o'

/-- **The marks of rows are laid out if those of each row are.** -/
theorem Rows.laid (h : Rows R o as o') {f : α → List Mark}
    (hf : ∀ o a o', R o a o' → Laid data o o' (f a)) : Laid data o o' (as.flatMap f) := by
  induction h with
  | nil o => exact Nat.le_refl o
  | cons ha _ ih => exact (hf _ _ _ ha).append ih

theorem CountedRows.laid (h : CountedRows data R o as o') {f : α → List Mark}
    (hf : ∀ o a o', R o a o' → Laid data o o' (f a)) : Laid data o o' (as.flatMap f) :=
  (h.rows.laid hf).mono (Nat.le_add_right _ _) (Nat.le_refl _)

end Rows

/-! ## 3. What a step finds -/

namespace Reading

variable {α β : Type}

/-- Wherever the step succeeds from the offset `o` of a file, it comes to an offset `o'` of the
    file, and its value goes with `o'` as `q` says. -/
def Finds (data : Bytes) (o : Nat) (r : Reading α) (q : α → Nat → Prop) : Prop :=
  o ≤ data.length → ∀ a t, r (.from data o) = .ok (a, t) →
    ∃ o', t = .from data o' ∧ o ≤ o' ∧ o' ≤ data.length ∧ q a o'

theorem Finds.mono {r : Reading α} {q q' : α → Nat → Prop} (h : Finds data o r q)
    (hq : ∀ a o', q a o' → q' a o') : Finds data o r q' := by
  intro ho a t hr
  obtain ⟨o', ht, hle, hlength, hqa⟩ := h ho a t hr
  exact ⟨o', ht, hle, hlength, hq a o' hqa⟩

/-- A step does not go back. -/
theorem Finds.and_le {r : Reading α} {q : α → Nat → Prop} (h : Finds data o r q) :
    Finds data o r fun a o' => q a o' ∧ o ≤ o' := by
  intro ho a t hr
  obtain ⟨o', ht, hle, hlength, hqa⟩ := h ho a t hr
  exact ⟨o', ht, hle, hlength, hqa, hle⟩

theorem finds_pure {a : α} {q : α → Nat → Prop} (h : o ≤ data.length → q a o) :
    Finds data o (pure a) q := by
  intro ho b t hb
  cases hb
  exact ⟨o, rfl, Nat.le_refl o, ho, h ho⟩

/-- **The second step goes on where the first one has come to.** -/
theorem Finds.bind {r : Reading α} {f : α → Reading β} {p : α → Nat → Prop} {q : β → Nat → Prop}
    (hr : Finds data o r p) (hf : ∀ a m, p a m → Finds data m (f a) q) :
    Finds data o (r >>= f) q := by
  intro ho b u h
  obtain ⟨a, t, ha, hb⟩ := exists_of_bind_ok h
  obtain ⟨m, rfl, hom, hm, hp⟩ := hr ho a t ha
  obtain ⟨o', hu, hmo, ho', hq⟩ := hf a m hp hm b u hb
  exact ⟨o', hu, Nat.le_trans hom hmo, ho', hq⟩

theorem finds_offset : Finds data o offset fun p o' => p = o ∧ o' = o := by
  intro ho a t h
  cases h
  exact ⟨o, rfl, Nat.le_refl o, ho, rfl, rfl⟩

theorem finds_source : Finds data o source fun s o' => s = .from data o ∧ o' = o := by
  intro ho a t h
  cases h
  exact ⟨o, rfl, Nat.le_refl o, ho, rfl, rfl⟩

theorem finds_check (result : Except Fault α) :
    Finds data o (check result) fun a o' => result = .ok a ∧ o' = o := by
  intro ho a t h
  obtain ⟨hresult, rfl⟩ := check_ok h
  exact ⟨o, rfl, Nat.le_refl o, ho, hresult, rfl⟩

/-- A step that takes bytes from the front finds them there. -/
theorem finds_of_taken {r : Reading α} {q : α → Bytes → Prop}
    (h : ∀ s a t, r s = .ok (a, t) → ∃ x, s.rest = x ++ t.rest ∧ t.offset = s.offset + x.length
      ∧ q a x) :
    Finds data o r fun a o' => ∃ x, Stands data o x ∧ o' = o + x.length ∧ q a x := by
  intro ho a t hr
  obtain ⟨x, hx, hoffset, hq⟩ := h _ a t hr
  have hdrop : data.drop o = x ++ t.rest := hx
  have hlength := congrArg List.length hdrop
  rw [List.length_drop, List.length_append] at hlength
  refine ⟨o + x.length, ?_, Nat.le_add_right _ _, by omega, x, ⟨t.rest, hdrop.symm⟩, rfl, hq⟩
  rw [Source.from, ← List.drop_drop, hdrop, List.drop_left]
  exact congrArg (Source.mk · t.rest) hoffset

theorem finds_word16 : Finds data o word16 fun w o' =>
    Stands data o (BigEndian.bytes16 w) ∧ o' = o + 2 := by
  refine (finds_of_taken (q := fun w x => x = BigEndian.bytes16 w) fun s w t h => ?_).mono ?_
  · obtain ⟨a, b, hrest, hoffset, rfl⟩ := word16_ok h
    exact ⟨[a, b], hrest, hoffset, (BigEndian.bytes16_word16 a b).symm⟩
  · intro w o' hw
    obtain ⟨_, hx, rfl, rfl⟩ := hw
    exact ⟨hx, rfl⟩

theorem finds_word32 : Finds data o word32 fun w o' =>
    Stands data o (BigEndian.bytes32 w) ∧ o' = o + 4 := by
  refine (finds_of_taken (q := fun w x => x = BigEndian.bytes32 w) fun s w t h => ?_).mono ?_
  · obtain ⟨a, b, c, d, hrest, hoffset, rfl⟩ := word32_ok h
    exact ⟨[a, b, c, d], hrest, hoffset, (BigEndian.bytes32_word32 a b c d).symm⟩
  · intro w o' hw
    obtain ⟨_, hx, rfl, rfl⟩ := hw
    exact ⟨hx, rfl⟩

theorem finds_bytes (n : Nat) : Finds data o (bytes n) fun x o' =>
    Stands data o x ∧ x.length = n ∧ o' = o + n := by
  refine (finds_of_taken (q := fun a x => x = a ∧ x.length = n) fun s x t h => ?_).mono ?_
  · obtain ⟨hrest, hoffset, hlength⟩ := bytes_ok h
    exact ⟨x, hrest, hlength ▸ hoffset, rfl, hlength⟩
  · intro a o' ha
    obtain ⟨x, hx, rfl, rfl, hlength⟩ := ha
    exact ⟨hx, hlength, by rw [hlength]⟩

/-! ## 4. Tables -/

variable {row : Reading α} {R : Nat → α → Nat → Prop}

/-- **Rows are found one behind the other.** -/
theorem finds_times (hrow : ∀ o, Finds data o row (R o)) (n o : Nat) :
    Finds data o (times n row) fun as o' => as.length = n ∧ Rows R o as o' := by
  induction n generalizing o with
  | zero =>
      rw [times_zero]
      exact finds_pure fun _ => ⟨rfl, .nil o⟩
  | succ n ih =>
      rw [times_succ]
      refine (hrow o).bind fun a m ha => (ih m).bind fun as o' has => finds_pure fun _ => ?_
      exact ⟨congrArg (· + 1) has.1, .cons ha has.2⟩

/-- **A table is found behind the number of its rows.** -/
theorem finds_counted (hrow : ∀ o, Finds data o row (R o)) (o : Nat) :
    Finds data o (counted row) (CountedRows data R o) := by
  refine finds_word16.bind fun w m hw => ?_
  obtain ⟨hw, rfl⟩ := hw
  refine (finds_times hrow _ _).mono fun as o' has => ?_
  have hlt := w.toNat_lt
  have hnumber : as.length.toUInt16 = w := by rw [has.1]; exact UInt16.ofNat_toNat
  exact ⟨by omega, hnumber ▸ hw, has.2⟩

end Reading

end ClassAccess
