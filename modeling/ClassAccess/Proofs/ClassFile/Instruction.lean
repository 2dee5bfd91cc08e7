import ClassAccess.ClassFile.Code
import ClassAccess.Proofs.Reading.Edit

/-!
# What an instruction depends on

The length of an instruction follows from its own bytes, wherever the rest of the code goes on:

* `Announces`, `announcedLength_eq_ok_iff` -- **what an instruction announces**, shape by shape;
* `lengthAt_ok`, `lengthAt_pos` -- all bytes of an instruction are there, and it has a first one;
* `lengthAt_append` -- **bytes behind an instruction do not matter**;
* `lengthAt_plainCall` -- plain calls all have the same length, so that one can replace another.
-/

namespace ClassAccess.Instruction

/-! ## 1. Opcodes -/

theorem within_iff {low high op : UInt8} :
    within low high op = true ↔ low.toNat ≤ op.toNat ∧ op.toNat ≤ high.toNat := by
  simp only [within, Bool.and_eq_true, decide_eq_true_eq, UInt8.le_iff_toNat_le]

theorem eq_of_isPlainCall {op : UInt8} (h : isPlainCall op = true) :
    op = 0xB6 ∨ op = 0xB7 ∨ op = 0xB8 := by
  have hb : 0xB6 ≤ op.toNat ∧ op.toNat ≤ 0xB8 := within_iff.1 h
  simp only [← UInt8.toNat_inj]
  show op.toNat = 0xB6 ∨ op.toNat = 0xB7 ∨ op.toNat = 0xB8
  omega

theorem eq_of_isCall {op : UInt8} (h : Code.isCall op = true) :
    isPlainCall op = true ∨ op = 0xB9 ∨ op = Code.dynamicOpcode := by
  have hb : 0xB6 ≤ op.toNat ∧ op.toNat ≤ 0xBA := within_iff.1 h
  by_cases hp : op.toNat ≤ 0xB8
  · exact .inl (within_iff.2 ⟨hb.1, hp⟩)
  · simp only [← UInt8.toNat_inj]
    right
    show op.toNat = 0xB9 ∨ op.toNat = 0xBA
    omega

theorem isCall_of_isPlainCall {op : UInt8} (h : isPlainCall op = true) :
    Code.isCall op = true ∧ op ≠ Code.dynamicOpcode := by
  rcases eq_of_isPlainCall h with rfl | rfl | rfl <;> exact ⟨rfl, by decide⟩

theorem shape_plainCall {op : UInt8} (h : isPlainCall op = true) :
    Shape.ofOpcode op = some (.fixed 3) := by
  rcases eq_of_isPlainCall h with rfl | rfl | rfl <;> rfl

/-- A call has room for a constant number behind its opcode. -/
theorem shape_call {op : UInt8} (h : Code.isCall op = true) :
    ∃ n, Shape.ofOpcode op = some (.fixed n) ∧ 3 ≤ n := by
  rcases eq_of_isCall h with hp | rfl | rfl
  · exact ⟨3, shape_plainCall hp, Nat.le_refl 3⟩
  · exact ⟨5, rfl, by decide⟩
  · exact ⟨5, rfl, by decide⟩

theorem fixed_pos {op : UInt8} {n : Nat} (h : Shape.ofOpcode op = some (.fixed n)) : 1 ≤ n := by
  have hz : ∀ k : Fin 256, Shape.ofOpcode (UInt8.ofFin k) ≠ some (.fixed 0) := by
    decide +kernel
  refine Nat.pos_of_ne_zero fun hn => ?_
  rw [hn] at h
  exact hz op.toFin h

/-! ## 2. Lengths -/

theorem wordAt?_append {x y : Bytes} {n : Nat} (h : n + 4 ≤ x.length) (y' : Bytes) :
    wordAt? (x ++ y) n = wordAt? (x ++ y') n := by
  unfold wordAt?
  rw [List.drop_append_of_le_length (by omega), List.drop_append_of_le_length (by omega)]
  have hd : 4 ≤ (x.drop n).length := by
    rw [List.length_drop]
    omega
  match hx : x.drop n with
  | a :: b :: c :: d :: rest => rfl
  | [] | [_] | [_, _] | [_, _, _] => rw [hx] at hd; simp at hd

theorem wideLength?_ge {op : UInt8} {n : Nat} (h : wideLength? op = some n) : 4 ≤ n := by
  unfold wideLength? at h
  split at h
  · cases h
    decide
  split at h
  · cases h
    exact Nat.le_refl 4
  · cases h

/-- The code announces an instruction of some length, shape by shape. -/
inductive Announces (pc : Nat) : Bytes → Nat → Prop
  | fixed (op : UInt8) (rest : Bytes) (n : Nat) (shape : Shape.ofOpcode op = some (.fixed n)) :
      Announces pc (op :: rest) n
  | wide (op widened : UInt8) (rest : Bytes) (n : Nat) (shape : Shape.ofOpcode op = some .wide)
      (length : wideLength? widened = some n) : Announces pc (op :: widened :: rest) n
  | tableSwitch (op : UInt8) (rest : Bytes) (low high : Int)
      (shape : Shape.ofOpcode op = some .tableSwitch)
      (low_eq : wordAt? (op :: rest) (switchStart pc + 4) = some low)
      (high_eq : wordAt? (op :: rest) (switchStart pc + 8) = some high) (order : ¬ high < low) :
      Announces pc (op :: rest) (switchStart pc + 12 + (high - low + 1).toNat * 4)
  | lookupSwitch (op : UInt8) (rest : Bytes) (pairs : Int)
      (shape : Shape.ofOpcode op = some .lookupSwitch)
      (pairs_eq : wordAt? (op :: rest) (switchStart pc + 4) = some pairs) (order : ¬ pairs < 0) :
      Announces pc (op :: rest) (switchStart pc + 8 + pairs.toNat * 8)

theorem announces_of_ok {pc n : Nat} {code : Bytes} (h : announcedLength pc code = .ok n) :
    Announces pc code n := by
  cases code with
  | nil => cases h
  | cons op rest =>
      unfold announcedLength at h
      simp only at h
      split at h
      · cases h
      · rename_i k hshape
        cases h
        exact .fixed op rest _ hshape
      · rename_i hshape
        cases rest with
        | nil => cases h
        | cons widened rest =>
            simp only at h
            split at h
            · rename_i k hlength
              cases h
              exact .wide op widened rest _ hshape hlength
            · cases h
      · rename_i hshape
        split at h
        · rename_i low high hlow hhigh
          split at h
          · cases h
          · rename_i horder
            cases h
            exact .tableSwitch op rest low high hshape hlow hhigh horder
        · cases h
      · rename_i hshape
        split at h
        · rename_i pairs hpairs
          split at h
          · cases h
          · rename_i horder
            cases h
            exact .lookupSwitch op rest pairs hshape hpairs horder
        · cases h

/-- **What an instruction announces**, shape by shape. -/
theorem announcedLength_eq_ok_iff {pc n : Nat} {code : Bytes} :
    announcedLength pc code = .ok n ↔ Announces pc code n := by
  refine ⟨announces_of_ok, fun h => ?_⟩
  cases h with
  | fixed op rest _ hshape => simp only [announcedLength, hshape]
  | wide op widened rest _ hshape hlength => simp only [announcedLength, hshape, hlength]
  | tableSwitch op rest low high hshape hlow hhigh horder =>
      simp only [announcedLength, hshape, hlow, hhigh, if_neg horder]
  | lookupSwitch op rest pairs hshape hpairs horder =>
      simp only [announcedLength, hshape, hpairs, if_neg horder]

theorem Announces.pos {pc n : Nat} {code : Bytes} (h : Announces pc code n) : 1 ≤ n := by
  cases h with
  | fixed op rest _ hshape => exact fixed_pos hshape
  | wide op widened rest _ hshape hlength =>
      have := wideLength?_ge hlength
      omega
  | tableSwitch | lookupSwitch => omega

/-- **The length that an instruction announces is told by bytes within that length.** -/
theorem Announces.append {pc n : Nat} {x y : Bytes} (h : Announces pc (x ++ y) n)
    (hn : n ≤ x.length) (y' : Bytes) : Announces pc (x ++ y') n := by
  have hpos := h.pos
  cases x with
  | nil => exact absurd hn (by rw [List.length_nil]; omega)
  | cons op x =>
      have hword : ∀ {k : Nat}, k + 4 ≤ n →
          wordAt? (op :: x ++ y) k = wordAt? (op :: x ++ y') k :=
        fun hk => wordAt?_append (Nat.le_trans hk hn) y'
      generalize hcode : op :: x ++ y = code at h hword
      cases h with
      | fixed _ _ _ hshape =>
          cases hcode
          exact .fixed op (x ++ y') n hshape
      | wide _ widened _ _ hshape hlength =>
          have hge := wideLength?_ge hlength
          -- a widened instruction takes at least four bytes
          cases x with
          | nil => exact absurd hn (by rw [List.length_singleton]; omega)
          | cons widened x =>
              cases hcode
              exact .wide op widened (x ++ y') n hshape hlength
      | tableSwitch _ _ low high hshape hlow hhigh horder =>
          rw [hword (by omega)] at hlow hhigh
          cases hcode
          exact .tableSwitch op (x ++ y') low high hshape hlow hhigh horder
      | lookupSwitch _ _ pairs hshape hpairs horder =>
          rw [hword (by omega)] at hpairs
          cases hcode
          exact .lookupSwitch op (x ++ y') pairs hshape hpairs horder

theorem lengthAt_ok {pc n : Nat} {code : Bytes} :
    lengthAt pc code = .ok n ↔ announcedLength pc code = .ok n ∧ n ≤ code.length := by
  unfold lengthAt
  split
  · rename_i h
    rw [h]
    exact ⟨fun hc => (by cases hc), fun hc => (by cases hc.1)⟩
  · rename_i k h
    rw [h, List.length_take]
    split
    · rename_i hk
      constructor
      · intro hc
        cases hc
        exact ⟨rfl, by omega⟩
      · exact fun hc => hc.1
    · rename_i hk
      constructor
      · intro hc
        cases hc
      · rintro ⟨hc, hle⟩
        cases hc
        exact absurd (by omega) hk

theorem lengthAt_pos {pc n : Nat} {code : Bytes} (h : lengthAt pc code = .ok n) : 1 ≤ n :=
  (announces_of_ok (lengthAt_ok.1 h).1).pos

/-- **Bytes behind an instruction do not matter.** -/
theorem lengthAt_append {pc : Nat} {x y : Bytes} (h : lengthAt pc (x ++ y) = .ok x.length)
    (y' : Bytes) : lengthAt pc (x ++ y') = .ok x.length := by
  rw [lengthAt_ok] at h ⊢
  rw [announcedLength_eq_ok_iff] at h ⊢
  refine ⟨h.1.append (Nat.le_refl _) y', ?_⟩
  rw [List.length_append]
  omega

theorem lengthAt_plainCall {op : UInt8} (h : isPlainCall op = true) (pc : Nat) (a b : UInt8)
    (y : Bytes) : lengthAt pc (op :: a :: b :: y) = .ok 3 := by
  rw [lengthAt_ok]
  refine ⟨?_, by simp only [List.length_cons]; omega⟩
  unfold announcedLength
  simp only [shape_plainCall h]

theorem length_of_call {op : UInt8} (h : Code.isCall op = true) {pc n : Nat} {rest : Bytes}
    (hn : lengthAt pc (op :: rest) = .ok n) : 3 ≤ n := by
  obtain ⟨k, hk, h3⟩ := shape_call h
  have ha := (lengthAt_ok.1 hn).1
  unfold announcedLength at ha
  simp only [hk] at ha
  cases ha
  exact h3

end ClassAccess.Instruction
