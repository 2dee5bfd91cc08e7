import ClassAccess.BigEndian

/-!
# Words and their bytes

A word and its bytes say the same:

* `toNat_word16`, `toNat_word32`, `toNat_word64` -- the value of a word, counted in its parts;
* `bytes16_word16`, `word16_bytes16` -- **the two directions undo each other**;
* `word32_bytes32`, `word64_halves` -- longer words are read back from their parts too;
* `bytes32_word32`, `bytes64_word64` -- and are written in the parts that they were read from.
-/

namespace ClassAccess.BigEndian

/-! ## 1. Words of two bytes -/

theorem toNat_word16 (a b : UInt8) : (word16 a b).toNat = a.toNat * 0x100 + b.toNat := by
  have ha := a.toNat_lt
  have hb := b.toNat_lt
  simp only [word16, UInt16.toNat_or, UInt16.toNat_shiftLeft, UInt8.toNat_toUInt16]
  rw [show (8 : UInt16).toNat % 16 = 8 from rfl, Nat.shiftLeft_eq, Nat.mod_eq_of_lt (by omega),
    Nat.mul_comm, ← Nat.two_pow_add_eq_or_of_lt (by omega)]

@[simp] theorem bytes16_word16 (a b : UInt8) : bytes16 (word16 a b) = [a, b] := by
  have ha := a.toNat_lt
  have hb := b.toNat_lt
  simp only [bytes16, List.cons.injEq, and_true, ← UInt8.toNat_inj]
  refine ⟨?_, ?_⟩
  · rw [UInt16.toNat_toUInt8, UInt16.toNat_shiftRight, toNat_word16]
    simp [Nat.shiftRight_eq_div_pow]
    omega
  · rw [UInt16.toNat_toUInt8, toNat_word16]
    omega

@[simp] theorem word16_bytes16 (w : UInt16) : word16 (w >>> 8).toUInt8 w.toUInt8 = w := by
  have hw := w.toNat_lt
  rw [← UInt16.toNat_inj, toNat_word16, UInt16.toNat_toUInt8, UInt16.toNat_toUInt8,
    UInt16.toNat_shiftRight]
  simp [Nat.shiftRight_eq_div_pow]
  omega

/-! ## 2. Longer words -/

theorem toNat_word32 (a b c d : UInt8) :
    (word32 a b c d).toNat = (word16 a b).toNat * 0x10000 + (word16 c d).toNat := by
  have hhigh := (word16 a b).toNat_lt
  have hlow := (word16 c d).toNat_lt
  simp only [word32, UInt32.toNat_or, UInt32.toNat_shiftLeft, UInt16.toNat_toUInt32]
  rw [show (16 : UInt32).toNat % 32 = 16 from rfl, Nat.shiftLeft_eq, Nat.mod_eq_of_lt (by omega),
    Nat.mul_comm, ← Nat.two_pow_add_eq_or_of_lt (by omega)]

theorem word32_bytes32 (w : UInt32) :
    word32 (w >>> 24).toUInt8 (w >>> 16).toUInt8 (w >>> 8).toUInt8 w.toUInt8 = w := by
  have hw := w.toNat_lt
  rw [← UInt32.toNat_inj, toNat_word32, toNat_word16, toNat_word16]
  simp only [UInt32.toNat_toUInt8, UInt32.toNat_shiftRight]
  simp [Nat.shiftRight_eq_div_pow]
  omega

@[simp] theorem bytes32_word32 (a b c d : UInt8) : bytes32 (word32 a b c d) = [a, b, c, d] := by
  have ha := a.toNat_lt
  have hb := b.toNat_lt
  have hc := c.toNat_lt
  have hd := d.toNat_lt
  simp only [bytes32, List.cons.injEq, and_true, ← UInt8.toNat_inj, UInt32.toNat_toUInt8,
    UInt32.toNat_shiftRight, toNat_word32, toNat_word16]
  simp [Nat.shiftRight_eq_div_pow]
  omega

theorem toNat_word64 (upper lower : UInt32) :
    (word64 upper lower).toNat = upper.toNat * 0x100000000 + lower.toNat := by
  have hupper := upper.toNat_lt
  have hlower := lower.toNat_lt
  simp only [word64, UInt64.toNat_or, UInt64.toNat_shiftLeft, UInt32.toNat_toUInt64]
  rw [show (32 : UInt64).toNat % 64 = 32 from rfl, Nat.shiftLeft_eq, Nat.mod_eq_of_lt (by omega),
    Nat.mul_comm, ← Nat.two_pow_add_eq_or_of_lt (by omega)]

theorem word64_halves (w : UInt64) : word64 (w >>> 32).toUInt32 w.toUInt32 = w := by
  have hw := w.toNat_lt
  rw [← UInt64.toNat_inj, toNat_word64]
  simp only [UInt64.toNat_toUInt32, UInt64.toNat_shiftRight]
  simp [Nat.shiftRight_eq_div_pow]
  omega

@[simp] theorem bytes64_word64 (upper lower : UInt32) :
    bytes64 (word64 upper lower) = bytes32 upper ++ bytes32 lower := by
  have hupper := upper.toNat_lt
  have hlower := lower.toNat_lt
  have hhigh : (word64 upper lower >>> 32).toUInt32 = upper := by
    rw [← UInt32.toNat_inj, UInt64.toNat_toUInt32, UInt64.toNat_shiftRight, toNat_word64]
    simp [Nat.shiftRight_eq_div_pow]
    omega
  have hlow : (word64 upper lower).toUInt32 = lower := by
    rw [← UInt32.toNat_inj, UInt64.toNat_toUInt32, toNat_word64]
    omega
  rw [bytes64, hhigh, hlow]

end ClassAccess.BigEndian
