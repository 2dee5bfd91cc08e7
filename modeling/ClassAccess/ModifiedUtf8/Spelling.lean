import ClassAccess.ModifiedUtf8

/-!
# Which bytes spell which characters

The rules of modified UTF-8 as relations, in numbers instead of bits:

* `Triple` -- a sequence of three bytes and the value it carries;
* `Spells` -- the sequences that spell one character;
* `SpellsAll` -- the bytes that spell a text.

A character may have more than one spelling. The first bytes of a sequence tell its length, so no
bytes spell two texts.
-/

namespace ClassAccess.ModifiedUtf8

/-- A byte that stands behind the first one of a sequence. -/
def Follows (b : UInt8) : Prop := 0x80 ≤ b.toNat ∧ b.toNat ≤ 0xBF

instance (b : UInt8) : Decidable (Follows b) :=
  inferInstanceAs (Decidable (0x80 ≤ b.toNat ∧ b.toNat ≤ 0xBF))

/-- Three bytes and the sixteen-bit value they carry. -/
inductive Triple : Bytes → Nat → Prop
  | mk {a b c : UInt8} : 0xE0 ≤ a.toNat → a.toNat ≤ 0xEF → Follows b → Follows c →
      Triple [a, b, c]
        ((a.toNat - 0xE0) * 0x1000 + (b.toNat - 0x80) * 0x40 + (c.toNat - 0x80))

/-- Bytes that spell a character: one byte other than zero, two bytes, three bytes whose value is no
    surrogate, or a pair of surrogates. -/
inductive Spells : Bytes → Char → Prop
  | one {a : UInt8} : 0x01 ≤ a.toNat → a.toNat ≤ 0x7F → Spells [a] (Char.ofNat a.toNat)
  | two {a b : UInt8} : 0xC0 ≤ a.toNat → a.toNat ≤ 0xDF → Follows b →
      Spells [a, b] (Char.ofNat ((a.toNat - 0xC0) * 0x40 + (b.toNat - 0x80)))
  | three {bytes : Bytes} {v : Nat} : Triple bytes v → v < 0xD800 ∨ 0xDFFF < v →
      Spells bytes (Char.ofNat v)
  | pair {first second : Bytes} {high low : Nat} :
      Triple first high → 0xD800 ≤ high → high ≤ 0xDBFF →
      Triple second low → 0xDC00 ≤ low → low ≤ 0xDFFF →
      Spells (first ++ second)
        (Char.ofNat (0x10000 + (high - 0xD800) * 0x400 + (low - 0xDC00)))

/-- Bytes that spell a text, character by character. -/
inductive SpellsAll : Bytes → List Char → Prop
  | nil : SpellsAll [] []
  | cons {first rest : Bytes} {c : Char} {text : List Char} :
      Spells first c → SpellsAll rest text → SpellsAll (first ++ rest) (c :: text)

theorem Spells.ne_nil {bytes : Bytes} {c : Char} (h : Spells bytes c) : bytes ≠ [] := by
  cases h with
  | one => simp
  | two => simp
  | three h => cases h; simp
  | pair h => cases h; simp

end ClassAccess.ModifiedUtf8
