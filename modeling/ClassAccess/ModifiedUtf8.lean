import ClassAccess.BigEndian
import ClassAccess.Fault

/-!
# Modified UTF-8

Class files store text in a variant of UTF-8 that has no zero byte and no sequence longer than three
bytes: the null character takes two bytes, and a character beyond the sixteen-bit range is written
as a pair of surrogates of three bytes each.

* `encode` -- the bytes of a text;
* `decode` -- the text of some bytes, or the offset of the first sequence that spells nothing;
* `head?` -- one character off the front, with the number of bytes that spell it.

Reading is more liberal than writing: a two-byte sequence may spell any value below 0x800, and a
three-byte sequence may spell one that fewer bytes would do for. Of the last two bytes of a pair,
only the payload counts.
-/

namespace ClassAccess.ModifiedUtf8

/-! ## 1. Sequences -/

/-- Whether a byte has the form `10xxxxxx` of the bytes behind the first. -/
def isContinuation (b : UInt8) : Bool := b &&& 0xC0 == 0x80

/-- The value of the payload of `110xxxxx 10xxxxxx`. -/
def value2 (a b : UInt8) : Nat := (a &&& 0x1F).toNat * 0x40 + (b &&& 0x3F).toNat

/-- The value of the payload of `1110xxxx 10xxxxxx 10xxxxxx`. -/
def value3 (a b c : UInt8) : Nat :=
  (a &&& 0x0F).toNat * 0x1000 + (b &&& 0x3F).toNat * 0x40 + (c &&& 0x3F).toNat

/-- Whether a sixteen-bit value is the first half of a surrogate pair. -/
def isHighSurrogate (v : Nat) : Bool := 0xD800 ≤ v && v ≤ 0xDBFF

/-- Whether a sixteen-bit value is the second half of a surrogate pair. -/
def isLowSurrogate (v : Nat) : Bool := 0xDC00 ≤ v && v ≤ 0xDFFF

/-- The character a surrogate pair stands for. -/
def pairValue (high low : Nat) : Nat := 0x10000 + (high - 0xD800) * 0x400 + (low - 0xDC00)

/-! ## 2. Decoding -/

/-- The character of a pair whose first half is `high`: the bytes behind it have to start as a
    three-byte sequence does, and their payload has to be a second half. -/
def pairAfter? (high : Nat) : Bytes → Option Char
  | d :: e :: f :: _ =>
    if d &&& 0xF0 = 0xE0 ∧ isLowSurrogate (value3 d e f) then
      some (Char.ofNat (pairValue high (value3 d e f)))
    else none
  | _ => none

/-- The first character of some bytes and the number of bytes that spell it. There is none when
    the bytes start with a zero byte, with a byte that starts no sequence, with a sequence that is
    cut off or broken, or with a surrogate that has no partner. -/
def head? : Bytes → Option (Char × Nat)
  | [] => none
  | a :: rest =>
    if a = 0 then none
    else if a &&& 0x80 = 0 then some (Char.ofNat a.toNat, 1)
    else if a &&& 0xE0 = 0xC0 then
      match rest with
      | b :: _ => if isContinuation b then some (Char.ofNat (value2 a b), 2) else none
      | [] => none
    else if a &&& 0xF0 = 0xE0 then
      match rest with
      | b :: c :: rest =>
        if isContinuation b && isContinuation c then
          if isHighSurrogate (value3 a b c) then
            (pairAfter? (value3 a b c) rest).map fun ch => (ch, 6)
          else if isLowSurrogate (value3 a b c) then none
          else some (Char.ofNat (value3 a b c), 3)
        else none
      | _ => none
    else none

/-- Takes characters off the front until nothing is left, gathering them with the last one first.
    `offset` is the place of the first byte that is left. -/
def decodeFrom (offset : Nat) (acc : List Char) : Bytes → Except Fault (List Char)
  | [] => .ok acc
  | a :: rest =>
    match head? (a :: rest) with
    | none => .error (.invalidText offset)
    | some (ch, n) => decodeFrom (offset + n) (ch :: acc) (rest.drop (n - 1))
termination_by data => data.length
decreasing_by simp only [List.length_drop, List.length_cons]; omega

/-- The text that bytes spell. `base` is the offset of the first byte, which only a fault shows. -/
def decode (base : Nat) (data : Bytes) : Except Fault String :=
  match decodeFrom base [] data with
  | .ok chars => .ok (String.ofList chars.reverse)
  | .error fault => .error fault

/-! ## 3. Encoding -/

/-- The three bytes with a payload of sixteen bits. -/
def bytes3 (v : Nat) : Bytes :=
  [0xE0 ||| (v / 0x1000).toUInt8, 0x80 ||| (v / 0x40 % 0x40).toUInt8, 0x80 ||| (v % 0x40).toUInt8]

/-- The bytes of one character, as few as the format allows. -/
def encodeChar (c : Char) : Bytes :=
  let v := c.toNat
  if 1 ≤ v ∧ v ≤ 0x7F then [v.toUInt8]
  else if v ≤ 0x7FF then [0xC0 ||| (v / 0x40).toUInt8, 0x80 ||| (v % 0x40).toUInt8]
  else if v ≤ 0xFFFF then bytes3 v
  else bytes3 (0xD800 + (v - 0x10000) / 0x400) ++ bytes3 (0xDC00 + (v - 0x10000) % 0x400)

/-- The bytes of a text. -/
def encode (s : String) : Bytes := s.toList.flatMap encodeChar

end ClassAccess.ModifiedUtf8
