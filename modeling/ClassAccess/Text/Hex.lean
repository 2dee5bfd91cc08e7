/-!
# Hexadecimal numbers

Offsets, opcodes and magic numbers are shown in lower-case hexadecimal after `0x`:

* `Hex.digits n` -- the digits of `n`, at least one;
* `Hex.padded width n` -- the same, filled up with zeros on the left to `width` digits.
-/

namespace ClassAccess.Hex

/-- The lower-case hexadecimal digits of a number, without leading zeros. -/
def digits (n : Nat) : String := String.ofList (Nat.toDigits 16 n)

/-- A number after `0x`, with as many digits as it needs. -/
def shown (n : Nat) : String := "0x" ++ digits n

/-- A number after `0x`, with zeros in front of it up to `width` digits. -/
def padded (width n : Nat) : String :=
  let ds := Nat.toDigits 16 n
  "0x" ++ String.ofList (List.replicate (width - ds.length) '0' ++ ds)

end ClassAccess.Hex
