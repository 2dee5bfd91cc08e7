/-!
# Texts that look like numbers

YAML reads a text without quotes as a number if it looks like one: `Yaml.isNumber`. Numbers are

* integers, in decimal digits or in digits of a base that is named (`0x1F`, `0o17`, `0b11`);
* decimal numbers that are not too big for 64 bits of floating point (`1.5`, `1e5`, `.5`);
* infinity and what is no number (`.inf`, `.nan`).

A zero in front of other digits does not make a number, but other readers may think so.
-/

namespace ClassAccess.Yaml

/-- A text without the sign in front of it. -/
def unsigned : List Char → List Char
  | '+' :: rest => rest
  | '-' :: rest => rest
  | text => text

/-- Whether a character is a decimal digit. -/
def isDigit (c : Char) : Bool := '0' ≤ c && c ≤ '9'

/-- The value of a digit of some base up to sixteen. -/
def digit? (base : Nat) (c : Char) : Option Nat :=
  let v :=
    if isDigit c then c.toNat - '0'.toNat
    else if 'a' ≤ c && c ≤ 'f' then c.toNat - 'a'.toNat + 10
    else if 'A' ≤ c && c ≤ 'F' then c.toNat - 'A'.toNat + 10
    else 16
  if v < base then some v else none

/-- The value of digits of some base; there has to be at least one. -/
def natural? (base : Nat) (digits : List Char) : Option Nat :=
  if digits.isEmpty then none
  else digits.foldlM (fun n c => (digit? base c).map fun d => n * base + d) 0

/-- Whether a text is a zero followed by digits, with or without a sign. -/
def hasLeadingZero (text : List Char) : Bool :=
  match unsigned text with
  | '0' :: c :: rest => (c :: rest).all isDigit
  | _ => false

/-- The base that a letter behind a zero stands for. -/
def base? : Char → Option Nat
  | 'x' => some 16
  | 'o' => some 8
  | 'b' => some 2
  | _ => none

/-- Whether a text is an integer with a named base, small enough for 128 bits. -/
def isBasedInteger (text : List Char) : Bool :=
  let limit := if text.head? = some '-' then Nat.pow 2 127 + 1 else Nat.pow 2 128
  match unsigned text with
  | '0' :: letter :: digits =>
    match base? letter with
    | some base => (natural? base digits).any (· < limit)
    | none => false
  | _ => false

/-- Whether `mantissa · 10 ^ exponent` is closer to a binary floating-point number of 64 bits than
    to infinity. The numbers of digits decide unless the value is near the limit. -/
def isFinite (mantissa : Nat) (exponent : Int) : Bool :=
  let magnitude := (Nat.toDigits 10 mantissa).length + exponent
  if mantissa = 0 || magnitude < 300 then true
  else if 310 < magnitude then false
  else
    mantissa * Nat.pow 10 exponent.toNat
      < (Nat.pow 2 1024 - Nat.pow 2 970) * Nat.pow 10 (-exponent).toNat

/-- The exponent at the end of a decimal number; nothing stands for zero. -/
def exponent? : List Char → Option Int
  | [] => some 0
  | c :: rest =>
    if c = 'e' || c = 'E' then
      (natural? 10 (unsigned rest)).map fun n => if rest.head? = some '-' then -n else n
    else none

/-- The part of a decimal number behind its integer digits: the digits behind the point, and what
    follows them. -/
def fraction : List Char → List Char × List Char
  | '.' :: rest => (rest.takeWhile isDigit, rest.dropWhile isDigit)
  | rest => ([], rest)

/-- Whether a text without a sign is a decimal number of finite value. -/
def isDecimal (text : List Char) : Bool :=
  let whole := text.takeWhile isDigit
  let (places, rest) := fraction (text.dropWhile isDigit)
  match natural? 10 (whole ++ places), exponent? rest with
  | some mantissa, some exponent => isFinite mantissa (exponent - places.length)
  | _, _ => false

/-- Whether a text is one of the names of infinity and of what is no number. -/
def isSpecialNumber (text : List Char) : Bool :=
  [".inf", ".Inf", ".INF"].any (·.toList = unsigned text)
    || [".nan", ".NaN", ".NAN"].any (·.toList = text)

/-- Whether a text would be read as a number. -/
def isNumber (text : List Char) : Bool :=
  hasLeadingZero text || isBasedInteger text || isDecimal (unsigned text) || isSpecialNumber text

end ClassAccess.Yaml
