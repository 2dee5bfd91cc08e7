import ClassAccess.Machine
import ClassAccess.ModifiedUtf8

/-!
# Text decoded on a machine

The bytes of a text are read by their places: how many there are is looked at before those behind
the first one of a character are.

* `Machine.headAt` -- the character at a place, with the number of bytes that spell it;
* `Machine.decode` -- the text that bytes spell.
-/

namespace ClassAccess.Machine

open ModifiedUtf8

variable [Words]

/-- The character of a pair that starts at `pos` and whose first half is `high`. -/
def pairAt (text : Bytes) (pos high : Nat) : Machine (Option Char) := do
  if (← sum pos 5) < text.length then
    let d ← nth text (← sum pos 3)
    if d &&& 0xF0 = 0xE0 then
      let e ← nth text (← sum pos 4)
      let f ← nth text (← sum pos 5)
      let low := value3 d e f
      if isLowSurrogate low then
        let value := 0x10000 + (← difference high 0xD800) * 0x400 + (← difference low 0xDC00)
        return some (Char.ofNat (← below 0x100000000 value))
      else return none
    else return none
  else return none

/-- The character at `pos`, where there is a byte, and the number of bytes that spell it. -/
def headAt (text : Bytes) (pos : Nat) : Machine (Option (Char × Nat)) := do
  let a ← nth text pos
  if a = 0 then return none
  else if a &&& 0x80 = 0 then return some (Char.ofNat a.toNat, 1)
  else if a &&& 0xE0 = 0xC0 then
    if text.length ≤ (← sum pos 1) then return none
    else
      let b ← nth text (← sum pos 1)
      if isContinuation b then return some (Char.ofNat (value2 a b), 2) else return none
  else if a &&& 0xF0 = 0xE0 then
    if text.length ≤ (← sum pos 2) then return none
    else
      let b ← nth text (← sum pos 1)
      let c ← nth text (← sum pos 2)
      if isContinuation b && isContinuation c then
        let value := value3 a b c
        if isHighSurrogate value then
          return (← pairAt text pos value).map fun ch => (ch, 6)
        else if isLowSurrogate value then return none
        else return some (Char.ofNat value, 3)
      else return none
  else return none

/-- Steps from character to character, at most as often as told. -/
def decodeFrom (base : Nat) (text : Bytes) : (turns pos : Nat) → List Char → Machine (List Char)
  | 0, pos, found => if pos < text.length then trapped .endless else return found
  | turns + 1, pos, found =>
    if pos < text.length then do
      match ← headAt text pos with
      | none => failed (.invalidText (← sum base pos))
      | some (ch, n) => decodeFrom base text turns (← sum pos n) (ch :: found)
    else return found

/-- The text that bytes spell. `base` is the place of the first byte. -/
def decode (base : Nat) (text : Bytes) : Machine String := do
  let found ← decodeFrom base text text.length 0 []
  return String.ofList found.reverse

end ClassAccess.Machine
