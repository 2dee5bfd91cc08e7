/-!
# Blanks and words

Words are what blanks divide. A blank is a character with the property White_Space of the Unicode
standard; there are twenty-five.

* `Blank.isBlank` -- the property;
* `Blank.words` -- the words of a text.
-/

namespace ClassAccess.Blank

/-- Whether a character is white space. -/
def isBlank (c : Char) : Bool :=
  let n := c.toNat
  (0x09 ≤ n && n ≤ 0x0D) || n = 0x20 || n = 0x85 || n = 0xA0 || n = 0x1680
    || (0x2000 ≤ n && n ≤ 0x200A) || n = 0x2028 || n = 0x2029 || n = 0x202F || n = 0x205F
    || n = 0x3000

/-- A word that may still be empty, put in front of others. -/
def cons (word : List Char) (words : List (List Char)) : List (List Char) :=
  if word.isEmpty then words else word.reverse :: words

/-- The words of a text behind one that has begun, whose characters come last one first. -/
def wordsFrom (begun : List Char) : List Char → List (List Char)
  | [] => cons begun []
  | c :: rest => if isBlank c then cons begun (wordsFrom [] rest) else wordsFrom (c :: begun) rest

/-- The words of a text: its longest parts without blanks. -/
def words (text : List Char) : List (List Char) := wordsFrom [] text

end ClassAccess.Blank
