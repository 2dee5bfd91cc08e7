import ClassAccess.Structured.Yaml.Number

/-!
# Texts in YAML

A text can be written in four styles, and is written in the first one that keeps it as it is:

* plain, with nothing around it;
* between apostrophes, if it would be read as something else without them;
* as a literal block, line by line, if it holds a line feed;
* between quotation marks, with escapes, if some character cannot stand as it is.

`Yaml.style` chooses the style and `Yaml.scalar` writes the text.
-/

namespace ClassAccess.Yaml

/-- How a text is written. -/
inductive Style
  | plain
  | apostrophes
  | literal
  | quotationMarks
  deriving DecidableEq, Repr

/-! ## 1. Characters -/

/-- Whether a character ends a line. -/
def isBreak (c : Char) : Bool :=
  c = '\n' || c = '\r' || c = '\x85' || c = '\u2028' || c = '\u2029'

/-- Whether a character may stand in a document as it is. -/
def isPrintable (c : Char) : Bool :=
  let n := c.toNat
  n = 0x0A || (0x20 ≤ n && n ≤ 0x7E)
    || (0xA0 ≤ n && n ≠ 0xFEFF && n ≠ 0xFFFE && n ≠ 0xFFFF)

/-- Whether a character of one kind stands directly in front of one of another kind. -/
def adjacent (p q : Char → Bool) : List Char → Bool
  | a :: b :: rest => (p a && q b) || adjacent p q (b :: rest)
  | _ => false

/-! ## 2. Styles -/

/-- The words for null and the truth values. -/
def reserved : List String :=
  ["null", "Null", "NULL", "~", "true", "True", "TRUE", "false", "False", "FALSE"]

/-- Whether a text would be read as something other than a text. -/
def isAmbiguous (text : List Char) : Bool :=
  text.isEmpty || reserved.contains (String.ofList text) || isNumber text

/-- The characters that mean something at the front of a text. -/
def indicators : List Char :=
  ['#', ',', '[', ']', '\x7b', '\x7d', '&', '*', '!', '|', '>', '\'', '"', '%', '@', '\x60']

/-- Whether a text would be taken for structure: it starts with a character that means something,
    or starts or ends a document, or could be a key, an item or a comment. -/
def isStructure (text : List Char) : Bool :=
  text.head?.any (indicators.contains ·) || "---".toList.isPrefixOf text
    || "...".toList.isPrefixOf text || text = ['-'] || text = ['?']
    || "- ".toList.isPrefixOf text || "? ".toList.isPrefixOf text
    || text.getLast? = some ':' || adjacent (· = ':') (· = ' ') text
    || adjacent (· = ' ') (· = '#') text

/-- Whether a text has a space at one of its ends. -/
def isPadded (text : List Char) : Bool := text.head? = some ' ' || text.getLast? = some ' '

/-- Whether a text needs escapes: a character cannot stand as it is, or a space would be lost at the
    end of a line. -/
def needsEscapes (text : List Char) : Bool :=
  !text.all isPrintable || adjacent (· = ' ') isBreak text

/-- **The style of a text.** Between apostrophes a space would be lost at the front of a line, in
    a literal block at the end of the text. -/
def style (text : List Char) : Style :=
  if needsEscapes text then .quotationMarks
  else if text.contains '\n' then
    if text.getLast? = some ' ' then .quotationMarks else .literal
  else if isAmbiguous text || isStructure text || isPadded text || text.any isBreak then
    if adjacent isBreak (· = ' ') text then .quotationMarks else .apostrophes
  else .plain

/-! ## 3. Writing -/

/-- The spaces in front of a line. -/
def margin (indent : Nat) : List Char := List.replicate indent ' '

/-- Characters with `indent` spaces in front of every line that is not empty. Each character stands
    as `spell` writes it; `fresh` tells whether a line has just begun. -/
def indented (indent : Nat) (spell : Char → List Char) (fresh : Bool) : List Char → List Char
  | [] => []
  | c :: rest =>
    if isBreak c then c :: indented indent spell true rest
    else (if fresh then margin indent else []) ++ spell c ++ indented indent spell false rest

/-- An apostrophe is written twice. -/
def doubleApostrophe (c : Char) : List Char := if c = '\'' then [c, c] else [c]

/-- A text between apostrophes. -/
def betweenApostrophes (indent : Nat) (text : List Char) : List Char :=
  '\'' :: indented indent doubleApostrophe false text
    ++ (if text.getLast?.any isBreak then margin indent else []) ++ ['\'']

/-- The mark in front of a literal block: how far it is indented, if its first line does not show
    that, and what becomes of the line ends behind the text. Unmarked, one is kept. -/
def literalMark (text : List Char) : List Char :=
  (if text.head?.any fun c => c = ' ' || isBreak c then ['2'] else [])
    ++ match text.reverse with
      | [] => ['-']
      | [c] => if isBreak c then ['+'] else ['-']
      | c :: before :: _ => if !isBreak c then ['-'] else if isBreak before then ['+'] else []

/-- A text as a literal block. -/
def literalBlock (indent : Nat) (text : List Char) : List Char :=
  '|' :: literalMark text ++ '\n' :: indented indent (fun c => [c]) true text

/-- The letter of a character that has an escape of its own. -/
def escapeLetter? (n : Nat) : Option Char :=
  [(0x00, '0'), (0x07, 'a'), (0x08, 'b'), (0x09, 't'), (0x0A, 'n'), (0x0B, 'v'), (0x0C, 'f'),
    (0x0D, 'r'), (0x1B, 'e'), (0x22, '"'), (0x5C, '\\'), (0x85, 'N'), (0xA0, '_'), (0x2028, 'L'),
    (0x2029, 'P')].lookup n

/-- A number in hexadecimal digits, filled up with zeros. -/
def hexDigits (width n : Nat) : List Char :=
  let digits := (Nat.toDigits 16 n).map Char.toUpper
  List.replicate (width - digits.length) '0' ++ digits

/-- A character between quotation marks. -/
def escape (c : Char) : List Char :=
  if isPrintable c && !isBreak c && c ≠ '"' && c ≠ '\\' then [c]
  else
    match escapeLetter? c.toNat with
    | some letter => ['\\', letter]
    | none =>
      if c.toNat ≤ 0xFF then '\\' :: 'x' :: hexDigits 2 c.toNat
      else if c.toNat ≤ 0xFFFF then '\\' :: 'u' :: hexDigits 4 c.toNat
      else '\\' :: 'U' :: hexDigits 8 c.toNat

/-- A text between quotation marks. -/
def betweenQuotationMarks (text : List Char) : List Char := '"' :: text.flatMap escape ++ ['"']

/-- **A text as it is written.** Lines behind the first one are indented. -/
def scalar (indent : Nat) (s : String) : String :=
  let text := s.toList
  match style text with
  | .plain => s
  | .apostrophes => String.ofList (betweenApostrophes indent text)
  | .literal => String.ofList (literalBlock indent text)
  | .quotationMarks => String.ofList (betweenQuotationMarks text)

/-! ## 4. Tags -/

/-- Whether a character stands for itself in a tag. -/
def isTagChar (c : Char) : Bool := c.isAlphanum || "-_;/?:@&=+$,.~*'()[]".toList.contains c

/-- A word in a tag: characters that do not stand for themselves are named by their bytes. -/
def tagWord (word : List Char) : List Char :=
  word.flatMap fun c =>
    if isTagChar c then [c]
    else (String.singleton c).toUTF8.data.toList.flatMap fun b => '%' :: hexDigits 2 b.toNat

/-- A tag. It starts with an exclamation mark, which may be part of the word already; one that is
    nothing else is bracketed. A null character ends the word. -/
def tag (word : String) : String :=
  String.ofList <|
    match word.toList.takeWhile (· ≠ '\x00') with
    | [] | ['!'] => "!<%21>".toList
    | '!' :: rest => '!' :: tagWord rest
    | text => '!' :: tagWord text

end ClassAccess.Yaml
