import ClassAccess.Text.Unshown

/-!
# Quoted text

Some messages name a text whose bounds have to be seen. Such a text stands between quotation marks,
and the characters that would be misread there are escaped.
-/

namespace ClassAccess.Quoted

/-- A character as it stands between quotation marks. The quotation mark and the backslash are
    escaped, as are the line ends, the tabulator and the null character; other characters that do
    not show by themselves are named by their numbers. -/
def escape (c : Char) : List Char :=
  if c = '"' then ['\\', '"']
  else if c = '\\' then ['\\', '\\']
  else if c = '\n' then ['\\', 'n']
  else if c = '\r' then ['\\', 'r']
  else if c = '\t' then ['\\', 't']
  else if c = '\x00' then ['\\', '0']
  else if Unshown.isUnshown c then
    ['\\', 'u', '\x7b'] ++ Nat.toDigits 16 c.toNat ++ ['\x7d']
  else [c]

/-- A text between quotation marks. -/
def quote (s : String) : String :=
  String.ofList ('"' :: s.toList.flatMap escape ++ ['"'])

end ClassAccess.Quoted
