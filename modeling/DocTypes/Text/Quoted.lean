import DocTypes.Text.Visible

/-!
# Quoted text

A text between double quotes in which every character is visible: the quote, the backslash and some
controls have a short escape, and any other character that is not visible is written by its code
point in hexadecimal.
-/

namespace DocTypes.Quoted

/-- How the character `c` is written between the quotes: by a short escape, as itself if it
`isVisible`, or by its code point. -/
def escape (c : Char) : List Char :=
  if c = '"' then ['\\', '"']
  else if c = '\\' then ['\\', '\\']
  else if c = '\n' then ['\\', 'n']
  else if c = '\r' then ['\\', 'r']
  else if c = '\t' then ['\\', 't']
  else if c.toNat = 0 then ['\\', '0']
  else if isVisible c then [c]
  else '\\' :: 'u' :: '\x7b' :: Nat.toDigits 16 c.toNat ++ ['\x7d']

/-- A text with its quotes around it, every character written by `escape`. -/
def quote (text : String) : String :=
  String.ofList ('"' :: text.toList.flatMap escape ++ ['"'])

end DocTypes.Quoted
