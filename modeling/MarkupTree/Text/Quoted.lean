import MarkupTree.Unicode.Unprintable

/-!
# Quoted texts

How a message shows a text: between quotation marks, with a backslash before quotation marks and
backslashes, short escapes for the null character and the usual blanks, and the code in braces for
all else that would not show.
-/

namespace MarkupTree.Text

/-- One character inside the quotation marks. -/
def quotedChar (c : Char) : List Char :=
  if c = '"' then ['\\', '"']
  else if c = '\\' then ['\\', '\\']
  else if c = '\n' then ['\\', 'n']
  else if c = '\r' then ['\\', 'r']
  else if c = '\t' then ['\\', 't']
  else if c.toNat = 0 then ['\\', '0']
  else if Unicode.isHidden c then '\\' :: 'u' :: '{' :: Nat.toDigits 16 c.toNat ++ ['}']
  else [c]

/-- The text between quotation marks. -/
def quoted (s : String) : String :=
  String.ofList ('"' :: s.toList.flatMap quotedChar ++ ['"'])

end MarkupTree.Text
