import SourceRename.Text.Quoted
import SourceRename.Unicode.Visible

/-!
# Texts in messages

A message shows a text in double quotes.  What a literal writes with a backslash is written so, and
a character that cannot be seen by its number in braces; the character with the number zero has a
form of its own.
-/

namespace SourceRename.Shown

/-- The hexadecimal number of a character in braces. -/
def numbered (c : Char) : List Char :=
  '\\' :: 'u' :: '\x7b' :: Nat.toDigits 16 c.toNat ++ ['\x7d']

def showChar (c : Char) : List Char :=
  if c.toNat = 0 then ['\\', '0']
  else if Quoted.escapeChar c = [c] ∧ !Unicode.isVisible c then numbered c
  else Quoted.escapeChar c

def quoted (text : String) : String :=
  String.ofList (Quoted.quote :: text.toList.flatMap showChar ++ [Quoted.quote])

end SourceRename.Shown
