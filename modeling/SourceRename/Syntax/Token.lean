import SourceRename.Text.Bytes
import SourceRename.Text.Identifier
import SourceRename.Syntax.Kind

/-!
# Tokens

`tokenize` cuts a text into tokens.  Every token is the longest one that begins where the previous
one ended, and text that begins no token becomes a token of kind `error`, so nothing is lost.

`Lexeme.read` looks at the first character of what is left and at the rest, and says what the
token is and how many characters belong to it after the first.  A comment in `/*` is never read as
a comment: it is an `error` up to the star of the next `*/`.

Words are told apart byte by byte.  A keyword is one only where the byte after it cannot go on with
a name: in front of any other character that begins with such a byte it is a plain name, although
that character does not belong to it.
-/

namespace SourceRename

/-- A piece of the text, with the offset at which it starts. -/
structure Token where
  kind : Kind
  text : String
  start : Nat
deriving DecidableEq

namespace Token

def stop (t : Token) : Nat := t.start + t.text.utf8ByteSize

def span (t : Token) : Span := Span.ofWidth t.start t.text.utf8ByteSize

end Token

namespace Lexeme

def isBlank (c : Char) : Bool :=
  c == ' ' || c == '\t' || c == '\r' || c == '\n' || c == '\x0c'

def isDigitOrLow (c : Char) : Bool := isDigit c || c == '_'

def isHexOrLow (c : Char) : Bool :=
  isDigitOrLow c || ('a' ≤ c && c ≤ 'f') || ('A' ≤ c && c ≤ 'F')

/-- How many characters at the beginning satisfy a predicate. -/
def run (p : Char → Bool) (cs : List Char) : Nat := (cs.takeWhile p).length

/-- One if the text begins with one of the characters, else zero. -/
def optional (letters : List Char) : List Char → Nat
  | [] => 0
  | c :: _ => if c ∈ letters then 1 else 0

/-- Length of an exponent: a letter, perhaps a sign, and at least one digit. -/
def exponent (cs : List Char) : Nat :=
  if optional ['e', 'E'] cs = 0 then 0
  else
    let sign := optional ['+', '-'] (cs.drop 1)
    let digits := run isDigit (cs.drop (1 + sign))
    if digits = 0 then 0 else 1 + sign + digits

def number (c : Char) (cs : List Char) : Kind × Nat :=
  let hex := run isHexOrLow (cs.drop 1)
  if c = '0' ∧ optional ['x', 'X'] cs = 1 ∧ hex ≠ 0 then
    (.integer, 1 + hex + optional ['l', 'L'] (cs.drop (1 + hex)))
  else
    let whole := run isDigitOrLow cs
    let rest := cs.drop whole
    let fraction := (rest.drop 1).takeWhile isDigitOrLow
    if rest.head? = some '.' ∧ fraction.head?.any isDigit then
      let length := whole + 1 + fraction.length
      let length := length + exponent (cs.drop length)
      (.decimal, length + optional ['f', 'F', 'd', 'D'] (cs.drop length))
    else
      let power := exponent rest
      let size := optional ['f', 'F', 'd', 'D'] (rest.drop power)
      if power + size ≠ 0 then (.decimal, whole + power + size)
      else (.integer, whole + optional ['l', 'L'] rest)

/-- How many characters stand between a quote and the next one: all but quotes, newlines and
backslashes, and pairs of a backslash and anything but a newline. -/
def quotedBody (quote : Char) : List Char → Nat
  | [] => 0
  | ['\\'] => 0
  | '\\' :: d :: cs => if d = '\n' then 0 else 2 + quotedBody quote cs
  | c :: cs => if c = quote ∨ c = '\n' then 0 else 1 + quotedBody quote cs

/-- A literal behind its quote; an error if the other quote is missing. -/
def quoted (kind : Kind) (quote : Char) (cs : List Char) : Kind × Nat :=
  let body := quotedBody quote cs
  if (cs.drop body).head? = some quote then (kind, body + 1) else (.error, body)

/-- The sign around a name that may hold any character. -/
def backtick : Char := '\x60'

/-- A name in backticks behind the first of them; an error if it is empty or not closed. -/
def quotedName (cs : List Char) : Kind × Nat :=
  let body := run (fun c => c != backtick && c != '\n') cs
  if body ≠ 0 ∧ (cs.drop body).head? = some backtick then (.ident, body + 1) else (.error, body)

/-- How many characters there are up to the star of the first `*/`, or in all. -/
def commentBody : List Char → Nat
  | [] => 0
  | '*' :: '/' :: _ => 1
  | _ :: cs => 1 + commentBody cs

/-- Signs and their kinds, the longer ones first. -/
def signs : List (String × Kind) := [
  ("...", .ellipsis),
  ("::", .colonColon), ("->", .arrow), ("==", .eqEq), ("!=", .bangEq), ("<=", .ltEq),
  (">=", .gtEq), ("&&", .ampAmp), ("||", .pipePipe), ("++", .plusPlus), ("--", .minusMinus),
  ("+=", .plusEq), ("-=", .minusEq), ("*=", .starEq), ("/=", .slashEq),
  ("\x7b", .lBrace), ("\x7d", .rBrace), ("[", .lBracket), ("]", .rBracket), ("(", .lParen),
  (")", .rParen), (";", .semicolon), (",", .comma), (".", .dot), ("@", .at), (":", .colon),
  ("?", .question), ("=", .eq), ("<", .lt), (">", .gt), ("+", .plus), ("-", .minus),
  ("*", .star), ("/", .slash), ("%", .percent), ("&", .amp), ("|", .pipe), ("^", .caret),
  ("!", .bang), ("~", .tilde)]

/-- The longest sign at the beginning; a character that begins none is an error. -/
def sign (c : Char) (cs : List Char) : Kind × Nat :=
  match signs.find? fun s => s.1.toList.isPrefixOf (c :: cs) with
  | some s => (s.2, s.1.length - 1)
  | none => (.error, 0)

/-- The character begins in UTF-8 with a byte that also begins a character of a name outside
ASCII. -/
def looksLikeNamePart (c : Char) : Bool :=
  0x80 ≤ c.toNat &&
    Unicode.CodeRange.memLead (Unicode.identifierStart ++ Unicode.identifierPart) c.toNat

def wordKind (word : String) (rest : List Char) : Kind :=
  if rest.head?.any looksLikeNamePart then .ident else Kind.ofWord word

/-- The kind of the token that begins with `c`, and how many characters it has after `c`. -/
def read (c : Char) (cs : List Char) : Kind × Nat :=
  if isBlank c then (.whitespace, run isBlank cs)
  else if isNameStart c then
    let rest := cs.takeWhile isNamePart
    (wordKind (String.ofList (c :: rest)) (cs.dropWhile isNamePart), rest.length)
  else if isDigit c then number c cs
  else if c = '\x22' then quoted .string c cs
  else if c = '\x27' then quoted .char c cs
  else if c = backtick then quotedName cs
  else if c = '/' ∧ cs.head? = some '/' then (.lineComment, run (· != '\n') cs)
  else if c = '/' ∧ cs.head? = some '*' then (.error, 1 + commentBody (cs.drop 1))
  else sign c cs

end Lexeme

/-- The tokens of a text that begins at offset `start`; its first `skip` characters belong to the
token before it. -/
def tokensFrom (start skip : Nat) : List Char → List Token
  | [] => []
  | c :: cs =>
    match skip with
    | skip + 1 => tokensFrom (start + c.utf8Size) skip cs
    | 0 =>
      let (kind, more) := Lexeme.read c cs
      ⟨kind, String.ofList (c :: cs.take more), start⟩ ::
        tokensFrom (start + c.utf8Size) more cs

def tokenize (text : String) : List Token := tokensFrom 0 0 text.toList

end SourceRename
