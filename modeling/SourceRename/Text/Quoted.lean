/-!
# String literals

Inside double quotes five characters are written as a backslash and a letter (`letters`).  A reader
takes any other character behind a backslash as itself, so `unescape` reads more than `escape`
writes; what `escape` writes reads back (`unescape_escape`).
-/

namespace SourceRename.Quoted

def quote : Char := '\x22'

/-- The characters that are written with a backslash, each beside the letter that follows it. -/
def letters : List (Char × Char) :=
  [(quote, quote), ('\\', '\\'), ('\n', 'n'), ('\r', 'r'), ('\t', 't')]

def escapeChar (c : Char) : List Char :=
  match letters.find? (·.1 = c) with
  | some entry => ['\\', entry.2]
  | none => [c]

/-- The character that a letter behind a backslash stands for. -/
def unescapeChar (letter : Char) : Char :=
  ((letters.find? (·.2 = letter)).map (·.1)).getD letter

/-- Reads the text between the quotes; a backslash at the end is refused. -/
def unescape : List Char → Option (List Char)
  | [] => some []
  | ['\\'] => none
  | '\\' :: c :: cs => (unescape cs).map (unescapeChar c :: ·)
  | c :: cs => (unescape cs).map (c :: ·)

def escape (text : String) : String := String.ofList (text.toList.flatMap escapeChar)

def literal (text : String) : String :=
  String.ofList (quote :: text.toList.flatMap escapeChar ++ [quote])

def value? (literal : String) : Option String :=
  match literal.toList with
  | [] => none
  | c :: cs =>
    if c = quote ∧ cs.getLast? = some quote then (unescape cs.dropLast).map String.ofList else none

/-- No two characters share a letter. -/
theorem unescapeChar_of_mem : ∀ entry ∈ letters, unescapeChar entry.2 = entry.1 := by decide

theorem unescape_escapeChar (c : Char) (cs : List Char) :
    unescape (escapeChar c ++ cs) = (unescape cs).map (c :: ·) := by
  unfold escapeChar
  split
  · next entry h =>
    have hc : entry.1 = c := by simpa using List.find?_some h
    rw [← hc, ← unescapeChar_of_mem entry (List.mem_of_find?_eq_some h)]
    rfl
  · next h =>
    have hc : c ≠ '\\' := by
      intro hc
      exact List.find?_eq_none.1 h ('\\', '\\') (by decide) (by simp [hc])
    rw [List.singleton_append, unescape]
    · exact fun h _ => hc h
    · exact fun _ _ h _ => hc h

theorem unescape_escape (cs : List Char) : unescape (cs.flatMap escapeChar) = some cs := by
  induction cs with
  | nil => rfl
  | cons c cs ih => rw [List.flatMap_cons, unescape_escapeChar, ih]; rfl

end SourceRename.Quoted
