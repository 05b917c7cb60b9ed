import SourceRename.Text.Identifier
import SourceRename.Unicode.LetterCase

/-!
# Names derived from names

A getter `getName` backs a property `name`; an accessor method `getName`, `setName`, `isName` or
`invokeName` stands for the member `name`.  The last segment of a dotted name is its simple name.
-/

namespace SourceRename.Naming

def isCapital (c : Char) : Bool := 'A' ≤ c && c ≤ 'Z'

/-- The rest of a text behind a given beginning. -/
def dropStart? : List Char → List Char → Option (List Char)
  | [], cs => some cs
  | _ :: _, [] => none
  | p :: ps, c :: cs => if p = c then dropStart? ps cs else none

theorem dropStart?_eq_some_iff {start cs rest : List Char} :
    dropStart? start cs = some rest ↔ cs = start ++ rest := by
  induction start generalizing cs with
  | nil => rw [dropStart?, Option.some.injEq, List.nil_append]
  | cons p ps ih =>
    cases cs with
    | nil => simp [dropStart?]
    | cons c cs =>
      rw [dropStart?, List.cons_append, List.cons.injEq, ← ih]
      split
      · next heq => simp [heq]
      · next hne => simp [Ne.symm hne]

def lowerFirst : List Char → List Char
  | [] => []
  | c :: cs => Unicode.lower c ++ cs

/-- Lowers the capitals a name begins with, except that of the next word: `URLReader` becomes
`urlReader`, `URL` becomes `url`, `Name` becomes `name`. -/
def lowerLead (cs : List Char) : List Char :=
  match cs.takeWhile isCapital, cs.dropWhile isCapital with
  | [], rest => rest
  | run, [] => run.map Char.toLower
  | [c], rest => c.toLower :: rest
  | run, rest => run.dropLast.map Char.toLower ++ run.getLast?.toList ++ rest

/-- The text begins like a word of its own: with a character of identifiers that is no small
letter. -/
def startsWord : List Char → Bool
  | [] => false
  | c :: _ => isIdentifierPart c && !Unicode.isSmall c

/-- The property behind a getter: `getName` backs `name`, `isName` backs `isName`. -/
def propertyOfGetter? (name : String) : Option String :=
  match dropStart? ['i', 's'] name.toList with
  | some rest => if startsWord rest then some name else none
  | none =>
    match dropStart? ['g', 'e', 't'] name.toList with
    | some rest => if startsWord rest then some (String.ofList (lowerLead rest)) else none
    | none => none

/-- What the name of an accessor method begins with. -/
def accessorStarts : List String := ["invoke", "is", "get", "set"]

def accessedMember? (name : String) : Option String :=
  accessorStarts.findSome? fun start =>
    (dropStart? start.toList name.toList).map fun rest => String.ofList (lowerFirst rest)

def lastSegment (cs : List Char) : List Char :=
  (cs.reverse.takeWhile (· ≠ '.')).reverse

def simpleName (name : String) : String := String.ofList (lastSegment name.toList)

def replaceChar (old new : Char) (text : String) : String :=
  String.ofList (text.toList.map fun c => if c = old then new else c)

/-- A class name with slashes between packages: `a/pkg/A$Inner`. -/
def internalName (name : String) : String := replaceChar '.' '/' name

/-! ### Separators -/

variable {old new : Char} {text : String}

/-- A sign that is replaced does not stay. -/
theorem notMem_replaceChar (h : old ≠ new) : old ∉ (replaceChar old new text).toList := by
  rw [replaceChar, String.toList_ofList, List.mem_map]
  rintro ⟨c, -, hc⟩
  split at hc
  · exact h hc.symm
  · next hne => exact hne hc

/-- Replacing changes nothing if there is nothing to replace. -/
theorem replaceChar_eq_self_iff (h : old ≠ new) :
    replaceChar old new text = text ↔ old ∉ text.toList := by
  constructor
  · intro hsame
    rw [← hsame]
    exact notMem_replaceChar h
  · intro hold
    have hsame : ∀ c ∈ text.toList, (if c = old then new else c) = c := fun c hc =>
      if_neg (ne_of_mem_of_not_mem hc hold)
    rw [replaceChar, List.map_congr_left hsame, List.map_id', String.ofList_toList]

/-- What was put in for a sign is taken out again, together with what stood there before. -/
theorem replaceChar_replaceChar (old new : Char) (text : String) :
    replaceChar new old (replaceChar old new text) = replaceChar new old text := by
  rw [replaceChar, replaceChar, replaceChar, String.toList_ofList, List.map_map]
  refine congrArg String.ofList (List.map_congr_left fun c _ => ?_)
  by_cases hc : c = old <;> simp [hc]

end SourceRename.Naming
