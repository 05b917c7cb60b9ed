import SourceRename.Edit.Pending
import SourceRename.Text.Bytes

/-!
# Applying replacements

Replacements are taken from the end of the text backwards.  One that reaches into a replacement
already taken, or behind the end of the text, is refused and becomes a `Conflict`.  `splice?` then
writes the text with the replacements taken; it has no answer if one of them begins or ends inside
a character.
-/

namespace SourceRename

/-- A refused replacement, with the span of the one it collided with, if any. -/
structure Conflict where
  span : Span
  text : String
  existing : Option Span
deriving DecidableEq

/-- Which replacements are taken and which are refused, both in ascending order. -/
structure EditPlan where
  applied : List Edit
  conflicts : List Conflict

namespace EditPlan

/-- Where the next replacement must end: before the start of the last one taken, or at the end of
the text. -/
def limit (length : Nat) (p : EditPlan) : Nat :=
  match p.applied with
  | [] => length
  | e :: _ => e.span.start

def add (length : Nat) (e : Edit) (p : EditPlan) : EditPlan :=
  if p.limit length < e.span.stop then
    { p with conflicts := ⟨e.span, e.text, p.applied.head?.map (·.span)⟩ :: p.conflicts }
  else { p with applied := e :: p.applied }

end EditPlan

namespace Edits

def plan (es : Edits) (length : Nat) : EditPlan :=
  es.toList.foldr (EditPlan.add length) ⟨[], []⟩

/-- The rest of a text, from offset `start` on, with replacements put in. -/
def splice? (start : Nat) (rest : List Char) : List Edit → Option (List Char)
  | [] => some rest
  | e :: es => do
    let (kept, rest) ← splitBytes? (e.span.start - start) rest
    let (_, rest) ← splitBytes? e.span.width rest
    let tail ← splice? e.span.stop rest es
    return kept ++ e.text.toList ++ tail

/-- The text with the replacements that can be taken, and the others.  There is no answer if a
replacement taken begins or ends inside a character. -/
def applyTo? (es : Edits) (text : String) : Option (String × List Conflict) := do
  let plan := es.plan text.utf8ByteSize
  let result ← splice? 0 text.toList plan.applied
  return (String.ofList result, plan.conflicts)

end Edits

end SourceRename
