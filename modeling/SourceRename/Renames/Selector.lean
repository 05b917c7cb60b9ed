import SourceRename.Renames.Descriptor

/-!
# Member selectors

A selector names a member of a class in one string: `La/pkg/A;name(I)V` a method with its
descriptor, `La/pkg/A;name:I` a field with its type.  The owner may be missing.
-/

namespace SourceRename

inductive Selector.Member
  | method (descriptor : String)
  | field (type : String)

/-- Owner, name, and the rest of a selector. -/
structure Selector where
  /-- The owner as a type, `La/pkg/A;`, or nothing. -/
  owner : String
  name : String
  member : Selector.Member

namespace Selector

def endsName (c : Char) : Bool := c == '(' || c == ':'

/-- The owner at the beginning of a text, up to the first semicolon, and the rest. -/
def splitOwner (head : List Char) : List Char × List Char :=
  if head.head? = some 'L' ∧ ';' ∈ head then
    (head.takeWhile (· != ';') ++ [';'], (head.dropWhile (· != ';')).drop 1)
  else ([], head)

/-- Reads a selector; a text with neither descriptor nor field type is none. -/
def parse (text : String) : Option Selector :=
  let (owner, name) := splitOwner (text.toList.takeWhile (!endsName ·))
  let selector := Selector.mk (String.ofList owner) (String.ofList name)
  match text.toList.dropWhile (!endsName ·) with
  | [] => none
  | ':' :: type => some (selector (.field (String.ofList type)))
  | descriptor => some (selector (.method (String.ofList descriptor)))

/-- The owner without the signs around it, `a/pkg/A`. -/
def ownerName? (s : Selector) : Option String := Renames.elementClass? s.owner.toList

end Selector

end SourceRename
