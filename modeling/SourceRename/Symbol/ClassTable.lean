import SourceRename.Symbol.Member
import SourceRename.Table

/-!
# Known classes

A `ClassTable` finds classes by binary or by qualified name, with dots or slashes between packages.
A class added later replaces an earlier one of the same binary name.  A `Scope` is what one file
sees: the classes it declares itself and, behind them, those known to all files.
-/

namespace SourceRename

/-- Classes by binary name, and the binary name that a qualified name stands for. -/
structure ClassTable where
  byBinary : Table String ClassDecl
  byQualified : Table String String

namespace ClassTable

def empty : ClassTable := ⟨.empty, .empty⟩

def add (t : ClassTable) (c : ClassDecl) : ClassTable :=
  ⟨t.byBinary.insert c.name.binary c, t.byQualified.insert c.name.qualified c.name.binary⟩

def ofList (cs : List ClassDecl) : ClassTable := cs.foldl add empty

def size (t : ClassTable) : Nat := t.byBinary.size

def classes (t : ClassTable) : List ClassDecl := t.byBinary.values

/-- The class of a name; a binary name wins over a qualified one. -/
def find? (t : ClassTable) (name : String) : Option ClassDecl :=
  let name := Naming.replaceChar '/' '.' name
  (t.byBinary.get? name).or ((t.byQualified.get? name).bind t.byBinary.get?)

end ClassTable

/-- The classes that one file sees. -/
structure Scope where
  own : ClassTable
  shared : ClassTable

namespace Scope

/-- The class of a name; the file's own classes come first. -/
def find? (s : Scope) (name : String) : Option ClassDecl :=
  (s.own.find? name).or (s.shared.find? name)

def supertypes (s : Scope) (name : String) : List String :=
  match s.find? name with
  | some c => c.supertypes
  | none => []

def mentioned (s : Scope) : List String :=
  (s.own.classes ++ s.shared.classes).flatMap ClassDecl.supertypes

end Scope

end SourceRename
