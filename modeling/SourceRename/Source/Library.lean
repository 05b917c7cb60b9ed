import SourceRename.Source.File

/-!
# Files resolved beforehand

A `Library` keeps resolved files by name and delivers one if its text is the text asked for.
-/

namespace SourceRename

structure Source where
  name : String
  text : String

structure Library where
  files : Table String SourceFile

namespace Library

/-- The library of some files; of two with one name the later one counts. -/
def ofList (files : List SourceFile) : Library := ⟨.ofList (files.map fun f => (f.name, f))⟩

def resolve (l : Library) (source : Source) : Except Fault SourceFile :=
  match l.files.get? source.name with
  | none => .error (.unresolved source.name .unknownFile)
  | some file =>
    if file.text = source.text then .ok file
    else .error (.unresolved source.name .otherText)

end Library

end SourceRename
