import SourceRename.Mixin.Members
import SourceRename.Rename.Kotlin

/-!
# Renaming a file

A Java file first has its mixin classes taken in turn, then its references renamed; a Kotlin file
has its references renamed.  What was gathered is then applied to the text.
-/

namespace SourceRename.Context

/-- The context of a file in which no mixin class has been met. -/
def ofFile (file : SourceFile) (renames : Renames) (forbidImplicit : Bool) : Context :=
  ⟨file, renames, .empty, forbidImplicit⟩

def renameAll (cx : Context) (d : Draft) : Draft :=
  match cx.file.language with
  | .java =>
    let (cx, d) := cx.renameMixins d
    cx.renameJava d
  | .kotlin => cx.renameKotlin d

def result (cx : Context) (d : Draft) : Except Fault Report := (cx.renameAll d).result

end SourceRename.Context
