import SourceRename.Rename.Node

/-!
# Renaming a Java file

Declarations of fields and methods and all references are visited, parents first.  A node in which
something has been replaced already is left alone.
-/

namespace SourceRename.Context

/-- The kinds of nodes that carry a name in Java. -/
def isJavaName (kind : Kind) : Bool :=
  [Kind.fieldDecl, .methodDecl, .reference, .referenceExpr].contains kind

def renameSite (cx : Context) (site : Site) (d : Draft) : Draft :=
  match cx.file.symbol? site with
  | some symbol => cx.rename site symbol d
  | none => d

def visitJava (cx : Context) (d : Draft) (site : Site) : Draft :=
  if isJavaName site.kind && d.isFree site.span then cx.renameSite site d else d

def renameJava (cx : Context) (d : Draft) : Draft := cx.file.sites.foldl cx.visitJava d

end SourceRename.Context
