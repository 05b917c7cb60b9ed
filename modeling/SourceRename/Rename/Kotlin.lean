import SourceRename.Rename.Java

/-!
# Renaming a Kotlin file

`Site.kotlinOrder` lists the nodes of a Kotlin file in the order in which they are visited.  In a
qualified expression the selector comes before the receiver, and in a qualified type the last
segment before its qualifier, so that a nested class is renamed before the class around it.  Of
these two kinds of nodes only the parts named are visited.
-/

namespace SourceRename

namespace Site

/-- The visits below the child that stands at the same place as a given node. -/
def visitsOf (parts : List (Site × List Site)) : Option Site → List Site
  | none => []
  | some child => ((parts.find? (·.1.key == child.key)).map (·.2)).getD []

def visitsBelow (s : Site) (parts : List (Site × List Site)) : List Site :=
  match s.kind with
  | .dotQualified => visitsOf parts s.selector? ++ visitsOf parts s.qualifier?
  | .userType =>
    visitsOf parts (s.child? .nameRef) ++ visitsOf parts (s.child? .userType) ++
      visitsOf parts (s.child? .typeArgs)
  | _ => parts.flatMap (·.2)

mutual

def kotlinTree (above : List Place) (start : Nat) : Tree → List Site
  | .token _ _ => []
  | .node kind children =>
    let here : Site := ⟨⟨kind, children, start⟩, above⟩
    here :: here.visitsBelow (kotlinForest (here.toPlace :: above) start children)

/-- Each node of a row of trees with the visits below it. -/
def kotlinForest (above : List Place) (start : Nat) : List Tree → List (Site × List Site)
  | [] => []
  | t :: ts =>
    let rest := kotlinForest above (start + t.width) ts
    match t with
    | .token _ _ => rest
    | .node kind children =>
      (⟨⟨kind, children, start⟩, above⟩, kotlinTree above start (.node kind children)) :: rest

end

/-- A node and those below it, in the order in which a Kotlin file is visited. -/
def kotlinOrder (s : Site) : List Site :=
  s :: s.visitsBelow (kotlinForest s.ancestors s.start s.children)

end Site

namespace Context

def visitKotlin (cx : Context) (d : Draft) (site : Site) : Draft :=
  match site.kind with
  | .funDecl => cx.renameSite site d
  | .nameRef => if d.isFree site.span then cx.renameSite site d else d
  | _ => d

def renameKotlin (cx : Context) (d : Draft) : Draft :=
  cx.file.root.kotlinOrder.foldl cx.visitKotlin d

end Context

end SourceRename
