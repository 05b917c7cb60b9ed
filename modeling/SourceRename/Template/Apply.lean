import SourceRename.Edit.Draft
import SourceRename.Template.Change

/-!
# Applying templates to a file

Every template is tried at every node, parents first, but not below a node where it matched.  The
changes of a match are queued together if all of their spans are free.  Otherwise they are refused,
unless all of them have been queued already.  A text cut inside a character on the way stops it all.
-/

namespace SourceRename

/-- Queues changes together, or refuses them. -/
def Draft.offer (d : Draft) (changes : List Edit) : Draft :=
  if changes.all fun e => d.isFree e.span then
    changes.foldl (fun d e => d.queue e.span e.text) d
  else if changes.all fun e => d.edits.hasSpan e.span then d
  else
    (changes.filter fun e => !d.isFree e.span).foldl (fun d e => d.conflict e.span e.text) d

/-- A template on its way through a file, with the last node where it matched. -/
structure Search where
  template : Template
  last? : Option Place

namespace Search

def covers (search : Search) (site : Site) : Bool :=
  search.last?.any fun last => site.ancestors.any (·.key == last.key)

def visit (file : SourceFile) (site : Site) (search : Search) (d : Draft) :
    Except Fault (Search × Draft) :=
  if search.covers site then .ok (search, d)
  else do
    match ← search.template.find file site with
    | none => return (search, d)
    | some m =>
      return ({ search with last? := some site.toPlace }, d.offer (search.template.changes m))

def visitAll (file : SourceFile) (site : Site) :
    List Search → Draft → Except Fault (List Search × Draft)
  | [], d => .ok ([], d)
  | search :: searches, d => do
    let (search, d) ← search.visit file site d
    let (searches, d) ← visitAll file site searches d
    return (search :: searches, d)

end Search

def Template.applyAll (templates : List Template) (file : SourceFile) (d : Draft) :
    Except Fault Draft := do
  let (_, d) ← file.sites.foldlM (fun state site => Search.visitAll file site state.1 state.2)
    (templates.map fun t => ⟨t, none⟩, d)
  return d

end SourceRename
