import SourceRename.Mixin.Target

/-!
# Accessors and invokers

An accessor or invoker names a member of the target by the value of its annotation, or else by the
name of the method.  The value becomes the new name of the member, and is left out where the name
of the method says the same.
-/

namespace SourceRename

/-- What an accessor method stands for. -/
inductive AccessKind
  /-- A field. -/
  | accessor
  /-- A method. -/
  | invoker
deriving DecidableEq

def AccessKind.newName? (r : ClassRename) (name : String) : AccessKind → Option String
  | .accessor => r.field? name
  | .invoker => r.methodNamed? name

namespace Context

def accessKind? (cx : Context) (use : Site) : Option AccessKind :=
  if cx.file.denotes use Mixin.accessor then some .accessor
  else if cx.file.denotes use Mixin.invoker then some .invoker
  else none

def givenValue? (use : Site) : Option String :=
  ((use.valueAttribute?.bind Site.lastExpression?).bind Site.literal?).bind Site.stringValue?

/-- The arguments of an annotation, or the empty span behind it. -/
def argumentSpan (use : Site) : Span :=
  match use.child? .annotationArgs with
  | some args => args.span
  | none => .empty use.span.stop

/-- Brings the annotation of an accessor method up to date. -/
def renameAccess (r : ClassRename) (method use : Site) (kind : AccessKind) (d : Draft) :
    Draft :=
  let name := (method.methodName?.map (·.text)).getD ""
  let implied := Naming.accessedMember? name
  match (givenValue? use).or implied with
  | none => d.report use.span.start (.unknownTarget name)
  | some old =>
    match kind.newName? r old with
    | none => d
    | some new =>
      if new = old then d
      else if implied = some new then d.replace (argumentSpan use) ""
      else d.replace (argumentSpan use) ("(" ++ Quoted.literal new ++ ")")

def visitAccess (cx : Context) (r : ClassRename) (d : Draft) (method use : Site) : Draft :=
  match cx.accessKind? use with
  | some kind => renameAccess r method use kind d
  | none => d

def renameAccesses (cx : Context) (mixin : Site) (r : ClassRename) (d : Draft) : Draft :=
  (mixin.preorder.filter (·.kind == .methodDecl)).foldl
    (fun d method => method.annotations.foldl (fun d use => cx.visitAccess r d method use) d) d

end Context

end SourceRename
