import SourceRename.Mixin.Target
import SourceRename.Renames.Selector

/-!
# Injection points

An injection point names the member or class it stands at by a selector, a type or a class name
with slashes.  The new names take the places of the old ones.
-/

namespace SourceRename.Context

/-- New name of the method that a selector names: that of the method which the owner or one of its
supertypes declares, else the one in the owner's own table. -/
def selectedMethod? (cx : Context) (s : Selector) (descriptor : String) : Option String :=
  (do
    let owner ← s.ownerName?
    let method ← cx.file.scope.declaredMethod? owner s.name descriptor
    cx.methodName? method).or
  ((cx.renames.ofType? s.owner.toList).bind (·.method? s.name descriptor))

def renameSelector (cx : Context) (s : Selector) : String :=
  let owner := cx.renames.renameType s.owner.toList
  match s.member with
  | .method descriptor =>
    let name := (cx.selectedMethod? s descriptor).getD s.name
    String.ofList (owner ++ name.toList ++ (cx.renames.renameDescriptor descriptor).toList)
  | .field type =>
    let name := ((cx.renames.ofType? s.owner.toList).bind (·.field? s.name)).getD s.name
    String.ofList (owner ++ name.toList ++ ':' :: cx.renames.renameType type.toList)

/-- The text is a type in the form of descriptors: a class or an array. -/
def looksLikeType (text : List Char) : Bool :=
  (text.head? == some 'L' && text.getLast? == some ';') || text.head? == some '['

def renamePoint (cx : Context) (text : String) : String :=
  match Selector.parse text with
  | some selector => cx.renameSelector selector
  | none =>
    if looksLikeType text.toList then String.ofList (cx.renames.renameType text.toList)
    else ((cx.renames.find? text).map (·.new)).getD text

def visitPoint (cx : Context) (d : Draft) (use : Site) : Draft :=
  match ((use.attribute? "target").bind Site.lastExpression?).bind Site.literal? with
  | none => d
  | some literal =>
    match literal.stringValue? with
    | none => d
    | some value => d.replaceLiteral literal.span value (cx.renamePoint value)

def renamePoints (cx : Context) (d : Draft) : Draft :=
  (cx.file.sites.filter fun use =>
    use.kind == .annotationUse && cx.file.denotes use Mixin.injectionPoint).foldl cx.visitPoint d

end SourceRename.Context
