import SourceRename.Rename.NewName
import SourceRename.Syntax.Literal

/-!
# The target of a mixin

A mixin names its target by a class literal, or by a string in the attribute `targets`.  The string
becomes the target's new name.
-/

namespace SourceRename

/-- The class that a mixin is merged into. -/
structure MixinTarget where
  renames : ClassRename
  /-- What is known of the class. -/
  decl? : Option ClassDecl
  /-- The string that names the class, with the string to put in its place. -/
  spelled? : Option (Span × String)

namespace Draft

/-- Replaces the text of a span if nothing in it has been replaced. -/
def replaceFree (d : Draft) (span : Span) (text : String) : Draft :=
  if d.isFree span then d.replace span text else d

/-- Replaces a string literal of the given value by one of another value. -/
def replaceLiteral (d : Draft) (span : Span) (old new : String) : Draft :=
  if new = old then d else d.replaceFree span (Quoted.literal new)

end Draft

namespace Site

/-- The elements of an array, or the expression itself. -/
def listed (s : Site) : List Site := if s.kind = .arrayInit then s.expressions else [s]

def literal? (s : Site) : Option Site := if s.kind = .literal then some s else none

def firstValue? (attr : Site) : Option Site :=
  attr.lastExpression?.bind (·.listed.head?)

end Site

namespace Context

def targetOfLiteral? (cx : Context) (literal : Site) : Option MixinTarget :=
  match literal.classReference?.bind cx.file.symbol? with
  | some (.classType name) =>
    (cx.renames.find? name.binary).map fun r => ⟨r, cx.file.scope.find? name.binary, none⟩
  | _ => none

def targetOfString? (cx : Context) (literal : Site) : Option MixinTarget := do
  let value ← literal.stringValue?
  let renames ← cx.renames.findNested? value
  let new := renames.newBinary
  return ⟨renames, cx.file.scope.find? value, if new = value then none else some (literal.span, new)⟩

def target? (cx : Context) (use : Site) : Option MixinTarget :=
  match (use.valueAttribute?.bind Site.firstValue?).filter (·.kind == .classLiteral) with
  | some literal => cx.targetOfLiteral? literal
  | none =>
    ((use.attribute? "targets").bind Site.firstValue?).bind Site.literal? |>.bind
      cx.targetOfString?

end Context

end SourceRename
