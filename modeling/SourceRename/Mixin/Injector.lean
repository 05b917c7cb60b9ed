import SourceRename.Mixin.Target
import SourceRename.Renames.Descriptor

/-!
# Injectors

An injector names methods of the target in its attribute `method`, each by name and perhaps
descriptor, as a string or as a constant of the same file.  The strings are changed to the new
names; a name without descriptor that several methods of the target have is an error.
-/

namespace SourceRename.Context

/-- The string literal that a value stands for: itself, or what a constant of this file starts
with. -/
def injectedLiteral? (cx : Context) (value : Site) : Option Site :=
  if value.kind = .literal then some value
  else if value.kind = .referenceExpr then
    match cx.file.symbol? value with
    | some (.field f) =>
      ((cx.file.declarationOf? (.field f)).filter (·.kind == .fieldDecl)).bind
        (·.lastExpression?) |>.bind Site.literal?
    | _ => none
  else none

/-- A method as an injector names it: the name and, from the first parenthesis on, the
descriptor. -/
def splitDescriptor (text : String) : String × Option String :=
  let name := text.toList.takeWhile (· != '(')
  let rest := text.toList.dropWhile (· != '(')
  (String.ofList name, if rest.isEmpty then none else some (String.ofList rest))

/-- The methods of the target that an injector may mean. -/
def candidates (target : ClassDecl) (name : String) : Option String → List Method
  | some descriptor => (target.methodsNamed name).filter (·.descriptor == descriptor)
  | none => target.methodsNamed name

/-- The text that names the method under its new name.  The descriptor is written if it was, or if
the new name alone would mean several methods. -/
def injectedText (cx : Context) (r : ClassRename) (name : String) (descriptor : Option String)
    (method : Option Method) : String :=
  let new := (method.bind cx.methodName?).getD name
  let descriptor := match method with
    | some m => if r.countRenamedTo new > 1 then some m.descriptor else descriptor
    | none => descriptor
  match descriptor with
  | some descriptor => new ++ cx.renames.renameDescriptor descriptor
  | none => new

def renameInjected (cx : Context) (r : ClassRename) (target : ClassDecl) (attr : Site)
    (d : Draft) (value : Site) : Draft :=
  match cx.injectedLiteral? value with
  | none => d
  | some literal =>
    match literal.stringValue? with
    | none => d
    | some text =>
      let (name, descriptor) := splitDescriptor text
      let methods := candidates target name descriptor
      let d :=
        if descriptor = none ∧ 1 < methods.length then
          d.report attr.span.start
            (.ambiguousTarget name (methods.map fun m => name ++ m.descriptor))
        else d
      d.replaceLiteral literal.span text (cx.injectedText r name descriptor methods.head?)

def visitInjector (cx : Context) (r : ClassRename) (target : ClassDecl) (d : Draft)
    (use : Site) : Draft :=
  if Mixin.injectors.any (cx.file.denotes use) then
    match use.attribute? "method" with
    | none => d
    | some attr =>
      match attr.lastExpression? with
      | none => d
      | some value => value.listed.foldl (cx.renameInjected r target attr) d
  else d

def renameInjectors (cx : Context) (mixin : Site) (r : ClassRename) (target : ClassDecl)
    (d : Draft) : Draft :=
  (mixin.preorder.filter (·.kind == .methodDecl)).foldl
    (fun d method => method.annotations.foldl (cx.visitInjector r target) d) d

end SourceRename.Context
