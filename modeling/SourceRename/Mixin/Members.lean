import SourceRename.Mixin.Accessor
import SourceRename.Mixin.InjectionPoint
import SourceRename.Mixin.Injector

/-!
# Mixin classes of a file

The mixin classes of a Java file are taken in turn.  For each of them the injection points of the
file are renamed, the class is registered with its target, and its accessors, invokers and
injectors take over the target's new names.
-/

namespace SourceRename

namespace Context

/-- The annotation that makes a class a mixin. -/
def mixinUse? (cx : Context) (site : Site) : Option Site :=
  site.annotations.find? fun use => cx.file.denotes use Mixin.mixin

def declaredName? (cx : Context) (site : Site) : Option String :=
  match cx.file.symbol? site with
  | some (.classType name) => some name.qualified
  | _ => none

def renameMixinMembers (cx : Context) (site : Site) (target : MixinTarget) (d : Draft) :
    Draft :=
  let r := target.renames
  let d := if r.hasFields || r.hasMethods then cx.renameAccesses site r d else d
  match target.decl? with
  | some decl => if r.hasMethods then cx.renameInjectors site r decl d else d
  | none => d

/-- Takes one class declaration of a file: registers it, if it is a mixin, and renames what
its members name. -/
def visitClass (cx : Context) (site : Site) (d : Draft) : Context × Draft :=
  match cx.mixinUse? site with
  | none => (cx, d)
  | some use =>
    let d := cx.renamePoints d
    match cx.declaredName? site, cx.target? use with
    | some name, some target =>
      let d := match target.spelled? with
        | some (span, new) => d.replaceFree span (Quoted.literal new)
        | none => d
      let cx := { cx with mixins := cx.mixins.insert name target.renames }
      (cx, cx.renameMixinMembers site target d)
    | _, _ => (cx, d)

def renameMixins (cx : Context) (d : Draft) : Context × Draft :=
  (cx.file.sites.filter (·.kind == .classDecl)).foldl
    (fun state site => state.1.visitClass site state.2) (cx, d)

end Context

end SourceRename
