import SourceRename.Edit.Draft
import SourceRename.Mixin.Names
import SourceRename.Renames.Basic
import SourceRename.Source.File

/-!
# New names of members

A `Context` is all that decides new names in a file: the file, the rename tables, the targets of
the mixin classes met so far, and whether renamed fields may be used without a qualifier.

A method takes the name that the nearest class among its owner and the owner's supertypes gives
it.  In a mixin class only members that stand in for members of the target are renamed, and the
target's names come first.  A field takes its name from its owner alone.
-/

namespace SourceRename

/-- The renames of the targets of mixin classes, by the qualified names of the mixin classes. -/
abbrev MixinTable := Table String ClassRename

/-- All that decides new names in a file. -/
structure Context where
  file : SourceFile
  renames : Renames
  mixins : MixinTable
  /-- A renamed field used without a qualifier is an error. -/
  forbidImplicit : Bool

namespace Context

/-- The first new name of a method that a class or one of its supertypes gives, nearest first. -/
def inheritedName? (cx : Context) (m : Method) : Option String :=
  (cx.file.scope.ancestry m.owner.binary).findSome? fun c =>
    (cx.renames.find? c).bind (·.method? m.name m.descriptor)

def standsIn (m : Method) : Bool := Mixin.standIns.any m.isMarked

def methodName? (cx : Context) (m : Method) : Option String :=
  match cx.mixins.get? m.owner.qualified with
  | some target =>
    if standsIn m then (target.method? m.name m.descriptor).or (cx.inheritedName? m) else none
  | none => cx.inheritedName? m

def fieldName? (cx : Context) (f : Field) : Option String :=
  match cx.mixins.get? f.owner.qualified with
  | some target => target.field? f.name
  | none => (cx.renames.find? f.owner.binary).bind (·.field? f.name)

end Context

end SourceRename
