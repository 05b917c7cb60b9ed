import SourceRename.Renames.Descriptor

/-!
# The opposite renames

`Renames.inverse` exchanges old and new names.  Method entries are looked up by descriptor, so
descriptors are written with the new class names, as the renamed sources spell them.
-/

namespace SourceRename

/-- Adds the renames of `c`, exchanged, to those of another class. -/
def ClassRename.addInverse (r : Renames) (c target : ClassRename) : ClassRename :=
  let target := c.fields.entries.foldl (fun t e => t.addField e.2 e.1) target
  c.methods.entries.foldl
    (fun t e => t.addMethod ⟨e.2, e.1.descriptor.map r.renameDescriptor⟩ e.1.name) target

def Renames.inverse (r : Renames) : Renames :=
  r.classes.values.foldl (fun s c => s.declare c.new c.old (c.addInverse r)) .empty

end SourceRename
