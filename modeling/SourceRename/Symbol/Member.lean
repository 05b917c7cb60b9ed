import SourceRename.Text.Naming

/-!
# Classes and their members

A class has two names: the binary name with `$` before nested classes, `a.pkg.A$Inner`, and the
name written in source, `a.pkg.A.Inner`.  A `ClassDecl` is what is known of a class: its direct
supertypes and the members it declares.
-/

namespace SourceRename

structure ClassName where
  binary : String
  qualified : String
deriving DecidableEq

namespace ClassName

/-- The names of a class by its binary name alone. -/
def ofBinary (binary : String) : ClassName := ⟨binary, Naming.replaceChar '$' '.' binary⟩

/-- The name used in descriptors, `a/pkg/A$Inner`. -/
def internal (c : ClassName) : String := Naming.internalName c.binary

end ClassName

namespace Descriptor

def hasParameters (descriptor : String) : Bool := !"()".toList.isPrefixOf descriptor.toList

def returnsVoid (descriptor : String) : Bool := ")V".toList.isSuffixOf descriptor.toList

end Descriptor

structure Method where
  owner : ClassName
  name : String
  descriptor : String
  isStatic : Bool
  isConstructor : Bool
  /-- Qualified names of the annotations on the declaration. -/
  marks : List String
deriving DecidableEq

namespace Method

def constructorName : String := "<init>"

def hasParameters (m : Method) : Bool := Descriptor.hasParameters m.descriptor

def returnsVoid (m : Method) : Bool := Descriptor.returnsVoid m.descriptor

def isMarked (m : Method) (mark : String) : Bool := m.marks.contains mark

/-- The same declaration, whatever its modifiers and annotations. -/
def sameSignature (a b : Method) : Bool :=
  a.owner.binary == b.owner.binary && a.name == b.name && a.descriptor == b.descriptor

end Method

structure Field where
  owner : ClassName
  name : String
  descriptor : String
deriving DecidableEq

structure ClassDecl where
  name : ClassName
  superclass : Option String
  interfaces : List String
  methods : List Method
  fields : List Field
deriving DecidableEq

namespace ClassDecl

/-- Direct supertypes, the superclass first. -/
def supertypes (c : ClassDecl) : List String := c.superclass.toList ++ c.interfaces

def methodsNamed (c : ClassDecl) (name : String) : List Method :=
  c.methods.filter (·.name == name)

def method? (c : ClassDecl) (name descriptor : String) : Option Method :=
  c.methods.find? fun m => m.name == name && m.descriptor == descriptor

def field? (c : ClassDecl) (name : String) : Option Field := c.fields.find? (·.name == name)

end ClassDecl

end SourceRename
