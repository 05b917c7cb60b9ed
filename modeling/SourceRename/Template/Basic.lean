import SourceRename.Source.File

/-!
# Templates

A template is a statement or expression to look for, with parameters standing for expressions, and
the text to write instead.  It is taken from a pair of methods: the parameters of the first are the
template's, its single statement is the tree to look for, and the statement of the second is the
replacement, cut at the uses of parameters.

The last parameter may be variadic; at the end of an argument list it stands for any number of
arguments.
-/

namespace SourceRename

/-- A parameter of a template, with the type that what it stands for must have. -/
structure Parameter where
  name : String
  type? : Option JavaType

/-- A tree to look for and the text to write instead. -/
structure Template where
  name : String
  parameters : List Parameter
  variadic : Bool
  /-- The tree to look for. -/
  tree : Tree
  /-- The constructors called in the tree, by the spans of the calls. -/
  constructors : Table Span Method
  /-- The text around the uses of parameters. -/
  replacement : List String

namespace Template

/-- The parameter that a node stands for: the node is a lone name, and no lambda expression around
it has a parameter of that name. -/
def parameterAt? (parameters : List Parameter) (site : Site) : Option Nat :=
  if site.kind = .referenceExpr ∧ !site.isQualified then
    match site.lastIdent? with
    | none => none
    | some name =>
      if site.enclosing.any fun s => s.kind == .lambdaExpr && s.binds name.text then none
      else parameters.findIdx? (·.name == name.text)
  else none

def holes (parameters : List Parameter) (root : Site) : List Site :=
  root.preorder.filter fun s => (parameterAt? parameters s).isSome

def root (t : Template) : Site := .root t.tree

def hole? (t : Template) (site : Site) : Option Nat := parameterAt? t.parameters site

def type? (t : Template) (parameter : Nat) : Option JavaType :=
  t.parameters[parameter]?.bind (·.type?)

def isVariadic (t : Template) (parameter : Nat) : Bool :=
  t.variadic && parameter + 1 == t.parameters.length

end Template

end SourceRename
