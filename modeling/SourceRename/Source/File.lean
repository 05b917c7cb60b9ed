import SourceRename.Fault
import SourceRename.Syntax.Language
import SourceRename.Syntax.View
import SourceRename.Symbol.Basic
import SourceRename.Symbol.JavaType

/-!
# Resolved files

A `SourceFile` is a text with its tree, with the symbol and the type of those nodes that have one,
and with the classes that the file sees.  Whoever resolved the file describes it as a list of
`NodeFact`s; `SourceFile.resolve` builds the tree from them.  A node is known by its kind and its
span, so facts about the same kind and span are about the same node, and a later symbol or type
replaces an earlier one.
-/

namespace SourceRename

/-- What is known of a node: that it is there, and perhaps its symbol and its type. -/
structure NodeFact where
  kind : Kind
  span : Span
  symbol? : Option Symbol
  type? : Option JavaType

namespace NodeFact

def key (f : NodeFact) : Kind × Span := (f.kind, f.span)

def declaration (f : NodeFact) : Declaration := ⟨f.kind, f.span⟩

end NodeFact

/-- A text with its tree and what its nodes mean. -/
structure SourceFile where
  name : String
  language : Language
  text : String
  tree : Tree
  symbols : Table (Kind × Span) Symbol
  types : Table (Kind × Span) JavaType
  scope : Scope

namespace SourceFile

/-- The declared nodes, each once, in order of their first declaration. -/
def declarations (facts : List NodeFact) : List Declaration :=
  (facts.map NodeFact.declaration).eraseDups

def resolve (name : String) (language : Language) (text : String) (facts : List NodeFact)
    (scope : Scope) : Except Fault SourceFile :=
  match Tree.ofDeclarations text (declarations facts) with
  | .ok tree => .ok {
      name, language, text, tree, scope
      symbols := .ofList (facts.filterMap fun f => f.symbol?.map (f.key, ·))
      types := .ofList (facts.filterMap fun f => f.type?.map (f.key, ·)) }
  | .error reason => .error (.malformedTree name reason)

/-- A file is resolved if the declared nodes fit its text, and has their tree. -/
theorem resolve_eq_ok_iff {name text : String} {language : Language} {facts : List NodeFact}
    {scope : Scope} {file : SourceFile} :
    resolve name language text facts scope = .ok file ↔
      ∃ tree, Tree.ofDeclarations text (declarations facts) = .ok tree ∧ file = {
        name, language, text, tree, scope
        symbols := .ofList (facts.filterMap fun f => f.symbol?.map (f.key, ·))
        types := .ofList (facts.filterMap fun f => f.type?.map (f.key, ·)) } := by
  rw [resolve]
  cases Tree.ofDeclarations text (declarations facts) with
  | ok tree => simp [eq_comm]
  | error reason => simp

def root (f : SourceFile) : Site := .root f.tree

def sites (f : SourceFile) : List Site := f.root.preorder

def symbol? (f : SourceFile) (s : Site) : Option Symbol := f.symbols.get? s.key

/-- The type of an expression, or of a parameter. -/
def type? (f : SourceFile) (s : Site) : Option JavaType := f.types.get? s.key

def isKotlin (f : SourceFile) : Bool := f.language == .kotlin

/-- The annotation is of the given type.  If it is resolved to a class, its qualified name decides;
else what is written, with or without the package. -/
def denotes (f : SourceFile) (use : Site) (qualified : String) : Bool :=
  match (use.child? .reference).bind f.symbol? with
  | some (.classType name) => name.qualified == qualified
  | _ =>
    let written := use.annotationText
    written == qualified || written == Naming.simpleName qualified

def declaringKinds : Symbol → List Kind
  | .field _ => [.fieldDecl, .propertyDecl]
  | .method _ | .function _ => [.methodDecl, .funDecl]
  | .classType _ => [.classDecl]
  | _ => []

def declarationOf? (f : SourceFile) (symbol : Symbol) : Option Site :=
  (f.sites.filter fun s => (declaringKinds symbol).contains s.kind).find? fun s =>
    f.symbol? s = some symbol

end SourceFile

end SourceRename
