import SourceRename.Syntax.Site

/-!
# Parts of a node

Which child of a node is its name, its qualifier, its operands.  A tree may lack nodes that nobody
declared, so the parts are found by kind and by punctuation and never by position: a name is an
identifier among the direct tokens, a qualifier is the node before the first direct dot, operands
are the direct children that are expressions.
-/

namespace SourceRename.Site

/-! ### Children by kind -/

def child? (s : Site) (kind : Kind) : Option Site := s.nodes.find? (·.kind == kind)

def childrenOf (s : Site) (kind : Kind) : List Site := s.nodes.filter (·.kind == kind)

def expressions (s : Site) : List Site := s.nodes.filter (·.kind.isExpression)

def statements (s : Site) : List Site := s.nodes.filter (·.kind.isStatement)

def token? (s : Site) (kind : Kind) : Option Token := s.directTokens.find? (·.kind == kind)

def hasToken (s : Site) (kind : Kind) : Bool := (s.token? kind).isSome

def idents (s : Site) : List Token := s.directTokens.filter (·.kind == .ident)

def firstIdent? (s : Site) : Option Token := s.idents.head?

def lastIdent? (s : Site) : Option Token := s.idents.getLast?

/-! ### Qualified names -/

def isQualified (s : Site) : Bool := s.hasToken .dot

/-- The last child node before the first direct dot. -/
def qualifier? (s : Site) : Option Site :=
  if s.isQualified then
    ((s.elements.takeWhile (·.kind != .dot)).filterMap Element.node?).getLast?
  else none

/-- The expression behind the dot of a qualified expression. -/
def selector? (s : Site) : Option Site :=
  s.expressions.getLast?.filter fun e => s.qualifier?.all fun q => q.key != e.key

/-! ### Declarations -/

def modifiers? (s : Site) : Option Site := s.child? .modifierList

def annotations (s : Site) : List Site :=
  match s.modifiers? with
  | some list => list.childrenOf .annotationUse
  | none => []

/-- The name of a method: the last identifier before its parameters, else the first one. -/
def methodName? (s : Site) : Option Token :=
  let head := s.elements.takeWhile fun e => e.kind != .parameterList && e.kind != .lParen
  let names := (head.filterMap Element.token?).filter (·.kind == .ident)
  names.getLast?.or s.firstIdent?

def parameters (s : Site) : List Site := s.childrenOf .parameter

/-- A parameter that takes any number of arguments. -/
def isVariadic (s : Site) : Bool := s.tokens.any (·.kind == .ellipsis)

/-- The value a field starts with, or that an attribute is given. -/
def lastExpression? (s : Site) : Option Site := s.expressions.getLast?

/-! ### Annotations -/

/-- The name of an annotation as written, without `@`. -/
def annotationText (s : Site) : String :=
  match s.child? .reference with
  | some reference => reference.text
  | none =>
    let name := (s.directTokens.dropWhile (·.kind == .at)).takeWhile fun t =>
      t.kind == .ident || t.kind == .dot
    String.join (name.map (·.text))

def attributes (s : Site) : List Site :=
  match s.child? .annotationArgs with
  | some args => args.childrenOf .annotationAttr
  | none => []

def attributeName? (s : Site) : Option Token := if s.hasToken .eq then s.firstIdent? else none

/-- An attribute called `value`, or written without a name. -/
def isValueAttribute (s : Site) : Bool := s.attributeName?.all (·.text == "value")

def attribute? (s : Site) (name : String) : Option Site :=
  s.attributes.find? fun a => a.attributeName?.any (·.text == name)

def valueAttribute? (s : Site) : Option Site := s.attributes.find? isValueAttribute

/-! ### Expressions -/

def firstExpression? (s : Site) : Option Site := s.expressions.head?

def secondExpression? (s : Site) : Option Site := s.expressions[1]?

/-- The sign between two operands: the first direct punctuation. -/
def operator? (s : Site) : Option Token := s.directTokens.find? (·.kind.isPunctuation)

/-- The outer instance in `outer.new Inner()`: an expression that ends before `new`. -/
def outerInstance? (s : Site) : Option Site :=
  match s.token? .newKw with
  | some word => s.expressions.find? fun e => e.span.stop ≤ word.start
  | none => none

/-- The parameters of a lambda expression: the names of those declared, else the identifiers
before the arrow. -/
def lambdaParameters (s : Site) : List Token :=
  let declared := match s.child? .parameterList with
    | some list => list.parameters
    | none => s.parameters
  match declared with
  | [] => (s.tokens.takeWhile (·.kind != .arrow)).filter (·.kind == .ident)
  | _ => declared.filterMap lastIdent?

def binds (s : Site) (name : String) : Bool := s.lambdaParameters.any (·.text == name)

/-- The expression or block behind the arrow. -/
def lambdaBody? (s : Site) : Option Site :=
  ((s.elements.dropWhile (·.kind != .arrow)).filterMap Element.node?).head?

def literalToken? (s : Site) : Option Token := s.directTokens.head?

def classReference? (s : Site) : Option Site := s.preorder.find? (·.kind == .reference)

/-! ### Parts are children -/

theorem mem_nodes_of_child? {s c : Site} {kind : Kind} (h : s.child? kind = some c) :
    c ∈ s.nodes := List.mem_of_find?_eq_some h

theorem kind_of_child? {s c : Site} {kind : Kind} (h : s.child? kind = some c) : c.kind = kind := by
  simpa using List.find?_some h

theorem mem_nodes_of_expressions {s c : Site} (h : c ∈ s.expressions) : c ∈ s.nodes :=
  (List.mem_filter.1 h).1

theorem mem_nodes_of_statements {s c : Site} (h : c ∈ s.statements) : c ∈ s.nodes :=
  (List.mem_filter.1 h).1

theorem mem_nodes_of_firstExpression? {s c : Site} (h : s.firstExpression? = some c) :
    c ∈ s.nodes := mem_nodes_of_expressions (List.mem_of_head? h)

theorem mem_nodes_of_secondExpression? {s c : Site} (h : s.secondExpression? = some c) :
    c ∈ s.nodes := mem_nodes_of_expressions (List.mem_of_getElem? h)

theorem mem_nodes_of_lastExpression? {s c : Site} (h : s.lastExpression? = some c) :
    c ∈ s.nodes := mem_nodes_of_expressions (List.mem_of_getLast? h)

theorem mem_nodes_of_mem_takeWhile {s c : Site} {p : Element → Bool}
    (h : c ∈ (s.elements.takeWhile p).filterMap Element.node?) : c ∈ s.nodes := by
  obtain ⟨e, he, hc⟩ := List.mem_filterMap.1 h
  exact List.mem_filterMap.2 ⟨e, (List.takeWhile_sublist p).subset he, hc⟩

theorem mem_nodes_of_mem_dropWhile {s c : Site} {p : Element → Bool}
    (h : c ∈ (s.elements.dropWhile p).filterMap Element.node?) : c ∈ s.nodes := by
  obtain ⟨e, he, hc⟩ := List.mem_filterMap.1 h
  exact List.mem_filterMap.2 ⟨e, (List.dropWhile_sublist p).subset he, hc⟩

theorem mem_nodes_of_qualifier? {s c : Site} (h : s.qualifier? = some c) : c ∈ s.nodes := by
  unfold qualifier? at h
  split at h
  · exact mem_nodes_of_mem_takeWhile (List.mem_of_getLast? h)
  · simp at h

theorem mem_nodes_of_outerInstance? {s c : Site} (h : s.outerInstance? = some c) :
    c ∈ s.nodes := by
  unfold outerInstance? at h
  split at h
  · exact mem_nodes_of_expressions (List.mem_of_find?_eq_some h)
  · simp at h

theorem mem_nodes_of_lambdaBody? {s c : Site} (h : s.lambdaBody? = some c) : c ∈ s.nodes :=
  mem_nodes_of_mem_dropWhile (List.mem_of_head? h)

end SourceRename.Site
