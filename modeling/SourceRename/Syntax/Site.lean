import SourceRename.Syntax.Tree

/-!
# Nodes in their place

A `Place` is a node with the offset at which it starts.  A `Site` is a place together with the
places around it, innermost first, so that one can ask for its parent and its ancestors as well as
for its children.  `Site.preorder` lists a site and everything below it, parents first and from
left to right.
-/

namespace SourceRename

/-- A node and the offset at which it starts. -/
structure Place where
  kind : Kind
  children : List Tree
  start : Nat

/-- A node in a tree: its place and the places around it, innermost first. -/
structure Site extends Place where
  above : List Place

/-- A direct child of a node: a token, or a node in its place. -/
inductive Element
  | token (token : Token)
  | node (site : Site)

namespace Place

def span (p : Place) : Span := Span.ofWidth p.start (Tree.widthAll p.children)

/-- What tells the nodes of one file apart. -/
def key (p : Place) : Kind × Span := (p.kind, p.span)

end Place

namespace Element

def kind : Element → Kind
  | .token t => t.kind
  | .node s => s.kind

def token? : Element → Option Token
  | .token t => some t
  | .node _ => none

def node? : Element → Option Site
  | .token _ => none
  | .node s => some s

end Element

namespace Site

def root : Tree → Site
  | .node kind children => ⟨⟨kind, children, 0⟩, []⟩
  | t => ⟨⟨.sourceFile, [t], 0⟩, []⟩

def span (s : Site) : Span := s.toPlace.span

/-- What tells the nodes of one file apart. -/
def key (s : Site) : Kind × Span := s.toPlace.key

/-- The text of a node, blanks and comments included. -/
def text (s : Site) : String := String.ofList (Tree.textAll s.children)

def parent? (s : Site) : Option Site :=
  match s.above with
  | [] => none
  | p :: ps => some ⟨p, ps⟩

/-- The places from a node up to the root, the node itself first. -/
def ancestors (s : Site) : List Place := s.toPlace :: s.above

/-- The nodes that a row of nested places stands for. -/
def ofPlaces : List Place → List Site
  | [] => []
  | p :: ps => ⟨p, ps⟩ :: ofPlaces ps

/-- The nodes around a node, innermost first. -/
def enclosing (s : Site) : List Site := ofPlaces s.above

def hasAncestor (s : Site) (kind : Kind) : Bool := s.ancestors.any (·.kind == kind)

/-! ### Children -/

def elementsFrom (above : List Place) (start : Nat) : List Tree → List Element
  | [] => []
  | t :: ts =>
    (match t with
      | .token kind text => Element.token ⟨kind, text, start⟩
      | .node kind children => Element.node ⟨⟨kind, children, start⟩, above⟩) ::
      elementsFrom above (start + t.width) ts

def elements (s : Site) : List Element := elementsFrom s.ancestors s.start s.children

def nodes (s : Site) : List Site := s.elements.filterMap Element.node?

/-- Direct tokens, less blanks and comments. -/
def directTokens (s : Site) : List Token :=
  (s.elements.filterMap Element.token?).filter fun t => !t.kind.isTrivia

def tokens (s : Site) : List Token := Tree.tokensAll s.start s.children

/-! ### Everything below -/

mutual

def preorderTree (above : List Place) (start : Nat) : Tree → List Site
  | .token _ _ => []
  | .node kind children =>
    ⟨⟨kind, children, start⟩, above⟩ ::
      preorderForest (⟨kind, children, start⟩ :: above) start children

def preorderForest (above : List Place) (start : Nat) : List Tree → List Site
  | [] => []
  | t :: ts => preorderTree above start t ++ preorderForest above (start + t.width) ts

end

def below (s : Site) : List Site := preorderForest s.ancestors s.start s.children

def preorder (s : Site) : List Site := s :: s.below

/-! ### Size -/

def size (s : Site) : Nat := 1 + Tree.sizeAll s.children

theorem size_le_of_mem_elementsFrom {above : List Place} {start : Nat} {ts : List Tree} {c : Site}
    (h : .node c ∈ elementsFrom above start ts) : c.size ≤ Tree.sizeAll ts := by
  induction ts generalizing start with
  | nil => simp [elementsFrom] at h
  | cons t ts ih =>
    simp only [elementsFrom, List.mem_cons] at h
    simp only [Tree.sizeAll]
    rcases h with h | h
    · cases t with
      | token => simp at h
      | node kind children =>
        simp only [Element.node.injEq] at h
        subst h
        simp [size, Tree.size]
    · have := ih h
      omega

theorem size_lt_of_mem_nodes {s c : Site} (h : c ∈ s.nodes) : c.size < s.size := by
  obtain ⟨e, he, hc⟩ := List.mem_filterMap.1 h
  cases e with
  | token => simp [Element.node?] at hc
  | node d =>
    simp only [Element.node?, Option.some.injEq] at hc
    subst hc
    have := size_le_of_mem_elementsFrom he
    simp only [size] at *
    omega

end Site

end SourceRename
