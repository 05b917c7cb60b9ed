import SourceRename.Proofs.Syntax.Geometry

/-!
# What a node has from its tree

Whether a node is qualified, which name it ends with and which parameters a lambda expression has
depends on the tree of the node, not on the place where it stands.  So a tree that is taken out of a
file has the nodes that it had there, with other places around them: `Tree.placed` lists the nodes
of a tree with the trees around them, and `map_placed` reads this list off a preorder. -/

namespace SourceRename

def Place.tree (p : Place) : Tree := .node p.kind p.children

def Site.tree (s : Site) : Tree := s.toPlace.tree

def Element.tree : Element → Tree
  | .token t => .token t.kind t.text
  | .node s => s.tree

def Token.leaf (t : Token) : Kind × String := (t.kind, t.text)

namespace Tree

def kind : Tree → Kind
  | .token kind _ => kind
  | .node kind _ => kind

def leaf? : Tree → Option (Kind × String)
  | .token kind text => some (kind, text)
  | .node _ _ => none

def isNode : Tree → Bool
  | .token _ _ => false
  | .node _ _ => true

mutual

/-- The nodes of a tree, parents first, each with the trees around it. -/
def placed (above : List Tree) : Tree → List (Tree × List Tree)
  | .token _ _ => []
  | .node kind children =>
    (.node kind children, above) :: placedAll (.node kind children :: above) children

def placedAll (above : List Tree) : List Tree → List (Tree × List Tree)
  | [] => []
  | t :: ts => placed above t ++ placedAll above ts

end

mutual

theorem map_preorderTree_placed (above : List Place) (start : Nat) : (t : Tree) →
    (Site.preorderTree above start t).map (fun s => (s.tree, s.above.map Place.tree)) =
      t.placed (above.map Place.tree)
  | .token _ _ => rfl
  | .node kind children => by
    rw [Site.preorderTree, placed, List.map_cons, map_preorderForest_placed]
    rfl

theorem map_preorderForest_placed (above : List Place) (start : Nat) : (ts : List Tree) →
    (Site.preorderForest above start ts).map (fun s => (s.tree, s.above.map Place.tree)) =
      placedAll (above.map Place.tree) ts
  | [] => rfl
  | t :: ts => by
    rw [Site.preorderForest, placedAll, List.map_append, map_preorderTree_placed above start t,
      map_preorderForest_placed above _ ts]

end

mutual

theorem placed_append (above outer : List Tree) : (t : Tree) →
    t.placed (above ++ outer) = (t.placed above).map fun x => (x.1, x.2 ++ outer)
  | .token _ _ => rfl
  | .node kind children => by
    rw [placed, placed, List.map_cons, ← List.cons_append, placedAll_append]

theorem placedAll_append (above outer : List Tree) : (ts : List Tree) →
    placedAll (above ++ outer) ts = (placedAll above ts).map fun x => (x.1, x.2 ++ outer)
  | [] => rfl
  | t :: ts => by
    rw [placedAll, placedAll, List.map_append, placed_append above outer t,
      placedAll_append above outer ts]

end

mutual

theorem map_leaf_tokens (start other : Nat) : (t : Tree) →
    (t.tokens start).map Token.leaf = (t.tokens other).map Token.leaf
  | .token _ _ => rfl
  | .node _ children => map_leaf_tokensAll start other children

/-- Offsets aside, the tokens of a row of trees are the same wherever it starts. -/
theorem map_leaf_tokensAll (start other : Nat) : (ts : List Tree) →
    (tokensAll start ts).map Token.leaf = (tokensAll other ts).map Token.leaf
  | [] => rfl
  | t :: ts => by
    rw [tokensAll, tokensAll, List.map_append, List.map_append, map_leaf_tokens start other t,
      map_leaf_tokensAll _ (other + t.width) ts]

end

end Tree

namespace Site

variable {s q : Site} {above : List Place} {start : Nat}

theorem map_placed (s : Site) : s.preorder.map (fun q => (q.tree, q.above.map Place.tree)) =
    s.tree.placed (s.above.map Place.tree) := Tree.map_preorderTree_placed s.above s.start s.tree

/-! ### Children -/

theorem map_tree_elementsFrom (above : List Place) (start : Nat) (ts : List Tree) :
    (elementsFrom above start ts).map Element.tree = ts := by
  induction ts generalizing start with
  | nil => rfl
  | cons t ts ih =>
    cases t with
    | token kind text => exact congrArg (Tree.token kind text :: ·) (ih _)
    | node kind children => exact congrArg (Tree.node kind children :: ·) (ih _)

section

variable (h : s.tree = q.tree)
include h

theorem kind_congr : s.kind = q.kind := by
  injection h

theorem map_tree_elements_congr : s.elements.map Element.tree = q.elements.map Element.tree := by
  have hchildren : s.children = q.children := by injection h
  rw [elements, elements, map_tree_elementsFrom, map_tree_elementsFrom, hchildren]

theorem map_leaf_directTokens_congr :
    s.directTokens.map Token.leaf = q.directTokens.map Token.leaf := by
  have hleaf : ∀ es : List Element, (es.filterMap Element.token?).map Token.leaf =
      (es.map Element.tree).filterMap Tree.leaf? := by
    intro es
    induction es with
    | nil => rfl
    | cons e es ih =>
      cases e with
      | token t => exact congrArg (t.leaf :: ·) ih
      | node s => exact ih
  have hfilter : ∀ s : Site, s.directTokens.map Token.leaf =
      ((s.elements.map Element.tree).filterMap Tree.leaf?).filter fun l => !l.1.isTrivia := by
    intro s
    rw [← hleaf, List.filter_map]
    rfl
  rw [hfilter, hfilter, map_tree_elements_congr h]

theorem map_tree_nodes_congr : s.nodes.map tree = q.nodes.map tree := by
  have hnodes : ∀ es : List Element, (es.filterMap Element.node?).map tree =
      (es.map Element.tree).filter Tree.isNode := by
    intro es
    induction es with
    | nil => rfl
    | cons e es ih =>
      cases e with
      | token t => exact ih
      | node s => exact congrArg (s.tree :: ·) ih
  rw [nodes, nodes, hnodes, hnodes, map_tree_elements_congr h]

/-! ### Names -/

theorem map_leaf_filter_congr (kind : Kind) :
    (s.directTokens.filter (·.kind == kind)).map Token.leaf =
      (q.directTokens.filter (·.kind == kind)).map Token.leaf := by
  have hfilter : ∀ ts : List Token, (ts.filter (·.kind == kind)).map Token.leaf =
      (ts.map Token.leaf).filter (·.1 == kind) := fun ts => by rw [List.filter_map]; rfl
  rw [hfilter, hfilter, map_leaf_directTokens_congr h]

theorem isQualified_congr : s.isQualified = q.isQualified := by
  have hany : ∀ s : Site, s.isQualified = ((s.directTokens.filter (·.kind == .dot)).map
      Token.leaf).head?.isSome := by
    intro s
    rw [List.head?_map, Option.isSome_map, List.head?_filter]
    rfl
  rw [hany, hany, map_leaf_filter_congr h]

theorem lastIdent?_congr : s.lastIdent?.map (·.text) = q.lastIdent?.map (·.text) := by
  have hlast : ∀ s : Site, s.lastIdent?.map (·.text) =
      (s.idents.map Token.leaf).getLast?.map Prod.snd := by
    intro s
    rw [List.getLast?_map, Option.map_map]
    rfl
  rw [hlast, hlast, idents, idents, map_leaf_filter_congr h]

/-! ### Lambda expressions -/

theorem child?_congr (kind : Kind) : (s.child? kind).map tree = (q.child? kind).map tree := by
  have hfind : ∀ s : Site, (s.child? kind).map tree =
      (s.nodes.map tree).find? (·.kind == kind) := fun s => by rw [List.find?_map]; rfl
  rw [hfind, hfind, map_tree_nodes_congr h]

theorem childrenOf_congr (kind : Kind) :
    (s.childrenOf kind).map tree = (q.childrenOf kind).map tree := by
  have hfilter : ∀ s : Site, (s.childrenOf kind).map tree =
      (s.nodes.map tree).filter (·.kind == kind) := fun s => by rw [List.filter_map]; rfl
  rw [hfilter, hfilter, map_tree_nodes_congr h]

theorem map_leaf_tokens_congr : s.tokens.map Token.leaf = q.tokens.map Token.leaf := by
  have hchildren : s.children = q.children := by injection h
  rw [tokens, tokens, hchildren, Tree.map_leaf_tokensAll]

end

theorem filterMap_lastIdent?_congr {xs ys : List Site} (h : xs.map tree = ys.map tree) :
    (xs.filterMap lastIdent?).map (·.text) = (ys.filterMap lastIdent?).map (·.text) := by
  have hnames : ∀ xs : List Site, (xs.filterMap lastIdent?).map (·.text) =
      xs.filterMap fun x => x.lastIdent?.map (·.text) := fun xs => List.map_filterMap ..
  rw [hnames, hnames]
  induction xs generalizing ys with
  | nil =>
    obtain rfl := List.map_eq_nil_iff.1 h.symm
    rfl
  | cons x xs ih =>
    obtain ⟨y, ys, rfl, hxy, hys⟩ := List.map_eq_cons_iff.1 h.symm
    rw [List.filterMap_cons, List.filterMap_cons, lastIdent?_congr hxy, ih hys.symm]

/-- The parameters that a lambda expression declares as such. -/
def declared (s : Site) : List Site :=
  match s.child? .parameterList with
  | some list => list.parameters
  | none => s.parameters

theorem declared_congr (h : s.tree = q.tree) : s.declared.map tree = q.declared.map tree := by
  have hlist := child?_congr h .parameterList
  rw [declared, declared]
  cases hs : s.child? .parameterList <;> cases hq : q.child? .parameterList
  · exact childrenOf_congr h _
  · rw [hs, hq] at hlist
    exact absurd hlist nofun
  · rw [hs, hq] at hlist
    exact absurd hlist nofun
  · rw [hs, hq] at hlist
    exact childrenOf_congr (Option.some.inj hlist) _

theorem lambdaParameters_eq (s : Site) : s.lambdaParameters =
    if s.declared = [] then (s.tokens.takeWhile (·.kind != .arrow)).filter (·.kind == .ident)
    else s.declared.filterMap lastIdent? := by
  unfold lambdaParameters
  extract_lets declared
  have hdeclared : s.declared = declared := rfl
  rw [hdeclared]
  clear_value declared
  cases declared with
  | nil => rw [if_pos rfl]
  | cons d ds => rw [if_neg (List.cons_ne_nil d ds)]

theorem lambdaParameters_congr (h : s.tree = q.tree) :
    s.lambdaParameters.map (·.text) = q.lambdaParameters.map (·.text) := by
  have hidents : ∀ s : Site,
      ((s.tokens.takeWhile (·.kind != .arrow)).filter (·.kind == .ident)).map (·.text) =
        (((s.tokens.map Token.leaf).takeWhile (·.1 != .arrow)).filter (·.1 == .ident)).map
          Prod.snd := by
    intro s
    rw [List.takeWhile_map, List.filter_map, List.map_map]
    rfl
  have hnone : s.declared = [] ↔ q.declared = [] := by
    rw [← List.map_eq_nil_iff, declared_congr h, List.map_eq_nil_iff]
  rw [lambdaParameters_eq, lambdaParameters_eq]
  by_cases hs : s.declared = []
  · rw [if_pos hs, if_pos (hnone.1 hs), hidents, hidents, map_leaf_tokens_congr h]
  · rw [if_neg hs, if_neg (mt hnone.2 hs)]
    exact filterMap_lastIdent?_congr (declared_congr h)

theorem binds_congr (h : s.tree = q.tree) (name : String) : s.binds name = q.binds name := by
  have hany : ∀ s : Site, s.binds name = (s.lambdaParameters.map (·.text)).any (· == name) :=
    fun s => by rw [List.any_map]; rfl
  rw [hany, hany, lambdaParameters_congr h]

/-! ### Around a node -/

/-- What is asked of the nodes around a node is asked of the trees around it. -/
theorem any_enclosing {f : Site → Bool} (hf : ∀ s q : Site, s.tree = q.tree → f s = f q) (s : Site) :
    s.enclosing.any f = (s.above.map Place.tree).any fun t => f (root t) := by
  have hall : ∀ ps : List Place,
      (ofPlaces ps).any f = (ps.map Place.tree).any fun t => f (root t) := by
    intro ps
    induction ps with
    | nil => rfl
    | cons p ps ih => rw [ofPlaces, List.any_cons, List.map_cons, List.any_cons, ih,
        hf ⟨p, ps⟩ (root p.tree) rfl]
  exact hall s.above

end Site

end SourceRename
