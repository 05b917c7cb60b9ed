import Mathlib.Data.List.Basic
import SourceRename.Proofs.Syntax.Shape

/-!
# A tree that is put back

A tree that is taken out of a file starts at offset 0 and has nothing around it.  `Site.graft` puts
a node of it back to where the tree was taken from.  Whatever is asked of a node by way of its
children has the same answer there, put back as well: its parts by kind, its operands, its
qualifier, the body of a lambda expression.  Which of two parts comes first is told by offsets, and
these move together. -/

namespace SourceRename

def Token.shift (width : Nat) (t : Token) : Token := { t with start := t.start + width }

def Place.shift (width : Nat) (p : Place) : Place := { p with start := p.start + width }

/-- A node of the tree that is taken out at `root`, put back. -/
def Site.graft (root s : Site) : Site :=
  ⟨s.toPlace.shift root.start, s.above.map (Place.shift root.start) ++ root.above⟩

def Element.graft (root : Site) : Element → Element
  | .token t => .token (t.shift root.start)
  | .node s => .node (root.graft s)

namespace Site

variable {root s c : Site}

@[simp] theorem graft_tree (root s : Site) : (root.graft s).tree = s.tree := rfl

@[simp] theorem graft_kind (root s : Site) : (root.graft s).kind = s.kind := rfl

@[simp] theorem graft_text (root s : Site) : (root.graft s).text = s.text := rfl

theorem graft_start (root s : Site) : (root.graft s).span.start = s.span.start + root.start := rfl

theorem graft_stop (root s : Site) : (root.graft s).span.stop = s.span.stop + root.start := by
  rw [stop_eq, stop_eq, graft_start, Nat.add_right_comm]
  rfl

/-- The tree that is taken out, put back, is the node it was taken from. -/
theorem graft_self (root : Site) : root.graft (.root root.tree) = root := by
  rw [Site.graft, Place.shift]
  show (⟨⟨root.kind, root.children, 0 + root.start⟩, [] ++ root.above⟩ : Site) = root
  rw [Nat.zero_add]
  rfl

/-! ### Children -/

theorem elementsFrom_graft (root : Site) (above : List Place) (start : Nat) (ts : List Tree) :
    elementsFrom (above.map (Place.shift root.start) ++ root.above) (start + root.start) ts =
      (elementsFrom above start ts).map (Element.graft root) := by
  induction ts generalizing start with
  | nil => rfl
  | cons t ts ih =>
    have hrest := ih (start + t.width)
    rw [Nat.add_right_comm] at hrest
    cases t with
    | token kind text => exact congrArg (Element.token ⟨kind, text, start + root.start⟩ :: ·) hrest
    | node kind children => exact congrArg (_ :: ·) hrest

theorem elements_graft (root s : Site) :
    (root.graft s).elements = s.elements.map (Element.graft root) :=
  elementsFrom_graft root s.ancestors s.start s.children

theorem filterMap_node_graft (root : Site) (es : List Element) :
    (es.map (Element.graft root)).filterMap Element.node? =
      (es.filterMap Element.node?).map root.graft := by
  rw [List.filterMap_map, List.map_filterMap]
  exact List.filterMap_congr fun e _ => by cases e <;> rfl

theorem kind_graft (root : Site) (e : Element) : (e.graft root).kind = e.kind := by
  cases e <;> rfl

theorem nodes_graft (root s : Site) : (root.graft s).nodes = s.nodes.map root.graft := by
  rw [nodes, elements_graft, filterMap_node_graft]
  rfl

theorem directTokens_graft (root s : Site) :
    (root.graft s).directTokens = s.directTokens.map (Token.shift root.start) := by
  have htokens : (s.elements.map (Element.graft root)).filterMap Element.token? =
      (s.elements.filterMap Element.token?).map (Token.shift root.start) := by
    rw [List.filterMap_map, List.map_filterMap]
    exact List.filterMap_congr fun e _ => by cases e <;> rfl
  rw [directTokens, elements_graft, htokens, List.filter_map]
  rfl

theorem preorder_graft (root s : Site) : (root.graft s).preorder = s.preorder.map root.graft := by
  induction s using rec_nodes with
  | h s ih =>
    have hbelow : (root.graft s).below = s.below.map root.graft := by
      rw [below_eq, below_eq, nodes_graft, List.flatMap_map, List.map_flatMap]
      exact List.flatMap_congr ih
    rw [preorder, preorder, hbelow]
    rfl

/-! ### Parts of a node -/

theorem filter_nodes_graft (root s : Site) (f : Kind → Bool) :
    (root.graft s).nodes.filter (fun c => f c.kind) =
      (s.nodes.filter fun c => f c.kind).map root.graft := by
  rw [nodes_graft, List.filter_map]
  rfl

theorem expressions_graft (root s : Site) :
    (root.graft s).expressions = s.expressions.map root.graft :=
  filter_nodes_graft root s Kind.isExpression

theorem statements_graft (root s : Site) :
    (root.graft s).statements = s.statements.map root.graft :=
  filter_nodes_graft root s Kind.isStatement

theorem child?_graft (root s : Site) (kind : Kind) :
    (root.graft s).child? kind = (s.child? kind).map root.graft := by
  rw [child?, nodes_graft, List.find?_map]
  rfl

theorem firstExpression?_graft (root s : Site) :
    (root.graft s).firstExpression? = s.firstExpression?.map root.graft := by
  rw [firstExpression?, expressions_graft, List.head?_map]
  rfl

theorem secondExpression?_graft (root s : Site) :
    (root.graft s).secondExpression? = s.secondExpression?.map root.graft := by
  rw [secondExpression?, expressions_graft, List.getElem?_map]
  rfl

theorem lastExpression?_graft (root s : Site) :
    (root.graft s).lastExpression? = s.lastExpression?.map root.graft := by
  rw [lastExpression?, expressions_graft, List.getLast?_map]
  rfl

theorem token?_graft (root s : Site) (kind : Kind) :
    (root.graft s).token? kind = (s.token? kind).map (Token.shift root.start) := by
  rw [token?, directTokens_graft, List.find?_map]
  rfl

theorem lastIdent?_graft (root s : Site) :
    (root.graft s).lastIdent? = s.lastIdent?.map (Token.shift root.start) := by
  rw [lastIdent?, idents, directTokens_graft, List.filter_map, List.getLast?_map]
  rfl

theorem operator?_graft (root s : Site) :
    (root.graft s).operator? = s.operator?.map (Token.shift root.start) := by
  rw [operator?, directTokens_graft, List.find?_map]
  rfl

@[simp] theorem isQualified_graft (root s : Site) :
    (root.graft s).isQualified = s.isQualified := isQualified_congr (graft_tree root s)

theorem qualifier?_graft (root s : Site) :
    (root.graft s).qualifier? = s.qualifier?.map root.graft := by
  rw [qualifier?, qualifier?, isQualified_graft]
  split
  · have hkind : ((fun e : Element => e.kind != .dot) ∘ Element.graft root) =
        fun e => e.kind != .dot := funext fun e => congrArg (· != _) (kind_graft root e)
    rw [elements_graft, List.takeWhile_map, hkind, filterMap_node_graft, List.getLast?_map]
  · rfl

theorem lambdaBody?_graft (root s : Site) :
    (root.graft s).lambdaBody? = s.lambdaBody?.map root.graft := by
  have hkind : ((fun e : Element => e.kind != .arrow) ∘ Element.graft root) =
      fun e => e.kind != .arrow := funext fun e => congrArg (· != _) (kind_graft root e)
  rw [lambdaBody?, elements_graft, List.dropWhile_map, hkind, filterMap_node_graft,
    List.head?_map]
  rfl

theorem outerInstance?_graft (root s : Site) :
    (root.graft s).outerInstance? = s.outerInstance?.map root.graft := by
  rw [outerInstance?, outerInstance?, token?_graft]
  cases s.token? .newKw with
  | none => rfl
  | some word =>
    have hbefore : ((fun e : Site => decide (e.span.stop ≤ (word.shift root.start).start)) ∘
        root.graft) = fun e => decide (e.span.stop ≤ word.start) := by
      funext e
      rw [Function.comp_apply, graft_stop]
      exact decide_eq_decide.2 (Nat.add_le_add_iff_right)
    simp only [Option.map_some]
    rw [expressions_graft, List.find?_map, hbefore]

end Site

end SourceRename
