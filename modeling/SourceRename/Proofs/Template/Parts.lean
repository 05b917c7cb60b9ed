import Mathlib.Data.List.Basic
import SourceRename.Proofs.Template.Trace

/-!
# The parts of a template node

Which parts of a template node are laid over something does not depend on the file: two operands,
the statements of a block, the arguments of a call (`Template.parts`).  Where a node is laid over
another one, its parts are laid over parts of that one, one by one; only the variadic parameter at
the end of an argument list may take several arguments, or none, on the spot.

`covers_of_align` says this once for all kinds of nodes, together with the names of lambda
parameters that the parts see.  Whatever is to be known of what is captured where follows from it.
-/

namespace SourceRename.Template

variable {t : Template} {file : SourceFile} {bound : Bound} {p e hole : Site} {a : Alignment}
  {c : Capture}

def arguments (call : Site) : List Site := ((call.child? .argList).map Site.expressions).getD []

theorem arguments_of_some {call list : Site} (h : call.child? .argList = some list) :
    arguments call = list.expressions := by
  rw [arguments, h]
  rfl

theorem arguments_of_none {call : Site} (h : call.child? .argList = none) : arguments call = [] := by
  rw [arguments, h]
  rfl

/-- The nodes in a template node that are laid over something. -/
def parts (p : Site) : List Site :=
  match p.kind with
  | .assignment | .binaryExpr => p.firstExpression?.toList ++ p.secondExpression?.toList
  | .blockStmt => (p.child? .block).toList
  | .block => p.statements
  | .returnStmt | .exprStmt | .parenExpr => p.firstExpression?.toList
  | .castExpr => p.lastExpression?.toList
  | .referenceExpr => p.qualifier?.toList
  | .lambdaExpr => p.lambdaBody?.toList
  | .methodCall => (p.child? .referenceExpr).toList ++ arguments p
  | .newExpr => p.outerInstance?.toList ++ arguments p
  | _ => []

/-- The arguments of the call `e` behind the fixed ones are captured for the variadic parameter at
`hole`, the last argument of the call `p`. -/
def Gathers (t : Template) (file : SourceFile) (p e hole : Site) (c : Capture) : Prop :=
  ∃ ps es, p.child? .argList = some ps ∧ e.child? .argList = some es ∧
    t.variadicHole? ps.expressions = some (hole, c.parameter) ∧
    ∃ pairs, t.alignTail file hole c.parameter es (es.expressions.take (ps.expressions.length - 1))
      (es.expressions.drop (ps.expressions.length - 1)) = some (pairs, [c])

/-! ### Where parts stand -/

/-- A part of a node is a child of it, or an argument in the list of a call. -/
theorem mem_parts_cases {q : Site} (h : q ∈ parts p) :
    q ∈ p.nodes ∨ ∃ args ∈ p.nodes, args.kind = .argList ∧ q ∈ args.nodes := by
  have harguments : ∀ {head? : Option Site}, (∀ c, head? = some c → c ∈ p.nodes) →
      q ∈ head?.toList ++ arguments p →
      q ∈ p.nodes ∨ ∃ args ∈ p.nodes, args.kind = .argList ∧ q ∈ args.nodes := by
    intro head? hhead h
    rcases List.mem_append.1 h with h | h
    · exact .inl (hhead q (Option.mem_toList.1 h))
    · unfold arguments at h
      cases hargs : p.child? .argList with
      | none =>
        rw [hargs] at h
        exact absurd h List.not_mem_nil
      | some args =>
        rw [hargs] at h
        exact .inr ⟨args, Site.mem_nodes_of_child? hargs, Site.kind_of_child? hargs,
          Site.mem_nodes_of_expressions h⟩
  unfold parts at h
  split at h
  · rcases List.mem_append.1 h with h | h
    · exact .inl (Site.mem_nodes_of_firstExpression? (Option.mem_toList.1 h))
    · exact .inl (Site.mem_nodes_of_secondExpression? (Option.mem_toList.1 h))
  · rcases List.mem_append.1 h with h | h
    · exact .inl (Site.mem_nodes_of_firstExpression? (Option.mem_toList.1 h))
    · exact .inl (Site.mem_nodes_of_secondExpression? (Option.mem_toList.1 h))
  · exact .inl (Site.mem_nodes_of_child? (Option.mem_toList.1 h))
  · exact .inl (Site.mem_nodes_of_statements h)
  · exact .inl (Site.mem_nodes_of_firstExpression? (Option.mem_toList.1 h))
  · exact .inl (Site.mem_nodes_of_firstExpression? (Option.mem_toList.1 h))
  · exact .inl (Site.mem_nodes_of_firstExpression? (Option.mem_toList.1 h))
  · exact .inl (Site.mem_nodes_of_lastExpression? (Option.mem_toList.1 h))
  · exact .inl (Site.mem_nodes_of_qualifier? (Option.mem_toList.1 h))
  · exact .inl (Site.mem_nodes_of_lambdaBody? (Option.mem_toList.1 h))
  · exact harguments (fun _ => Site.mem_nodes_of_child?) h
  · exact harguments (fun _ => Site.mem_nodes_of_outerInstance?) h
  · exact absurd h List.not_mem_nil

theorem size_lt_of_mem_parts {q : Site} (h : q ∈ parts p) : q.size < p.size := by
  rcases mem_parts_cases h with h | ⟨args, hargs, -, h⟩
  · exact Site.size_lt_of_mem_nodes h
  · exact Nat.lt_trans (Site.size_lt_of_mem_nodes h) (Site.size_lt_of_mem_nodes hargs)

/-! ### Parts one by one -/

theorem map_fst_optional {p? e? : Option Site} {pairs : List (Site × Site)}
    (h : Alignment.optional p? e? = some pairs) : pairs.map Prod.fst = p?.toList := by
  unfold Alignment.optional at h
  split at h
  · obtain rfl := Option.some.inj h
    rfl
  · obtain rfl := Option.some.inj h
    rfl
  · simp at h

theorem map_fst_required {p? e? : Option Site} {pairs : List (Site × Site)}
    (h : Alignment.required p? e? = some pairs) : pairs.map Prod.fst = p?.toList := by
  unfold Alignment.required at h
  split at h
  · obtain rfl := Option.some.inj h
    rfl
  · simp at h

theorem map_fst_rows {ps es : List Site} {pairs : List (Site × Site)}
    (h : Alignment.rows ps es = some pairs) : pairs.map Prod.fst = ps := by
  unfold Alignment.rows at h
  split at h
  · next hlen =>
    obtain rfl := Option.some.inj h
    exact List.map_fst_zip (Nat.le_of_eq hlen)
  · simp at h

/-- The parts are laid over something one by one, see the same names, and nothing is captured on the
spot. -/
structure OneByOne (a : Alignment) (bound : Bound) (ps : List Site) : Prop where
  captures : a.captures = []
  parts : a.pairs.map Prod.fst = ps
  bound : a.bound = bound

theorem oneByOne_of_ofOptional {p? e? : Option Site}
    (h : Alignment.ofOptional bound p? e? = some a) : OneByOne a bound p?.toList := by
  obtain ⟨pairs, hpairs, rfl⟩ := Option.map_eq_some_iff.1 h
  exact ⟨rfl, map_fst_optional hpairs, rfl⟩

theorem oneByOne_of_operation (h : alignOperation bound p e = some a) :
    OneByOne a bound (p.firstExpression?.toList ++ p.secondExpression?.toList) := by
  unfold alignOperation at h
  split at h
  · obtain ⟨left, hl, h⟩ := Option.bind_eq_some_iff.1 h
    obtain ⟨right, hr, h⟩ := Option.bind_eq_some_iff.1 h
    obtain rfl := Option.some.inj h
    exact ⟨rfl, by rw [List.map_append, map_fst_optional hl, map_fst_optional hr], rfl⟩
  · simp at h

theorem oneByOne_of_reference (h : alignReference bound p e = some a) :
    OneByOne a bound p.qualifier?.toList := by
  unfold alignReference at h
  split at h
  · next expected hexpected =>
    -- the name of a lambda parameter has no qualifier
    have hplain : p.isQualified = false := by
      unfold expectedName? at hexpected
      split at hexpected
      · simp at hexpected
      · next hplain => exact Bool.eq_false_iff.2 hplain
    split at h
    · obtain rfl := Option.some.inj h
      refine ⟨rfl, ?_, rfl⟩
      rw [Site.qualifier?, hplain]
      rfl
    · simp at h
  · split at h
    · exact oneByOne_of_ofOptional h
    · simp at h

theorem oneByOne_of_lambda (h : alignLambda bound p e = some a) :
    OneByOne a (bindParameters bound p e) p.lambdaBody?.toList := by
  unfold alignLambda at h
  split at h
  · exact oneByOne_of_ofOptional h
  · simp at h

/-! ### Arguments -/

theorem variadicHole?_eq_some {args : List Site} {parameter : Nat}
    (h : t.variadicHole? args = some (hole, parameter)) :
    args.getLast? = some hole ∧ t.hole? hole = some parameter ∧ t.isVariadic parameter = true := by
  obtain ⟨last, hlast, h⟩ := Option.bind_eq_some_iff.1 h
  obtain ⟨n, hn, h⟩ := Option.map_eq_some_iff.1 h
  obtain ⟨rfl, rfl⟩ := Prod.mk.inj h
  obtain ⟨hhole, hvariadic⟩ := Option.filter_eq_some_iff.1 hn
  exact ⟨hlast, hhole, hvariadic⟩

theorem isVariadic_of_gathers (h : t.Gathers file p e hole c) :
    t.isVariadic c.parameter = true := by
  obtain ⟨ps, es, -, -, hv, -⟩ := h
  exact (variadicHole?_eq_some hv).2.2

/-- The variadic parameter is laid over one argument, or arguments are captured for it. -/
theorem alignTail_cases {parameter : Nat} {args : Site} {fixed tail : List Site}
    {pairs : List (Site × Site)} {captures : List Capture}
    (h : t.alignTail file hole parameter args fixed tail = some (pairs, captures)) :
    (∃ first, tail = [first] ∧ pairs = [(hole, first)] ∧ captures = []) ∨
      pairs = [] ∧ ∃ c, captures = [c] ∧ c.parameter = parameter ∧
        (tail = [] ∧ c.extent = .omitted ∧ c.span = .empty (tailStart args fixed) ∨
          ∃ first rest, tail = first :: rest ∧ c.extent = .run ∧
            c.span = hull first (rest.getLastD first)) := by
  unfold alignTail at h
  split at h
  · obtain ⟨rfl, rfl⟩ := Prod.mk.inj (Option.some.inj h)
    exact .inr ⟨rfl, _, rfl, rfl, .inl ⟨rfl, rfl, rfl⟩⟩
  · next first rest =>
    split at h
    · next hone =>
      obtain ⟨rfl, rfl⟩ := Prod.mk.inj (Option.some.inj h)
      obtain rfl := List.isEmpty_iff.1 (Bool.and_eq_true_iff.1 hone).1
      exact .inl ⟨first, rfl, rfl, rfl⟩
    · split at h
      · obtain ⟨rfl, rfl⟩ := Prod.mk.inj (Option.some.inj h)
        exact .inr ⟨rfl, _, rfl, rfl, .inr ⟨first, rest, rfl, rfl, rfl⟩⟩
      · simp at h

/-! ### Nodes -/

/-- The names of lambda parameters that the parts of two nodes see: the bodies of lambda expressions
see their parameters, all other parts what the nodes see. -/
def seenBy (bound : Bound) (p e : Site) : Bound :=
  if p.kind = .lambdaExpr then bindParameters bound p e else bound

/-- What becomes of the parts of `p` where it is laid over `e`: they are laid over something one by
one, but for a variadic parameter for which arguments are gathered. -/
structure Covers (t : Template) (file : SourceFile) (bound : Bound) (p e : Site) (a : Alignment) :
    Prop where
  bound : a.bound = seenBy bound p e
  parts : (a.captures = [] ∧ a.pairs.map Prod.fst = parts p) ∨
    ∃ hole c, a.captures = [c] ∧ a.pairs.map Prod.fst ++ [hole] = Template.parts p ∧
      t.Gathers file p e hole c

theorem covers_of_oneByOne {ps : List Site} {inner : Bound} (hparts : parts p = ps)
    (hbound : seenBy bound p e = inner) (h : OneByOne a inner ps) : Covers t file bound p e a :=
  ⟨h.bound.trans hbound.symm, .inl ⟨h.captures, h.parts.trans hparts.symm⟩⟩

theorem covers_of_call {heads : Option (List (Site × Site))} (head? : Option Site)
    (hparts : parts p = head?.toList ++ arguments p) (hplain : seenBy bound p e = bound)
    (hheads : ∀ hs, heads = some hs → hs.map Prod.fst = head?.toList)
    (h : t.alignCall file bound p e heads = some a) : Covers t file bound p e a := by
  unfold alignCall at h
  split at h
  case h_2 => simp at h
  next hs args captures harguments =>
  obtain rfl := Option.some.inj h
  refine ⟨hplain.symm, ?_⟩
  have hfirst := hheads hs rfl
  unfold alignArguments at harguments
  split at harguments
  · next hp _ =>
    obtain ⟨rfl, rfl⟩ := Prod.mk.inj (Option.some.inj harguments)
    refine .inl ⟨rfl, ?_⟩
    rw [hparts, arguments, hp, List.append_nil]
    exact hfirst.trans (List.append_nil _).symm
  · next ps es hp he =>
    have hargs := arguments_of_some hp
    unfold alignLists at harguments
    split at harguments
    · obtain ⟨qs, hq, h⟩ := Option.map_eq_some_iff.1 harguments
      obtain ⟨rfl, rfl⟩ := Prod.mk.inj h
      refine .inl ⟨rfl, ?_⟩
      rw [hparts, hargs, List.map_append, hfirst, map_fst_rows hq]
    · next hole parameter hv =>
      simp only at harguments
      split at harguments
      · simp at harguments
      · next hlong =>
        obtain ⟨⟨qs, ds⟩, hq, h⟩ := Option.map_eq_some_iff.1 harguments
        obtain ⟨rfl, rfl⟩ := Prod.mk.inj h
        obtain ⟨hlast, -, -⟩ := variadicHole?_eq_some hv
        -- the fixed arguments and the variadic one are all of them
        have hfixed : ((ps.expressions.take (ps.expressions.length - 1)).zip
            (es.expressions.take (ps.expressions.length - 1))).map Prod.fst ++ [hole] =
              ps.expressions := by
          rw [List.map_fst_zip (by
            rw [List.length_take, List.length_take]
            omega), ← List.dropLast_eq_take]
          exact List.dropLast_append_getLast? hole hlast
        rcases alignTail_cases hq with ⟨first, -, rfl, rfl⟩ | ⟨rfl, c, rfl, rfl, -⟩
        · refine .inl ⟨rfl, ?_⟩
          rw [hparts, hargs, List.map_append, List.map_append, hfirst]
          exact congrArg _ hfixed
        · refine .inr ⟨hole, c, rfl, ?_, ps, es, hp, he, hv, [], hq⟩
          rw [hparts, hargs, List.append_nil, List.map_append, hfirst, List.append_assoc, hfixed]
  · simp at harguments

/-- **The parts of a node that is laid over another one** are covered, and both nodes are of one
kind. -/
theorem covers_of_align (h : t.align file bound p e = some a) :
    p.kind = e.kind ∧ Covers t file bound p e a := by
  have hplain : p.kind ≠ .lambdaExpr → seenBy bound p e = bound := fun h => if_neg h
  unfold align at h
  split at h
  case isFalse => simp at h
  next hkind =>
  refine ⟨hkind, ?_⟩
  split at h
  · next hk =>
    exact covers_of_oneByOne (by rw [parts, hk]) (hplain (by simp [hk])) (oneByOne_of_operation h)
  · next hk =>
    exact covers_of_oneByOne (by rw [parts, hk]) (hplain (by simp [hk])) (oneByOne_of_operation h)
  · next hk =>
    obtain ⟨pairs, hpairs, rfl⟩ := Option.map_eq_some_iff.1 h
    exact covers_of_oneByOne (by rw [parts, hk]) (hplain (by simp [hk]))
      ⟨rfl, map_fst_required hpairs, rfl⟩
  · next hk =>
    obtain ⟨pairs, hpairs, rfl⟩ := Option.map_eq_some_iff.1 h
    exact covers_of_oneByOne (by rw [parts, hk]) (hplain (by simp [hk]))
      ⟨rfl, map_fst_rows hpairs, rfl⟩
  · next hk =>
    exact covers_of_oneByOne (by rw [parts, hk]) (hplain (by simp [hk])) (oneByOne_of_ofOptional h)
  · next hk =>
    exact covers_of_oneByOne (by rw [parts, hk]) (hplain (by simp [hk])) (oneByOne_of_ofOptional h)
  · next hk =>
    exact covers_of_oneByOne (by rw [parts, hk]) (hplain (by simp [hk])) (oneByOne_of_ofOptional h)
  · next hk =>
    exact covers_of_oneByOne (by rw [parts, hk]) (hplain (by simp [hk])) (oneByOne_of_ofOptional h)
  · next hk =>
    exact covers_of_oneByOne (by rw [parts, hk]) (hplain (by simp [hk])) (oneByOne_of_reference h)
  · next hk =>
    exact covers_of_oneByOne (by rw [parts, hk]) (if_pos hk) (oneByOne_of_lambda h)
  · next hk =>
    exact covers_of_call (p.child? .referenceExpr) (by rw [parts, hk]) (hplain (by simp [hk]))
      (fun hs => map_fst_required) h
  · next hk =>
    split at h
    · exact covers_of_call p.outerInstance? (by rw [parts, hk]) (hplain (by simp [hk]))
        (fun hs => map_fst_optional) h
    · simp at h
  · next hk =>
    split at h
    · obtain rfl := Option.some.inj h
      have hparts : parts p = [] := by simp only [parts, hk]
      exact covers_of_oneByOne hparts (hplain (by simp [hk])) ⟨rfl, rfl, rfl⟩
    · simp at h
  · simp at h

end SourceRename.Template
