import SourceRename.Proofs.Syntax.Faithful
import SourceRename.Proofs.Syntax.Graft
import SourceRename.Proofs.Table
import SourceRename.Proofs.Template.Binders

/-!
# A template matches where it was read

A template is looked for in the file that it was read from, at the statement that it was made of.
Each node of its tree meets the same node put back (`Site.graft`), the names of lambda parameters
are called on both sides what they are called, and what is captured are the names of the parameters.

This needs that the tree consists of nodes that are compared at all, that what the parameters stand
for has fitting types, and that no such name has, inside, the name of a lambda parameter:

    r(q -> f(q::x))

is not matched by itself, because `q::x` counts as a plain name `x` and reads `q`.
-/

namespace SourceRename

def Kind.isCompared : Kind → Bool
  | .assignment | .binaryExpr | .blockStmt | .block | .returnStmt | .exprStmt | .parenExpr
  | .castExpr | .referenceExpr | .lambdaExpr | .methodCall | .newExpr | .literal => true
  | _ => false

namespace Template

variable {t : Template} {before after : SourceFile} {root p q : Site} {bound : Bound}
  {captures : List Capture}

def callsConstructor (file : SourceFile) (site : Site) : Bool :=
  match file.symbol? site with
  | some (.method m) => m.isConstructor
  | _ => false

/-- A node has the parts without which it is compared with nothing. -/
structure Comparable (before : SourceFile) (root p : Site) : Prop where
  kind : p.kind.isCompared = true
  callee : p.kind = .methodCall → (p.child? .referenceExpr).isSome = true
  block : p.kind = .blockStmt → (p.child? .block).isSome = true
  constructed : p.kind = .newExpr → callsConstructor before (root.graft p) = true

instance : Decidable (Comparable before root p) :=
  decidable_of_iff (p.kind.isCompared = true ∧
      (p.kind = .methodCall → (p.child? .referenceExpr).isSome = true) ∧
      (p.kind = .blockStmt → (p.child? .block).isSome = true) ∧
      (p.kind = .newExpr → callsConstructor before (root.graft p) = true))
    ⟨fun h => ⟨h.1, h.2.1, h.2.2.1, h.2.2.2⟩,
      fun h => ⟨h.kind, h.callee, h.block, h.constructed⟩⟩

theorem exists_of_callsConstructor {file : SourceFile} {site : Site}
    (h : callsConstructor file site = true) :
    ∃ m, file.symbol? site = some (.method m) ∧ m.isConstructor = true := by
  unfold callsConstructor at h
  split at h
  · next m hm => exact ⟨m, hm, h⟩
  · exact absurd h (by simp)

def itself (root p : Site) : Site × Site := (p, root.graft p)

/-! ### Parts -/

theorem optional_itself (root : Site) (p? : Option Site) :
    Alignment.optional p? (p?.map root.graft) = some (p?.toList.map (itself root)) := by
  cases p? <;> rfl

theorem ofOptional_itself (root : Site) (bound : Bound) (p? : Option Site) :
    Alignment.ofOptional bound p? (p?.map root.graft) =
      some ⟨p?.toList.map (itself root), bound, []⟩ := by
  rw [Alignment.ofOptional, optional_itself]
  rfl

theorem required_itself {p? : Option Site} (h : p?.isSome = true) :
    Alignment.required p? (p?.map root.graft) = some (p?.toList.map (itself root)) := by
  obtain ⟨p, rfl⟩ := Option.isSome_iff_exists.1 h
  rfl

theorem zip_itself (root : Site) (ps : List Site) :
    ps.zip (ps.map root.graft) = ps.map (itself root) := by
  induction ps with
  | nil => rfl
  | cons p ps ih => exact congrArg ((p, root.graft p) :: ·) ih

theorem rows_itself (root : Site) (ps : List Site) :
    Alignment.rows ps (ps.map root.graft) = some (ps.map (itself root)) := by
  rw [Alignment.rows, if_pos (List.length_map _).symm, zip_itself]

theorem sameToken_shift (width : Nat) (a : Option Token) :
    sameToken a (a.map (Token.shift width)) = true := by
  rw [sameToken, Option.map_map]
  exact beq_self_eq_true _

theorem operation_itself (root : Site) (bound : Bound) (p : Site) :
    alignOperation bound p (root.graft p) =
      some ⟨(p.firstExpression?.toList ++ p.secondExpression?.toList).map (itself root), bound,
        []⟩ := by
  rw [alignOperation, Site.operator?_graft, if_pos (sameToken_shift _ _),
    Site.firstExpression?_graft, Site.secondExpression?_graft, optional_itself, optional_itself,
    List.map_append]
  rfl

/-! ### Names -/

/-- Lambda parameters are called the same on both sides. -/
def Diagonal (bound : Bound) : Prop := ∀ x ∈ bound, x.1 = x.2

theorem diagonal_seenBy (h : Diagonal bound) : Diagonal (seenBy bound p (root.graft p)) := by
  rw [seenBy]
  split
  · rw [bindParameters_eq]
    intro x hx
    rcases List.mem_append.1 hx with hx | hx
    · have hnames := Site.lambdaParameters_congr (Site.graft_tree root p)
      obtain ⟨y, hy, rfl⟩ := List.mem_map.1 (List.mem_reverse.1 hx)
      obtain ⟨k, hk⟩ := List.getElem?_of_mem hy
      obtain ⟨hp, he⟩ := List.getElem?_zip_eq_some.1 hk
      have hk := congrArg (·[k]?) hnames
      simp only [List.getElem?_map, hp, he, Option.map_some, Option.some.injEq] at hk
      exact hk.symm
    · exact h x hx
  · exact h

theorem reference_itself (h : Diagonal bound) :
    alignReference bound p (root.graft p) =
      some ⟨p.qualifier?.toList.map (itself root), bound, []⟩ := by
  rw [alignReference, Site.isQualified_graft, Site.lastIdent?_graft, Site.qualifier?_graft]
  split
  · next expected hexpected =>
    rw [expectedName?] at hexpected
    split at hexpected
    · exact absurd hexpected (by simp)
    · next hplain =>
      obtain ⟨ident, hident, hexpected⟩ := Option.bind_eq_some_iff.1 hexpected
      obtain ⟨found, hfound, rfl⟩ := Option.map_eq_some_iff.1 hexpected
      have hname : found.1 = ident.text := by simpa using List.find?_some hfound
      rw [h found (List.mem_of_find?_eq_some hfound)] at hname
      have hsame : (!p.isQualified && (p.lastIdent?.map (Token.shift root.start)).any
          (·.text == found.2)) = true := by
        rw [hident, hname]
        simpa [Token.shift] using hplain
      rw [if_pos hsame, Site.qualifier?, if_neg hplain]
      rfl
  · next hnone =>
    have hfree : isBound bound (root.graft p) = false := by
      rw [isBound, Site.isQualified_graft, Site.lastIdent?_graft]
      rw [expectedName?] at hnone
      cases hplain : p.isQualified with
      | true => rfl
      | false =>
        rw [hplain] at hnone
        cases hident : p.lastIdent? with
        | none => rfl
        | some ident =>
          rw [hident] at hnone
          have hfound := Option.map_eq_none_iff.1 hnone
          refine List.any_eq_false.2 fun x hx heq => ?_
          exact List.find?_eq_none.1 hfound x hx (h x hx ▸ heq)
    rw [hfree, sameToken_shift]
    exact ofOptional_itself root bound p.qualifier?

/-! ### Arguments -/

/-- A variadic parameter at the end of an argument list stands for the argument that it is. -/
theorem arguments_itself (hfits : ∀ hole i, t.variadicHole? (arguments p) = some (hole, i) →
      t.fits before i (root.graft hole) = true) :
    t.alignArguments before (p.child? .argList) ((root.graft p).child? .argList) =
      some ((arguments p).map (itself root), []) := by
  rw [Site.child?_graft, arguments]
  cases hlist : p.child? .argList with
  | none => rfl
  | some list =>
    rw [arguments_of_some hlist] at hfits
    simp only [Option.map_some, Option.getD_some]
    rw [alignArguments, alignLists, Site.expressions_graft]
    generalize list.expressions = args at hfits
    cases hv : t.variadicHole? args with
    | none =>
      simp only
      rw [rows_itself]
      rfl
    | some found =>
      obtain ⟨hole, i⟩ := found
      obtain ⟨fixed, rfl⟩ := List.getLast?_eq_some_iff.1 (variadicHole?_eq_some hv).1
      have htail : t.alignTail before hole i (root.graft list) (fixed.map root.graft)
          [root.graft hole] = some ([(hole, root.graft hole)], []) := by
        rw [alignTail, hfits hole i hv]
        rfl
      have hlength : (fixed ++ [hole]).length - 1 = (fixed.map root.graft).length := by simp
      simp only [List.length_map, Nat.not_lt.2 (Nat.sub_le _ 1), if_false]
      rw [List.map_append, hlength, List.take_left, List.drop_left, List.map_singleton,
        List.length_map, List.take_left, htail, zip_itself, List.map_append]
      rfl

/-! ### Constructors -/

theorem constructors_of_ofMethods {method replacement : Site}
    (h : ofMethods before method after replacement = .ok t) (hroot : statement method = .ok root) :
    t.constructors = .ofList (constructorsOf before root) := by
  rw [ofMethods] at h
  obtain ⟨parameters, -, h⟩ := bind_eq_ok_iff.1 h
  obtain ⟨other, hother, h⟩ := bind_eq_ok_iff.1 h
  obtain ⟨newRoot, -, h⟩ := bind_eq_ok_iff.1 h
  rw [mapError_eq_ok_iff, hroot] at hother
  obtain rfl := Except.ok.inj hother
  dsimp only at h
  split at h
  · simp [throw, throwThe, MonadExceptOf.throw, bind, Except.bind] at h
  · split at h
    · simp [throw, throwThe, MonadExceptOf.throw] at h
    · obtain rfl := Except.ok.inj h
      rfl

theorem preorder_root (hroot : t.root = .root root.tree) :
    root.preorder = t.root.preorder.map root.graft := by
  rw [← Site.preorder_graft, hroot, Site.graft_self]

theorem relativeTo_graft (root p : Site) : (root.graft p).span.relativeTo root.start = p.span := by
  rw [Span.relativeTo]
  simp only [Site.graft_start, Site.graft_stop, Nat.add_sub_cancel]

theorem sameConstructor_itself (hroot : t.root = .root root.tree)
    (hconstructors : t.constructors = .ofList (constructorsOf before root))
    (hp : p ∈ t.root.preorder) (hkind : p.kind = .newExpr)
    (hcalled : callsConstructor before (root.graft p) = true) :
    t.sameConstructor before p (root.graft p) = true := by
  obtain ⟨m, hsymbol, hm⟩ := exists_of_callsConstructor hcalled
  have hmem : ∀ {q : Site} {n : Method}, q ∈ t.root.preorder → q.kind = .newExpr →
      before.symbol? (root.graft q) = some (.method n) → n.isConstructor = true →
      (q.span, n) ∈ constructorsOf before root := by
    intro q n hq hqkind hn hctor
    refine List.mem_filterMap.2 ⟨root.graft q, List.mem_filter.2 ⟨?_, by simp [hqkind]⟩, ?_⟩
    · rw [preorder_root hroot]
      exact List.mem_map_of_mem hq
    · simp only [hn, hctor, if_true, relativeTo_graft]
  obtain ⟨n, hn, hlisted⟩ := Table.exists_get?_ofList (hmem hp hkind hsymbol hm)
  -- calls with the same span have the same symbol
  obtain ⟨site, hsite, hresolved⟩ := List.mem_filterMap.1 hlisted
  obtain ⟨hsite, hnew⟩ := List.mem_filter.1 hsite
  rw [preorder_root hroot] at hsite
  obtain ⟨q, hq, rfl⟩ := List.mem_map.1 hsite
  split at hresolved
  case h_2 => exact absurd hresolved (by simp)
  next found hfound =>
  split at hresolved
  case isFalse => exact absurd hresolved (by simp)
  obtain ⟨hspan, rfl⟩ := Prod.mk.inj (Option.some.inj hresolved)
  rw [relativeTo_graft] at hspan
  have hkey : (root.graft q).key = (root.graft p).key := by
    have hkinds : (root.graft q).kind = (root.graft p).kind := (beq_iff_eq.1 hnew).trans hkind.symm
    have hspans : (root.graft q).span = (root.graft p).span :=
      Span.ext_of_eq (by rw [Site.graft_start, Site.graft_start, hspan])
        (by rw [Site.graft_stop, Site.graft_stop, hspan])
    exact Prod.ext hkinds hspans
  rw [SourceFile.symbol?, hkey, ← SourceFile.symbol?, hsymbol] at hfound
  obtain rfl : m = found := by
    injection hfound with h
    injection h
  rw [sameConstructor, hconstructors, hn, hsymbol]
  simp [hm, Method.sameSignature]

/-! ### Nodes -/

/-- **A node is laid over itself** with each part over itself. -/
theorem align_itself (hroot : t.root = .root root.tree)
    (hconstructors : t.constructors = .ofList (constructorsOf before root))
    (hp : p ∈ t.root.preorder) (h : Comparable before root p) (hbound : Diagonal bound)
    (hfits : ∀ hole ∈ parts p, ∀ i, t.hole? hole = some i →
      t.fits before i (root.graft hole) = true) :
    t.align before bound p (root.graft p) =
      some ⟨(parts p).map (itself root), seenBy bound p (root.graft p), []⟩ := by
  have hcall : ∀ head? : Option Site, parts p = head?.toList ++ arguments p →
      t.alignCall before bound p (root.graft p) (some (head?.toList.map (itself root))) =
        some ⟨(head?.toList ++ arguments p).map (itself root), bound, []⟩ := by
    intro head? hparts
    unfold alignCall
    rw [arguments_itself, List.map_append]
    intro hole i hv
    obtain ⟨hlast, hhole, -⟩ := variadicHole?_eq_some hv
    refine hfits hole ?_ i hhole
    rw [hparts]
    exact List.mem_append_right _ (List.mem_of_getLast? hlast)
  have hplain : p.kind ≠ .lambdaExpr → seenBy bound p (root.graft p) = bound := fun h => if_neg h
  have hcompared := h.kind
  rw [align, if_pos (Site.graft_kind root p).symm, parts]
  cases hkind : p.kind <;> rw [hkind] at hcompared <;>
    first
    | exact absurd hcompared (by decide)
    | rw [hkind] at hplain
  case assignment => rw [operation_itself, hplain (by decide)]
  case binaryExpr => rw [operation_itself, hplain (by decide)]
  case blockStmt =>
    simp only
    rw [Site.child?_graft, required_itself (h.block hkind), hplain (by decide)]
    rfl
  case block =>
    simp only
    rw [Site.statements_graft, rows_itself, hplain (by decide)]
    rfl
  case returnStmt => rw [Site.firstExpression?_graft, ofOptional_itself, hplain (by decide)]
  case exprStmt => rw [Site.firstExpression?_graft, ofOptional_itself, hplain (by decide)]
  case parenExpr => rw [Site.firstExpression?_graft, ofOptional_itself, hplain (by decide)]
  case castExpr => rw [Site.lastExpression?_graft, ofOptional_itself, hplain (by decide)]
  case referenceExpr => rw [reference_itself hbound, hplain (by decide)]
  case lambdaExpr =>
    have hnames := congrArg List.length (Site.lambdaParameters_congr (Site.graft_tree root p))
    rw [List.length_map, List.length_map] at hnames
    rw [alignLambda, if_pos hnames.symm, Site.lambdaBody?_graft, ofOptional_itself, seenBy,
      if_pos hkind]
  case methodCall =>
    simp only
    rw [Site.child?_graft, required_itself (h.callee hkind), hcall _ (by rw [parts, hkind]),
      hplain (by decide)]
  case newExpr =>
    simp only
    rw [if_pos (sameConstructor_itself hroot hconstructors hp hkind (h.constructed hkind)),
      Site.outerInstance?_graft, optional_itself, hcall _ (by rw [parts, hkind]),
      hplain (by decide)]
  case literal =>
    simp only
    rw [Site.graft_text, if_pos rfl, hplain (by decide)]
    rfl

/-! ### Captures -/

/-- What a template asks for of the file it was read from, besides that nodes are compared: what a
parameter with a type stands for has a type that may be assigned to it, and a parameter that is used
twice is written the same. -/
structure Admits (t : Template) (before : SourceFile) (root : Site) : Prop where
  comparable : ∀ p, t.Visited p → t.hole? p = none → Comparable before root p
  typed : ∀ hole i type, t.Visited hole → t.hole? hole = some i → t.type? i = some type →
    Assignable before type (root.graft hole)
  alike : ∀ hole other, t.Visited hole → t.Visited other → (t.hole? hole).isSome = true →
    t.hole? hole = t.hole? other → hole.text = other.text

/-- Where a parameter is used, no name inside is that of a parameter of a lambda expression around
the use. -/
def UsesFree (t : Template) : Prop :=
  ∀ hole, t.Visited hole → (t.hole? hole).isSome = true → ∀ name ∈ hole.below,
    ∀ lambda ∈ lambdas hole.enclosing, ¬ NamesParameter name lambda

def IsUse (t : Template) (root : Site) (c : Capture) : Prop :=
  ∃ hole, t.Visited hole ∧ t.hole? hole = some c.parameter ∧
    c = ⟨c.parameter, (root.graft hole).span, .single⟩

/-- A node that stands for a parameter is a plain name, which is the name of the parameter and of no
parameter of a lambda expression around it. -/
theorem hole?_eq_some {i : Nat} (h : t.hole? p = some i) :
    p.kind = .referenceExpr ∧ p.isQualified = false ∧ ∃ ident, p.lastIdent? = some ident ∧
      (t.parameters[i]?).map (·.name) = some ident.text ∧
      ∀ lambda ∈ lambdas p.enclosing, lambda.binds ident.text = false := by
  rw [hole?, parameterAt?] at h
  split at h
  case isFalse => exact absurd h (by simp)
  next hname =>
  split at h
  · exact absurd h (by simp)
  · next ident hident =>
    split at h
    · exact absurd h (by simp)
    · next hfree =>
      refine ⟨hname.1, by simpa using hname.2, ident, hident, ?_, ?_⟩
      · obtain ⟨hi, hfound, -⟩ := List.findIdx?_eq_some_iff_getElem.1 h
        rw [List.getElem?_eq_getElem hi]
        exact congrArg some (beq_iff_eq.1 hfound)
      · intro lambda hlambda
        obtain ⟨hmem, hkind⟩ := List.mem_filter.1 hlambda
        refine Bool.eq_false_iff.2 fun hbinds => hfree (List.any_eq_true.2 ⟨lambda, hmem, ?_⟩)
        rw [hkind, hbinds]
        rfl

/-- The names that are compared at a node are those of the lambda expressions around it. -/
def ScopedBy (bound : Bound) (p : Site) : Prop :=
  ∀ name, bound.any (·.2 == name) = (lambdas p.enclosing).any (·.binds name)

theorem readsBound_itself (hscope : ScopedBy bound p) : readsBound bound (root.graft p) = true ↔
    ∃ name ∈ p.preorder, ∃ lambda ∈ lambdas p.enclosing, NamesParameter name lambda := by
  rw [readsBound, Site.preorder_graft, List.any_map, List.any_eq_true]
  refine exists_congr fun name => and_congr_right fun _ => ?_
  rw [Function.comp_apply, Site.graft_kind, isBound, Site.isQualified_graft, Site.lastIdent?_graft,
    Bool.and_eq_true, beq_iff_eq, Bool.and_eq_true, Bool.not_eq_true', Option.any_map,
    Option.any_eq_true]
  constructor
  · rintro ⟨hkind, hplain, ident, hident, hbound⟩
    rw [hscope, List.any_eq_true] at hbound
    obtain ⟨lambda, hlambda, hbinds⟩ := hbound
    exact ⟨lambda, hlambda, hkind, hplain, ident, hident, hbinds⟩
  · rintro ⟨lambda, hlambda, hkind, hplain, ident, hident, hbinds⟩
    refine ⟨hkind, hplain, ident, hident, ?_⟩
    rw [hscope, List.any_eq_true]
    exact ⟨lambda, hlambda, hbinds⟩

theorem capture?_itself {i : Nat} (hadmits : t.Admits before root) (hfree : t.UsesFree)
    (hp : t.Visited p) (hhole : t.hole? p = some i) (hscope : ScopedBy bound p) :
    t.capture? before bound i (root.graft p) = some ⟨i, (root.graft p).span, .single⟩ := by
  obtain ⟨hkind, -, ident, hident, -, hown⟩ := hole?_eq_some hhole
  have hfits : t.fits before i (root.graft p) = true :=
    fits_iff.2 fun type htype => hadmits.typed p i type hp hhole htype
  have hreads : readsBound bound (root.graft p) = false := by
    rw [Bool.eq_false_iff, Ne, readsBound_itself hscope]
    rintro ⟨name, hname, lambda, hlambda, hnames⟩
    rcases List.mem_cons.1 hname with rfl | hbelow
    · -- the use itself is no parameter of a lambda expression
      obtain ⟨-, -, word, hword, hbinds⟩ := hnames
      obtain rfl : ident = word := Option.some.inj (hident.symm.trans hword)
      exact absurd hbinds (by simp [hown lambda hlambda])
    · exact hfree p hp (by rw [hhole]; rfl) name hbelow lambda hlambda hnames
  rw [capture?, Site.graft_kind, hkind, hfits, hreads]
  rfl

theorem scopedBy_seenBy (hscope : ScopedBy bound p) (hq : q ∈ parts p) :
    ScopedBy (seenBy bound p (root.graft p)) q := by
  intro name
  rw [lambdas_enclosing_of_mem_parts hq, lambdas, List.filter_cons, ← lambdas, seenBy]
  by_cases hkind : p.kind = .lambdaExpr
  · have hnames := Site.lambdaParameters_congr (Site.graft_tree root p)
    have hlength := congrArg List.length hnames
    rw [List.length_map, List.length_map] at hlength
    rw [if_pos hkind, if_pos (beq_iff_eq.2 hkind), any_bindParameters name hlength.symm,
      Site.binds_congr (Site.graft_tree root p), List.any_cons, hscope]
  · rw [if_neg hkind, if_neg (by simpa using hkind), hscope]

theorem Admits.align (hadmits : t.Admits before root) (hroot : t.root = .root root.tree)
    (hconstructors : t.constructors = .ofList (constructorsOf before root)) (hp : t.Visited p)
    (hhole : t.hole? p = none) (hbound : Diagonal bound) :
    t.align before bound p (root.graft p) =
      some ⟨(parts p).map (itself root), seenBy bound p (root.graft p), []⟩ := by
  refine align_itself hroot hconstructors hp.mem_root (hadmits.comparable p hp hhole) hbound ?_
  exact fun hole hmem i hi => fits_iff.2 fun type htype =>
    hadmits.typed hole i type (.part hp hhole hmem) hi htype

/-- **A template captures its parameters** where it was read. -/
theorem collect_itself (hroot : t.root = .root root.tree)
    (hconstructors : t.constructors = .ofList (constructorsOf before root))
    (hadmits : t.Admits before root) (hfree : t.UsesFree) (hp : t.Visited p)
    (hbound : Diagonal bound) (hscope : ScopedBy bound p) :
    ∃ captures, t.collect before bound p (root.graft p) = some captures ∧
      ∀ c ∈ captures, t.IsUse root c := by
  induction hsize : p.size using Nat.strongRecOn generalizing p bound with
  | ind size ih =>
    subst hsize
    cases hhole : t.hole? p with
    | some i =>
      refine ⟨[⟨i, (root.graft p).span, .single⟩], ?_, ?_⟩
      · rw [collect_of_hole hhole, capture?_itself hadmits hfree hp hhole hscope]
        rfl
      · intro c hc
        rw [List.mem_singleton.1 hc]
        exact ⟨p, hp, hhole, rfl⟩
    | none =>
      have hpart : ∀ q ∈ parts p, t.Visited q := fun q hq => .part hp hhole hq
      have halign := hadmits.align hroot hconstructors hp hhole hbound
      have hrows : ∀ qs : List Site, qs ⊆ parts p → ∃ rows : List (List Capture),
          List.Forall₂ (fun x cs => t.collect before (seenBy bound p (root.graft p)) x.1 x.2 = some cs)
            (qs.map (itself root)) rows ∧ ∀ cs ∈ rows, ∀ c ∈ cs, t.IsUse root c := by
        intro qs hqs
        induction qs with
        | nil => exact ⟨[], .nil, fun cs hcs => absurd hcs List.not_mem_nil⟩
        | cons q qs rest =>
          obtain ⟨hq, hqs⟩ := List.cons_subset.1 hqs
          obtain ⟨cs, hcs, huses⟩ := ih q.size (size_lt_of_mem_parts hq) (hpart q hq)
            (diagonal_seenBy hbound) (scopedBy_seenBy hscope hq) rfl
          obtain ⟨rows, hrows, hall⟩ := rest hqs
          exact ⟨cs :: rows, .cons hcs hrows, List.forall_mem_cons.2 ⟨huses, hall⟩⟩
      obtain ⟨rows, hrows, huses⟩ := hrows (parts p) (List.Subset.refl _)
      refine ⟨rows.flatten ++ [], collect_of_rows rows hhole halign hrows rfl, fun c hc => ?_⟩
      rw [List.append_nil] at hc
      obtain ⟨cs, hcs, hc⟩ := List.mem_flatten.1 hc
      exact huses cs hcs c hc

theorem consistent_of_alike {text : List Char} {earlier : List Capture}
    (h : ∀ c ∈ captures, ∀ d ∈ earlier ++ captures, d.parameter = c.parameter →
      ∃ part, slice? text d.span = some part ∧ slice? text c.span = some part) :
    consistent text earlier captures = true := by
  rw [consistent_iff]
  induction captures generalizing earlier with
  | nil => rfl
  | cons c cs ih =>
    rw [allAlike_cons_eq_true_iff]
    constructor
    · refine alike_eq_true_iff.2 fun _ d hd => ?_
      refine h c List.mem_cons_self d (List.mem_append_left _ (List.mem_of_find?_eq_some hd)) ?_
      simpa using List.find?_some hd
    · refine ih fun b hb d hd => h b (List.mem_cons_of_mem c hb) d ?_
      rwa [List.append_assoc, List.singleton_append] at hd

theorem meets_itself (hroot : t.root = .root root.tree)
    (hconstructors : t.constructors = .ofList (constructorsOf before root))
    (hadmits : t.Admits before root) (hp : t.Visited p) :
    ∃ around, t.Meets before root around p (root.graft p) ∧ Diagonal (scopeOf around) ∧
      ScopedBy (scopeOf around) p := by
  induction hp with
  | root =>
    have hself : root.graft t.root = root := by rw [hroot, Site.graft_self]
    refine ⟨[], hself.symm ▸ .root, fun x hx => absurd hx List.not_mem_nil, fun name => ?_⟩
    rw [hroot]
    rfl
  | @part p q hp hhole hq ih =>
    obtain ⟨around, hmeets, hbound, hscope⟩ := ih
    have halign := hadmits.align hroot hconstructors hp hhole hbound
    exact ⟨_, .part hmeets hhole halign (List.mem_map_of_mem (f := itself root) hq),
      diagonal_seenBy hbound, scopedBy_seenBy hscope hq⟩

/-- Where a template captures its parameters, no use of one reads a parameter of a lambda
expression. -/
theorem usesFree_of_collect (hroot : t.root = .root root.tree)
    (hconstructors : t.constructors = .ofList (constructorsOf before root))
    (hadmits : t.Admits before root) (h : t.collect before [] t.root root = some captures) :
    t.UsesFree := by
  intro hole hvisited hsome name hname lambda hlambda hnames
  obtain ⟨i, hhole⟩ := Option.isSome_iff_exists.1 hsome
  obtain ⟨around, hmeets, -, hscope⟩ := meets_itself hroot hconstructors hadmits hvisited
  obtain ⟨cs, hcs, -⟩ := collect_of_meets h hmeets
  rw [collect_of_hole hhole] at hcs
  obtain ⟨c, hcapture, -⟩ := Option.map_eq_some_iff.1 hcs
  obtain ⟨-, -, -, -, -, hreads⟩ := capture?_eq_some hcapture
  rw [Bool.eq_false_iff, Ne, readsBound_itself hscope] at hreads
  exact hreads ⟨name, List.mem_cons_of_mem _ hname, lambda, hlambda, hnames⟩

theorem find?_itself (hstands : root.StandsIn before.text.toList) (hroot : t.root = .root root.tree)
    (hconstructors : t.constructors = .ofList (constructorsOf before root))
    (hadmits : t.Admits before root) (hfree : t.UsesFree) :
    ∃ m, t.find? before root = some m ∧ m.root = root.span ∧ ∀ c ∈ m.captures, t.IsUse root c := by
  have hdiagonal : Diagonal [] := fun x hx => absurd hx List.not_mem_nil
  obtain ⟨captures, hcollect, huses⟩ := collect_itself hroot hconstructors hadmits hfree .root
    hdiagonal (fun name => by rw [hroot]; rfl)
  have hself : root.graft t.root = root := by rw [hroot, Site.graft_self]
  rw [hself] at hcollect
  have hslice : ∀ hole, t.Visited hole →
      slice? before.text.toList (root.graft hole).span = some (Tree.textAll hole.children) := by
    intro hole hhole
    have hmem : root.graft hole ∈ root.preorder := by
      rw [preorder_root hroot]
      exact List.mem_map_of_mem hhole.mem_root
    exact (hstands.preorder hmem).slice?
  have hconsistent : consistent before.text.toList [] captures = true := by
    refine consistent_of_alike fun c hc d hd heq => ?_
    obtain ⟨hole, hhole, hparameter, hcapture⟩ := huses c hc
    obtain ⟨other, hother, hotherParameter, hotherCapture⟩ := huses d hd
    have htext := hadmits.alike hole other hhole hother (by rw [hparameter]; rfl)
      (by rw [hparameter, hotherParameter, heq])
    refine ⟨Tree.textAll hole.children, ?_, ?_⟩
    · rw [hotherCapture, hslice other hother, String.ofList_injective htext]
    · rw [hcapture, hslice hole hhole]
  refine ⟨⟨root.span, captures⟩, ?_, rfl, huses⟩
  rw [find?_eq, hcollect, Option.bind_some, if_pos hconsistent]

/-- **A template matches where it was read**, at the statement that it was made of, if the file is
admitted, and if and only if no use of a parameter reads a parameter of a lambda expression around
it. What is captured are names that stand alone, each the name of its parameter. -/
theorem matches_itself {mark : String} {templates : List Template} (hbefore : before.Lossless)
    (hread : readAll before after mark = .ok templates) (ht : t ∈ templates) :
    (∃ method ∈ methodsOf before, ∃ replacement ∈ methodsOf after,
      ofMethods before method after replacement = .ok t) ∧
    ∀ method ∈ methodsOf before, ∀ replacement root,
      ofMethods before method after replacement = .ok t → statement method = .ok root →
      t.Admits before root →
      ((∃ m, t.find? before root = some m) ↔ t.UsesFree) ∧
      ∀ m, t.find? before root = some m → m.root = root.span ∧
        ∀ c ∈ m.captures, c.extent = .single ∧ ∃ name ∈ root.preorder, c.span = name.span ∧
          name.kind = .referenceExpr ∧ name.isQualified = false ∧
          name.lastIdent?.map (·.text) = (t.parameters[c.parameter]?).map (·.name) := by
  refine ⟨?_, fun method hmethod replacement root hof hstatement hadmits => ?_⟩
  · obtain ⟨method, hmethod, replacement, hreplacement, -, hof⟩ := exists_ofMethods hread ht
    exact ⟨method, hmethod, replacement, hreplacement, hof⟩
  · have hstands := standsIn_of_statement (hbefore.standsIn (List.mem_filter.1 hmethod).1) hstatement
    obtain ⟨other, newRoot, hfrom, -⟩ := readFrom_of_ofMethods hof
    obtain rfl : root = other := Except.ok.inj (hstatement.symm.trans hfrom.statement)
    have hroot : t.root = .root root.tree := congrArg Site.root hfrom.tree
    have hconstructors := constructors_of_ofMethods hof hstatement
    have hfree : ∀ m, t.find? before root = some m → t.UsesFree := fun m hm =>
      usesFree_of_collect hroot hconstructors hadmits (find?_eq_some hm).1
    have hfound := find?_itself hstands hroot hconstructors hadmits
    refine ⟨⟨fun ⟨m, hm⟩ => hfree m hm, fun h => ?_⟩, fun m hm => ?_⟩
    · obtain ⟨m, hm, -⟩ := hfound h
      exact ⟨m, hm⟩
    · obtain ⟨m', hm', hspan, huses⟩ := hfound (hfree m hm)
      obtain rfl : m = m' := Option.some.inj (hm.symm.trans hm')
      refine ⟨hspan, fun c hc => ?_⟩
      obtain ⟨hole, hvisited, hhole, hcapture⟩ := huses c hc
      obtain ⟨hkind, hplain, ident, hident, hname, -⟩ := hole?_eq_some hhole
      refine ⟨by rw [hcapture], root.graft hole, ?_, by rw [hcapture], hkind,
        (Site.isQualified_graft root hole).trans hplain, ?_⟩
      · rw [preorder_root hroot]
        exact List.mem_map_of_mem hvisited.mem_root
      · rw [hname, Site.lastIdent?_graft, hident]
        rfl

/-! ### A lambda expression that is found again -/

/-- Nodes that are visited are among the nodes with some keys, if the root is one of them and these
nodes have no other parts. -/
theorem Visited.key_mem {keys : List (Kind × Span)} (hroot : t.root.key ∈ keys)
    (hparts : ∀ p ∈ t.root.preorder, p.key ∈ keys → t.hole? p = none → ∀ q ∈ parts p, q.key ∈ keys)
    (h : t.Visited p) : p.key ∈ keys := by
  induction h with
  | root => exact hroot
  | part hp hhole hq ih => exact hparts _ hp.mem_root ih hhole _ hq

/-- Whether a file is admitted is decided by the nodes with some keys, if all that is visited is
among them. -/
theorem Admits.of_keys {keys : List (Kind × Span)} (hkeys : ∀ p, t.Visited p → p.key ∈ keys)
    (hcomparable : ∀ p ∈ t.root.preorder, p.key ∈ keys → t.hole? p = none →
      Comparable before root p)
    (hfits : ∀ p ∈ t.root.preorder, ∀ i ∈ t.hole? p, t.fits before i (root.graft p) = true)
    (halike : ∀ p ∈ t.root.preorder, ∀ q ∈ t.root.preorder, (t.hole? p).isSome = true →
      t.hole? p = t.hole? q → p.text = q.text) : t.Admits before root where
  comparable p hp := hcomparable p hp.mem_root (hkeys p hp)
  typed p i type hp hi := fits_iff.1 (hfits p hp.mem_root i hi) type
  alike p q hp hq := halike p hp.mem_root q hq.mem_root

def firstStatement (file : SourceFile) : Site :=
  (((methodsOf file).head?.map statement).bind Except.toOption).getD file.root

/-- The call `r(q->f(q,new T(x)))`. -/
def constructing : Tree :=
  delayed "q" [loneName "q", .token .comma ",", .node .newExpr [.token .newKw "new",
    .token .whitespace " ", .node .typeUse [.token .ident "T"],
    .node .argList [.token .lParen "(", loneName "x", .token .rParen ")"]]]

def constructingMarked : SourceFile :=
  { fileReturning marked constructing with
    symbols := .ofList [((.newExpr, .ofWidth 38 8), .method constructorOfT)]
    types := .ofList [((.parameter, .ofWidth 9 5), .primitive .int),
      ((.referenceExpr, .ofWidth 44 1), .primitive .int)] }

/-- The template that turns `r(q->f(q,new T(x)))` into `g(x)`, for an integer. -/
def constructingTemplate : Template :=
  ⟨"m", [⟨"x", some (.primitive .int)⟩, ⟨"y", none⟩], false, constructing,
    .ofList [(.ofWidth 9 8, constructorOfT)], ["g(", ")"]⟩

def constructingKeys : List (Kind × Span) :=
  [(.methodCall, .ofWidth 0 19), (.referenceExpr, .ofWidth 0 1), (.lambdaExpr, .ofWidth 2 16),
    (.methodCall, .ofWidth 5 13), (.referenceExpr, .ofWidth 5 1), (.referenceExpr, .ofWidth 7 1),
    (.newExpr, .ofWidth 9 8), (.referenceExpr, .ofWidth 15 1)]

/-- The call `r(q->f(q,new T(x)))` is found where it was read. -/
theorem constructing_found :
    constructingMarked.Lossless ∧
    readAll constructingMarked (fileReturning [] (callOf "g" [loneName "x"])) "M" =
      .ok [constructingTemplate] ∧
    constructingTemplate.Admits constructingMarked (firstStatement constructingMarked) ∧
    constructingTemplate.UsesFree ∧
    ∃ m, constructingTemplate.find? constructingMarked (firstStatement constructingMarked) =
      some m := by
  have hbefore : constructingMarked.Lossless := ⟨_, rfl, by decide +kernel⟩
  have hread : readAll constructingMarked (fileReturning [] (callOf "g" [loneName "x"])) "M" =
      .ok [constructingTemplate] := rfl
  have hkey : ∀ p, constructingTemplate.Visited p → p.key ∈ constructingKeys :=
    fun p => Visited.key_mem (by decide +kernel) (by decide +kernel)
  have hadmits : constructingTemplate.Admits constructingMarked
      (firstStatement constructingMarked) :=
    .of_keys hkey (by decide +kernel) (by decide +kernel) (by decide +kernel)
  have hfree : constructingTemplate.UsesFree := by
    have hbelow : ∀ p ∈ constructingTemplate.root.preorder,
        (constructingTemplate.hole? p).isSome = true → p.below.isEmpty = true := by
      decide +kernel
    intro hole hvisited hsome name hname
    rw [List.isEmpty_iff.1 (hbelow hole hvisited.mem_root hsome)] at hname
    exact absurd hname List.not_mem_nil
  refine ⟨hbefore, hread, hadmits, hfree, ?_⟩
  obtain ⟨⟨method, hmethod, replacement, -, hof⟩, hfound⟩ :=
    matches_itself hbefore hread (List.mem_singleton_self _)
  obtain rfl := List.mem_singleton.1 hmethod
  exact (hfound _ hmethod replacement _ hof rfl hadmits).1.2 hfree

/-- The template that turns `r(q->f(q::x))` into `g(x)`. -/
def methodOfTemplate : Template :=
  ⟨"m", [⟨"x", none⟩, ⟨"y", none⟩], false, delayed "q" [.node .referenceExpr [loneName "q",
    .token .colonColon "::", .token .ident "x"]], .empty, ["g(", ")"]⟩

/-- The file `@M int m(int x,int y)\x7breturn r(q->f(q::x));\x7d`. -/
def methodOfMarked : SourceFile := fileReturning marked methodOfTemplate.tree

def methodOfKeys : List (Kind × Span) :=
  [(.methodCall, .ofWidth 0 13), (.referenceExpr, .ofWidth 0 1), (.lambdaExpr, .ofWidth 2 10),
    (.methodCall, .ofWidth 5 7), (.referenceExpr, .ofWidth 5 1), (.referenceExpr, .ofWidth 7 4)]

/-- **A template need not match where it was read.**  The call `r(q->f(q::x))` is admitted, but
`q::x` stands for the parameter `x` and reads `q`. -/
theorem methodOf_lost :
    methodOfMarked.Lossless ∧
    (fileReturning [] (callOf "g" [loneName "x"])).Lossless ∧
    readAll methodOfMarked (fileReturning [] (callOf "g" [loneName "x"])) "M" =
      .ok [methodOfTemplate] ∧
    (∃ method ∈ methodsOf methodOfMarked, statement method = .ok (firstStatement methodOfMarked)) ∧
    methodOfTemplate.Admits methodOfMarked (firstStatement methodOfMarked) ∧
    methodOfTemplate.find? methodOfMarked (firstStatement methodOfMarked) = none := by
  have hkey : ∀ p, methodOfTemplate.Visited p → p.key ∈ methodOfKeys :=
    fun p => Visited.key_mem (by decide +kernel) (by decide +kernel)
  have hadmits : methodOfTemplate.Admits methodOfMarked (firstStatement methodOfMarked) :=
    .of_keys hkey (by decide +kernel) (by decide +kernel) (by decide +kernel)
  refine ⟨⟨_, rfl, by decide +kernel⟩, ⟨_, rfl, by decide +kernel⟩, rfl,
    ⟨_, List.mem_cons_self, rfl⟩, hadmits, ?_⟩
  rw [Option.eq_none_iff_forall_not_mem]
  intro m hm
  have hfree := usesFree_of_collect rfl rfl hadmits (find?_eq_some hm).1
  -- the nodes by their place in preorder: the use is listed eighth, and `q` in it ninth
  let node (i : Nat) := methodOfTemplate.root.preorder.getD i methodOfTemplate.root
  have hlambda : methodOfTemplate.Visited (node 3) :=
    .part .root rfl (List.mem_cons_of_mem _ List.mem_cons_self)
  have hcall : methodOfTemplate.Visited (node 4) := .part hlambda rfl List.mem_cons_self
  have huse : methodOfTemplate.Visited (node 7) :=
    .part hcall rfl (List.mem_cons_of_mem _ List.mem_cons_self)
  exact hfree (node 7) huse rfl (node 8) List.mem_cons_self (node 3) List.mem_cons_self
    ⟨rfl, rfl, _, rfl, by decide⟩

end Template

end SourceRename
