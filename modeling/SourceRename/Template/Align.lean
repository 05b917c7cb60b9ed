import SourceRename.Template.Basic

/-!
# Laying a template node over a node of a file

`Template.align` compares a node of a template's tree with a node of a file and says which parts of
the one have to match which parts of the other, with the names of lambda parameters that the parts
see.  Arguments behind the fixed ones that a variadic parameter stands for are captured on the
spot.

Some parts are matched even though the nodes turn out to differ behind them (`Template.begun`).
Every part is smaller than the node (`size_lt_of_attempt`), so matching part by part ends. -/

namespace SourceRename

/-- How much of an argument list a capture takes. -/
inductive Extent
  /-- One expression. -/
  | single
  /-- The arguments from some place to the end. -/
  | run
  /-- No argument, though there might have been some. -/
  | omitted
deriving DecidableEq

/-- The part of a file that a parameter stands for. -/
structure Capture where
  parameter : Nat
  span : Span
  extent : Extent
deriving DecidableEq

/-- Names of lambda parameters, in the template and in the file, innermost first. -/
abbrev Bound := List (String × String)

/-- Parts to match, with what has been captured already. -/
structure Alignment where
  pairs : List (Site × Site)
  bound : Bound
  captures : List Capture

namespace Alignment

def optional : Option Site → Option Site → Option (List (Site × Site))
  | none, none => some []
  | some p, some e => some [(p, e)]
  | _, _ => none

def required : Option Site → Option Site → Option (List (Site × Site))
  | some p, some e => some [(p, e)]
  | _, _ => none

def rows (ps es : List Site) : Option (List (Site × Site)) :=
  if ps.length = es.length then some (ps.zip es) else none

def ofOptional (bound : Bound) (p? e? : Option Site) : Option Alignment :=
  (optional p? e?).map (⟨·, bound, []⟩)

theorem mem_of_optional {p? e? : Option Site} {ps : List (Site × Site)} {x : Site × Site}
    (h : optional p? e? = some ps) (hx : x ∈ ps) : p? = some x.1 ∧ e? = some x.2 := by
  cases p? <;> cases e? <;> simp_all [optional]
  subst h
  simp_all

theorem mem_of_required {p? e? : Option Site} {ps : List (Site × Site)} {x : Site × Site}
    (h : required p? e? = some ps) (hx : x ∈ ps) : p? = some x.1 ∧ e? = some x.2 := by
  cases p? <;> cases e? <;> simp_all [required]
  subst h
  simp_all

theorem mem_of_rows {ps es : List Site} {xs : List (Site × Site)} {x : Site × Site}
    (h : rows ps es = some xs) (hx : x ∈ xs) : x.1 ∈ ps := by
  unfold rows at h
  split at h
  · obtain rfl := Option.some.inj h
    exact (List.of_mem_zip (by simpa using hx)).1
  · simp at h

end Alignment

/-- The node is a child of the other one, or a child of a child. -/
def Site.IsPartOf (q s : Site) : Prop := q ∈ s.nodes ∨ ∃ c ∈ s.nodes, q ∈ c.nodes

theorem Site.IsPartOf.size_lt {q s : Site} (h : q.IsPartOf s) : q.size < s.size := by
  rcases h with h | ⟨c, hc, hq⟩
  · exact size_lt_of_mem_nodes h
  · exact Nat.lt_trans (size_lt_of_mem_nodes hq) (size_lt_of_mem_nodes hc)

namespace Template

/-- Both tokens are absent, or both are there with the same text. -/
def sameToken (a b : Option Token) : Bool := a.map (·.text) == b.map (·.text)

/-- What a name in the template must be called in the file, if it is a lambda parameter. -/
def expectedName? (bound : Bound) (site : Site) : Option String :=
  if site.isQualified then none
  else site.lastIdent?.bind fun name => (bound.find? (·.1 == name.text)).map (·.2)

def isBound (bound : Bound) (site : Site) : Bool :=
  !site.isQualified && site.lastIdent?.any fun name => bound.any (·.2 == name.text)

def fits (t : Template) (file : SourceFile) (parameter : Nat) (site : Site) : Bool :=
  match t.type? parameter with
  | none => true
  | some type => (file.type? site).any (type.accepts file.scope)

def fitsElement (t : Template) (file : SourceFile) (parameter : Nat) (site : Site) : Bool :=
  match (t.type? parameter).bind JavaType.component? with
  | none => true
  | some type => (file.type? site).any (type.accepts file.scope)

/-- Where the arguments that a variadic parameter stands for would begin. -/
def tailStart (args : Site) (fixed : List Site) : Nat :=
  match fixed.getLast? with
  | some last => last.span.stop
  | none =>
    match args.token? .lParen with
    | some paren => paren.stop
    | none => args.start + 1

def hull (first last : Site) : Span := Span.upTo first.span.start last.span.stop

/-- Lays the arguments behind the fixed ones under the variadic parameter `hole`. -/
def alignTail (t : Template) (file : SourceFile) (hole : Site) (parameter : Nat) (args : Site)
    (fixed tail : List Site) : Option (List (Site × Site) × List Capture) :=
  match tail with
  | [] => some ([], [⟨parameter, .empty (tailStart args fixed), .omitted⟩])
  | first :: rest =>
    if rest.isEmpty && t.fits file parameter first then some ([(hole, first)], [])
    else if tail.all (t.fitsElement file parameter) then
      some ([], [⟨parameter, hull first (rest.getLastD first), .run⟩])
    else none

def variadicHole? (t : Template) (args : List Site) : Option (Site × Nat) :=
  args.getLast?.bind fun last =>
    ((t.hole? last).filter t.isVariadic).map (last, ·)

def alignLists (t : Template) (file : SourceFile) (p e : Site) :
    Option (List (Site × Site) × List Capture) :=
  match t.variadicHole? p.expressions with
  | none => (Alignment.rows p.expressions e.expressions).map (·, [])
  | some (hole, parameter) =>
    let fixed := p.expressions.length - 1
    if e.expressions.length < fixed then none
    else
      (t.alignTail file hole parameter e (e.expressions.take fixed)
        (e.expressions.drop fixed)).map fun (pairs, captures) =>
          ((p.expressions.take fixed).zip (e.expressions.take fixed) ++ pairs, captures)

/-- The fixed arguments of two lists, which are matched before those behind them are looked at. -/
def begunArguments (t : Template) : Option Site → Option Site → List (Site × Site)
  | some p, some e =>
    let fixed := p.expressions.length - 1
    if (t.variadicHole? p.expressions).isSome && fixed ≤ e.expressions.length then
      (p.expressions.take fixed).zip (e.expressions.take fixed)
    else []
  | _, _ => []

def alignArguments (t : Template) (file : SourceFile) :
    Option Site → Option Site → Option (List (Site × Site) × List Capture)
  | none, none => some ([], [])
  | some p, some e => t.alignLists file p e
  | _, _ => none

def sameConstructor (t : Template) (file : SourceFile) (p e : Site) : Bool :=
  match t.constructors.get? p.span, file.symbol? e with
  | some expected, some (.method m) => m.isConstructor && m.sameSignature expected
  | _, _ => false

/-- The parts of two assignments or two binary expressions with the same sign. -/
def alignOperation (bound : Bound) (p e : Site) : Option Alignment :=
  if sameToken p.operator? e.operator? then do
    let left ← Alignment.optional p.firstExpression? e.firstExpression?
    let right ← Alignment.optional p.secondExpression? e.secondExpression?
    return ⟨left ++ right, bound, []⟩
  else none

/-- The parts of two names: a lambda parameter is called what it is called in the file, any other
name is the same and no lambda parameter there. -/
def alignReference (bound : Bound) (p e : Site) : Option Alignment :=
  match expectedName? bound p with
  | some expected =>
    if !e.isQualified && e.lastIdent?.any (·.text == expected) then some ⟨[], bound, []⟩
    else none
  | none =>
    if !isBound bound e && sameToken p.lastIdent? e.lastIdent? then
      Alignment.ofOptional bound p.qualifier? e.qualifier?
    else none

/-- The names of lambda parameters that the bodies of two lambda expressions see. -/
def bindParameters (bound : Bound) (p e : Site) : Bound :=
  (p.lambdaParameters.zip e.lambdaParameters).foldl (fun b x => (x.1.text, x.2.text) :: b) bound

/-- The bodies of two lambda expressions with equally many parameters. -/
def alignLambda (bound : Bound) (p e : Site) : Option Alignment :=
  if p.lambdaParameters.length = e.lambdaParameters.length then
    Alignment.ofOptional (bindParameters bound p e) p.lambdaBody? e.lambdaBody?
  else none

/-- The parts of two calls, of which `heads` are to match before the arguments. -/
def alignCall (t : Template) (file : SourceFile) (bound : Bound) (p e : Site)
    (heads : Option (List (Site × Site))) : Option Alignment :=
  match heads, t.alignArguments file (p.child? .argList) (e.child? .argList) with
  | some heads, some (args, captures) => some ⟨heads ++ args, bound, captures⟩
  | _, _ => none

def align (t : Template) (file : SourceFile) (bound : Bound) (p e : Site) : Option Alignment :=
  if p.kind = e.kind then
    match p.kind with
    | .assignment | .binaryExpr => alignOperation bound p e
    | .blockStmt =>
      (Alignment.required (p.child? .block) (e.child? .block)).map (⟨·, bound, []⟩)
    | .block => (Alignment.rows p.statements e.statements).map (⟨·, bound, []⟩)
    | .returnStmt | .exprStmt | .parenExpr =>
      Alignment.ofOptional bound p.firstExpression? e.firstExpression?
    | .castExpr => Alignment.ofOptional bound p.lastExpression? e.lastExpression?
    | .referenceExpr => alignReference bound p e
    | .lambdaExpr => alignLambda bound p e
    | .methodCall =>
      t.alignCall file bound p e
        (Alignment.required (p.child? .referenceExpr) (e.child? .referenceExpr))
    | .newExpr =>
      if t.sameConstructor file p e then
        t.alignCall file bound p e (Alignment.optional p.outerInstance? e.outerInstance?)
      else none
    | .literal => if p.text = e.text then some ⟨[], bound, []⟩ else none
    | _ => none
  else none

/-- The parts of two calls that are matched before it turns out that the calls differ. -/
def begunCall (t : Template) (p e : Site) : Option (List (Site × Site)) → List (Site × Site)
  | none => []
  | some heads => heads ++ t.begunArguments (p.child? .argList) (e.child? .argList)

/-- The parts of two nodes that are matched before it turns out that the nodes differ. -/
def begun (t : Template) (file : SourceFile) (p e : Site) : List (Site × Site) :=
  if p.kind = e.kind then
    match p.kind with
    | .assignment | .binaryExpr =>
      if sameToken p.operator? e.operator? then
        (Alignment.optional p.firstExpression? e.firstExpression?).getD []
      else []
    | .methodCall =>
      t.begunCall p e (Alignment.required (p.child? .referenceExpr) (e.child? .referenceExpr))
    | .newExpr =>
      if t.sameConstructor file p e then
        t.begunCall p e (Alignment.optional p.outerInstance? e.outerInstance?)
      else []
    | _ => []
  else []

/-- Lays a node of the template over a node of the file, as far as that goes.  The answer says
whether it goes to the end. -/
def attempt (t : Template) (file : SourceFile) (bound : Bound) (p e : Site) : Alignment × Bool :=
  match t.align file bound p e with
  | some a => (a, true)
  | none => (⟨t.begun file p e, bound, []⟩, false)

/-! ### Parts are smaller -/

theorem mem_of_alignTail {t : Template} {file : SourceFile} {hole : Site} {parameter : Nat}
    {args : Site} {fixed tail : List Site} {ps : List (Site × Site)} {cs : List Capture}
    (h : t.alignTail file hole parameter args fixed tail = some (ps, cs)) {x : Site × Site}
    (hx : x ∈ ps) : x.1 = hole := by
  unfold alignTail at h
  split at h
  · simp only [Option.some.injEq, Prod.mk.injEq] at h
    simp [← h.1] at hx
  · split at h
    · simp only [Option.some.injEq, Prod.mk.injEq] at h
      simp only [← h.1, List.mem_singleton] at hx
      rw [hx]
    · split at h
      · simp only [Option.some.injEq, Prod.mk.injEq] at h
        simp [← h.1] at hx
      · simp at h

theorem mem_of_alignLists {t : Template} {file : SourceFile} {p e : Site}
    {ps : List (Site × Site)} {cs : List Capture} (h : t.alignLists file p e = some (ps, cs))
    {x : Site × Site} (hx : x ∈ ps) : x.1 ∈ p.expressions := by
  unfold alignLists at h
  split at h
  · obtain ⟨qs, hq, he⟩ := Option.map_eq_some_iff.1 h
    simp only [Prod.mk.injEq] at he
    exact Alignment.mem_of_rows hq (he.1 ▸ hx)
  · next hole parameter hv =>
    simp only at h
    split at h
    · simp at h
    · obtain ⟨⟨qs, ds⟩, hq, he⟩ := Option.map_eq_some_iff.1 h
      simp only [Prod.mk.injEq] at he
      rw [← he.1, List.mem_append] at hx
      rcases hx with hx | hx
      · exact List.mem_of_mem_take (List.of_mem_zip (show (x.1, x.2) ∈ _ from hx)).1
      · rw [mem_of_alignTail hq hx]
        unfold variadicHole? at hv
        obtain ⟨last, hl, hm⟩ := Option.bind_eq_some_iff.1 hv
        obtain ⟨_, _, hm⟩ := Option.map_eq_some_iff.1 hm
        simp only [Prod.mk.injEq] at hm
        exact hm.1 ▸ List.mem_of_getLast? hl

theorem size_lt_of_alignArguments {t : Template} {file : SourceFile} {p e : Site}
    {ps : List (Site × Site)} {cs : List Capture}
    (h : t.alignArguments file (p.child? .argList) (e.child? .argList) = some (ps, cs))
    {x : Site × Site} (hx : x ∈ ps) : x.1.size < p.size := by
  unfold alignArguments at h
  split at h
  · simp only [Option.some.injEq, Prod.mk.injEq] at h
    simp [← h.1] at hx
  · next hp _ =>
    have h1 := Site.size_lt_of_mem_nodes (Site.mem_nodes_of_child? hp)
    have h2 := Site.size_lt_of_mem_nodes (Site.mem_nodes_of_expressions (mem_of_alignLists h hx))
    omega
  · simp at h

theorem size_lt_of_optional {p : Site} {p? e? : Option Site} {ps : List (Site × Site)}
    (h : Alignment.optional p? e? = some ps) (hp : ∀ c, p? = some c → c ∈ p.nodes)
    {x : Site × Site} (hx : x ∈ ps) : x.1.size < p.size :=
  Site.size_lt_of_mem_nodes (hp _ (Alignment.mem_of_optional h hx).1)

theorem size_lt_of_ofOptional {p : Site} {p? e? : Option Site} {bound : Bound} {a : Alignment}
    (h : Alignment.ofOptional bound p? e? = some a) (hp : ∀ c, p? = some c → c ∈ p.nodes)
    {x : Site × Site} (hx : x ∈ a.pairs) : x.1.size < p.size := by
  obtain ⟨ps, hps, rfl⟩ := Option.map_eq_some_iff.1 h
  exact size_lt_of_optional hps hp hx

theorem size_lt_of_alignOperation {bound : Bound} {p e : Site} {a : Alignment}
    (h : alignOperation bound p e = some a) {x : Site × Site} (hx : x ∈ a.pairs) :
    x.1.size < p.size := by
  unfold alignOperation at h
  split at h
  · obtain ⟨left, hl, h⟩ := Option.bind_eq_some_iff.1 h
    obtain ⟨right, hr, h⟩ := Option.bind_eq_some_iff.1 h
    obtain rfl := Option.some.inj h
    rcases List.mem_append.1 hx with hx | hx
    · exact size_lt_of_optional hl (fun _ => Site.mem_nodes_of_firstExpression?) hx
    · exact size_lt_of_optional hr (fun _ => Site.mem_nodes_of_secondExpression?) hx
  · simp at h

theorem size_lt_of_alignReference {bound : Bound} {p e : Site} {a : Alignment}
    (h : alignReference bound p e = some a) {x : Site × Site} (hx : x ∈ a.pairs) :
    x.1.size < p.size := by
  unfold alignReference at h
  split at h
  · split at h
    · obtain rfl := Option.some.inj h
      simp at hx
    · simp at h
  · split at h
    · exact size_lt_of_ofOptional h (fun _ => Site.mem_nodes_of_qualifier?) hx
    · simp at h

theorem size_lt_of_alignLambda {bound : Bound} {p e : Site} {a : Alignment}
    (h : alignLambda bound p e = some a) {x : Site × Site} (hx : x ∈ a.pairs) :
    x.1.size < p.size := by
  unfold alignLambda at h
  split at h
  · exact size_lt_of_ofOptional h (fun _ => Site.mem_nodes_of_lambdaBody?) hx
  · simp at h

theorem size_lt_of_alignCall {t : Template} {file : SourceFile} {bound : Bound} {p e : Site}
    {heads : Option (List (Site × Site))} {a : Alignment}
    (h : t.alignCall file bound p e heads = some a)
    (hh : ∀ ps, heads = some ps → ∀ x ∈ ps, x.1.size < p.size) {x : Site × Site}
    (hx : x ∈ a.pairs) : x.1.size < p.size := by
  unfold alignCall at h
  split at h
  · next ha =>
    obtain rfl := Option.some.inj h
    rcases List.mem_append.1 hx with hx | hx
    · exact hh _ rfl x hx
    · exact size_lt_of_alignArguments ha hx
  · simp at h

theorem size_lt_of_align {t : Template} {file : SourceFile} {bound : Bound} {p e : Site}
    {a : Alignment} (h : t.align file bound p e = some a) {x : Site × Site} (hx : x ∈ a.pairs) :
    x.1.size < p.size := by
  unfold align at h
  split at h
  case isFalse => simp at h
  split at h
  · exact size_lt_of_alignOperation h hx
  · exact size_lt_of_alignOperation h hx
  · obtain ⟨ps, hps, rfl⟩ := Option.map_eq_some_iff.1 h
    exact Site.size_lt_of_mem_nodes
      (Site.mem_nodes_of_child? (Alignment.mem_of_required hps hx).1)
  · obtain ⟨ps, hps, rfl⟩ := Option.map_eq_some_iff.1 h
    exact Site.size_lt_of_mem_nodes
      (Site.mem_nodes_of_statements (Alignment.mem_of_rows hps hx))
  · exact size_lt_of_ofOptional h (fun _ => Site.mem_nodes_of_firstExpression?) hx
  · exact size_lt_of_ofOptional h (fun _ => Site.mem_nodes_of_firstExpression?) hx
  · exact size_lt_of_ofOptional h (fun _ => Site.mem_nodes_of_firstExpression?) hx
  · exact size_lt_of_ofOptional h (fun _ => Site.mem_nodes_of_lastExpression?) hx
  · exact size_lt_of_alignReference h hx
  · exact size_lt_of_alignLambda h hx
  · exact size_lt_of_alignCall h (fun ps hps x hx => Site.size_lt_of_mem_nodes
      (Site.mem_nodes_of_child? (Alignment.mem_of_required hps hx).1)) hx
  · split at h
    · exact size_lt_of_alignCall h (fun ps hps x hx =>
        size_lt_of_optional hps (fun _ => Site.mem_nodes_of_outerInstance?) hx) hx
    · simp at h
  · split at h
    · obtain rfl := Option.some.inj h
      simp at hx
    · simp at h
  · simp at h

theorem isPartOf_of_begunArguments {t : Template} {p e : Site} {x : Site × Site}
    (hx : x ∈ t.begunArguments (p.child? .argList) (e.child? .argList)) :
    x.1.IsPartOf p ∧ x.2.IsPartOf e := by
  unfold begunArguments at hx
  split at hx
  · next hp he =>
    simp only at hx
    split at hx
    · obtain ⟨hfirst, hsecond⟩ := List.of_mem_zip (show (x.1, x.2) ∈ _ from hx)
      have hfirst := Site.mem_nodes_of_expressions (List.mem_of_mem_take hfirst)
      have hsecond := Site.mem_nodes_of_expressions (List.mem_of_mem_take hsecond)
      exact ⟨.inr ⟨_, Site.mem_nodes_of_child? hp, hfirst⟩,
        .inr ⟨_, Site.mem_nodes_of_child? he, hsecond⟩⟩
    · simp at hx
  · simp at hx

theorem isPartOf_of_begunCall {t : Template} {p e : Site} {heads : Option (List (Site × Site))}
    (hh : ∀ ps, heads = some ps → ∀ x ∈ ps, x.1 ∈ p.nodes ∧ x.2 ∈ e.nodes) {x : Site × Site}
    (hx : x ∈ t.begunCall p e heads) : x.1.IsPartOf p ∧ x.2.IsPartOf e := by
  cases heads with
  | none => simp [begunCall] at hx
  | some heads =>
    rcases List.mem_append.1 hx with hx | hx
    · obtain ⟨hfirst, hsecond⟩ := hh heads rfl x hx
      exact ⟨.inl hfirst, .inl hsecond⟩
    · exact isPartOf_of_begunArguments hx

/-- What is matched before nodes turn out to differ are parts of the two nodes. -/
theorem isPartOf_of_begun {t : Template} {file : SourceFile} {p e : Site} {x : Site × Site}
    (hx : x ∈ t.begun file p e) : x.1.IsPartOf p ∧ x.2.IsPartOf e := by
  have hoperand : x ∈ (if sameToken p.operator? e.operator? then
      (Alignment.optional p.firstExpression? e.firstExpression?).getD [] else []) →
      x.1.IsPartOf p ∧ x.2.IsPartOf e := by
    intro hx
    split at hx
    · cases hps : Alignment.optional p.firstExpression? e.firstExpression? with
      | none => simp [hps] at hx
      | some ps =>
        rw [hps] at hx
        obtain ⟨hp, he⟩ := Alignment.mem_of_optional hps hx
        exact ⟨.inl (Site.mem_nodes_of_firstExpression? hp),
          .inl (Site.mem_nodes_of_firstExpression? he)⟩
    · simp at hx
  unfold begun at hx
  split at hx
  case isFalse => simp at hx
  split at hx
  · exact hoperand hx
  · exact hoperand hx
  · refine isPartOf_of_begunCall (fun ps hps x hx => ?_) hx
    obtain ⟨hp, he⟩ := Alignment.mem_of_required hps hx
    exact ⟨Site.mem_nodes_of_child? hp, Site.mem_nodes_of_child? he⟩
  · split at hx
    · refine isPartOf_of_begunCall (fun ps hps x hx => ?_) hx
      obtain ⟨hp, he⟩ := Alignment.mem_of_optional hps hx
      exact ⟨Site.mem_nodes_of_outerInstance? hp, Site.mem_nodes_of_outerInstance? he⟩
    · simp at hx
  · simp at hx

theorem size_lt_of_attempt {t : Template} {file : SourceFile} {bound : Bound} {p e : Site}
    {a : Alignment} {complete : Bool} (h : t.attempt file bound p e = (a, complete))
    {x : Site × Site} (hx : x ∈ a.pairs) : x.1.size < p.size := by
  unfold attempt at h
  split at h
  · next halign =>
    obtain ⟨rfl, -⟩ := Prod.mk.inj h
    exact size_lt_of_align halign hx
  · obtain ⟨rfl, -⟩ := Prod.mk.inj h
    exact (isPartOf_of_begun hx).1.size_lt

end Template

end SourceRename
