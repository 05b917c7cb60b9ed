import SourceRename.Proofs.Template.Instantiate
import SourceRename.Proofs.Template.Meeting

/-!
# Captures and the scope of lambda parameters

The replacement may take a captured expression out of the lambda expression it stands in, so no
captured expression reads a parameter of a lambda expression around it.  The arguments that are
gathered for a variadic parameter are not asked: they are captured as they are, and

    r(q -> f(xs))  ↦  g(xs)    turns    r(s -> f(s, t))    into    g(s, t)

`reads_parameter_iff` says of every capture whether it reads such a parameter.  That names in a span
belong to nodes in it is shown by their tokens: the token of a name is not empty and shares nothing
with the nodes below.
-/

namespace SourceRename.Template

variable {t : Template} {file : SourceFile} {site p e hole : Site} {around : List (Site × Site)}
  {c : Capture} {m : Match}

def NamesParameter (name lambda : Site) : Prop :=
  name.kind = .referenceExpr ∧ name.isQualified = false ∧
    ∃ ident, name.lastIdent? = some ident ∧ lambda.binds ident.text = true

/-- Some name in a part of a file is that of a parameter of a lambda expression. -/
def ReadsParameter (file : SourceFile) (span : Span) (lambda : Site) : Prop :=
  ∃ name ∈ file.sites, NamesParameter name lambda ∧
    span.start ≤ name.span.start ∧ name.span.stop ≤ span.stop

/-- Some node in the captured part of the argument list of a call would be refused if it were to be
captured by itself. -/
def RunReads (around : List (Site × Site)) (c : Capture) : Prop :=
  ∃ call ∈ around.head?, ∃ args ∈ call.2.child? .argList, ∃ n ∈ args.nodes,
    c.span.start ≤ n.span.start ∧ n.span.stop ≤ c.span.stop ∧
      readsBound (scopeOf around) n = true

/-! ### Names -/

theorem readsBound_iff (h : t.Aligned file around) : readsBound (scopeOf around) e = true ↔
    ∃ name ∈ e.preorder, ∃ x ∈ around, x.1.kind = .lambdaExpr ∧ NamesParameter name x.2 := by
  rw [readsBound, List.any_eq_true]
  refine exists_congr fun name => and_congr_right fun _ => ?_
  rw [isBound, Bool.and_eq_true, Bool.and_eq_true, Bool.not_eq_true', Option.any_eq_true]
  constructor
  · rintro ⟨hkind, hplain, ident, hident, hbound⟩
    rw [any_scopeOf h, List.any_eq_true] at hbound
    obtain ⟨x, hx, hbinds⟩ := hbound
    rw [Bool.and_eq_true, beq_iff_eq] at hbinds
    exact ⟨x, hx, hbinds.1, beq_iff_eq.1 hkind, hplain, ident, hident, hbinds.2⟩
  · rintro ⟨x, hx, hlambda, hkind, hplain, ident, hident, hbinds⟩
    refine ⟨beq_iff_eq.2 hkind, hplain, ident, hident, ?_⟩
    rw [any_scopeOf h, List.any_eq_true]
    exact ⟨x, hx, Bool.and_eq_true_iff.2 ⟨beq_iff_eq.2 hlambda, hbinds⟩⟩

theorem NamesParameter.exists_token {name lambda : Site} (h : NamesParameter name lambda) :
    ∃ ident, ident ∈ name.directTokens := by
  obtain ⟨-, -, ident, hident, -⟩ := h
  exact ⟨ident, Site.mem_directTokens_of_mem_idents (List.mem_of_getLast? hident)⟩

theorem mem_preorder_of_token (hfile : file.Lossless) {name : Site} {ident : Token}
    (hname : name ∈ file.sites) (he : e ∈ file.sites) (hident : ident ∈ name.directTokens)
    (hin : e.span.start ≤ ident.span.start ∧ ident.span.stop ≤ e.span.stop) :
    name ∈ e.preorder := by
  have hwide := (hfile.standsIn hname).token_nonempty hident
  have hown := Site.within_of_mem_directTokens hident
  by_cases hne : name = e
  · exact hne ▸ List.mem_cons_self
  · rcases Site.below_or_apart hname he hne with h | h | h
    · have := Site.apart_of_mem_directTokens hident h
      omega
    · exact List.mem_cons_of_mem e h
    · omega

theorem exists_readsParameter_iff (hfile : file.Lossless) (he : e ∈ file.sites)
    (haround : t.Aligned file around) :
    (∃ x ∈ around, x.1.kind = .lambdaExpr ∧ ReadsParameter file e.span x.2) ↔
      readsBound (scopeOf around) e = true := by
  rw [readsBound_iff haround]
  constructor
  · rintro ⟨x, hx, hlambda, name, hname, hreads, hin⟩
    obtain ⟨ident, hident⟩ := hreads.exists_token
    have hown := Site.within_of_mem_directTokens hident
    exact ⟨name, mem_preorder_of_token hfile hname he hident (by omega), x, hx, hlambda, hreads⟩
  · rintro ⟨name, hname, x, hx, hlambda, hreads⟩
    exact ⟨x, hx, hlambda, name, Site.preorder_trans he hname, hreads,
      Site.within_of_mem_preorder hname⟩

/-! ### Gathered arguments -/

/-- Arguments that are gathered are none, or a row of children of the argument list. -/
theorem gathers_cases (h : t.Gathers file p e hole c) :
    ∃ args, e.child? .argList = some args ∧
      ((c.extent = .omitted ∧ c.span.stop = c.span.start) ∨
        c.extent = .run ∧ ∃ first ∈ args.nodes, ∃ last ∈ args.nodes,
          c.span.start = first.span.start ∧ c.span.stop = last.span.stop) := by
  obtain ⟨ps, es, -, he, -, pairs, htail⟩ := h
  refine ⟨es, he, ?_⟩
  rcases alignTail_cases htail with ⟨-, -, -, hnone⟩ | ⟨-, d, hone, -, hextent⟩
  · simp at hnone
  · obtain rfl := (List.cons.inj hone).1
    rcases hextent with ⟨-, homitted, hspan⟩ | ⟨first, rest, hdrop, hrun, hspan⟩
    · exact .inl ⟨homitted, by rw [hspan]; rfl⟩
    · have hrow : (first :: rest).Sublist es.nodes :=
        hdrop ▸ (List.drop_sublist _ _).trans List.filter_sublist
      refine .inr ⟨hrun, first, hrow.subset List.mem_cons_self, rest.getLastD first,
        hrow.subset List.getLastD_mem_cons, by rw [hspan]; rfl, ?_⟩
      rw [hspan]
      exact hull_stop hrow

/-- A name in a row of arguments lies in a child of the argument list, which lies in the row. -/
theorem exists_node_of_run (hfile : file.Lossless) {args first last name : Site} {span : Span}
    {ident : Token} (hargs : args ∈ file.sites) (hfirst : first ∈ args.nodes)
    (hlast : last ∈ args.nodes) (hstart : span.start = first.span.start)
    (hstop : span.stop = last.span.stop) (hname : name ∈ file.sites) (hne : name.kind ≠ args.kind)
    (hident : ident ∈ name.directTokens) (hin : span.start ≤ name.span.start ∧
      name.span.stop ≤ span.stop) :
    ∃ n ∈ args.nodes, name ∈ n.preorder ∧ span.start ≤ n.span.start ∧ n.span.stop ≤ span.stop := by
  have hwide := (hfile.standsIn hname).token_nonempty hident
  have hown := Site.within_of_mem_directTokens hident
  have hleft := Site.within_of_mem_nodes hfirst
  have hright := Site.within_of_mem_nodes hlast
  have hbelow : name ∈ args.preorder :=
    mem_preorder_of_token hfile hname hargs hident (by omega)
  rcases Site.mem_preorder_iff.1 hbelow with rfl | ⟨n, hn, hname⟩
  · exact absurd rfl hne
  · have hinside := Site.within_of_mem_preorder hname
    refine ⟨n, hn, hname, ?_, ?_⟩
    · by_cases hsame : n = first
      · exact Nat.le_of_eq (by rw [hsame, hstart])
      · rcases Site.apart_of_mem_nodes hn hfirst hsame with h | h
        · omega
        · have := first.span.start_le_stop
          omega
    · by_cases hsame : n = last
      · exact Nat.le_of_eq (by rw [hsame, hstop])
      · rcases Site.apart_of_mem_nodes hn hlast hsame with h | h
        · have := last.span.start_le_stop
          omega
        · omega

theorem gathered_reads_iff (hfile : file.Lossless) (he : e ∈ file.sites)
    (haround : t.Aligned file ((p, e) :: around)) (h : t.Gathers file p e hole c) :
    (∃ x ∈ (p, e) :: around, x.1.kind = .lambdaExpr ∧ ReadsParameter file c.span x.2) ↔
      c.extent = .run ∧ RunReads ((p, e) :: around) c := by
  obtain ⟨args, hargs, hcases⟩ := gathers_cases h
  have hlist : args ∈ file.sites := file.mem_of_nodes he (Site.mem_nodes_of_child? hargs)
  have hkind : args.kind = .argList := Site.kind_of_child? hargs
  constructor
  · rintro ⟨x, hx, hlambda, name, hname, hreads, hin⟩
    obtain ⟨ident, hident⟩ := hreads.exists_token
    rcases hcases with ⟨-, hempty⟩ | ⟨hrun, first, hfirst, last, hlast, hstart, hstop⟩
    · -- a name is not empty
      have hwide := (hfile.standsIn hname).token_nonempty hident
      have hown := Site.within_of_mem_directTokens hident
      omega
    · obtain ⟨n, hn, hnamed, hinside⟩ := exists_node_of_run hfile hlist hfirst hlast hstart hstop
        hname (by rw [hreads.1, hkind]; decide) hident hin
      exact ⟨hrun, (p, e), rfl, args, hargs, n, hn, hinside.1, hinside.2,
        (readsBound_iff haround).2 ⟨name, hnamed, x, hx, hlambda, hreads⟩⟩
  · rintro ⟨-, call, hcall, list, hlistOf, n, hn, hstart, hstop, hreads⟩
    obtain rfl : (p, e) = call := Option.some.inj hcall
    obtain rfl : args = list := Option.some.inj (hargs.symm.trans hlistOf)
    obtain ⟨name, hname, x, hx, hlambda, hnames⟩ := (readsBound_iff haround).1 hreads
    have hin := Site.within_of_mem_preorder hname
    exact ⟨x, hx, hlambda, name, Site.preorder_trans (file.mem_of_nodes hlist hn) hname, hnames,
      by omega, by omega⟩

/-! ### Captures -/

/-- **What captures read.**  A capture is made at a node that stands for its parameter, and the
lambda expressions around that node are those that are laid over lambda expressions of the file on
the way to it.  The capture reads a parameter of one of these if and only if it is a row of
arguments, taken by a variadic parameter, in which something does. -/
theorem reads_parameter_iff (hfile : file.Lossless) (hsite : site ∈ file.sites)
    (hm : t.find? file site = some m) :
    (∀ c ∈ m.captures, ∃ around hole, t.MadeAt file site c around hole) ∧
    ∀ c around hole, t.MadeAt file site c around hole →
      c ∈ m.captures ∧ t.hole? hole = some c.parameter ∧
      lambdas hole.enclosing = lambdas (around.map Prod.fst) ∧
      ((∃ x ∈ around, x.1.kind = .lambdaExpr ∧ ReadsParameter file c.span x.2) ↔
        c.extent = .run ∧ t.isVariadic c.parameter = true ∧ RunReads around c) := by
  obtain ⟨hcollect, -, -⟩ := find?_eq_some hm
  refine ⟨fun c hc => (mem_captures_iff hcollect).1 hc, ?_⟩
  intro c around hole hmade
  refine ⟨hmade.mem hcollect, hmade.hole?, hmade.lambdas_eq, ?_⟩
  have haround := hmade.aligned
  cases hmade with
  | @expression _ _ e hmeets _ hcapture =>
    obtain ⟨-, hspan, hsingle, -, -, hfree⟩ := capture?_eq_some hcapture
    have he : e ∈ file.sites := Site.preorder_trans hsite hmeets.mem_preorder
    rw [hspan, exists_readsParameter_iff hfile he haround, hfree, hsingle]
    exact iff_of_false (by decide) (fun h => absurd h.1 (by decide))
  | @arguments around p e _ a hmeets _ _ _ hgathers =>
    have he : e ∈ file.sites := Site.preorder_trans hsite hmeets.mem_preorder
    rw [gathered_reads_iff hfile he haround hgathers]
    exact and_congr_right fun _ => (and_iff_right (isVariadic_of_gathers hgathers)).symm

/-! ### A lambda expression around a variadic parameter -/

def callOf (name : String) (arguments : List Tree) : Tree :=
  .node .methodCall [loneName name,
    .node .argList (.token .lParen "(" :: arguments ++ [.token .rParen ")"])]

def lambdaOf (parameter : String) (body : Tree) : Tree :=
  .node .lambdaExpr [.token .ident parameter, .token .arrow "->", body]

/-- The file `int m(int... xs)\x7breturn value;\x7d`, with modifiers in front. -/
def gathering (modifiers : List Tree) (value : Tree) : SourceFile :=
  let children := [.node .methodDecl (modifiers ++ [.token .ident "int", .token .whitespace " ",
    .token .ident "m",
    .node .parameterList [.token .lParen "(", .node .parameter [.token .ident "int",
      .token .ellipsis "...", .token .whitespace " ", .token .ident "xs"], .token .rParen ")"],
    .node .block [.token .lBrace "\x7b",
      .node .returnStmt [.token .returnKw "return", .token .whitespace " ", value,
        .token .semicolon ";"],
      .token .rBrace "\x7d"]])]
  ⟨"", .java, String.ofList (Tree.textAll children), .node .sourceFile children, .empty, .empty,
    ⟨.empty, .empty⟩⟩

def marked : List Tree := [
  .node .modifierList [.node .annotationUse [.token .at "@", .token .ident "M"]],
  .token .whitespace " "]

def expressionFile (value : Tree) : SourceFile :=
  ⟨"", .java, String.ofList value.text, .node .sourceFile [value], .empty, .empty,
    ⟨.empty, .empty⟩⟩

def expressionSite (value : Tree) : Site :=
  ((expressionFile value).sites[1]?).getD (expressionFile value).root

def delayed (parameter : String) (arguments : List Tree) : Tree :=
  callOf "r" [lambdaOf parameter (callOf "f" arguments)]

/-- The template that turns `r(q -> f(xs))` into `g(xs)`. -/
def delayedTemplate : Template :=
  ⟨"m", [⟨"xs", none⟩], true, delayed "q" [loneName "xs"], .empty, ["g(", ")"]⟩

/-- The call `r(s -> f(first,second))`. -/
def delayedCall (first second : String) : Tree :=
  delayed "s" [loneName first, .token .comma ",", loneName second]

def delayedMatch : Match := ⟨.ofWidth 0 12, [⟨0, .ofWidth 7 3, .run⟩]⟩

theorem find?_delayed (names : String × String) (h : names ∈ [("s", "t"), ("t", "u")]) :
    delayedTemplate.find? (expressionFile (delayedCall names.1 names.2))
      (expressionSite (delayedCall names.1 names.2)) = some delayedMatch := by
  have hcollect : delayedTemplate.collect (expressionFile (delayedCall names.1 names.2)) []
      delayedTemplate.root (expressionSite (delayedCall names.1 names.2)) =
        some delayedMatch.captures := by
    simp only [List.mem_cons, List.not_mem_nil, or_false] at h
    rcases h with rfl | rfl
    all_goals
      refine collect_of_rows [[], delayedMatch.captures] rfl rfl (.cons ?_ (.cons ?_ .nil)) rfl
      · exact collect_of_rows [] rfl rfl .nil rfl
      · refine collect_of_rows [delayedMatch.captures] rfl rfl (.cons ?_ .nil) rfl
        refine collect_of_rows [[]] rfl rfl (.cons ?_ .nil) rfl
        exact collect_of_rows [] rfl rfl .nil rfl
  simp only [List.mem_cons, List.not_mem_nil, or_false] at h
  rw [find?_eq, hcollect]
  rcases h with rfl | rfl
  · rfl
  · rfl

/-- Nodes of the template and of the file that meet: the outer call is listed first, the lambda
expression fourth, and the inner call fifth. -/
def delayedPair (names : String × String) (i : Nat) : Site × Site :=
  let site := expressionSite (delayedCall names.1 names.2)
  (delayedTemplate.root.preorder.getD i delayedTemplate.root, site.preorder.getD i site)

theorem delayed_made (names : String × String) (h : names ∈ [("s", "t"), ("t", "u")]) :
    ∃ hole, delayedTemplate.MadeAt (expressionFile (delayedCall names.1 names.2))
      (expressionSite (delayedCall names.1 names.2)) ⟨0, .ofWidth 7 3, .run⟩
      ([4, 3, 0].map (delayedPair names)) hole := by
  have hlambda : delayedTemplate.Meets (expressionFile (delayedCall names.1 names.2))
      (expressionSite (delayedCall names.1 names.2)) [delayedPair names 0]
      (delayedPair names 3).1 (delayedPair names 3).2 :=
    .part .root rfl rfl (List.mem_cons_of_mem _ List.mem_cons_self)
  have hcall : delayedTemplate.Meets (expressionFile (delayedCall names.1 names.2))
      (expressionSite (delayedCall names.1 names.2)) ([3, 0].map (delayedPair names))
      (delayedPair names 4).1 (delayedPair names 4).2 :=
    .part hlambda rfl rfl List.mem_cons_self
  simp only [List.mem_cons, List.not_mem_nil, or_false] at h
  rcases h with rfl | rfl
  · exact ⟨_, .arguments hcall rfl rfl rfl ⟨_, _, rfl, rfl, rfl, [], rfl⟩⟩
  · exact ⟨_, .arguments hcall rfl rfl rfl ⟨_, _, rfl, rfl, rfl, [], rfl⟩⟩

/-- **Gathered arguments escape.**  In `r(s -> f(s,t))` the arguments are taken out of the lambda
expression, although `s` is its parameter. -/
theorem gathered_escape :
    (gathering marked (delayed "q" [loneName "xs"])).Lossless ∧
    (gathering [] (callOf "g" [loneName "xs"])).Lossless ∧
    (expressionFile (delayedCall "s" "t")).Lossless ∧
    readAll (gathering marked (delayed "q" [loneName "xs"]))
      (gathering [] (callOf "g" [loneName "xs"])) "M" = .ok [delayedTemplate] ∧
    expressionSite (delayedCall "s" "t") ∈ (expressionFile (delayedCall "s" "t")).sites ∧
    delayedTemplate.find? (expressionFile (delayedCall "s" "t"))
      (expressionSite (delayedCall "s" "t")) = some delayedMatch ∧
    (∃ c ∈ delayedMatch.captures, ∃ around hole,
      delayedTemplate.MadeAt (expressionFile (delayedCall "s" "t"))
        (expressionSite (delayedCall "s" "t")) c around hole ∧
      ∃ x ∈ around, x.1.kind = .lambdaExpr ∧
        ReadsParameter (expressionFile (delayedCall "s" "t")) c.span x.2) ∧
    (Edits.ofCalls (delayedTemplate.changes delayedMatch)).applyTo?
      (expressionFile (delayedCall "s" "t")).text = some ("g(s,t)", []) := by
  refine ⟨⟨_, rfl, by decide +kernel⟩, ⟨_, rfl, by decide +kernel⟩, ⟨_, rfl, by decide +kernel⟩, rfl,
    List.mem_cons_of_mem _ List.mem_cons_self, find?_delayed ("s", "t") (by decide), ?_, ?_⟩
  · obtain ⟨hole, hmade⟩ := delayed_made ("s", "t") (by decide)
    obtain ⟨name, hname, hkey, hplain, hident⟩ :
        ∃ name ∈ (expressionFile (delayedCall "s" "t")).sites,
          name.key = (.referenceExpr, .ofWidth 7 1) ∧ name.isQualified = false ∧
            name.lastIdent?.map (·.text) = some "s" := by
      decide +kernel
    obtain ⟨ident, hident, htext⟩ := Option.map_eq_some_iff.1 hident
    have hspan : name.span = .ofWidth 7 1 := congrArg Prod.snd hkey
    refine ⟨_, List.mem_cons_self, _, hole, hmade, _, List.mem_cons_of_mem _ List.mem_cons_self, rfl,
      name, hname, ⟨congrArg Prod.fst hkey, hplain, ident, hident, ?_⟩, ?_, ?_⟩
    · rw [htext]
      decide
    · rw [hspan]
      decide
    · rw [hspan]
      decide
  · have hsorted : delayedMatch.captures.mergeSort comesBefore = delayedMatch.captures :=
      List.mergeSort_singleton _
    rw [changes, hsorted]
    decide +kernel

/-- In `r(s -> f(t,u))` the arguments that are taken out do not read `s`. -/
theorem gathered_outside :
    (expressionFile (delayedCall "t" "u")).Lossless ∧
    expressionSite (delayedCall "t" "u") ∈ (expressionFile (delayedCall "t" "u")).sites ∧
    delayedTemplate.find? (expressionFile (delayedCall "t" "u"))
      (expressionSite (delayedCall "t" "u")) = some delayedMatch ∧
    (∃ c ∈ delayedMatch.captures, c.extent = .run) ∧
    ∀ c ∈ delayedMatch.captures, ∃ around hole,
      delayedTemplate.MadeAt (expressionFile (delayedCall "t" "u"))
        (expressionSite (delayedCall "t" "u")) c around hole ∧
      ¬ ∃ x ∈ around, x.1.kind = .lambdaExpr ∧
        ReadsParameter (expressionFile (delayedCall "t" "u")) c.span x.2 := by
  have hfile : (expressionFile (delayedCall "t" "u")).Lossless := ⟨_, rfl, by decide +kernel⟩
  have hsite : expressionSite (delayedCall "t" "u") ∈
      (expressionFile (delayedCall "t" "u")).sites := List.mem_cons_of_mem _ List.mem_cons_self
  have hm : delayedTemplate.find? (expressionFile (delayedCall "t" "u"))
      (expressionSite (delayedCall "t" "u")) = some delayedMatch :=
    find?_delayed ("t", "u") (by decide)
  refine ⟨hfile, hsite, hm, ⟨_, List.mem_cons_self, rfl⟩, ?_⟩
  intro c hc
  obtain rfl := List.mem_singleton.1 hc
  obtain ⟨hole, hmade⟩ := delayed_made ("t", "u") (by decide)
  refine ⟨_, hole, hmade, ?_⟩
  rw [((reads_parameter_iff hfile hsite hm).2 _ _ hole hmade).2.2.2]
  rintro ⟨-, -, call, hcall, args, hargs, n, hn, -, -, hreads⟩
  have hfree : ∀ call ∈ ([4, 3, 0].map (delayedPair ("t", "u"))).head?,
      ∀ args ∈ call.2.child? .argList, ∀ n ∈ args.nodes,
        readsBound (scopeOf ([4, 3, 0].map (delayedPair ("t", "u")))) n = false := by
    decide +kernel
  rw [hfree call hcall args hargs n hn] at hreads
  exact absurd hreads (by decide)

end SourceRename.Template
