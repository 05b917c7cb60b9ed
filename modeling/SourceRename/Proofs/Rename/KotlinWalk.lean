import Mathlib.Data.List.Induction
import SourceRename.Proofs.Edit.Free
import SourceRename.Proofs.Rename.Alone
import SourceRename.Proofs.Rename.Passes

/-!
# A Kotlin walk never collides with itself

Where a name is visited, the walk asks whether its span is free, and so for what it replaces around
the name.  Where a function is visited nothing is asked.  Still all that is queued is free at its
time, as long as no function lies in a node that is replaced as a whole (`Run.report_kotlin`): what
has been queued before is an identifier of a node around the function, which shares nothing with it
(`Site.apart_of_mem_directTokens`), or it comes from a node that stands apart from the function
(`Site.pairwise_kotlinOrder`).  The invariant of the walk is `Context.Visited`.

So each visit queues one replacement or none (`Visited.visit`), no span is queued twice, and a name
inside a qualified name that has been replaced as a whole is left alone.
-/

namespace SourceRename

/-- A resolved Kotlin file in which nodes with a symbol are not empty. -/
structure SourceFile.PlainKotlin (f : SourceFile) : Prop where
  kotlin : f.language = .kotlin
  lossless : f.Lossless
  wide : ∀ s ∈ f.sites, (f.symbol? s).isSome = true → s.span.start < s.span.stop

theorem SourceFile.PlainKotlin.isKotlin {f : SourceFile} (h : f.PlainKotlin) :
    f.isKotlin = true := by
  rw [SourceFile.isKotlin, h.kotlin]
  rfl

namespace Context

variable {cx : Context} {n m : Site} {before behind : List Site} {d : Draft} {e : Edit}
  {s : Span} {symbol : Symbol}

/-! ### Nothing is reported -/

theorem quiet_renameField (hkotlin : cx.file.isKotlin = true) (site : Site) (field : Field) :
    Quiet (cx.renameField site field) := by
  intro d
  have himplicit : cx.isImplicitUse site = false := by rw [isImplicitUse, hkotlin]; rfl
  have hproblems : cx.fieldProblems site field d.text = [] := by
    rw [fieldProblems, himplicit, Bool.false_and, Bool.and_false]
    rfl
  obtain ⟨hdiagnostics, hconflicts⟩ := diagnostics_renameField cx site field d
  rw [hproblems, List.append_nil] at hdiagnostics
  exact ⟨hdiagnostics, hconflicts⟩

mutual

theorem quiet_rename (hkotlin : cx.file.isKotlin = true) (site : Site) :
    (symbol : Symbol) → Quiet (cx.rename site symbol)
  | .field f => by simpa only [rename] using quiet_renameField hkotlin site f
  | .method m => by simpa only [rename] using quiet_renameMethod cx site m
  | .function m => by simpa only [rename] using quiet_renameMethod cx site m
  | .classType name => by simpa only [rename, renameClass] using quiet_renameQualified cx site _ _
  | .package name => by simpa only [rename] using quiet_renameQualified cx site _ _
  | .property getter => by simpa only [rename] using quiet_renameProperty cx site getter
  | .compiled overridden => by simpa only [rename] using quiet_renameFirst hkotlin site overridden

theorem quiet_renameFirst (hkotlin : cx.file.isKotlin = true) (site : Site) :
    (symbols : List Symbol) → Quiet (cx.renameFirst site symbols)
  | [] => by
    intro d
    rw [renameFirst]
    exact ⟨rfl, rfl⟩
  | symbol :: symbols => by
    intro d
    have hone := quiet_rename hkotlin site symbol d
    rw [renameFirst]
    split
    · have hrest := quiet_renameFirst hkotlin site symbols (cx.rename site symbol d)
      exact ⟨hrest.1.trans hone.1, hrest.2.trans hone.2⟩
    · exact hone

end

theorem quiet_visitKotlin (hkotlin : cx.file.isKotlin = true) (site : Site) :
    Quiet fun d => cx.visitKotlin d site := by
  intro d
  have hone : (cx.renameSite site d).diagnostics = d.diagnostics ∧
      (cx.renameSite site d).conflicts = d.conflicts := by
    rw [renameSite]
    split
    · exact quiet_rename hkotlin site _ d
    · exact ⟨rfl, rfl⟩
  dsimp only
  rw [visitKotlin]
  split
  · exact hone
  · split
    · exact hone
    · exact ⟨rfl, rfl⟩
  · exact ⟨rfl, rfl⟩

/-! ### What has been queued -/

def WrittenBy (cx : Context) (sites : List Site) (e : Edit) : Prop :=
  ∃ n ∈ sites, ∃ symbol, cx.file.symbol? n = some symbol ∧ cx.Writes n symbol e

/-- The draft after the visits to a row of nodes of a Kotlin file. -/
def visited (cx : Context) (sites : List Site) : Draft :=
  sites.foldl cx.visitKotlin (.ofText cx.file.text)

/-- When the nodes have been visited, no two replacements share a byte, each is written by one of
the nodes, and nothing has been reported or refused. -/
structure Visited (cx : Context) (sites : List Site) (d : Draft) : Prop where
  text : d.text = cx.file.text
  diagnostics : d.diagnostics = []
  conflicts : d.conflicts = []
  separate : d.edits.Separate
  written : ∀ e ∈ d.edits.toList, cx.WrittenBy sites e

theorem visited_nil (cx : Context) : cx.Visited [] (cx.visited []) :=
  ⟨rfl, rfl, rfl, Edits.separate_empty, nofun⟩

theorem hasSpan_of_visited (hlist : cx.file.root.kotlinOrder = before ++ behind)
    (hs : (cx.visited before).edits.hasSpan s = true) :
    (cx.visited cx.file.root.kotlinOrder).edits.hasSpan s = true := by
  rw [hlist, visited, List.foldl_append]
  exact (cx.extends_visits behind (cx.visited before)).edits.hasSpan hs

/-- If no function lies in a node that is replaced as a whole in the end, then none of the nodes
around a function has been replaced as a whole when the function is visited. -/
theorem clear_of_visited (hclear : ∀ f ∈ cx.file.sites, f.kind = .funDecl → ∀ m ∈ f.enclosing,
      (cx.visited cx.file.root.kotlinOrder).edits.hasSpan m.span = false)
    (hlist : cx.file.root.kotlinOrder = before ++ n :: behind) (hkind : n.kind = .funDecl)
    (m : Site) (hm : m ∈ n.enclosing) : (cx.visited before).edits.hasSpan m.span = false := by
  have hn : n ∈ cx.file.sites := Site.mem_preorder_of_mem_kotlinOrder (hlist ▸ by simp)
  have hfinal := hclear n hn hkind m hm
  rw [Bool.eq_false_iff] at hfinal ⊢
  exact fun h => hfinal (hasSpan_of_visited hlist h)

section

variable (hfile : cx.file.PlainKotlin)
include hfile

theorem start_lt_of_nearby (hn : n ∈ cx.file.sites) (hsymbol : cx.file.symbol? n = some symbol)
    (hs : n.Nearby s) : s.start < s.stop :=
  hfile.lossless.start_lt_of_nearby hn (hfile.wide n hn (by rw [hsymbol]; rfl)) hs

/-- **What has been queued before a function is visited shares nothing with it**, if none of the
nodes around the function has been replaced as a whole. -/
theorem Visited.isFree_of_clear (h : cx.Visited before d)
    (hlist : cx.file.root.kotlinOrder = before ++ n :: behind)
    (hclear : ∀ m ∈ n.enclosing, d.edits.hasSpan m.span = false) : d.isFree n.span = true := by
  have hvisited : ∀ {q}, q ∈ before ++ n :: behind → q ∈ cx.file.sites :=
    fun hq => Site.mem_preorder_of_mem_kotlinOrder (hlist ▸ hq)
  have hn : n ∈ cx.file.sites := hvisited (by simp)
  rw [Draft.isFree, Edits.isFree_iff]
  intro u hu
  obtain ⟨e, he, rfl⟩ := Edits.hasSpan_iff.1 hu
  obtain ⟨p, hp, symbol, hsymbol, hwrites⟩ := h.written e he
  have hpf : p ∈ cx.file.sites := hvisited (List.mem_append_left _ hp)
  have hpwide := hfile.wide p hpf (by rw [hsymbol]; rfl)
  have hout := Site.not_mem_preorder (Site.below_or_apart_of_visited hlist hp) hpwide
  rcases hwrites.nearby.apart_or_around hpf hn hout with hapart | ⟨m, hm, heq⟩
  · exact hapart.overlaps_eq_false
  · -- a node that lies around the function is not replaced as a whole
    have hnone := hclear m hm
    rw [heq, hu] at hnone
    exact Bool.noConfusion hnone

/-- A free node with a symbol queues at most one replacement. -/
theorem adds_renameSite (hn : n ∈ cx.file.sites) (hfree : d.isFree n.span = true) :
    d.Adds (fun e => ∃ symbol, cx.file.symbol? n = some symbol ∧ cx.Writes n symbol e)
      (cx.renameSite n d) := by
  rw [renameSite]
  split
  · next symbol hsymbol =>
    have hwide : ∀ s, n.Nearby s → s.start < s.stop :=
      fun s hs => start_lt_of_nearby hfile hn hsymbol hs
    exact (adds_rename hwide symbol d hfree).mono fun e he => ⟨symbol, hsymbol, he⟩
  · exact .refl d

theorem Visited.adds (h : cx.Visited before d)
    (hlist : cx.file.root.kotlinOrder = before ++ n :: behind)
    (hclear : n.kind = .funDecl → ∀ m ∈ n.enclosing, d.edits.hasSpan m.span = false) :
    d.Adds (fun e => ∃ symbol, cx.file.symbol? n = some symbol ∧ cx.Writes n symbol e)
      (cx.visitKotlin d n) := by
  have hn : n ∈ cx.file.sites := Site.mem_preorder_of_mem_kotlinOrder (hlist ▸ by simp)
  rw [visitKotlin]
  split
  · next hkind =>
    exact adds_renameSite hfile hn (h.isFree_of_clear hfile hlist (hclear hkind))
  · split
    · next hfree => exact adds_renameSite hfile hn hfree
    · exact .refl d
  · exact .refl d

/-- **What a visit does**: it queues nothing, or one replacement that its symbol writes, for a span
that is neither empty nor listed and shares no byte with what is listed. -/
theorem Visited.visit (h : cx.Visited before d)
    (hlist : cx.file.root.kotlinOrder = before ++ n :: behind)
    (hclear : n.kind = .funDecl → ∀ m ∈ n.enclosing, d.edits.hasSpan m.span = false) :
    ((cx.visitKotlin d n).edits = d.edits ∨
      ∃ symbol e, cx.file.symbol? n = some symbol ∧ cx.Writes n symbol e ∧
        e.span.start < e.span.stop ∧ d.isFree e.span = true ∧ d.edits.hasSpan e.span = false ∧
        (cx.visitKotlin d n).edits = d.edits.queue e.span e.text) ∧
      cx.Visited (before ++ [n]) (cx.visitKotlin d n) := by
  have hn : n ∈ cx.file.sites := Site.mem_preorder_of_mem_kotlinOrder (hlist ▸ by simp)
  have htext : (cx.visitKotlin d n).text = cx.file.text :=
    (cx.extends_visit n d).text.trans h.text
  obtain ⟨hdiagnostics, hconflicts⟩ := quiet_visitKotlin hfile.isKotlin n d
  dsimp only at hdiagnostics hconflicts
  have hmore : ∀ e, cx.WrittenBy before e → cx.WrittenBy (before ++ [n]) e :=
    fun e ⟨p, hp, hwrites⟩ => ⟨p, List.mem_append_left _ hp, hwrites⟩
  rcases h.adds hfile hlist hclear with hsame | ⟨e, ⟨symbol, hsymbol, hwrites⟩, hfree, hedits⟩
  · refine ⟨.inl hsame, htext, hdiagnostics.trans h.diagnostics, hconflicts.trans h.conflicts,
      ?_, ?_⟩
    · rw [hsame]
      exact h.separate
    · rw [hsame]
      exact fun e he => hmore e (h.written e he)
  · have hwide := start_lt_of_nearby hfile hn hsymbol hwrites.nearby
    have hnew := Edits.hasSpan_eq_false hfree hwide
    refine ⟨.inr ⟨symbol, e, hsymbol, hwrites, hwide, hfree, hnew, hedits⟩, htext,
      hdiagnostics.trans h.diagnostics, hconflicts.trans h.conflicts, ?_, ?_⟩
    · rw [hedits]
      exact h.separate.queue hfree
    · rw [hedits]
      intro f hf
      rcases List.mem_cons.1 ((Edits.perm_queue hnew).subset hf) with rfl | hf
      · exact ⟨n, by simp, symbol, hsymbol, hwrites⟩
      · exact hmore f (h.written f hf)

/-- A name inside a node that has been replaced as a whole is left alone. -/
theorem visitKotlin_of_replaced (hn : n ∈ cx.file.sites)
    (hclear : n.kind = .funDecl → ∀ m ∈ n.enclosing, d.edits.hasSpan m.span = false)
    (hm : m ∈ n.enclosing) (hspan : d.edits.hasSpan m.span = true) : cx.visitKotlin d n = d := by
  rw [visitKotlin]
  split
  · next hkind =>
    rw [hclear hkind m hm] at hspan
    exact absurd hspan Bool.false_ne_true
  · split
    · next hfree =>
      rw [renameSite]
      split
      · next symbol hsymbol =>
        have hwide := hfile.wide n hn (by rw [hsymbol]; rfl)
        have hmf := SourceFile.mem_of_enclosing hn hm
        have hin := Site.within_of_mem_below ((Site.mem_enclosing_iff hmf hn).1 hm)
        have hapart := Edits.isFree_iff.1 hfree m.span hspan
        rw [Bool.eq_false_iff, ne_eq, Span.overlaps_iff] at hapart
        omega
      · rfl
    · rfl
  · rfl

/-- **The invariant holds throughout the walk.** -/
theorem visited_of_append (hclear : ∀ f ∈ cx.file.sites, f.kind = .funDecl → ∀ m ∈ f.enclosing,
      (cx.visited cx.file.root.kotlinOrder).edits.hasSpan m.span = false)
    (before behind : List Site)
    (hlist : cx.file.root.kotlinOrder = before ++ behind) :
    cx.Visited before (cx.visited before) := by
  induction before using List.reverseRecOn generalizing behind with
  | nil => exact cx.visited_nil
  | append_singleton before n ih =>
    have hsplit : cx.file.root.kotlinOrder = before ++ n :: behind := by
      rw [hlist, List.append_assoc]
      rfl
    have hvisit := (ih (n :: behind) hsplit).visit hfile hsplit
      (clear_of_visited hclear hsplit)
    rw [visited, List.foldl_append]
    exact hvisit.2

end

end Context

open Context

theorem Run.draft_eq_visited {run : Run} {file : SourceFile} (hkotlin : file.language = .kotlin)
    (htemplates : run.templates = []) : run.draft file =
      (Context.ofFile file run.renames run.settings.forbidImplicit).visited
        file.root.kotlinOrder := by
  have hlanguage : (Context.ofFile file run.renames
      run.settings.forbidImplicit).file.language = .kotlin := hkotlin
  rw [draft, htemplates, Template.offerAll_nil, renameAll, hlanguage]
  rfl

/-- **A Kotlin walk never collides with itself.**  In a run without templates over a Kotlin file in
which no function lies in another node that is replaced as a whole, each visit queues nothing, or
one replacement that the symbol of the node writes, for a span that is not empty, shares no byte
with what is listed and is not listed.  Inside a node that has been replaced as a whole nothing is
queued.  In the end the replacements stand apart, and all of them are put in without a conflict. -/
theorem Run.report_kotlin {run : Run} {file : SourceFile} (hfile : file.PlainKotlin)
    (htemplates : run.templates = [])
    (hclear : ∀ f ∈ file.sites, f.kind = .funDecl → ∀ m ∈ f.enclosing,
      (run.draft file).edits.hasSpan m.span = false) :
    let cx := Context.ofFile file run.renames run.settings.forbidImplicit
    run.draft file = cx.visited file.root.kotlinOrder ∧
    (∀ before n behind, file.root.kotlinOrder = before ++ n :: behind →
      let d := cx.visited before
      ((cx.visitKotlin d n).edits = d.edits ∨
        ∃ symbol e, file.symbol? n = some symbol ∧ cx.Writes n symbol e ∧
          e.span.start < e.span.stop ∧ d.isFree e.span = true ∧ d.edits.hasSpan e.span = false ∧
          (cx.visitKotlin d n).edits = d.edits.queue e.span e.text) ∧
      ((∃ m ∈ n.enclosing, d.edits.hasSpan m.span = true) → cx.visitKotlin d n = d)) ∧
    StandApart (run.draft file).edits.toList ∧
    (∀ e ∈ (run.draft file).edits.toList,
      e.span.start < e.span.stop ∧ cx.WrittenBy file.root.kotlinOrder e) ∧
    ∃ text, run.report file = .ok ⟨text, [], []⟩ ∧
      Spliced 0 file.text.toList (run.draft file).edits.toList text.toList := by
  intro cx
  have hdraft : run.draft file = cx.visited file.root.kotlinOrder :=
    draft_eq_visited hfile.kotlin htemplates
  rw [hdraft] at hclear
  have hall : cx.Visited file.root.kotlinOrder (cx.visited file.root.kotlinOrder) :=
    visited_of_append hfile hclear _ [] (List.append_nil _).symm
  have hwide : ∀ e ∈ (cx.visited file.root.kotlinOrder).edits.toList,
      e.span.start < e.span.stop := by
    intro e he
    obtain ⟨n, hn, symbol, hsymbol, hwrites⟩ := hall.written e he
    exact start_lt_of_nearby hfile (Site.mem_preorder_of_mem_kotlinOrder hn) hsymbol hwrites.nearby
  have hapart : StandApart (cx.visited file.root.kotlinOrder).edits.toList :=
    hall.separate.standApart hwide
  have hcut : ∀ e ∈ (cx.visited file.root.kotlinOrder).edits.toList,
      Cut file.text.toList e.span.start ∧ Cut file.text.toList e.span.stop := by
    intro e he
    obtain ⟨n, hn, symbol, -, hwrites⟩ := hall.written e he
    exact hfile.lossless.cut_of_nearby (Site.mem_preorder_of_mem_kotlinOrder hn) hwrites.nearby
  refine ⟨hdraft, ?_, ?_, ?_, ?_⟩
  · intro before n behind hlist d
    have hn : n ∈ file.sites := Site.mem_preorder_of_mem_kotlinOrder (hlist ▸ by simp)
    have hlist' : cx.file.root.kotlinOrder = before ++ n :: behind := hlist
    have hfun := clear_of_visited hclear hlist'
    refine ⟨((visited_of_append hfile hclear before _ hlist).visit hfile hlist hfun).1, ?_⟩
    rintro ⟨m, hm, hspan⟩
    exact visitKotlin_of_replaced hfile hn hfun hm hspan
  · rw [hdraft]
    exact hapart
  · rw [hdraft]
    exact fun e he => ⟨hwide e he, hall.written e he⟩
  · obtain ⟨text, hresult, hspliced⟩ := Draft.result_of_standApart hapart (by rwa [hall.text])
    rw [hall.diagnostics, hall.conflicts] at hresult
    rw [hall.text] at hspliced
    refine ⟨text, ?_, hdraft ▸ hspliced⟩
    rw [← hresult, ← hdraft]
    exact report_of_no_templates htemplates

namespace Run

/-! ### A function whose type is a qualified name -/

def topFunction : Method := ⟨.ofBinary "X", "f", "()La/B;", true, false, []⟩

def returningQualified : SourceFile where
  name := ""
  language := .kotlin
  text := "fun f():a.B"
  tree := .node .sourceFile [.node .funDecl [.token .funKw "fun", .token .whitespace " ",
    .token .ident "f", .token .lParen "(", .token .rParen ")", .token .colon ":",
    .node .userType [.node .userType [.node .nameRef [.token .ident "a"]], .token .dot ".",
      .node .nameRef [.token .ident "B"]]]]
  symbols := .ofList [((.funDecl, .ofWidth 0 11), .function topFunction),
    ((.nameRef, .ofWidth 8 1), .package "a"),
    ((.nameRef, .ofWidth 10 1), .classType (.ofBinary "a.B"))]
  types := .empty
  scope := ⟨.empty, .empty⟩

def qualifiedRun : Run where
  renames := ((Renames.empty.declare "X" "X" fun c => c.addMethod ⟨"f", none⟩ "g").declare
    "a.B" "p.Q" id).declare "a" "z" id
  templates := []
  settings := {}

def qualifiedContext : Context := .ofFile returningQualified qualifiedRun.renames false

def functionSite : Site :=
  (returningQualified.sites.find? (·.kind == .funDecl)).getD returningQualified.root

theorem visit_functionSite (d : Draft) :
    qualifiedContext.visitKotlin d functionSite = d.replace ⟨4, 5, by decide⟩ "g" := by
  have hancestry : qualifiedContext.file.scope.ancestry topFunction.owner.binary = ["X"] := by
    rw [Scope.ancestry, Scope.reach_cons, if_pos List.mem_cons_self]
    exact congrArg _ (Scope.reach_nil _ _)
  have hname : qualifiedContext.methodName? topFunction = some "g" := by
    rw [Context.methodName?, Context.inheritedName?, hancestry]
    decide +kernel
  have hkind : functionSite.kind = .funDecl := rfl
  have hsymbol : qualifiedContext.file.symbol? functionSite = some (.function topFunction) := by
    decide +kernel
  rw [Context.visitKotlin, hkind]
  dsimp only
  rw [Context.renameSite, hsymbol]
  dsimp only
  rw [Context.rename, Context.renameMethod, hname]
  rfl

/-- The function gets its name and the type is replaced as a whole; nothing is left to do for the
package. -/
theorem edits_returningQualified : (qualifiedRun.draft returningQualified).edits.toList =
    [⟨⟨4, 5, by decide⟩, "g"⟩, ⟨⟨8, 11, by decide⟩, "p.Q"⟩] := by
  have hdraft : qualifiedRun.draft returningQualified =
      (returningQualified.root.kotlinOrder.drop 2).foldl qualifiedContext.visitKotlin
        ((Draft.ofText returningQualified.text).replace ⟨4, 5, by decide⟩ "g") := by
    rw [← visit_functionSite]
    rfl
  rw [hdraft]
  decide +kernel

theorem returningQualified_renamed :
    returningQualified.PlainKotlin ∧ qualifiedRun.templates = [] ∧
    (∀ f ∈ returningQualified.sites, f.kind = .funDecl → ∀ m ∈ f.enclosing,
      (qualifiedRun.draft returningQualified).edits.hasSpan m.span = false) ∧
    qualifiedRun.report returningQualified = .ok ⟨"fun g():p.Q", [], []⟩ := by
  have hfile : returningQualified.PlainKotlin := by
    refine ⟨rfl, ⟨_, rfl, by decide +kernel⟩, by decide +kernel⟩
  have hclear : ∀ f ∈ returningQualified.sites, f.kind = .funDecl → ∀ m ∈ f.enclosing,
      (qualifiedRun.draft returningQualified).edits.hasSpan m.span = false := by
    simp only [Bool.eq_false_iff, ne_eq, ← Edits.mem_spans_iff, edits_returningQualified]
    decide +kernel
  obtain ⟨-, -, -, -, text, hreport, hspliced⟩ := report_kotlin hfile rfl hclear
  have hsplice := hspliced.splice?_eq
  rw [edits_returningQualified] at hsplice
  have htext : text.toList = "fun g():p.Q".toList :=
    Option.some.inj (hsplice.symm.trans (by decide +kernel))
  rw [String.toList_inj.1 htext] at hreport
  exact ⟨hfile, rfl, hclear, hreport⟩

end Run

end SourceRename
