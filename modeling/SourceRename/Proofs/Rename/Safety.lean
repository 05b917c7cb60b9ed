import SourceRename.Proofs.Rename.Passes
import SourceRename.Proofs.Syntax.Boundaries
import SourceRename.Proofs.Template.Tiling

/-!
# Runs and the boundaries of tokens

A file has no report if a text is cut inside a character.  In a resolved file nodes and tokens begin
and end where tokens do, and renaming replaces nodes and tokens.  Templates replace the gaps around
captures, and captures reach from the start of one node to the end of another one, or are empty and
stand behind the arguments of a list, all on the boundary of a token, but for one case:

    f(é)    with an argument list  é  that has neither arguments nor a parenthesis

There the arguments are taken to begin one byte behind the start of the list, as if a parenthesis
stood there (`Site.IsBare`).  This offset may lie inside a token, and inside a character.  It is the
only one (`Run.report_of_boundaries`): every replacement lies in the text and its ends are
boundaries of tokens or such offsets.  A run may cut the text there when replacements are put in
(`Run.bare_cut`), and before, when a template looks for the same text once more
(`Run.compared_cut`). -/

namespace SourceRename

/-- A template of the run captures nothing for the arguments of a bare list, one byte behind its
start. -/
def Run.BareAt (run : Run) (file : SourceFile) (n : Nat) : Prop :=
  ∃ t ∈ run.templates, ∃ site ∈ file.sites, ∃ m, t.find? file site = some m ∧
    ∃ c ∈ m.captures, c.extent = .omitted ∧ c.span = .empty n ∧
      ∃ args ∈ site.below, args.IsBare ∧ n = args.span.start + 1

/-- The same where a template is tried, whether it matches or not. -/
def Run.BareTried (run : Run) (file : SourceFile) (n : Nat) : Prop :=
  ∃ t ∈ run.templates, ∃ site ∈ file.sites, ∃ c ∈ (t.trace file [] t.root site).captures,
    c.extent = .omitted ∧ c.span = .empty n ∧
      ∃ args ∈ site.below, args.IsBare ∧ n = args.span.start + 1

theorem Run.BareAt.tried {run : Run} {file : SourceFile} {n : Nat} (h : run.BareAt file n) :
    run.BareTried file n := by
  obtain ⟨t, ht, site, hsite, m, hm, c, hc, hbare⟩ := h
  exact ⟨t, ht, site, hsite, c, Template.mem_trace_of_find? hm hc, hbare⟩

/-! ### Templates -/

namespace Template

variable {t : Template} {file : SourceFile} {site : Site} {m : Match} {c : Capture}
  {P : Nat → Prop}

theorem ends_of_mem_gaps {start stop : Nat} {captures : List Capture} (hstart : P start)
    (hstop : P stop) (hcaptures : ∀ c ∈ captures, P c.span.start ∧ P c.span.stop) :
    ∀ g ∈ gaps start stop captures, P g.start ∧ P g.stop := by
  have hmax : ∀ {a b}, P a → P b → P (max a b) := by
    intro a b ha hb
    rcases Nat.le_total a b with h | h
    · rwa [Nat.max_eq_right h]
    · rwa [Nat.max_eq_left h]
  induction captures generalizing start with
  | nil =>
    intro g hg
    rw [List.mem_singleton.1 hg]
    exact ⟨hstart, hmax hstart hstop⟩
  | cons c cs ih =>
    obtain ⟨⟨hfirst, hlast⟩, hcs⟩ := List.forall_mem_cons.1 hcaptures
    exact List.forall_mem_cons.2 ⟨⟨hstart, hmax hstart hfirst⟩, ih (hmax hstart hlast) hcs⟩

section

variable {name text : String} {language : Language} {facts : List NodeFact} {scope : Scope}
  (hfile : SourceFile.resolve name language text facts scope = .ok file)
  (hsite : site ∈ file.sites) (hm : t.find? file site = some m)

include hfile hsite hm

/-- What is captured begins and ends where tokens do, or is nothing, in a bare list. -/
theorem aligned_capture (hc : c ∈ m.captures) : c.span.Aligned file.text ∨
    c.extent = .omitted ∧
      ∃ args ∈ site.below, args.IsBare ∧ c.span = .empty (args.span.start + 1) := by
  have hplaced := (captured_of_trace (mem_trace_of_find? hm hc)).ends_or_bare (P := Boundary file.text)
    (fun s hs => aligned_of_resolve hfile (Site.preorder_trans hsite hs))
    (fun s hs u hu =>
      ((lossless_of_resolve hfile).aligned_token (Site.preorder_trans hsite hs) hu).2)
  exact hplaced.imp_right fun h => ⟨h.1, h.2.2⟩

/-- The changes of a match lie in the text, and end on boundaries of tokens or in bare lists. -/
theorem ends_of_mem_changes {run : Run} (ht : t ∈ run.templates) {e : Edit}
    (he : e ∈ t.changes m) : e.span.stop ≤ file.text.utf8ByteSize ∧
      (Boundary file.text e.span.start ∨ run.BareAt file e.span.start) ∧
      (Boundary file.text e.span.stop ∨ run.BareAt file e.span.stop) := by
  obtain ⟨-, -, hroot⟩ := find?_eq_some hm
  have hnode := aligned_of_resolve hfile hsite
  constructor
  · have hin := ((tiles_of_find? (tight_of_find? hfile hsite hm) hm).within e he).2
    rw [hroot] at hin
    exact Nat.le_trans hin hnode.2.le
  · refine ends_of_mem_gaps (P := fun n => Boundary file.text n ∨ run.BareAt file n) ?_ ?_ ?_ _
      ((changes_fill t m).1 e he)
    · exact .inl (hroot ▸ hnode.1)
    · exact .inl (hroot ▸ hnode.2)
    · intro c hc
      have hc := (List.mergeSort_perm m.captures comesBefore).mem_iff.1 hc
      rcases aligned_capture hfile hsite hm hc with h | ⟨homitted, args, hargs, hbare, hspan⟩
      · exact ⟨.inl h.1, .inl h.2⟩
      · have hat : run.BareAt file (args.span.start + 1) :=
          ⟨t, ht, site, hsite, m, hm, c, hc, homitted, hspan, args, hargs, hbare, rfl⟩
        rw [hspan]
        exact ⟨.inr hat, .inr hat⟩

end

end Template

/-! ### Runs -/

section

variable {name text : String} {language : Language} {facts : List NodeFact} {scope : Scope}
  {file : SourceFile} (hfile : SourceFile.resolve name language text facts scope = .ok file)

include hfile

theorem SourceFile.Placed.aligned {s : Span} (h : file.Placed s) : s.Aligned file.text := by
  rcases h with ⟨site, hsite, hnear⟩ | ⟨site, hsite, rfl⟩
  · cases hnear with
    | token ht => exact (lossless_of_resolve hfile).aligned_token hsite ht
    | whole => exact aligned_of_resolve hfile hsite
    | around hp => exact aligned_of_resolve hfile (mem_of_parent? hsite hp).1
  · exact (aligned_of_resolve hfile hsite).behind

/-- **Runs cut no tokens**, but for bare argument lists.  Every replacement queued lies in the text;
it begins and ends where tokens do, or where a template captures nothing in a bare list.  If that is
only done on the boundaries of tokens, all replacements begin and end there.  If it is only done
between characters, the file has a report once the templates have come to their end; and if it is
only tried between characters, they do, and the file has a report. -/
theorem Run.report_of_boundaries (run : Run) :
    (∀ e ∈ (run.draft file).edits.toList, e.span.stop ≤ file.text.utf8ByteSize ∧
      (Boundary file.text e.span.start ∨ run.BareAt file e.span.start) ∧
      (Boundary file.text e.span.stop ∨ run.BareAt file e.span.stop)) ∧
    ((∀ n, run.BareAt file n → Boundary file.text n) →
      ∀ e ∈ (run.draft file).edits.toList, e.span.Aligned file.text) ∧
    ((∀ n, run.BareAt file n → Cut file.text.toList n) →
      ((∃ r, run.report file = .ok r) ↔
        ∃ d, Template.applyAll run.templates file (.ofText file.text) = .ok d)) ∧
    ((∀ n, run.BareTried file n → Cut file.text.toList n) → ∃ r, run.report file = .ok r) := by
  have hends : ∀ e ∈ (run.draft file).edits.toList, e.span.stop ≤ file.text.utf8ByteSize ∧
      (Boundary file.text e.span.start ∨ run.BareAt file e.span.start) ∧
      (Boundary file.text e.span.stop ∨ run.BareAt file e.span.stop) := by
    intro e he
    have hplaced := Context.extends_renameAll
      (.ofFile file run.renames run.settings.forbidImplicit)
      (Template.offerAll run.templates file (.ofText file.text))
    rcases hplaced.edits.hasSpan_cases (Edits.hasSpan_iff.2 ⟨e, he, rfl⟩) with h | ⟨-, -, h⟩
    · have htemplates := Template.extends_offerAll_changes run.templates file (.ofText file.text)
      obtain ⟨-, x, hx, c, hc, hspan⟩ := htemplates.exists_allowed h
      obtain ⟨ht, site, hsite, hm⟩ := Template.mem_found hx
      exact hspan ▸ Template.ends_of_mem_changes hfile hsite hm ht hc
    · have haligned : e.span.Aligned file.text := SourceFile.Placed.aligned hfile h
      exact ⟨haligned.2.le, .inl haligned.1, .inl haligned.2⟩
  have hreport : (∀ n, run.BareAt file n → Cut file.text.toList n) →
      ((∃ r, run.report file = .ok r) ↔
        ∃ d, Template.applyAll run.templates file (.ofText file.text) = .ok d) := by
    intro hbare
    refine exists_report_iff.trans (and_iff_left fun e he => ?_)
    obtain ⟨-, hstart, hstop⟩ := hends e (Edits.mem_of_mem_applied he)
    exact ⟨hstart.elim Boundary.cut (hbare _), hstop.elim Boundary.cut (hbare _)⟩
  refine ⟨hends, ?_, hreport, ?_⟩
  · intro hbare e he
    obtain ⟨-, hstart, hstop⟩ := hends e he
    exact ⟨hstart.elim id (hbare _), hstop.elim id (hbare _)⟩
  · intro hbare
    refine (hreport fun n hn => hbare n hn.tried).2 ⟨_, Template.applyAll_of_intact ?_ _⟩
    refine Template.intact_of_forall fun t ht site hsite => ?_
    cases hfind : t.find file site with
    | ok m? => exact ⟨m?, rfl⟩
    | error f =>
      obtain ⟨c, hc, homitted, -, args, hargs, hlist, hspan, hinside⟩ :=
        Template.bare_of_find_eq_error ((lossless_of_resolve hfile).standsIn hsite) hfind
      exact absurd (hbare _ ⟨t, ht, site, hsite, c, hc, homitted, hspan, args, hargs, hlist, rfl⟩)
        hinside

end

namespace Run

open Template

/-! ### A call without arguments -/

def plainFact (kind : Kind) (start width : Nat) : NodeFact := ⟨kind, .ofWidth start width, none, none⟩

/-- The file `int m(int... xs)\x7breturn name(xs);\x7d`, with modifiers in front. -/
def forwarding (modifiers : List Tree) (name : String) : SourceFile :=
  let children := [.node .methodDecl (modifiers ++ [.token .ident "int", .token .whitespace " ",
    .token .ident "m",
    .node .parameterList [.token .lParen "(", .node .parameter [.token .ident "int",
      .token .ellipsis "...", .token .whitespace " ", .token .ident "xs"], .token .rParen ")"],
    .node .block [.token .lBrace "\x7b",
      .node .returnStmt [.token .returnKw "return", .token .whitespace " ",
        .node .methodCall [loneName name, .node .argList [.token .lParen "(", loneName "xs",
          .token .rParen ")"]],
        .token .semicolon ";"],
      .token .rBrace "\x7d"]])]
  ⟨"", .java, String.ofList (Tree.textAll children), .node .sourceFile children, .empty, .empty,
    ⟨.empty, .empty⟩⟩

/-- The nodes of such a file, where the modifiers take as many bytes. -/
def forwardingFacts (modifiers : List NodeFact) (width : Nat) : List NodeFact :=
  plainFact .methodDecl 0 (width + 31) :: modifiers ++ [plainFact .parameterList (width + 5) 11,
    plainFact .parameter (width + 6) 9, plainFact .block (width + 16) 15,
    plainFact .returnStmt (width + 17) 13, plainFact .methodCall (width + 24) 5,
    plainFact .referenceExpr (width + 24) 1, plainFact .argList (width + 25) 4,
    plainFact .referenceExpr (width + 26) 2]

def forwardingMarked : SourceFile :=
  forwarding [.node .modifierList [.node .annotationUse [.token .at "@", .token .ident "M"]],
    .token .whitespace " "] "f"

/-- The template that turns `f(xs)` into `g(xs)`, for any number of arguments. -/
def callTemplate : Template := ⟨"m", [⟨"xs", none⟩], true,
  .node .methodCall [loneName "f", .node .argList [.token .lParen "(", loneName "xs",
    .token .rParen ")"]], .empty, ["g(", ")"]⟩

def callRun : Run where
  renames := .empty
  templates := [callTemplate]
  settings := { templateMark? := some "M" }

theorem callTemplate_read :
    SourceFile.resolve "" .java forwardingMarked.text (forwardingFacts
      [plainFact .modifierList 0 2, plainFact .annotationUse 0 2] 3) ⟨.empty, .empty⟩ =
        .ok forwardingMarked ∧
    SourceFile.resolve "" .java (forwarding [] "g").text (forwardingFacts [] 0) ⟨.empty, .empty⟩ =
      .ok (forwarding [] "g") ∧
    readAll forwardingMarked (forwarding [] "g") "M" = .ok callRun.templates := by
  refine ⟨?_, ?_, rfl⟩
  · rw [SourceFile.resolve, Tree.ofDeclarations, List.mergeSort_of_pairwise (by decide)]
    rfl
  · rw [SourceFile.resolve, Tree.ofDeclarations, List.mergeSort_of_pairwise (by decide)]
    rfl

def callFile (rest : List Tree) : SourceFile :=
  ⟨"", .java, "f(é)", .node .sourceFile [.node .methodCall (loneName "f" :: rest)], .empty, .empty,
    ⟨.empty, .empty⟩⟩

def callFacts (start width : Nat) : List NodeFact :=
  [plainFact .methodCall 0 5, plainFact .referenceExpr 0 1, plainFact .argList start width]

/-- The file in which the list consists of `é` alone, which is not known to be an argument. -/
def bareFile : SourceFile := callFile [.token .lParen "(", .node .argList [.token .ident "é"],
  .token .rParen ")"]

/-- The file in which the list has parentheses around it. -/
def enclosedFile : SourceFile := callFile [.node .argList [.token .lParen "(",
  .token .ident "é", .token .rParen ")"]]

def callSite (file : SourceFile) : Site := (file.sites.find? (·.kind == .methodCall)).getD file.root

def callMatch (offset : Nat) : Match := ⟨.ofWidth 0 5, [⟨0, .empty offset, .omitted⟩]⟩

/-- A call without arguments to match: what is captured is captured on the spot. -/
theorem trace_call {t : Template} {file : SourceFile} {p e : Site} {captures : List Capture}
    {head : Site × Site} (hole : t.hole? p = none)
    (halign : t.align file [] p e = some ⟨[head], [], captures⟩) (hhole : t.hole? head.1 = none)
    (hhead : t.align file [] head.1 head.2 = some ⟨[], [], []⟩) :
    t.trace file [] p e = ⟨captures, true⟩ := by
  rw [trace_of_attempt hole (attempt_of_align halign), List.map_singleton,
    trace_of_attempt hhole (attempt_of_align hhead)]
  rfl

def callChanges (offset : Nat) : List Edit :=
  [⟨.upTo 0 offset, "g("⟩, ⟨.upTo (max 0 offset) 5, ")"⟩]

theorem changes_call (offset : Nat) :
    callTemplate.changes (callMatch offset) = callChanges offset := by
  have hsorted : (callMatch offset).captures.mergeSort comesBefore = (callMatch offset).captures :=
    List.mergeSort_singleton _
  have hall : ∀ e ∈ callChanges offset, (!(e.span.isEmpty && e.text.isEmpty)) = true := by
    intro e he
    have htext : e.text.isEmpty = false := by
      revert e
      simp only [callChanges, List.forall_mem_cons]
      decide
    rw [htext, Bool.and_false, Bool.not_false]
  rw [changes, hsorted]
  exact List.filter_eq_self.2 hall

theorem draft_call (file : SourceFile) (offset : Nat) (behind : List Site)
    (hsites : file.sites = [file.root] ++ callSite file :: behind)
    (hroot : callTemplate.root.kind ≠ file.root.kind)
    (htrace : callTemplate.trace file [] callTemplate.root (callSite file) =
      ⟨(callMatch offset).captures, true⟩)
    (hspan : (callSite file).span = .ofWidth 0 5)
    (hbehind : ∀ s ∈ behind, callTemplate.root.kind ≠ s.kind) :
    intact callRun.templates file = true ∧ callRun.draft file =
      (Context.ofFile file .empty true).renameAll
        ((Draft.ofText file.text).offer (callChanges offset)) := by
  have hm : callTemplate.find file (callSite file) = .ok (some (callMatch offset)) := by
    rw [find, htrace, hspan]
    show allAlike file.text.toList [] [_] >>= _ = _
    rw [allAlike_singleton]
    rfl
  have hfound : found callRun.templates file = [(callTemplate, callMatch offset)] := by
    refine found_of_once _ (callSite file) behind hsites ?_ ?_ ?_
    · intro s hs t ht
      obtain rfl := List.mem_singleton.1 hs
      obtain rfl := List.mem_singleton.1 ht
      exact find?_eq_none_of_kind rfl hroot
    · intro t ht
      rw [List.mem_singleton.1 ht]
      exact find_eq_ok_some_iff.1 hm
    · intro s hs t ht
      rw [List.mem_singleton.1 ht]
      exact .inr (find?_eq_none_of_kind rfl (hbehind s hs))
  constructor
  · refine intact_of_forall fun t ht s hs => ?_
    rw [List.mem_singleton.1 ht]
    rw [hsites, List.singleton_append, List.mem_cons, List.mem_cons] at hs
    rcases hs with rfl | rfl | hs
    · exact ⟨none, find_of_kind rfl hroot⟩
    · exact ⟨_, hm⟩
    · exact ⟨none, find_of_kind rfl (hbehind s hs)⟩
  · rw [draft, offerAll, hfound, ← changes_call]
    rfl

/-- **An argument list without parentheses.**  Its arguments are looked for behind the first byte of
`é`, which the replacements that are queued cut in two. -/
theorem bare_cut :
    SourceFile.resolve "" .java forwardingMarked.text (forwardingFacts
      [plainFact .modifierList 0 2, plainFact .annotationUse 0 2] 3) ⟨.empty, .empty⟩ =
        .ok forwardingMarked ∧
    SourceFile.resolve "" .java (forwarding [] "g").text (forwardingFacts [] 0) ⟨.empty, .empty⟩ =
      .ok (forwarding [] "g") ∧
    readAll forwardingMarked (forwarding [] "g") "M" = .ok callRun.templates ∧
    SourceFile.resolve "" .java "f(é)" (callFacts 2 2) ⟨.empty, .empty⟩ = .ok bareFile ∧
    (∃ e ∈ (callRun.draft bareFile).edits.toList, ¬ e.span.Aligned bareFile.text) ∧
    callRun.report bareFile = .error .badCut := by
  obtain ⟨hbefore, hafter, hread⟩ := callTemplate_read
  have hfile : SourceFile.resolve "" .java "f(é)" (callFacts 2 2) ⟨.empty, .empty⟩ =
      .ok bareFile := by
    rw [SourceFile.resolve, Tree.ofDeclarations, List.mergeSort_of_pairwise (by decide)]
    rfl
  obtain ⟨hintact, hdraft⟩ := draft_call bareFile 3 (bareFile.sites.drop 2) rfl
    (by decide) (trace_call rfl rfl rfl rfl) rfl (by decide)
  have hinside : ¬ Boundary bareFile.text 3 := by
    rw [Boundary]
    decide +kernel
  rw [report_of_intact hintact, hdraft]
  refine ⟨hbefore, hafter, hread, hfile, ⟨⟨⟨0, 3, by decide⟩, "g("⟩, by decide +kernel,
    fun h => hinside h.2⟩, ?_⟩
  decide +kernel

/-- With a parenthesis in front the arguments are looked for behind it, and nothing is cut. -/
theorem enclosed_aligned :
    SourceFile.resolve "" .java "f(é)" (callFacts 1 4) ⟨.empty, .empty⟩ = .ok enclosedFile ∧
    (∀ n, ¬ callRun.BareTried enclosedFile n) ∧
    (∀ e ∈ (callRun.draft enclosedFile).edits.toList, e.span.Aligned enclosedFile.text) ∧
    callRun.report enclosedFile = .ok ⟨"g()", [], []⟩ := by
  have hfile : SourceFile.resolve "" .java "f(é)" (callFacts 1 4) ⟨.empty, .empty⟩ =
      .ok enclosedFile := by
    rw [SourceFile.resolve, Tree.ofDeclarations, List.mergeSort_of_pairwise (by decide)]
    rfl
  have hbare : ∀ n, ¬ callRun.BareTried enclosedFile n := by
    rintro n ⟨-, -, site, hsite, -, -, -, -, args, hargs, ⟨hkind, -, hopen⟩, -⟩
    have hlists : ∀ s ∈ enclosedFile.sites, s.kind = .argList → s.token? .lParen ≠ none := by
      decide
    exact absurd hopen
      (hlists args (Site.preorder_trans hsite (List.mem_cons_of_mem site hargs)) hkind)
  obtain ⟨-, haligned, -, hexists⟩ := report_of_boundaries hfile callRun
  obtain ⟨r, hr⟩ := hexists fun n hn => absurd hn (hbare n)
  have hdraft := (draft_call enclosedFile 2 (enclosedFile.sites.drop 2) rfl (by decide)
    (trace_call rfl rfl rfl rfl) rfl (by decide)).2
  refine ⟨hfile, hbare, haligned fun n hn => absurd hn.tried (hbare n), ?_⟩
  rw [report_of_intact (report_eq_ok_iff.1 hr).1, hdraft]
  decide +kernel

/-! ### A difference of a call and its arguments -/

/-- The file `f(é)-a`, with the same list. -/
def comparedFile : SourceFile :=
  ⟨"", .java, "f(é)-a", .node .sourceFile [.node .binaryExpr [.node .methodCall [loneName "f",
    .token .lParen "(", .node .argList [.token .ident "é"], .token .rParen ")"],
      .token .minus "-", loneName "a"]], .empty, .empty, ⟨.empty, .empty⟩⟩

def comparedFacts : List NodeFact := [plainFact .binaryExpr 0 7, plainFact .methodCall 0 5,
  plainFact .referenceExpr 0 1, plainFact .argList 2 2, plainFact .referenceExpr 6 1]

/-- The template that turns `f(xs)-xs` into `g(xs)+xs`, for any number of arguments. -/
def comparedTemplate : Template := ⟨"m", [⟨"xs", none⟩], true, .node .binaryExpr
  [callTemplate.tree, .token .minus "-", loneName "xs"], .empty, ["g(", ")+", ""]⟩

def comparedRun : Run where
  renames := .empty
  templates := [comparedTemplate]
  settings := {}

def comparedSite : Site :=
  (comparedFile.sites.find? (·.kind == .binaryExpr)).getD comparedFile.root

/-- Nothing is captured inside of `é`, and then `a` for the same parameter. -/
theorem trace_compared {call argument : Site × Site}
    (halign : comparedTemplate.align comparedFile [] comparedTemplate.root comparedSite =
      some ⟨[call, argument], [], []⟩)
    (hcall : comparedTemplate.trace comparedFile [] call.1 call.2 =
      ⟨[⟨0, .empty 3, .omitted⟩], true⟩)
    (hhole : comparedTemplate.hole? argument.1 = some 0)
    (hcapture : comparedTemplate.capture? comparedFile [] 0 argument.2 =
      some ⟨0, .ofWidth 6 1, .single⟩) :
    comparedTemplate.trace comparedFile [] comparedTemplate.root comparedSite =
      ⟨[⟨0, .empty 3, .omitted⟩, ⟨0, .ofWidth 6 1, .single⟩], true⟩ := by
  rw [trace_of_attempt rfl (attempt_of_align halign), List.map_cons, List.map_singleton, hcall,
    trace_of_hole hhole, hcapture]
  rfl

/-- **A text that is compared.**  `a` is compared with the text captured before, which begins behind
the first byte of `é`, and so the file has no report. -/
theorem compared_cut :
    SourceFile.resolve "" .java "f(é)-a" comparedFacts ⟨.empty, .empty⟩ = .ok comparedFile ∧
    comparedRun.report comparedFile = .error .badCut := by
  constructor
  · rw [SourceFile.resolve, Tree.ofDeclarations, List.mergeSort_of_pairwise (by decide)]
    rfl
  · have hfind : comparedTemplate.find comparedFile comparedSite = .error .badCut := by
      rw [find, trace_compared rfl (trace_call rfl rfl rfl rfl) rfl rfl]
      rfl
    have hroot : comparedTemplate.find comparedFile comparedFile.root = .ok none :=
      find_of_kind rfl (by decide)
    have hsites : comparedFile.sites =
        comparedFile.root :: comparedSite :: comparedFile.sites.drop 2 := rfl
    have hadvance : (Search.mk comparedTemplate none).advance comparedFile comparedFile.root =
        ⟨comparedTemplate, none⟩ := by
      rw [Search.advance, Search.hit?_fresh, find_eq_ok_none hroot]
    have hhere : (Search.mk comparedTemplate none).intactAt comparedFile comparedSite = false := by
      rw [Search.intactAt, hfind]
      rfl
    have hcut : intact comparedRun.templates comparedFile = false := by
      show Search.intact comparedFile [⟨comparedTemplate, none⟩] comparedFile.sites = false
      rw [hsites, Search.intact, Search.intact, List.map_singleton, hadvance, List.all_cons,
        List.all_cons, hhere, Bool.false_and, Bool.false_and, Bool.and_false]
    rw [report_eq, hcut]
    rfl

end Run

end SourceRename
