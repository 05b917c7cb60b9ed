import SourceRename.Proofs.Rename.KotlinWalk
import SourceRename.Proofs.Rename.Unmapped

/-!
# Qualified names are renamed as a unit

Where a qualified type or expression of a Kotlin file reads just like the old qualified name of a
class, and its last segment stands for the class or one of its constructors, the report has the new
qualified name in its place (`Run.spells_qualified`): never the old prefix with the new simple name.

    n.text = name.qualified   →   run.Spells file n.span c.newQualified

The last segment is visited right behind the whole name and before all other segments.  Until then
nothing has been queued in the name, because what is nearby other nodes stands apart from it or is a
node around it (`Site.Outside`).  So the name is replaced as a whole, and then nothing in it is
free. The names of nodes around it come first: in `a.B.C` the class `a.B.C` is renamed, not `a.B`.

The texts are compared as they are.  Where blanks or comments stand between the segments, only the
last one is renamed.  The last segment must be directly in the name: in `a.B()`, where it is the
name of a call, the text of the qualified expression goes on behind it, and the constructor is
called by the old prefix with the new simple name (`Run.called_not_spelled`). -/

namespace SourceRename

/-- The symbol is the class or one of its constructors. -/
def Symbol.Denotes (name : ClassName) : Symbol → Prop
  | .classType c => c = name
  | .method m | .function m => m.isConstructor = true ∧ m.owner = name
  | _ => False

/-- A qualified type or expression `n` that is visited and whose last segment `r` is a name that
stands for a class.  No function lies in it, and no name or function just around it. -/
structure SourceFile.QualifiedUse (f : SourceFile) (n r : Site) (name : ClassName) : Prop where
  visited : n ∈ f.root.kotlinOrder
  last : n.lastSegment? = some r
  isName : r.kind = .nameRef
  denotes : ∃ symbol, f.symbol? r = some symbol ∧ symbol.Denotes name
  inner : ∀ q ∈ n.below, q.kind ≠ .funDecl
  outer : ∀ m ∈ n.enclosing, m.span = n.span → m.kind ≠ .nameRef ∧ m.kind ≠ .funDecl

/-- The spans that visits outside a node may queue: what stands apart from it, and the larger nodes
around it. -/
def Site.Outside (n : Site) : Edits → Span → Prop := fun _ s =>
  s.start < s.stop ∧ s ≠ n.span ∧ (s.Apart n.span ∨ ∃ m ∈ n.enclosing, m.span = s)

namespace SourceFile.QualifiedUse

variable {f : SourceFile} {n r q : Site} {name : ClassName}

theorem mem (h : f.QualifiedUse n r name) : n ∈ f.sites :=
  Site.mem_preorder_of_mem_kotlinOrder h.visited

theorem mem_nodes (h : f.QualifiedUse n r name) : r ∈ n.nodes :=
  Site.mem_nodes_of_lastSegment? h.last

theorem mem_last (h : f.QualifiedUse n r name) : r ∈ f.sites :=
  SourceFile.mem_of_nodes h.mem h.mem_nodes

theorem kind (h : f.QualifiedUse n r name) : n.kind = .userType ∨ n.kind = .dotQualified := by
  have hlast := h.last
  unfold Site.lastSegment? at hlast
  split at hlast
  · next hkind => exact .inl hkind
  · next hkind => exact .inr hkind
  · simp at hlast

theorem wide (h : f.QualifiedUse n r name) (hfile : f.PlainKotlin) :
    r.span.start < r.span.stop ∧ n.span.start < n.span.stop := by
  obtain ⟨symbol, hsymbol, -⟩ := h.denotes
  have hwide := hfile.wide r h.mem_last (by rw [hsymbol]; rfl)
  have hin := Site.within_of_mem_nodes h.mem_nodes
  exact ⟨hwide, by omega⟩

/-- The visits before the name, the name with its last segment, and the others. -/
theorem exists_visits (h : f.QualifiedUse n r name) (hfile : f.PlainKotlin) :
    ∃ before behind, f.root.kotlinOrder = before ++ n :: r :: behind ∧
      (∀ p ∈ before, n ∈ p.below ∨ p.span.Apart n.span) ∧
      ∀ p ∈ behind, p ∈ n.below ∨ p.span.Apart n.span := by
  obtain ⟨below, hbelow⟩ := Site.kotlinOrder_of_lastSegment? h.last (h.wide hfile).1
  obtain ⟨before, rest, hlist⟩ := Site.isInfix_kotlinOrder h.visited
  rw [hbelow] at hlist
  have hsplit : f.root.kotlinOrder = before ++ n :: r :: (below ++ rest) := by
    rw [← hlist]
    simp
  refine ⟨before, below ++ rest, hsplit, fun p hp => Site.below_or_apart_of_visited hsplit hp, ?_⟩
  have hpair := f.root.pairwise_kotlinOrder
  rw [hsplit] at hpair
  have hbehind := (List.pairwise_cons.1 (List.pairwise_append.1 hpair).2.1).1
  intro p hp
  rcases hbehind p (List.mem_cons_of_mem r hp) with hin | hapart
  · exact .inl hin
  · exact .inr hapart.symm

theorem span_eq (h : f.QualifiedUse n r name) (htext : r.text = n.text) : r.span = n.span := by
  have hin := Site.within_of_mem_nodes h.mem_nodes
  have hwidth : Tree.textAll r.children = Tree.textAll n.children := String.ofList_injective htext
  have hr := r.stop_eq
  have hn := n.stop_eq
  rw [hwidth] at hr
  exact Span.ext_of_eq (by omega) (by omega)

end SourceFile.QualifiedUse

theorem SourceFile.Lossless.replace_eq {f : SourceFile} {n : Site} {d : Draft} (hf : f.Lossless)
    (hn : n ∈ f.sites) (hd : d.text = f.text) (new : String) :
    d.replace n.span new = if n.text = new then d else d.queue n.span new := by
  have hsame : some (Tree.textAll n.children) = some new.toList ↔ n.text = new := by
    rw [Option.some_inj]
    constructor
    · intro h
      rw [Site.text, h, String.ofList_toList]
    · rintro rfl
      rw [Site.text, String.toList_ofList]
  rw [Draft.replace, hd, (hf.standsIn hn).slice?]
  simp only [hsame]

namespace Context

variable {cx : Context} {n r q : Site} {name : ClassName} {d : Draft} {c : ClassRename} {s : Span}
  {sites : List Site} {e : Draft}

/-! ### Visits outside the name -/

section

variable (huse : cx.file.QualifiedUse n r name)
include huse

/-- No other name or function outside writes to just the place of the name. -/
theorem ne_of_nearby (hq : q ∈ cx.file.sites) (hkind : q.kind = .nameRef ∨ q.kind = .funDecl)
    (hwide : q.span.start < q.span.stop) (horder : n ∈ q.below ∨ q.span.Apart n.span)
    (h : q.Nearby s) (hs : s.start < s.stop) : s ≠ n.span := by
  intro heq
  rcases horder with hbelow | hapart
  · have hin := Site.within_of_mem_below hbelow
    have hsame : q.span = n.span := by
      cases h with
      | token ht =>
        have := Site.apart_of_mem_directTokens ht hbelow
        rw [heq] at this hs
        omega
      | whole => exact heq
      | around hp =>
        have hout := Site.within_of_mem_nodes (SourceFile.mem_of_parent? hq hp).2
        rw [heq] at hout
        exact Span.ext_of_eq (by omega) (by omega)
    obtain ⟨hname, hfun⟩ := huse.outer q ((Site.mem_enclosing_iff hq huse.mem).2 hbelow) hsame
    rcases hkind with hkind | hkind
    · exact hname hkind
    · exact hfun hkind
  · have hin : s.start ≤ q.span.start ∧ q.span.stop ≤ s.stop ∨
        q.span.start ≤ s.start ∧ s.stop ≤ q.span.stop := by
      cases h with
      | token ht => exact .inr (Site.within_of_mem_directTokens ht)
      | whole => exact .inl ⟨Nat.le_refl _, Nat.le_refl _⟩
      | around hp => exact .inl (Site.within_of_mem_nodes (SourceFile.mem_of_parent? hq hp).2)
    rw [heq] at hin hs
    rcases hapart with hapart | hapart
    · omega
    · omega

variable (hfile : cx.file.PlainKotlin)
include hfile

/-- **A visit outside the name** queues nothing in it. -/
theorem extends_outside (hq : q ∈ cx.file.sites) (horder : n ∈ q.below ∨ q.span.Apart n.span)
    (d : Draft) : d.Extends n.Outside (cx.visitKotlin d q) := by
  have hone : q.kind = .nameRef ∨ q.kind = .funDecl →
      d.Extends n.Outside (cx.renameSite q d) := by
    intro hkind
    cases hsymbol : cx.file.symbol? q with
    | none =>
      rw [renameSite, hsymbol]
      exact .refl d
    | some symbol =>
      have hwide := hfile.wide q hq (by rw [hsymbol]; rfl)
      have hout := Site.not_mem_preorder horder hwide
      refine (cx.extends_renameSite q d).mono fun _ s hallowed => ?_
      have hs := hallowed.nearby
      have hsw := start_lt_of_nearby hfile hq hsymbol hs
      exact ⟨hsw, ne_of_nearby huse hq hkind hwide horder hs hsw,
        hs.apart_or_around hq huse.mem hout⟩
  rw [visitKotlin]
  split
  · next hkind => exact hone (.inr hkind)
  · next hkind =>
    split
    · exact hone (.inl hkind)
    · exact .refl d
  · exact .refl d

/-- A row of visits, of which those in the name do nothing, queues nothing in it. -/
theorem extends_foldl_outside (hsites : ∀ q ∈ sites, q ∈ cx.file.sites ∧
      (q ∈ n.below ∨ n ∈ q.below ∨ q.span.Apart n.span))
    (hinside : ∀ e, d.Extends n.Outside e → ∀ q ∈ n.below, cx.visitKotlin e q = e) :
    d.Extends n.Outside (sites.foldl cx.visitKotlin d) := by
  induction sites generalizing d with
  | nil => exact .refl d
  | cons q sites ih =>
    obtain ⟨⟨hq, horder⟩, hsites⟩ := List.forall_mem_cons.1 hsites
    have hone : d.Extends n.Outside (cx.visitKotlin d q) := by
      rcases horder with hin | horder
      · rw [hinside d (.refl d) q hin]
        exact .refl d
      · exact extends_outside huse hfile hq horder d
    exact hone.trans (ih hsites fun e he => hinside e (hone.trans he))

end

/-- Nothing in the name has been queued when it is visited, unless a larger node is replaced in the
end. -/
theorem isFree_of_outside {before behind : List Site}
    (hlist : cx.file.root.kotlinOrder = before ++ behind)
    (houter : ∀ m ∈ n.enclosing, m.span ≠ n.span →
      (cx.visited cx.file.root.kotlinOrder).edits.hasSpan m.span = false)
    (h : (Draft.ofText cx.file.text).Extends n.Outside (cx.visited before)) :
    (cx.visited before).isFree n.span = true := by
  refine Edits.isFree_iff.2 fun s hs => ?_
  have hfinal := hasSpan_of_visited hlist hs
  obtain ⟨-, -, hne, hapart | ⟨m, hm, rfl⟩⟩ := h.exists_allowed hs
  · exact hapart.overlaps_eq_false
  · rw [houter m hm hne] at hfinal
    exact Bool.noConfusion hfinal

theorem not_hasSpan_of_outside (h : (Draft.ofText cx.file.text).Extends n.Outside d) :
    d.edits.hasSpan n.span = false := by
  rw [Bool.eq_false_iff]
  intro hlisted
  obtain ⟨-, -, hne, -⟩ := h.exists_allowed hlisted
  exact hne rfl

/-! ### The visit to the last segment -/

section

variable (huse : cx.file.QualifiedUse n r name) (htext : n.text = name.qualified)
  (hc : cx.renames.find? name.binary = some c)
include huse htext hc

/-- Renaming the last segment by the class replaces the whole name, unless it is not free. -/
theorem renameSite_lastSegment (d : Draft) :
    cx.renameSite r d = d.replace n.span c.newQualified ∨
      d.isFree n.span = false ∧ cx.renameSite r d = d := by
  have hclass : cx.renameSite r d = cx.renameClass r name d := by
    obtain ⟨symbol, hsymbol, hdenotes⟩ := huse.denotes
    rw [renameSite, hsymbol]
    dsimp only
    cases symbol with
    | classType =>
      rw [rename, show _ = name from hdenotes]
    | method m =>
      obtain ⟨hconstructor, rfl⟩ := hdenotes
      rw [rename, renameMethod, if_pos hconstructor, if_pos huse.isName]
    | function m =>
      obtain ⟨hconstructor, rfl⟩ := hdenotes
      rw [rename, renameMethod, if_pos hconstructor, if_pos huse.isName]
    | field => exact hdenotes.elim
    | package => exact hdenotes.elim
    | property => exact hdenotes.elim
    | compiled => exact hdenotes.elim
  rw [hclass, renameClass, renameQualified, hc]
  dsimp only
  split
  · next hwhole =>
    rw [huse.span_eq (hwhole.trans htext.symm)]
    exact .inl rfl
  · have hparent : (r.parent?.filter fun p =>
        (p.kind == .userType || p.kind == .dotQualified) && p.text == name.qualified) = some n := by
      rw [Site.parent?_of_mem_nodes huse.mem_nodes, Option.filter_some, if_pos]
      rcases huse.kind with hkind | hkind
      · simp [hkind, htext]
      · simp [hkind, htext]
    rw [hparent]
    dsimp only
    split
    · exact .inl rfl
    · next hbusy => exact .inr ⟨Bool.eq_false_iff.2 hbusy, rfl⟩

/-- **The visit to the last segment of a free name** replaces the whole name. -/
theorem visitKotlin_lastSegment (hfree : d.isFree n.span = true) :
    cx.visitKotlin d r = d.replace n.span c.newQualified := by
  have hname : d.isFree r.span = true :=
    Edits.isFree_of_within hfree (Site.within_of_mem_nodes huse.mem_nodes)
  rw [visitKotlin, huse.isName]
  dsimp only
  rw [if_pos hname]
  rcases renameSite_lastSegment huse htext hc d with hone | ⟨hbusy, -⟩
  · exact hone
  · rw [hfree] at hbusy
    exact Bool.noConfusion hbusy

section

variable (hfile : cx.file.PlainKotlin)
  (hkept : c.newQualified = name.qualified → cx.mixins = .empty ∧ ∀ q ∈ n.below, q ≠ r →
    ∀ symbol, cx.file.symbol? q = some symbol → symbol.Unmapped cx.renames cx.file.scope)
include hfile hkept

/-- **A visit inside the name** does nothing once the whole name is replaced.  Where the name keeps
its text nothing is replaced, and the other segments must be unmapped. -/
theorem visitKotlin_inside (hd : d.text = cx.file.text)
    (h : (d.replace n.span c.newQualified).Extends n.Outside e) (hq : q ∈ n.below) :
    cx.visitKotlin e q = e := by
  have hqf : q ∈ cx.file.sites := Site.preorder_trans huse.mem (List.mem_cons_of_mem n hq)
  by_cases hnew : c.newQualified = name.qualified
  · obtain ⟨hmixins, hsymbols⟩ := hkept hnew
    have hone : cx.renameSite q e = e := by
      by_cases hlast : q = r
      · subst hlast
        have he : e.text = cx.file.text := h.text.trans ((Draft.text_replace _ _ _).trans hd)
        rcases renameSite_lastSegment huse htext hc e with hone | ⟨-, hone⟩
        · rw [hone, hfile.lossless.replace_eq huse.mem he, if_pos (htext.trans hnew.symm)]
        · exact hone
      · rw [renameSite]
        split
        · next symbol hsymbol =>
          exact rename_eq_self hmixins e symbol (hsymbols q hq hlast symbol hsymbol)
        · rfl
    rw [visitKotlin]
    split
    · exact hone
    · split
      · exact hone
      · rfl
    · rfl
  · have hlisted : (d.replace n.span c.newQualified).edits.hasSpan n.span = true := by
      rw [hfile.lossless.replace_eq huse.mem hd, if_neg fun h => hnew (h.symm.trans htext)]
      exact Edits.hasSpan_queue.2 (.inl rfl)
    exact visitKotlin_of_replaced hfile hqf (fun hfun => absurd hfun (huse.inner q hq))
      ((Site.mem_enclosing_iff huse.mem hqf).2 hq) (h.edits.hasSpan hlisted)

variable (houter : ∀ m ∈ n.enclosing, m.span ≠ n.span →
  (cx.visited cx.file.root.kotlinOrder).edits.hasSpan m.span = false)
include houter

/-- **What is done with the name**: what is queued before is outside of it, then the whole name is
replaced, and what is queued behind is outside of it again. -/
theorem exists_draft : ∃ d, (Draft.ofText cx.file.text).Extends n.Outside d ∧
    (d.replace n.span c.newQualified).Extends n.Outside
      (cx.visited cx.file.root.kotlinOrder) := by
  obtain ⟨before, behind, hlist, hbefore, hbehind⟩ := huse.exists_visits hfile
  have hsites : ∀ q ∈ before ++ n :: r :: behind, q ∈ cx.file.sites :=
    fun q hq => Site.mem_preorder_of_mem_kotlinOrder (hlist ▸ hq)
  have hstart : (Draft.ofText cx.file.text).Extends n.Outside (cx.visited before) := by
    refine .foldl (fun d q hq => ?_) _
    exact extends_outside huse hfile (hsites q (by simp [hq])) (hbefore q hq) d
  have hfree := isFree_of_outside hlist houter hstart
  have hnothing : cx.visitKotlin (cx.visited before) n = cx.visited before := by
    rw [visitKotlin]
    rcases huse.kind with hkind | hkind
    · rw [hkind]
    · rw [hkind]
  have hdone : cx.visited cx.file.root.kotlinOrder = behind.foldl cx.visitKotlin
      ((cx.visited before).replace n.span c.newQualified) := by
    rw [hlist, visited, List.foldl_append, List.foldl_cons, List.foldl_cons, ← visited,
      hnothing, visitKotlin_lastSegment huse htext hc hfree]
  refine ⟨cx.visited before, hstart, ?_⟩
  rw [hdone]
  refine extends_foldl_outside huse hfile ?_ fun e he q hq =>
    visitKotlin_inside huse htext hc hfile hkept hstart.text he hq
  intro q hq
  refine ⟨hsites q (by simp [hq]), ?_⟩
  rcases hbehind q hq with hin | hapart
  · exact .inl hin
  · exact .inr (.inr hapart)

/-- **In the end** all that is listed is the whole name or stands apart from it, and the name is
listed with its new text, or keeps the text it has. -/
theorem edits_visited :
    (∀ s, (cx.visited cx.file.root.kotlinOrder).edits.hasSpan s = true →
      s.start < s.stop ∧ (s = n.span ∨ s.Apart n.span)) ∧
    ((cx.visited cx.file.root.kotlinOrder).edits.textAt? n.span = some c.newQualified ∨
      n.text = c.newQualified ∧
        (cx.visited cx.file.root.kotlinOrder).edits.hasSpan n.span = false) := by
  obtain ⟨d, hbefore, hbehind⟩ := exists_draft huse htext hc hfile hkept houter
  have hall : (Draft.ofText cx.file.text).Extends (fun es s => n.Outside es s ∨ s = n.span)
      (cx.visited cx.file.root.kotlinOrder) :=
    (hbefore.mono fun _ _ h => .inl h).trans
      ((Draft.Extends.replace _ (.inr rfl)).trans (hbehind.mono fun _ _ h => .inl h))
  have hreplace := hfile.lossless.replace_eq huse.mem hbefore.text c.newQualified
  refine ⟨fun s hs => ?_, ?_⟩
  · obtain ⟨-, ⟨hwide, hne, hapart | ⟨m, hm, rfl⟩⟩ | rfl⟩ := hall.exists_allowed hs
    · exact ⟨hwide, .inr hapart⟩
    · rw [houter m hm hne] at hs
      exact Bool.noConfusion hs
    · exact ⟨(huse.wide hfile).2, .inl rfl⟩
  · by_cases hsame : n.text = c.newQualified
    · rw [hreplace, if_pos hsame] at hbehind
      exact .inr ⟨hsame, not_hasSpan_of_outside (hbefore.trans hbehind)⟩
    · rw [hreplace, if_neg hsame] at hbehind
      have hlisted : (d.queue n.span c.newQualified).edits.textAt? n.span =
          some c.newQualified := by
        rw [Draft.queue, Edits.textAt?_queue, if_pos rfl,
          Edits.textAt?_eq_none_iff.2 (not_hasSpan_of_outside hbefore)]
        simp
      exact .inl (hbehind.edits.textAt?_of_not (fun _ _ h => h.2.1 rfl) hlisted)

end

end

end Context

namespace Run

/-- In the report the new text stands in the place of the span: between what is in front of it and
what is behind it, in both of which queued replacements have been put in. -/
def Spells (run : Run) (file : SourceFile) (s : Span) (new : String) : Prop :=
  ∃ report before covered after before' after' fs bs, run.report file = .ok report ∧
    file.text.toList = before ++ covered ++ after ∧ byteLength before = s.start ∧
    byteLength (before ++ covered) = s.stop ∧ fs ++ bs ⊆ (run.draft file).edits.toList ∧
    Spliced 0 before fs before' ∧ Spliced s.stop after bs after' ∧
    report.text.toList = before' ++ new.toList ++ after'

variable {run : Run} {file : SourceFile} {n r : Site} {name : ClassName} {c : ClassRename}

theorem exists_report (hkotlin : file.language = .kotlin) (hlossless : file.Lossless)
    (htemplates : run.templates = []) : ∃ report, run.report file = .ok report := by
  have hgrows : (Draft.ofText file.text).Extends file.nearby (run.draft file) := by
    rw [draft_eq_visited hkotlin htemplates]
    exact (Context.ofFile file run.renames run.settings.forbidImplicit).extends_renameKotlin _
  rw [report_of_no_templates htemplates]
  refine (Draft.exists_result_iff (run.draft file)).2 fun e he => ?_
  rw [text_draft]
  have hlisted := Edits.hasSpan_iff.2 ⟨e, Edits.mem_of_mem_applied he, rfl⟩
  obtain ⟨-, q, hq, hnear⟩ := hgrows.exists_allowed hlisted
  exact hlossless.cut_of_nearby hq hnear

/-- Where all that is listed is a span or stands apart from it, and the span is listed with a new
text or has this text already, the new text stands in its place in the report. -/
theorem spells_of_report {report : Report} {s : Span} {covered : List Char} {new : String}
    (hreport : run.report file = .ok report) (hpart : PartAt file.text.toList s.start covered)
    (hstop : s.stop = s.start + byteLength covered)
    (hlisted : ∀ u, (run.draft file).edits.hasSpan u = true → u = s ∨ u.Apart s)
    (hname : (run.draft file).edits.textAt? s = some new ∨
      covered = new.toList ∧ (run.draft file).edits.hasSpan s = false) :
    run.Spells file s new := by
  have hspliced := Run.spliced_of_report hreport
  have hspan : ∀ e ∈ (run.draft file).edits.toList, e.span = s ∨ e.span.Apart s :=
    fun e he => hlisted e.span (Edits.hasSpan_iff.2 ⟨e, he, rfl⟩)
  have hmem : ∀ e ∈ ((run.draft file).edits.plan file.text.utf8ByteSize).applied,
      e ∈ (run.draft file).edits.toList := fun e he => Edits.mem_of_mem_applied he
  rcases hname with hnew | ⟨rfl, hnone⟩
  · -- the replacement for the span is taken, since all others stand apart from it
    have hlength : s.stop ≤ file.text.utf8ByteSize := by
      have := hpart.cut_stop.le
      rw [byteLength_toList] at this
      omega
    have htaken := Edits.mem_plan_of_apart (run.draft file).edits file.text.utf8ByteSize
      (Edits.mem_toList_iff (e := ⟨s, new⟩).2 hnew) hlength hspan
    obtain ⟨fs, bs, happlied⟩ := List.append_of_mem htaken
    rw [happlied] at hspliced hmem
    obtain ⟨before, gone, after, before', after', htext, hresult, hat, hend, hfs, hbs⟩ :=
      hspliced.middle
    rw [Nat.zero_add] at hat
    refine ⟨report, before, gone, after, before', after', fs, bs, hreport, htext, hat.symm,
      ?_, fun e he => hmem e ?_, hfs, hbs, hresult⟩
    · rw [byteLength_append, ← hat]
      exact hend.symm
    · rcases List.mem_append.1 he with he | he
      · simp [he]
      · simp [he]
  · obtain ⟨before, after, htext, hat⟩ := hpart
    have hend : byteLength (before ++ new.toList) = s.stop := by
      rw [byteLength_append]
      omega
    rw [htext] at hspliced
    obtain ⟨fs, bs, before', after', happlied, hresult, hfs, hbs⟩ := hspliced.keep fun e he => by
      rw [Nat.zero_add, Nat.zero_add, hat, hend]
      refine (hspan e (hmem e he)).resolve_left ?_
      rintro rfl
      rw [Edits.hasSpan_iff.2 ⟨e, hmem e he, rfl⟩] at hnone
      exact Bool.noConfusion hnone
    rw [Nat.zero_add, hend] at hbs
    rw [happlied] at hmem
    exact ⟨report, before, _, after, before', after', fs, bs, hreport, htext, hat, hend,
      hmem, hfs, hbs, hresult⟩

theorem spells_of_apart {s : Span} {covered : List Char} {new : String}
    (hkotlin : file.language = .kotlin) (hlossless : file.Lossless)
    (htemplates : run.templates = []) (hpart : PartAt file.text.toList s.start covered)
    (hstop : s.stop = s.start + byteLength covered)
    (hlisted : ∀ u, (run.draft file).edits.hasSpan u = true → u = s ∨ u.Apart s)
    (hname : (run.draft file).edits.textAt? s = some new ∨
      covered = new.toList ∧ (run.draft file).edits.hasSpan s = false) :
    run.Spells file s new := by
  obtain ⟨report, hreport⟩ := exists_report hkotlin hlossless htemplates
  exact spells_of_report hreport hpart hstop hlisted hname

/-- Where all that is listed is the span of a node or stands apart from it, and the node is listed
with a new text or has this text already, the new text stands in its place. -/
theorem spells_of_listed {new : String} (hkotlin : file.language = .kotlin)
    (hlossless : file.Lossless) (htemplates : run.templates = []) (hn : n ∈ file.sites)
    (hlisted : ∀ s, (run.draft file).edits.hasSpan s = true →
      s.start < s.stop ∧ (s = n.span ∨ s.Apart n.span))
    (hname : (run.draft file).edits.textAt? n.span = some new ∨
      n.text = new ∧ (run.draft file).edits.hasSpan n.span = false) :
    run.Spells file n.span new := by
  refine spells_of_apart hkotlin hlossless htemplates (hlossless.standsIn hn).part n.stop_eq
    (fun s hs => (hlisted s hs).2) (hname.imp_right fun ⟨hkeeps, hnone⟩ => ⟨?_, hnone⟩)
  rw [← hkeeps, Site.text, String.toList_ofList]

/-- **Qualified names are renamed as a unit.**  In a run without templates over a Kotlin file, let a
qualified type or expression have the old qualified name of a mapped class as its text, with a last
segment that stands for the class or one of its constructors.  If no larger node around it is
replaced, the report has the new qualified name in its place.  Where that is the old one, the other
segments must be unmapped. -/
theorem spells_qualified (hfile : file.PlainKotlin) (htemplates : run.templates = [])
    (huse : file.QualifiedUse n r name) (htext : n.text = name.qualified)
    (hc : run.renames.find? name.binary = some c)
    (houter : ∀ m ∈ n.enclosing, m.span ≠ n.span →
      (run.draft file).edits.hasSpan m.span = false)
    (hkept : c.newQualified = name.qualified → ∀ q ∈ n.below, q ≠ r →
      ∀ symbol, file.symbol? q = some symbol → symbol.Unmapped run.renames file.scope) :
    run.Spells file n.span c.newQualified := by
  have hedits : (∀ s, (run.draft file).edits.hasSpan s = true →
      s.start < s.stop ∧ (s = n.span ∨ s.Apart n.span)) ∧
      ((run.draft file).edits.textAt? n.span = some c.newQualified ∨
        n.text = c.newQualified ∧ (run.draft file).edits.hasSpan n.span = false) := by
    rw [draft_eq_visited hfile.kotlin htemplates] at houter ⊢
    exact Context.edits_visited huse htext hc hfile (fun h => ⟨rfl, hkept h⟩) houter
  exact spells_of_listed hfile.kotlin hfile.lossless htemplates huse.mem hedits.1 hedits.2

/-! ### A type with and without blanks in it -/

/-- A Kotlin file with a function whose type is the class `a.B`, with a gap on both sides of the
dot. -/
def typedWith (gap : String) : SourceFile where
  name := ""
  language := .kotlin
  text := "fun f():a" ++ gap ++ "." ++ gap ++ "B"
  tree :=
    let blanks := if gap.isEmpty then [] else [.token .whitespace gap]
    .node .sourceFile [.node .funDecl [.token .funKw "fun", .token .whitespace " ",
      .token .ident "f", .token .lParen "(", .token .rParen ")", .token .colon ":",
      .node .userType (.node .userType [.node .nameRef [.token .ident "a"]] :: blanks ++
        .token .dot "." :: blanks ++ [.node .nameRef [.token .ident "B"]])]]
  symbols := .ofList [((.nameRef, .ofWidth 8 1), .package "a"),
    ((.nameRef, .ofWidth (10 + 2 * gap.utf8ByteSize) 1), .classType (.ofBinary "a.B"))]
  types := .empty
  scope := ⟨.empty, .empty⟩

def typeIn (gap : String) : Site :=
  ((typedWith gap).root.kotlinOrder.find? (·.kind == .userType)).getD (typedWith gap).root

def classIn (gap : String) : Site := (typeIn gap).lastSegment?.getD (typedWith gap).root

def classRun : Run where
  renames := Renames.empty.declare "a.B" "p.Q" id
  templates := []
  settings := {}

theorem plainKotlin_typedWith : (typedWith "").PlainKotlin :=
  ⟨rfl, ⟨_, rfl, by decide +kernel⟩, by decide +kernel⟩

theorem qualifiedUse_typedWith :
    (typedWith "").QualifiedUse (typeIn "") (classIn "") (.ofBinary "a.B") where
  visited := List.mem_of_find?_eq_some (p := (·.kind == .userType)) rfl
  last := rfl
  isName := rfl
  denotes := ⟨.classType (.ofBinary "a.B"), by decide +kernel, rfl⟩
  inner := by decide +kernel
  outer := by decide +kernel

theorem classRun_find? :
    classRun.renames.find? (ClassName.ofBinary "a.B").binary = some (.ofNames "a.B" "p.Q") := rfl

/-- Without blanks the type is renamed as a unit. -/
theorem typed_spelled : (typedWith "").PlainKotlin ∧ classRun.templates = [] ∧
    (typedWith "").QualifiedUse (typeIn "") (classIn "") (.ofBinary "a.B") ∧
    (typeIn "").text = (ClassName.ofBinary "a.B").qualified ∧
    (∀ m ∈ (typeIn "").enclosing, m.span ≠ (typeIn "").span →
      (classRun.draft (typedWith "")).edits.hasSpan m.span = false) ∧
    (ClassRename.ofNames "a.B" "p.Q").newQualified ≠ (ClassName.ofBinary "a.B").qualified ∧
    classRun.Spells (typedWith "") (typeIn "").span "p.Q" := by
  have htext : (typeIn "").text = (ClassName.ofBinary "a.B").qualified := by decide +kernel
  have houter : ∀ m ∈ (typeIn "").enclosing, m.span ≠ (typeIn "").span →
      (classRun.draft (typedWith "")).edits.hasSpan m.span = false := by decide +kernel
  have hnew : (ClassRename.ofNames "a.B" "p.Q").newQualified ≠
      (ClassName.ofBinary "a.B").qualified := by decide +kernel
  have hspells := spells_qualified plainKotlin_typedWith rfl qualifiedUse_typedWith htext
    classRun_find? houter fun hkept => absurd hkept hnew
  exact ⟨plainKotlin_typedWith, rfl, qualifiedUse_typedWith, htext, houter, hnew, hspells⟩

/-- The same type with blanks in it gets the new simple name behind the old prefix. -/
example : classRun.report (typedWith " ") = .ok ⟨"fun f():a . Q", [], []⟩ := by decide +kernel

def typedNested : SourceFile where
  name := ""
  language := .kotlin
  text := "fun f():a.B.C"
  tree := .node .sourceFile [.node .funDecl [.token .funKw "fun", .token .whitespace " ",
    .token .ident "f", .token .lParen "(", .token .rParen ")", .token .colon ":",
    .node .userType [.node .userType [.node .userType [.node .nameRef [.token .ident "a"]],
      .token .dot ".", .node .nameRef [.token .ident "B"]],
      .token .dot ".", .node .nameRef [.token .ident "C"]]]]
  symbols := .ofList [((.nameRef, .ofWidth 8 1), .package "a"),
    ((.nameRef, .ofWidth 10 1), .classType (.ofBinary "a.B")),
    ((.nameRef, .ofWidth 12 1), .classType (.ofBinary "a.B$C"))]
  types := .empty
  scope := ⟨.empty, .empty⟩

/-- A run that renames the class `a.B`, and the class in it to a given name. -/
def nestedRun (new : String) : Run :=
  { classRun with renames := classRun.renames.declare "a.B$C" new id }

/-- The larger name is replaced, and `a.B` with it. -/
example : (nestedRun "z.W").report typedNested = .ok ⟨"fun f():z.W", [], []⟩ := by decide +kernel

/-- The larger name keeps its text, and `a.B` in it is renamed. -/
example : (nestedRun "a.B$C").report typedNested = .ok ⟨"fun f():p.Q.C", [], []⟩ := by
  decide +kernel

/-! ### A constructor called by its qualified name -/

def calledFile (tree : Tree) : SourceFile where
  name := ""
  language := .kotlin
  text := "a.B()"
  tree := tree
  symbols := .ofList [((.nameRef, .ofWidth 0 1), .package "a"),
    ((.nameRef, .ofWidth 2 1), .method ⟨.ofBinary "a.B", Method.constructorName, "()V", false,
      true, []⟩)]
  types := .empty
  scope := ⟨.empty, .empty⟩

/-- The call is the last part of the qualified expression. -/
def calledInside : SourceFile :=
  calledFile (.node .sourceFile [.node .dotQualified [.node .nameRef [.token .ident "a"],
    .token .dot ".", .node .callExpr [.node .nameRef [.token .ident "B"],
      .node .valueArgs [.token .lParen "(", .token .rParen ")"]]]])

/-- The qualified expression is what is called. -/
def calledWhole : SourceFile :=
  calledFile (.node .sourceFile [.node .callExpr [.node .dotQualified [
    .node .nameRef [.token .ident "a"], .token .dot ".", .node .nameRef [.token .ident "B"]],
    .node .valueArgs [.token .lParen "(", .token .rParen ")"]]])

/-- The qualified expression, and the name of the call in it. -/
def chain : Site :=
  (calledInside.root.kotlinOrder.find? (·.kind == .dotQualified)).getD calledInside.root

def callee : Site :=
  ((chain.selector?.getD chain).child? .nameRef).getD chain

/-- **A constructor called by its qualified name** keeps the old prefix and gets the new simple
name, although the walk visits the whole expression, the name of the call stands for the
constructor, and the other segment for a package that keeps its name. -/
theorem called_not_spelled : calledInside.PlainKotlin ∧ classRun.templates = [] ∧
    chain ∈ calledInside.root.kotlinOrder ∧ chain.kind = .dotQualified ∧
    callee.kind = .nameRef ∧ callee.parent?.map (·.kind) = some .callExpr ∧
    callee.parent? = chain.selector? ∧ callee.span.stop = chain.span.start + 3 ∧
    (∃ symbol, calledInside.symbol? callee = some symbol ∧ symbol.Denotes (.ofBinary "a.B")) ∧
    slice? calledInside.text.toList (.ofWidth chain.span.start 3) =
      some (ClassName.ofBinary "a.B").qualified.toList ∧
    (∀ q ∈ chain.below, q.kind = .nameRef →
      q.span = callee.span ∨ calledInside.symbol? q = some (.package "a")) ∧
    classRun.renames.find? "a" = none ∧
    classRun.report calledInside = .ok ⟨"a.Q()", [], []⟩ ∧
    ¬ classRun.Spells calledInside (.ofWidth chain.span.start 3) "p.Q" := by
  have hreport : classRun.report calledInside = .ok ⟨"a.Q()", [], []⟩ := by decide +kernel
  have hvisited : chain ∈ calledInside.root.kotlinOrder :=
    List.mem_of_find?_eq_some (p := (·.kind == .dotQualified)) rfl
  refine ⟨⟨rfl, ⟨_, rfl, by decide +kernel⟩, by decide +kernel⟩, rfl, hvisited, rfl, rfl, rfl,
    rfl, rfl, ⟨_, rfl, rfl, rfl⟩, by decide +kernel, by decide +kernel,
    by decide +kernel, hreport, ?_⟩
  rintro ⟨report, before, covered, after, before', after', fs, bs, hother, -, -, -, -, -, -,
    htext⟩
  obtain rfl := Except.ok.inj (hreport.symm.trans hother)
  have hp : 'p' ∈ "a.Q()".toList := by
    rw [htext]
    simp
  revert hp
  decide

/-- The same call is renamed as a unit where its name is the whole qualified expression. -/
example : classRun.report calledWhole = .ok ⟨"p.Q()", [], []⟩ := by decide +kernel

end Run

end SourceRename
