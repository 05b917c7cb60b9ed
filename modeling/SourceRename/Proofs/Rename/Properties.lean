import SourceRename.Proofs.Rename.KotlinReach
import SourceRename.Proofs.Rename.QualifiedNames
import SourceRename.Proofs.Syntax.PropertyNames

/-!
# Properties of renamed getters

In Kotlin a property stands for the getter behind it.  Where the getter gets a new name, the
property becomes the property of the new name, or a call of it if the new name is not like that of a
getter (`Context.propertyText`):

    property of `getX`   ↦   `y` for `getY`,   `fetch()` for `fetch`

The symbol of a property says nothing of whether it is read or written to, and nothing else is
asked. So the left side of an assignment is treated like every other use (`Run.spells_property`),
and where the new name is not like that of a getter a call is assigned to (`Run.call_assigned`).

That the text is there in the end needs a frame.  A visit to another node queues what stands apart
from the identifier, or a node around the name (`Site.Allows.apart_or_around`); and a node around
the name is no longer free once the identifier is replaced. -/

namespace SourceRename

namespace Site

variable {a n q : Site} {t : Token} {es : Edits} {s : Span}

/-- The assignment assigns to the name: its left side is the name, or a qualified expression with
the name as its selector. -/
def Assigns (a n : Site) : Prop :=
  a.kind = .assignment ∧ ∃ q, a.firstExpression? = some q ∧
    (q = n ∨ q.kind = .dotQualified ∧ q.selector? = some n)

/-- **A walk that reaches an assignment reaches the name assigned to.** -/
theorem Assigns.mem_kotlinOrder (h : a.Assigns n) (hwide : n.span.start < n.span.stop)
    (ha : a ∈ q.kotlinOrder) : n ∈ q.kotlinOrder := by
  obtain ⟨hkind, left, hleft, hname⟩ := h
  have hn : n ∈ left.kotlinOrder := by
    rcases hname with rfl | ⟨hqualified, hselector⟩
    · rw [kotlinOrder_eq]
      exact List.mem_cons_self
    · have hlast : left.lastSegment? = some n := by
        rw [lastSegment?, hqualified]
        exact hselector
      obtain ⟨behind, hbehind⟩ := kotlinOrder_of_lastSegment? hlast hwide
      rw [hbehind]
      exact List.mem_cons_of_mem _ List.mem_cons_self
  refine (isInfix_kotlinOrder ha).subset ?_
  rw [kotlinOrder_eq, visitsBelow, hkind]
  refine List.mem_cons_of_mem a ?_
  rw [List.flatMap_map]
  exact List.mem_flatMap.2 ⟨left, mem_nodes_of_firstExpression? hleft, hn⟩

/-! ### What other visits may queue -/

/-- **What another node allows** stands apart from a direct token of a name, or it is a node around
the name: the other node itself, or a free one. -/
theorem Allows.apart_or_around {f : SourceFile} (h : q.Allows es s) (hq : q ∈ f.sites)
    (hn : n ∈ f.sites) (hne : q ≠ n) (hname : n.kind = .nameRef) (ht : t ∈ n.directTokens) :
    s.Apart t.span ∨ ∃ m ∈ n.enclosing, m.span = s ∧ (m = q ∨ es.isFree s = true) := by
  have hin := within_of_mem_directTokens ht
  have hnode : ∀ p ∈ f.sites, p ≠ n → p ∈ n.enclosing ∨ p.span.Apart t.span := by
    intro p hp hpn
    rcases below_or_apart hp hn hpn with hbelow | hbelow | hapart
    · exact .inl ((mem_enclosing_iff hp hn).2 hbelow)
    · exact .inr (apart_of_mem_directTokens ht hbelow).symm
    · exact .inr (Span.Apart.of_within hapart hin)
  cases h with
  | @token u hu =>
    have hinq := within_of_mem_directTokens hu
    rcases below_or_apart hq hn hne with hbelow | hbelow | hapart
    · exact .inl (Span.Apart.of_within (apart_of_mem_directTokens hu hbelow) hin)
    · exact .inl (Span.Apart.of_within (apart_of_mem_directTokens ht hbelow) hinq).symm
    · have hout : n.span.Apart u.span := Span.Apart.of_within hapart.symm hinq
      exact .inl (Span.Apart.of_within hout.symm hin)
  | whole =>
    rcases hnode q hq hne with hm | hapart
    · exact .inr ⟨q, hm, rfl, .inl rfl⟩
    · exact .inl hapart
  | @around p hp hkind hfree =>
    have hpn : p ≠ n := by
      rintro rfl
      rw [hname] at hkind
      exact absurd hkind (by decide)
    rcases hnode p (SourceFile.mem_of_parent? hq hp).1 hpn with hm | hapart
    · exact .inr ⟨p, hm, rfl, .inr hfree⟩
    · exact .inl hapart

/-- Where an identifier of a node is listed, no node around it is free. -/
theorem not_isFree_of_token {f : SourceFile} {m : Site} (hn : n ∈ f.sites) (hm : m ∈ n.enclosing)
    (ht : t ∈ n.directTokens) (hwide : t.span.start < t.span.stop)
    (hlisted : es.hasSpan t.span = true) : es.isFree m.span = false := by
  rw [Bool.eq_false_iff]
  intro hfree
  have hmf := SourceFile.mem_of_enclosing hn hm
  have hin := within_of_mem_below ((mem_enclosing_iff hmf hn).1 hm)
  have htoken := within_of_mem_directTokens ht
  have := Edits.eq_of_isFree_of_hasSpan
    (Edits.isFree_of_within (s := t.span) hfree (by omega)) hlisted
  omega

end Site

namespace Context

variable {cx : Context} {n : Site} {t : Token} {getter : Method} {d : Draft} {new : String}
  {before behind sites : List Site}

/-! ### The text of a property -/

/-- What a property becomes when its getter is renamed: the property of the new name, or a call. -/
def propertyText (cx : Context) (getter : Method) (old : String) : String :=
  match cx.methodName? getter with
  | none => old
  | some new => if new = getter.name then old else (Naming.propertyOfGetter? new).getD (new ++ "()")

/-- A new name without parentheses gives a text with parentheses if and only if it is not like that
of a getter. -/
theorem paren_mem_propertyText_iff (hnew : cx.methodName? getter = some new)
    (hother : new ≠ getter.name) (hplain : '(' ∉ new.toList) (old : String) :
    '(' ∈ (cx.propertyText getter old).toList ↔ Naming.propertyOfGetter? new = none := by
  rw [propertyText, hnew]
  dsimp only
  rw [if_neg hother]
  cases hproperty : Naming.propertyOfGetter? new with
  | none =>
    refine iff_of_true ?_ rfl
    rw [Option.getD_none, String.toList_append]
    exact List.mem_append_right _ (by decide)
  | some p =>
    refine iff_of_false (fun hparen => ?_) (Option.some_ne_none p)
    rcases Naming.mem_of_mem_property hproperty hparen with hin | hletter
    · exact hplain hin
    · exact absurd hletter (by decide)

/-- Renaming a property puts its new text in the place of the identifier, unless it is there
already. -/
theorem renameProperty_eq (hfile : cx.file.Lossless) (hn : n ∈ cx.file.sites)
    (ht : n.lastIdent? = some t) (hd : d.text = cx.file.text) :
    cx.renameProperty n getter d = if cx.propertyText getter t.text = t.text then d
      else d.queue t.span (cx.propertyText getter t.text) := by
  have htoken : t ∈ n.directTokens :=
    Site.mem_directTokens_of_mem_idents (List.mem_of_getLast? ht)
  rw [renameProperty, propertyText]
  cases cx.methodName? getter with
  | none => exact (if_pos rfl).symm
  | some new =>
    dsimp only
    split
    · exact (if_pos rfl).symm
    · rw [ht]
      dsimp only
      rw [Draft.replace, hd, (hfile.standsIn hn).slice?_token htoken]
      exact if_congr (by rw [Option.some_inj, String.toList_inj, eq_comm]) rfl rfl

/-! ### What other visits queue -/

section

variable (hdistinct : cx.file.root.Distinct)
include hdistinct

/-- What is visited before a node does not lie in it, and what is visited behind it does not hold
it. -/
theorem visited_apart (hlist : cx.file.root.kotlinOrder = before ++ n :: behind) :
    (∀ q ∈ before, q ∈ cx.file.sites ∧ q ∉ n.preorder) ∧
      ∀ q ∈ behind, q ∈ cx.file.sites ∧ n ∉ q.preorder := by
  have hsites : ∀ q ∈ before ++ n :: behind, q ∈ cx.file.sites :=
    fun q hq => Site.mem_preorder_of_mem_kotlinOrder (hlist ▸ hq)
  have hpairs := Site.pairwise_not_mem_preorder hdistinct
  rw [hlist, List.pairwise_append, List.pairwise_cons] at hpairs
  obtain ⟨-, ⟨hbehind, -⟩, hbefore⟩ := hpairs
  exact ⟨fun q hq => ⟨hsites q (by simp [hq]), hbefore q hq n List.mem_cons_self⟩,
    fun q hq => ⟨hsites q (by simp [hq]), hbehind q hq⟩⟩

/-- **Nothing in a node is listed when it is visited**, if no node around it is. -/
theorem apart_of_clear (hlist : cx.file.root.kotlinOrder = before ++ n :: behind)
    (hclear : ∀ m ∈ n.enclosing, (cx.visited before).edits.hasSpan m.span = false) {s : Span}
    (hs : (cx.visited before).edits.hasSpan s = true) : s.Apart n.span := by
  have hn : n ∈ cx.file.sites := Site.mem_preorder_of_mem_kotlinOrder (hlist ▸ by simp)
  obtain ⟨_, q, hq, hallows⟩ := (cx.extends_visits before (.ofText cx.file.text)).exists_allowed hs
  obtain ⟨hqf, hout⟩ := (visited_apart hdistinct hlist).1 q hq
  rcases hallows.nearby.apart_or_around hqf hn hout with hapart | ⟨m, hm, rfl⟩
  · exact hapart
  · rw [hclear m hm] at hs
    exact Bool.noConfusion hs

theorem isFree_of_clear (hlist : cx.file.root.kotlinOrder = before ++ n :: behind)
    (hclear : ∀ m ∈ n.enclosing, (cx.visited before).edits.hasSpan m.span = false) :
    (cx.visited before).isFree n.span = true :=
  Edits.isFree_iff.2 fun _ hs => (apart_of_clear hdistinct hlist hclear hs).overlaps_eq_false

end

section

variable (hn : n ∈ cx.file.sites) (hname : n.kind = .nameRef) (ht : t ∈ n.directTokens)
include hn hname ht

/-- **Visits to other nodes** queue what stands apart from a token of a name, and nodes around it.
-/
theorem extends_beside (hsites : ∀ q ∈ sites, q ∈ cx.file.sites ∧ q ≠ n) (d : Draft) :
    d.Extends (fun _ s => s.Apart t.span ∨ ∃ m ∈ n.enclosing, m.span = s)
      (sites.foldl cx.visitKotlin d) := by
  refine (cx.extends_visits sites d).mono fun _ s ⟨q, hq, h⟩ => ?_
  obtain ⟨hqf, hne⟩ := hsites q hq
  exact (h.apart_or_around hqf hn hne hname ht).imp_right fun ⟨m, hm, hs, _⟩ => ⟨m, hm, hs⟩

theorem grows_behind (hwide : t.span.start < t.span.stop)
    (hsites : ∀ q ∈ sites, q ∈ cx.file.sites ∧ n ∉ q.preorder)
    (hlisted : d.edits.hasSpan t.span = true) :
    Edits.Grows (fun _ s => s.Apart t.span) d.edits (sites.foldl cx.visitKotlin d).edits := by
  refine (cx.extends_visits sites d).edits.mono_of_hasSpan (fun es s hes ⟨q, hq, h⟩ => ?_) hlisted
  obtain ⟨hqf, hout⟩ := hsites q hq
  have hne : q ≠ n := fun h => hout (h ▸ List.mem_cons_self)
  rcases h.apart_or_around hqf hn hne hname ht with hapart | ⟨m, hm, rfl, rfl | hfree⟩
  · exact hapart
  · -- a node around the name is not visited behind it
    exact absurd (List.mem_cons_of_mem m ((Site.mem_enclosing_iff hqf hn).1 hm)) hout
  · rw [Site.not_isFree_of_token hn hm ht hwide hes] at hfree
    exact absurd hfree Bool.false_ne_true

end

/-! ### What becomes of the identifier -/

theorem text_visited (cx : Context) (sites : List Site) :
    (cx.visited sites).text = cx.file.text :=
  (cx.extends_visits sites (.ofText cx.file.text)).text

section

variable (hfile : cx.file.Lossless) (hname : n.kind = .nameRef)
  (hsymbol : cx.file.symbol? n = some (.property getter)) (ht : n.lastIdent? = some t)
include hfile hname hsymbol ht

theorem visitKotlin_property (hn : n ∈ cx.file.sites) (hd : d.text = cx.file.text)
    (hfree : d.isFree n.span = true) : cx.visitKotlin d n =
      if cx.propertyText getter t.text = t.text then d
      else d.queue t.span (cx.propertyText getter t.text) := by
  rw [visitKotlin, hname]
  dsimp only
  rw [if_pos hfree, renameSite, hsymbol]
  dsimp only
  rw [rename, renameProperty_eq hfile hn ht hd]

/-- A visit to a name that has its new text already leaves the draft as it is. -/
theorem visitKotlin_of_same (hn : n ∈ cx.file.sites) (hd : d.text = cx.file.text)
    (hsame : cx.propertyText getter t.text = t.text) : cx.visitKotlin d n = d := by
  by_cases hfree : d.isFree n.span = true
  · rw [visitKotlin_property hfile hname hsymbol ht hn hd hfree, if_pos hsame]
  · rw [visitKotlin, hname]
    exact if_neg hfree

variable (hdistinct : cx.file.root.Distinct)
include hdistinct

theorem visited_of_clear (hlist : cx.file.root.kotlinOrder = before ++ n :: behind)
    (hclear : ∀ m ∈ n.enclosing, (cx.visited before).edits.hasSpan m.span = false)
    (hchanged : cx.propertyText getter t.text ≠ t.text) :
    cx.visited cx.file.root.kotlinOrder = behind.foldl cx.visitKotlin
      ((cx.visited before).queue t.span (cx.propertyText getter t.text)) := by
  have hn : n ∈ cx.file.sites := Site.mem_preorder_of_mem_kotlinOrder (hlist ▸ by simp)
  have hfree := isFree_of_clear hdistinct hlist hclear
  rw [hlist, visited, List.foldl_append, List.foldl_cons, ← visited,
    visitKotlin_property hfile hname hsymbol ht hn (cx.text_visited before) hfree,
    if_neg hchanged]

/-- **The new text is listed in the end**, and all else that is listed stands apart from the
identifier. -/
theorem listed_of_clear (hlist : cx.file.root.kotlinOrder = before ++ n :: behind)
    (hclear : ∀ m ∈ n.enclosing, (cx.visited before).edits.hasSpan m.span = false)
    (hchanged : cx.propertyText getter t.text ≠ t.text) :
    (∀ s, (cx.visited cx.file.root.kotlinOrder).edits.hasSpan s = true →
      s = t.span ∨ s.Apart t.span) ∧
    (cx.visited cx.file.root.kotlinOrder).edits.textAt? t.span =
      some (cx.propertyText getter t.text) := by
  have hn : n ∈ cx.file.sites := Site.mem_preorder_of_mem_kotlinOrder (hlist ▸ by simp)
  have htoken : t ∈ n.directTokens :=
    Site.mem_directTokens_of_mem_idents (List.mem_of_getLast? ht)
  have hwide := (hfile.standsIn hn).token_nonempty htoken
  have hapart : ∀ s, (cx.visited before).edits.hasSpan s = true → s.Apart t.span := fun s hs =>
    (apart_of_clear hdistinct hlist hclear hs).of_within (Site.within_of_mem_directTokens htoken)
  have hgrows := grows_behind hn hname htoken hwide (visited_apart hdistinct hlist).2
    (d := (cx.visited before).queue t.span (cx.propertyText getter t.text))
    (Edits.hasSpan_queue.2 (.inl rfl))
  rw [← visited_of_clear hfile hname hsymbol ht hdistinct hlist hclear hchanged] at hgrows
  constructor
  · intro s hs
    rcases hgrows.hasSpan_cases hs with hs | ⟨-, -, hs⟩
    · exact (Edits.hasSpan_queue.1 hs).imp_right (hapart s)
    · exact .inr hs
  · have hnone : (cx.visited before).edits.hasSpan t.span = false := by
      rw [Bool.eq_false_iff]
      exact fun hs => Span.not_apart_self hwide (hapart _ hs)
    refine Edits.Grows.textAt?_of_not (P := fun _ s => s.Apart t.span)
      (fun _ _ => Span.not_apart_self hwide) hgrows ?_
    rw [Draft.queue, Edits.textAt?_queue, if_pos rfl, Edits.textAt?_eq_none_iff.2 hnone]
    simp

/-- **Where the name is not visited or keeps its text**, and no node around it is listed in the end,
all that is listed stands apart from the identifier. -/
theorem apart_of_kept (hn : n ∈ cx.file.sites)
    (hkept : n ∉ cx.file.root.kotlinOrder ∨ cx.propertyText getter t.text = t.text)
    (hclear : ∀ m ∈ n.enclosing,
      (cx.visited cx.file.root.kotlinOrder).edits.hasSpan m.span = false) {s : Span}
    (hs : (cx.visited cx.file.root.kotlinOrder).edits.hasSpan s = true) : s.Apart t.span := by
  have htoken : t ∈ n.directTokens :=
    Site.mem_directTokens_of_mem_idents (List.mem_of_getLast? ht)
  have hbeside : ∀ {sites : List Site}, (∀ q ∈ sites, q ∈ cx.file.sites) → n ∉ sites →
      ∀ d : Draft, d.Extends (fun _ s => s.Apart t.span ∨ ∃ m ∈ n.enclosing, m.span = s)
        (sites.foldl cx.visitKotlin d) := fun hsites hout =>
    extends_beside hn hname htoken fun q hq => ⟨hsites q hq, fun h => hout (h ▸ hq)⟩
  have hall : ∀ q ∈ cx.file.root.kotlinOrder, q ∈ cx.file.sites :=
    fun _ => Site.mem_preorder_of_mem_kotlinOrder
  have hgrows : (Draft.ofText cx.file.text).Extends
      (fun _ s => s.Apart t.span ∨ ∃ m ∈ n.enclosing, m.span = s)
      (cx.visited cx.file.root.kotlinOrder) := by
    by_cases hvisited : n ∈ cx.file.root.kotlinOrder
    · have hsame := hkept.resolve_left (absurd hvisited)
      obtain ⟨before, behind, hlist, hbefore, hbehind⟩ :=
        Site.exists_visits_around hdistinct hvisited
      rw [hlist] at hall
      have hnothing :=
        visitKotlin_of_same hfile hname hsymbol ht hn (cx.text_visited before) hsame
      rw [hlist, visited, List.foldl_append, List.foldl_cons, ← visited, hnothing]
      exact (hbeside (fun q hq => hall q (by simp [hq])) hbefore _).trans
        (hbeside (fun q hq => hall q (by simp [hq])) hbehind _)
    · exact hbeside hall hvisited _
  obtain ⟨-, hapart | ⟨m, hm, rfl⟩⟩ := hgrows.exists_allowed hs
  · exact hapart
  · rw [hclear m hm] at hs
    exact Bool.noConfusion hs

end

end Context

namespace Run

open Context

variable {run : Run} {file : SourceFile} {n : Site} {t : Token} {getter : Method}
  {name text : String} {facts : List NodeFact} {scope : Scope}

/-- **What becomes of a property.**  In a run without templates over a resolved Kotlin file, let a
name stand for the property of a getter.  It is visited wherever an assignment to it is.  If no node
around it is listed when it is visited, the report has the new text of the property in the place of
its identifier; and if it is not visited or keeps its text, and no node around it is listed in the
end, its identifier stays.  The new text is a call if and only if the new name is not like that of a
getter, whether or not the name is assigned to. -/
theorem spells_property (hresolve : SourceFile.resolve name .kotlin text facts scope = .ok file)
    (htemplates : run.templates = []) (hn : n ∈ file.sites) (hname : n.kind = .nameRef)
    (hsymbol : file.symbol? n = some (.property getter)) (ht : n.lastIdent? = some t) :
    let cx := Context.ofFile file run.renames run.settings.forbidImplicit
    let written := cx.propertyText getter t.text
    (∀ a ∈ file.root.kotlinOrder, a.Assigns n → n ∈ file.root.kotlinOrder) ∧
    (∀ before behind, file.root.kotlinOrder = before ++ n :: behind →
      (∀ m ∈ n.enclosing, (cx.visited before).edits.hasSpan m.span = false) →
      written ≠ t.text → run.Spells file t.span written) ∧
    (n ∉ file.root.kotlinOrder ∨ written = t.text →
      (∀ m ∈ n.enclosing, (run.draft file).edits.hasSpan m.span = false) →
      run.Spells file t.span t.text) ∧
    ∀ new, cx.methodName? getter = some new → new ≠ getter.name → '(' ∉ new.toList →
      ('(' ∈ written.toList ↔ Naming.propertyOfGetter? new = none) := by
  intro cx written
  have hkotlin := language_of_resolve hresolve
  have hfile : file.Lossless := lossless_of_resolve hresolve
  have hdistinct : file.root.Distinct := nodup_keys_of_resolve hresolve
  have htoken : t ∈ n.directTokens :=
    Site.mem_directTokens_of_mem_idents (List.mem_of_getLast? ht)
  have hstands := hfile.standsIn hn
  have hin := Site.within_of_mem_directTokens htoken
  have hwide := hstands.token_nonempty htoken
  have hpart : PartAt file.text.toList t.span.start t.text.toList :=
    hstands.partAt_element (Site.mem_elements_of_mem_directTokens htoken)
  have hstop : t.span.stop = t.span.start + byteLength t.text.toList :=
    (Element.token t).stop_eq
  have hdraft : run.draft file = cx.visited file.root.kotlinOrder :=
    draft_eq_visited hkotlin htemplates
  refine ⟨fun a ha hassigns => hassigns.mem_kotlinOrder (by omega) ha, ?_, ?_, ?_⟩
  · intro before behind hlist hclear hchanged
    have hlist' : cx.file.root.kotlinOrder = before ++ n :: behind := hlist
    obtain ⟨hlisted, hnew⟩ :=
      listed_of_clear hfile hname hsymbol ht hdistinct hlist' hclear hchanged
    refine spells_of_apart hkotlin hfile htemplates hpart hstop ?_ (.inl ?_)
    · rw [hdraft]
      exact hlisted
    · rw [hdraft]
      exact hnew
  · intro hkept hclear
    have hapart : ∀ s, (run.draft file).edits.hasSpan s = true → s.Apart t.span := by
      rw [hdraft] at hclear ⊢
      exact fun s hs => apart_of_kept hfile hname hsymbol ht hdistinct hn hkept hclear hs
    refine spells_of_apart hkotlin hfile htemplates hpart hstop (fun s hs => .inr (hapart s hs))
      (.inr ⟨rfl, ?_⟩)
    rw [Bool.eq_false_iff]
    exact fun hs => Span.not_apart_self hwide (hapart _ hs)
  · exact fun new hnew hother hplain => paren_mem_propertyText_iff hnew hother hplain t.text

/-! ### An assignment to a property -/

def getX : Method := ⟨.ofBinary "A", "getX", "()I", false, false, []⟩

def assignmentFacts : List NodeFact :=
  [⟨.assignment, .ofWidth 0 5, none, none⟩, ⟨.dotQualified, .ofWidth 0 3, none, none⟩,
    ⟨.nameRef, .ofWidth 0 1, none, none⟩, ⟨.nameRef, .ofWidth 2 1, some (.property getX), none⟩,
    ⟨.literal, .ofWidth 4 1, none, none⟩]

/-- The Kotlin file `a.x=1`, in which `x` is the property of `getX`. -/
def assigning : SourceFile where
  name := ""
  language := .kotlin
  text := "a.x=1"
  tree := .node .sourceFile [.node .assignment [.node .dotQualified
    [.node .nameRef [.token .ident "a"], .token .dot ".", .node .nameRef [.token .ident "x"]],
    .token .eq "=", .node .literal [.token .integer "1"]]]
  symbols := .ofList [((.nameRef, .ofWidth 2 1), .property getX)]
  types := .empty
  scope := ⟨.empty, .empty⟩

theorem resolve_assigning :
    SourceFile.resolve "" .kotlin "a.x=1" assignmentFacts ⟨.empty, .empty⟩ = .ok assigning := by
  rw [SourceFile.resolve, Tree.ofDeclarations, List.mergeSort_of_pairwise (by decide)]
  rfl

def getterRun (new : String) : Run where
  renames := Renames.empty.declare "A" "A" fun c => c.addMethod ⟨"getX", none⟩ new
  templates := []
  settings := {}

def getterContext (new : String) : Context := .ofFile assigning (getterRun new).renames false

def assignmentSite : Site :=
  (assigning.sites.find? (·.kind == .assignment)).getD assigning.root

def assignedSite : Site :=
  (assigning.sites.find? (·.key == (.nameRef, .ofWidth 2 1))).getD assigning.root

theorem assigns_assignedSite : assignmentSite.Assigns assignedSite :=
  ⟨rfl, _, rfl, .inr ⟨rfl, rfl⟩⟩

theorem methodName?_getX : (getterContext "getY").methodName? getX = some "getY" ∧
    (getterContext "fetch").methodName? getX = some "fetch" := by
  have hancestry : assigning.scope.ancestry getX.owner.binary = ["A"] := by
    rw [Scope.ancestry, Scope.reach_cons, if_pos List.mem_cons_self]
    exact congrArg _ (Scope.reach_nil _ _)
  have hfile : ∀ new, (getterContext new).file.scope.ancestry getX.owner.binary = ["A"] :=
    fun _ => hancestry
  constructor
  · rw [Context.methodName?, Context.inheritedName?, hfile]
    decide +kernel
  · rw [Context.methodName?, Context.inheritedName?, hfile]
    decide +kernel

/-- Where the getter becomes another getter, its property is assigned to. -/
theorem property_assigned :
    SourceFile.resolve "" .kotlin "a.x=1" assignmentFacts ⟨.empty, .empty⟩ = .ok assigning ∧
    (getterRun "getY").templates = [] ∧ assignedSite ∈ assigning.sites ∧
    assignedSite.kind = .nameRef ∧ assigning.symbol? assignedSite = some (.property getX) ∧
    assignedSite.lastIdent? = some ⟨.ident, "x", 2⟩ ∧
    assignmentSite.Assigns assignedSite ∧ assignedSite ∈ assigning.root.kotlinOrder ∧
    (getterRun "getY").Spells assigning (.ofWidth 2 1) "y" := by
  have hn : assignedSite ∈ assigning.sites :=
    List.mem_of_find?_eq_some (p := (·.key == (.nameRef, .ofWidth 2 1))) rfl
  have hsymbol : assigning.symbol? assignedSite = some (.property getX) := by decide +kernel
  have ht : assignedSite.lastIdent? = some ⟨.ident, "x", 2⟩ := rfl
  have ha : assignmentSite ∈ assigning.root.kotlinOrder :=
    List.mem_of_find?_eq_some (p := (·.kind == .assignment)) rfl
  have hlist : assigning.root.kotlinOrder = assigning.root.kotlinOrder.take 3 ++
      assignedSite :: assigning.root.kotlinOrder.drop 4 := rfl
  have hwritten : (getterContext "getY").propertyText getX "x" = "y" := by
    rw [Context.propertyText, methodName?_getX.1]
    decide +kernel
  have htemplates : (getterRun "getY").templates = [] := rfl
  obtain ⟨hvisited, hspells, -, -⟩ :=
    spells_property resolve_assigning htemplates hn rfl hsymbol ht
  have hnew : (getterRun "getY").Spells assigning (.ofWidth 2 1)
      ((getterContext "getY").propertyText getX "x") :=
    hspells _ _ hlist (by decide +kernel) fun h => absurd (hwritten.symm.trans h) (by decide)
  rw [hwritten] at hnew
  exact ⟨resolve_assigning, htemplates, hn, rfl, hsymbol, ht, assigns_assignedSite,
    hvisited _ ha assigns_assignedSite, hnew⟩

theorem visit_assignedSite (d : Draft) (hd : d.isFree assignedSite.span = true) :
    (getterContext "fetch").visitKotlin d assignedSite = d.replace (.ofWidth 2 1) "fetch()" := by
  have hkind : assignedSite.kind = .nameRef := rfl
  have hsymbol : (getterContext "fetch").file.symbol? assignedSite = some (.property getX) := by
    decide +kernel
  rw [Context.visitKotlin, hkind]
  dsimp only
  rw [if_pos hd, Context.renameSite, hsymbol]
  dsimp only
  rw [Context.rename, Context.renameProperty, methodName?_getX.2]
  rfl

/-- **A call is assigned to**, where the new name is not like that of a getter. -/
theorem call_assigned :
    SourceFile.resolve "" .kotlin "a.x=1" assignmentFacts ⟨.empty, .empty⟩ = .ok assigning ∧
    assignmentSite ∈ assigning.sites ∧ assignmentSite.Assigns assignedSite ∧
    assigning.symbol? assignedSite = some (.property getX) ∧
    (getterRun "fetch").report assigning = .ok ⟨"a.fetch()=1", [], []⟩ := by
  have ha : assignmentSite ∈ assigning.sites :=
    List.mem_of_find?_eq_some (p := (·.kind == .assignment)) rfl
  have hdraft : (getterRun "fetch").draft assigning =
      (assigning.root.kotlinOrder.drop 4).foldl (getterContext "fetch").visitKotlin
        ((Draft.ofText assigning.text).replace (.ofWidth 2 1) "fetch()") := by
    rw [← visit_assignedSite _ (by decide +kernel)]
    rfl
  have hreport : (getterRun "fetch").report assigning =
      ((getterRun "fetch").draft assigning).result := rfl
  refine ⟨resolve_assigning, ha, assigns_assignedSite, by decide +kernel, ?_⟩
  rw [hreport, hdraft]
  decide +kernel

end Run

end SourceRename
