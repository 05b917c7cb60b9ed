import SourceRename.Proofs.Edit.Draft
import SourceRename.Proofs.Template.Trace
import SourceRename.Template.Apply

/-!
# The matches in a file

Where templates match in a file does not depend on what has been queued: a template that has matched
at a node is not tried below it, whether the changes of the match were queued or refused.  So the
matches can be listed first (`Template.found`), and applying the templates is offering the changes
of one match after the other (`offerAll`), unless a text is cut inside a character where a template
is tried.  Whether that happens does not depend on what has been queued either (`Template.intact`):

    applyAll templates file d =
      if intact templates file then .ok (offerAll templates file d) else .error .badCut

The changes of a match stand apart by themselves, as they fill the gaps around the captures
(`standApart_changes`).  If all of them are free, each is still free when it is its turn, so a match
queues free spans only (`Draft.extends_offer`).
-/

namespace SourceRename

/-! ### The changes of one match -/

namespace Template

theorem pairwise_gaps (start stop : Nat) (captures : List Capture) :
    (gaps start stop captures).Pairwise (fun a b => a.stop ≤ b.start) ∧
      ∀ s ∈ gaps start stop captures, start ≤ s.start := by
  induction captures generalizing start with
  | nil => exact ⟨List.pairwise_singleton _ _, by simp [gaps, Span.upTo]⟩
  | cons c cs ih =>
    obtain ⟨hpair, hstart⟩ := ih (max start c.span.stop)
    have hspan := c.span.start_le_stop
    rw [gaps]
    refine ⟨List.pairwise_cons.2 ⟨fun s hs => ?_, hpair⟩, List.forall_mem_cons.2 ⟨?_, ?_⟩⟩
    · have := hstart s hs
      show max start c.span.start ≤ s.start
      omega
    · exact Nat.le_refl start
    · intro s hs
      have := hstart s hs
      omega

theorem spans_zipWith_sublist (spans : List Span) (texts : List (List Char)) :
    ((spans.zipWith (fun span text => Edit.mk span (String.ofList text)) texts).map
      (·.span)).Sublist spans := by
  induction spans generalizing texts with
  | nil => exact .slnil
  | cons span spans ih =>
    cases texts with
    | nil => exact List.nil_sublist _
    | cons text texts => exact (ih texts).cons_cons span

/-- **The changes of a match stand apart.** -/
theorem standApart_changes (t : Template) (m : Match) : StandApart (t.changes m) := by
  refine List.Pairwise.filter _ (List.pairwise_map.1 (List.Pairwise.sublist ?_
    (pairwise_gaps m.root.start m.root.stop (m.captures.mergeSort comesBefore)).1))
  exact spans_zipWith_sublist _ _

end Template

namespace Draft

def freeSpan (es : Edits) (s : Span) : Prop := es.isFree s = true

theorem extends_queueAll {d : Draft} {changes : List Edit} (hapart : StandApart changes)
    (hfree : ∀ c ∈ changes, d.isFree c.span = true) :
    d.Extends freeSpan (changes.foldl (fun d e => d.queue e.span e.text) d) := by
  induction changes generalizing d with
  | nil => exact .refl d
  | cons c cs ih =>
    obtain ⟨hc, hcs⟩ := List.pairwise_cons.1 hapart
    obtain ⟨hfirst, hfree⟩ := List.forall_mem_cons.1 hfree
    refine (Extends.queue c.text hfirst).trans (ih hcs fun e he => ?_)
    refine Edits.isFree_queue_iff.2 ⟨?_, hfree e he⟩
    have := hc e he
    rw [Bool.eq_false_iff, ne_eq, Span.overlaps_iff]
    omega

/-- Changes are queued together, or none of them is. -/
theorem offer_cases (d : Draft) (changes : List Edit) :
    ((∀ c ∈ changes, d.isFree c.span = true) ∧
        d.offer changes = changes.foldl (fun d e => d.queue e.span e.text) d) ∨
      (¬ (∀ c ∈ changes, d.isFree c.span = true) ∧ (d.offer changes).edits = d.edits ∧
        (d.offer changes).text = d.text) := by
  rw [offer]
  split
  · next hall => exact .inl ⟨List.all_eq_true.1 hall, rfl⟩
  · next hnot =>
    refine .inr ⟨fun h => hnot (List.all_eq_true.2 h), ?_⟩
    split
    · exact ⟨rfl, rfl⟩
    · rw [foldl_conflict]
      exact ⟨rfl, rfl⟩

/-- **Offering the changes of a match queues free spans only.** -/
theorem extends_offer {changes : List Edit} (hapart : StandApart changes) (d : Draft) :
    d.Extends freeSpan (d.offer changes) := by
  rcases d.offer_cases changes with ⟨hfree, h⟩ | ⟨-, hedits, htext⟩
  · rw [h]
    exact extends_queueAll hapart hfree
  · exact ⟨htext, hedits ▸ .refl _⟩

def offerMatch (d : Draft) (x : Template × Match) : Draft := d.offer (x.1.changes x.2)

theorem extends_offerMatch (xs : List (Template × Match)) (d : Draft) :
    d.Extends freeSpan (xs.foldl offerMatch d) :=
  Extends.foldl (fun d x _ => extends_offer (x.1.standApart_changes x.2) d) d

end Draft

/-! ### All matches -/

namespace Search

def hit? (file : SourceFile) (site : Site) (search : Search) : Option Match :=
  if search.covers site then none else search.template.find? file site

/-- The template on its way behind a node. -/
def advance (file : SourceFile) (site : Site) (search : Search) : Search :=
  match search.hit? file site with
  | some _ => { search with last? := some site.toPlace }
  | none => search

def hits (file : SourceFile) (site : Site) (searches : List Search) : List (Template × Match) :=
  searches.filterMap fun search => (search.hit? file site).map (search.template, ·)

/-- The matches of templates at nodes, node by node. -/
def foundFrom (file : SourceFile) : List Search → List Site → List (Template × Match)
  | _, [] => []
  | searches, site :: sites =>
    hits file site searches ++ foundFrom file (searches.map (advance file site)) sites

def intactAt (file : SourceFile) (site : Site) (search : Search) : Bool :=
  search.covers site || (search.template.find file site).isOk

/-- No text is cut inside a character where templates are tried at nodes. -/
def intact (file : SourceFile) : List Search → List Site → Bool
  | _, [] => true
  | searches, site :: sites =>
    searches.all (intactAt file site) && intact file (searches.map (advance file site)) sites

variable {file : SourceFile} {site : Site} {search : Search} {searches : List Search}
  {sites : List Site} {x : Template × Match}

theorem hit?_eq_none (h : search.template.find? file site = none) :
    search.hit? file site = none := by
  rw [hit?, h, ite_self]

theorem hit?_fresh (t : Template) (file : SourceFile) (site : Site) :
    (Search.mk t none).hit? file site = t.find? file site := rfl

theorem visit_eq (file : SourceFile) (site : Site) (search : Search) (d : Draft) :
    search.visit file site d = if search.intactAt file site then
      .ok (search.advance file site,
        ((search.hit? file site).map (search.template, ·)).toList.foldl Draft.offerMatch d)
      else .error .badCut := by
  rw [visit, advance, hit?, intactAt, Template.find?]
  by_cases hcovers : search.covers site = true
  · rw [if_pos hcovers, if_pos hcovers, hcovers]
    rfl
  · rw [if_neg hcovers, if_neg hcovers, Bool.eq_false_iff.2 hcovers]
    cases hfind : search.template.find file site with
    | error f =>
      rw [(Template.exists_of_find_eq_error hfind).1]
      rfl
    | ok m? => cases m? <;> rfl

theorem visitAll_eq (file : SourceFile) (site : Site) (searches : List Search) (d : Draft) :
    visitAll file site searches d = if searches.all (intactAt file site) then
      .ok (searches.map (advance file site), (hits file site searches).foldl Draft.offerMatch d)
      else .error .badCut := by
  induction searches generalizing d with
  | nil => rfl
  | cons search searches ih =>
    have hhits : hits file site (search :: searches) =
        ((search.hit? file site).map (search.template, ·)).toList ++ hits file site searches := by
      rw [hits, List.filterMap_cons]
      cases search.hit? file site with
      | none => rfl
      | some m => rfl
    rw [visitAll, visit_eq, List.all_cons]
    cases search.intactAt file site with
    | false => rfl
    | true =>
      simp only [if_true, bind, Except.bind, Bool.true_and]
      rw [ih, hhits, List.foldl_append, List.map_cons]
      by_cases hrest : searches.all (intactAt file site) = true
      · rw [if_pos hrest, if_pos hrest]
        rfl
      · rw [if_neg hrest, if_neg hrest]

theorem foldlM_visitAll_eq (file : SourceFile) (searches : List Search) (sites : List Site)
    (d : Draft) :
    (sites.foldlM (fun state site => visitAll file site state.1 state.2) (searches, d)).map (·.2) =
      if intact file searches sites then
        .ok ((foundFrom file searches sites).foldl Draft.offerMatch d)
      else .error .badCut := by
  induction sites generalizing searches d with
  | nil => rfl
  | cons site sites ih =>
    rw [List.foldlM_cons, visitAll_eq, intact, foundFrom, List.foldl_append]
    cases searches.all (intactAt file site) with
    | false => rfl
    | true => exact ih (searches.map (advance file site)) _

theorem template_advance (file : SourceFile) (site : Site) (search : Search) :
    (search.advance file site).template = search.template := by
  rw [advance]
  split
  · rfl
  · rfl

theorem mem_foundFrom (h : x ∈ foundFrom file searches sites) :
    (∃ search ∈ searches, search.template = x.1) ∧
      ∃ site ∈ sites, x.1.find? file site = some x.2 := by
  induction sites generalizing searches with
  | nil => exact absurd h List.not_mem_nil
  | cons site sites ih =>
    rw [foundFrom] at h
    rcases List.mem_append.1 h with hhere | hbelow
    · obtain ⟨search, hsearch, hhit⟩ := List.mem_filterMap.1 hhere
      obtain ⟨m, hm, rfl⟩ := Option.map_eq_some_iff.1 hhit
      refine ⟨⟨search, hsearch, rfl⟩, site, List.mem_cons_self, ?_⟩
      rw [hit?] at hm
      split at hm
      · exact absurd hm (by simp)
      · exact hm
    · obtain ⟨⟨advanced, hadvanced, heq⟩, s, hs, hfind⟩ := ih hbelow
      obtain ⟨search, hsearch, rfl⟩ := List.mem_map.1 hadvanced
      rw [template_advance] at heq
      exact ⟨⟨search, hsearch, heq⟩, s, List.mem_cons_of_mem site hs, hfind⟩

theorem intact_of_forall
    (h : ∀ site ∈ sites, ∀ search ∈ searches, ∃ m?, search.template.find file site = .ok m?) :
    intact file searches sites = true := by
  induction sites generalizing searches with
  | nil => rfl
  | cons site sites ih =>
    obtain ⟨hsite, hsites⟩ := List.forall_mem_cons.1 h
    refine Bool.and_eq_true_iff.2 ⟨List.all_eq_true.2 fun search hsearch => ?_, ih ?_⟩
    · obtain ⟨m?, hm⟩ := hsite search hsearch
      rw [intactAt, hm]
      exact Bool.or_true _
    · intro s hs advanced hadvanced
      obtain ⟨search, hsearch, rfl⟩ := List.mem_map.1 hadvanced
      rw [template_advance]
      exact hsites s hs search hsearch

theorem hits_eq_nil (h : ∀ search ∈ searches, search.hit? file site = none) :
    hits file site searches = [] ∧ searches.map (advance file site) = searches := by
  constructor
  · refine List.filterMap_eq_nil_iff.2 fun search hsearch => ?_
    rw [h search hsearch]
    rfl
  · refine (List.map_congr_left fun search hsearch => ?_).trans (List.map_id searches)
    rw [advance, h search hsearch]
    rfl

theorem foundFrom_append_of_none {before : List Site}
    (h : ∀ site ∈ before, ∀ search ∈ searches, search.hit? file site = none) :
    foundFrom file searches (before ++ sites) = foundFrom file searches sites := by
  induction before with
  | nil => rfl
  | cons site before ih =>
    obtain ⟨hsite, hbefore⟩ := List.forall_mem_cons.1 h
    obtain ⟨hhits, hadvance⟩ := hits_eq_nil hsite
    rw [List.cons_append, foundFrom, hhits, hadvance, ih hbefore, List.nil_append]

theorem foundFrom_eq_nil
    (h : ∀ site ∈ sites, ∀ search ∈ searches, search.hit? file site = none) :
    foundFrom file searches sites = [] := by
  have hskip : foundFrom file searches (sites ++ []) = [] := foundFrom_append_of_none h
  rwa [List.append_nil] at hskip

end Search

namespace Template

/-- The matches of templates in a file, in the order in which their changes are offered. -/
def found (templates : List Template) (file : SourceFile) : List (Template × Match) :=
  Search.foundFrom file (templates.map fun t => ⟨t, none⟩) file.sites

theorem mem_found {templates : List Template} {file : SourceFile} {x : Template × Match}
    (h : x ∈ found templates file) :
    x.1 ∈ templates ∧ ∃ site ∈ file.sites, x.1.find? file site = some x.2 := by
  obtain ⟨⟨search, hsearch, heq⟩, hsite⟩ := Search.mem_foundFrom h
  obtain ⟨t, ht, rfl⟩ := List.mem_map.1 hsearch
  exact ⟨heq ▸ ht, hsite⟩

/-- No text is cut inside a character where templates are tried in a file. -/
def intact (templates : List Template) (file : SourceFile) : Bool :=
  Search.intact file (templates.map fun t => ⟨t, none⟩) file.sites

def offerAll (templates : List Template) (file : SourceFile) (d : Draft) : Draft :=
  (found templates file).foldl Draft.offerMatch d

/-- **Applying templates is offering the changes of each match**, or a text is cut. -/
theorem applyAll_eq (templates : List Template) (file : SourceFile) (d : Draft) :
    applyAll templates file d =
      if intact templates file then .ok (offerAll templates file d) else .error .badCut := by
  rw [intact, offerAll, found, ← Search.foldlM_visitAll_eq]
  rw [applyAll]
  cases file.sites.foldlM (fun state site => Search.visitAll file site state.1 state.2)
    (templates.map fun t => Search.mk t none, d) <;> rfl

theorem applyAll_of_intact {templates : List Template} {file : SourceFile}
    (h : intact templates file = true) (d : Draft) :
    applyAll templates file d = .ok (offerAll templates file d) := by
  rw [applyAll_eq, if_pos h]

theorem applyAll_eq_ok_iff {templates : List Template} {file : SourceFile} {d e : Draft} :
    applyAll templates file d = .ok e ↔
      intact templates file = true ∧ offerAll templates file d = e := by
  rw [applyAll_eq]
  split
  · next h => simp [h]
  · next h => simp [h]

theorem extends_offerAll (templates : List Template) (file : SourceFile) (d : Draft) :
    d.Extends Draft.freeSpan (offerAll templates file d) :=
  Draft.extends_offerMatch _ d

theorem extends_offerAll_changes (templates : List Template) (file : SourceFile) (d : Draft) :
    d.Extends (fun _ s => ∃ x ∈ found templates file, ∃ e ∈ x.1.changes x.2, e.span = s)
      (offerAll templates file d) := by
  refine .foldl (fun d x hx => ?_) d
  rw [Draft.offerMatch]
  rcases d.offer_cases (x.1.changes x.2) with ⟨-, h⟩ | ⟨-, hedits, htext⟩
  · rw [h]
    exact .foldl (fun d e he => .queue e.text ⟨x, hx, e, he, rfl⟩) d
  · exact ⟨htext, hedits ▸ .refl _⟩

theorem offerAll_eq_self {templates : List Template} {file : SourceFile}
    (h : ∀ t ∈ templates, ∀ s ∈ file.sites, t.find? file s = none) (d : Draft) :
    offerAll templates file d = d := by
  have hnone : found templates file = [] := by
    apply Search.foundFrom_eq_nil
    intro s hs search hsearch
    obtain ⟨t, ht, rfl⟩ := List.mem_map.1 hsearch
    exact h t ht s hs
  rw [offerAll, hnone]
  rfl

theorem intact_of_forall {templates : List Template} {file : SourceFile}
    (h : ∀ t ∈ templates, ∀ s ∈ file.sites, ∃ m?, t.find file s = .ok m?) :
    intact templates file = true := by
  apply Search.intact_of_forall
  intro s hs search hsearch
  obtain ⟨t, ht, rfl⟩ := List.mem_map.1 hsearch
  exact h t ht s hs

theorem intact_nil (file : SourceFile) : intact [] file = true :=
  intact_of_forall fun _ ht => absurd ht List.not_mem_nil

theorem offerAll_nil (file : SourceFile) (d : Draft) : offerAll [] file d = d :=
  offerAll_eq_self (fun _ ht => absurd ht List.not_mem_nil) d

/-- Templates that match at one node, and elsewhere only below it. -/
theorem found_of_once {templates : List Template} {file : SourceFile} {m : Match}
    (before : List Site) (site : Site) (behind : List Site)
    (hsites : file.sites = before ++ site :: behind)
    (hbefore : ∀ s ∈ before, ∀ t ∈ templates, t.find? file s = none)
    (hm : ∀ t ∈ templates, t.find? file site = some m)
    (hbehind : ∀ s ∈ behind, ∀ t ∈ templates,
      (Search.mk t (some site.toPlace)).covers s = true ∨ t.find? file s = none) :
    found templates file = templates.map (·, m) := by
  have hhit : ∀ t ∈ templates, (Search.mk t none).hit? file site = some m := hm
  have hhits : Search.hits file site (templates.map fun t => ⟨t, none⟩) =
      templates.map (·, m) := by
    rw [Search.hits, List.filterMap_map, ← List.filterMap_eq_map]
    refine List.filterMap_congr fun t ht => ?_
    simp only [Function.comp_apply, hhit t ht, Option.map_some]
  have hadvance : (templates.map fun t => Search.mk t none).map (Search.advance file site) =
      templates.map fun t => ⟨t, some site.toPlace⟩ := by
    rw [List.map_map]
    refine List.map_congr_left fun t ht => ?_
    rw [Function.comp_apply, Search.advance, hhit t ht]
  have hnone : Search.foundFrom file (templates.map fun t => ⟨t, some site.toPlace⟩) behind =
      [] := by
    apply Search.foundFrom_eq_nil
    intro s hs search hsearch
    obtain ⟨t, ht, rfl⟩ := List.mem_map.1 hsearch
    rcases hbehind s hs t ht with hcovers | hfind
    · rw [Search.hit?, if_pos hcovers]
    · exact Search.hit?_eq_none hfind
  rw [found, hsites, Search.foundFrom_append_of_none]
  · rw [Search.foundFrom, hhits, hadvance, hnone, List.append_nil]
  · intro s hs search hsearch
    obtain ⟨t, ht, rfl⟩ := List.mem_map.1 hsearch
    exact hbefore s hs t ht

end Template

end SourceRename
