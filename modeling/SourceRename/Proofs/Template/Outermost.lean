import SourceRename.Proofs.Syntax.Distinct
import SourceRename.Proofs.Template.Found

/-!
# Outermost matches

A template on its way through a file keeps one node: the last one where it matched.  A node is left
out if it lies in that one.  This leaves out exactly the nodes that lie in any node where the
template matches, so the nodes where it records a match are those of

    file.sites.filter (t.isOutermost file)

in preorder (`Template.recorded_eq_outermost`), and neither the other templates nor what has been
queued has a part in it.  The walk ends early if a text is cut inside a character at a node where a
template is tried, that is, one that lies in none of its matches.

One slot is enough because the walk is in preorder.  After a prefix of the file the slot holds the
last node of the prefix where the template matches outermost (`Search.passed`): what lies between
such a node and a node in it lies in it as well (`Site.between_of_enclosing`), and has no outermost
match. -/

namespace SourceRename

/-- Where each node is listed once, what is listed between a node and another one that lies in it
lies in it, too. -/
theorem Site.between_of_enclosing {s a q : Site} {before behind : List Site}
    (hnodup : s.preorder.Nodup) (hlist : s.preorder = before ++ q :: behind)
    (ha : a ∈ s.preorder) (hq : q ∈ a.below) :
    ∃ front inner, before = front ++ a :: inner ∧ ∀ p ∈ inner, p ∈ a.below := by
  obtain ⟨front, back, hpiece⟩ := isInfix_preorder ha
  obtain ⟨inner, rest, hbelow⟩ := List.append_of_mem hq
  have hsplit : s.preorder = (front ++ a :: inner) ++ q :: (rest ++ back) := by
    rw [← hpiece, preorder, hbelow]
    simp
  have hnot : q ∉ before ∧ q ∉ behind := by
    rw [hlist, List.nodup_middle, List.nodup_cons, List.mem_append] at hnodup
    exact not_or.1 hnodup.1
  obtain ⟨hbefore, -⟩ := (List.append_cons_inj_of_notMem hnot.1 hnot.2).1 (hlist.symm.trans hsplit)
  refine ⟨front, inner, hbefore, fun p hp => ?_⟩
  rw [hbelow]
  exact List.mem_append_left _ hp

/-- The template matches at the node and at no node around it. -/
def Template.isOutermost (t : Template) (file : SourceFile) (site : Site) : Bool :=
  (t.find? file site).isSome && site.enclosing.all fun a => (t.find? file a).isNone

namespace Search

/-- A template behind the first nodes of a file: its slot holds the last of them where it matches
outermost. -/
def passed (file : SourceFile) (before : List Site) (t : Template) : Search where
  template := t
  last? := (before.filter (t.isOutermost file)).getLast?.map Site.toPlace

/-- The nodes that the walk puts into the slot of the template with the given number. -/
def recordedFrom (file : SourceFile) (i : Nat) :
    List Search × Draft → List Site → Except Fault (List Site)
  | _, [] => .ok []
  | state, site :: sites => do
    let next ← visitAll file site state.1 state.2
    let behind ← recordedFrom file i next sites
    return if (next.1[i]?.bind (·.last?)).map Place.key = some site.key then site :: behind
      else behind

variable {file : SourceFile} {t : Template} {site a : Site} {before behind : List Site}

theorem isOutermost_iff : t.isOutermost file site = true ↔
    (t.find? file site).isSome = true ∧ ∀ a ∈ site.enclosing, (t.find? file a).isSome = false := by
  simp [Template.isOutermost]

section

variable (hkeys : (file.sites.map Site.key).Nodup) (hlist : file.sites = before ++ site :: behind)
include hkeys hlist

theorem key_ne_of_listed (ha : a ∈ before) : a.key ≠ site.key := by
  intro hkey
  rw [hlist, List.map_append, List.map_cons] at hkeys
  exact List.disjoint_of_nodup_append hkeys (List.mem_map_of_mem ha) (hkey ▸ List.mem_cons_self)

/-- A node that lies in a match lies in the last outermost one in front of it. -/
theorem last?_passed (h : ∃ b ∈ site.enclosing, (t.find? file b).isSome = true) :
    ∃ a : Site, site ∈ a.below ∧ (passed file before t).last? = some a.toPlace := by
  have hsite : site ∈ file.sites := hlist ▸ List.mem_append_right _ List.mem_cons_self
  obtain ⟨b, hb, hfind⟩ := h
  obtain ⟨a, ha, hafind, houter⟩ := Site.exists_outermost_enclosing
    (P := fun m => (t.find? file m).isSome = true) hb hfind
  have hamem := SourceFile.mem_of_enclosing hsite ha
  have hbelow := (Site.mem_enclosing_iff hamem hsite).1 ha
  obtain ⟨front, inner, rfl, hinner⟩ :=
    Site.between_of_enclosing hkeys.of_map hlist hamem hbelow
  have haouter : t.isOutermost file a = true :=
    isOutermost_iff.2 ⟨hafind, fun m hm => Bool.eq_false_iff.2 (houter m hm)⟩
  have hnone : inner.filter (t.isOutermost file) = [] := by
    apply List.filter_eq_nil_iff.2
    intro p hp hpouter
    have hpmem : p ∈ file.sites := by
      rw [hlist]
      exact List.mem_append_left _ (List.mem_append_right _ (List.mem_cons_of_mem _ hp))
    have hap := (Site.mem_enclosing_iff hamem hpmem).2 (hinner p hp)
    rw [(isOutermost_iff.1 hpouter).2 a hap] at hafind
    exact Bool.false_ne_true hafind
  refine ⟨a, hbelow, ?_⟩
  rw [passed, List.filter_append, List.filter_cons_of_pos haouter, hnone, List.getLast?_concat,
    Option.map_some]

/-- **A node lies in the slot of a template exactly if it lies in a match.** -/
theorem covers_passed_iff : (passed file before t).covers site = true ↔
    ∃ a ∈ site.enclosing, (t.find? file a).isSome = true := by
  constructor
  · intro hcovers
    obtain ⟨last, hlast, hany⟩ := (Option.any_eq_true _ _).1 hcovers
    obtain ⟨a, ha, rfl⟩ := Option.map_eq_some_iff.1 hlast
    obtain ⟨habefore, haouter⟩ := List.mem_filter.1 (List.mem_of_getLast? ha)
    obtain ⟨place, hplace, hkey⟩ := List.any_eq_true.1 hany
    have hkey : place.key = a.key := eq_of_beq hkey
    rcases List.mem_cons.1 hplace with rfl | hplace
    · exact absurd hkey.symm (key_ne_of_listed hkeys hlist habefore)
    · rw [← Site.map_toPlace_ofPlaces site.above] at hplace
      obtain ⟨b, hb, rfl⟩ := List.mem_map.1 hplace
      have hsite : site ∈ file.sites := hlist ▸ List.mem_append_right _ List.mem_cons_self
      have hbmem := SourceFile.mem_of_enclosing hsite hb
      have hamem : a ∈ file.sites := hlist ▸ List.mem_append_left _ habefore
      obtain rfl := List.inj_on_of_nodup_map hkeys hbmem hamem hkey
      exact ⟨b, hb, (isOutermost_iff.1 haouter).1⟩
  · intro h
    obtain ⟨a, hbelow, hlast⟩ := last?_passed hkeys hlist h
    rw [covers, hlast]
    exact List.any_eq_true.2
      ⟨a.toPlace, List.mem_cons_of_mem _ (Site.toPlace_mem_above hbelow), beq_self_eq_true _⟩

theorem hit?_passed : (passed file before t).hit? file site =
    if t.isOutermost file site then t.find? file site else none := by
  have hcovers := covers_passed_iff (t := t) hkeys hlist
  rw [hit?]
  by_cases haround : ∃ a ∈ site.enclosing, (t.find? file a).isSome = true
  · have hnot : ¬ t.isOutermost file site = true := by
      intro houter
      obtain ⟨a, ha, hfind⟩ := haround
      rw [(isOutermost_iff.1 houter).2 a ha] at hfind
      exact Bool.false_ne_true hfind
    rw [if_pos (hcovers.2 haround), if_neg hnot]
  · rw [if_neg fun h => haround (hcovers.1 h)]
    show t.find? file site = _
    cases hfind : t.find? file site with
    | none => rw [ite_self]
    | some m =>
      have houter : t.isOutermost file site = true := by
        refine isOutermost_iff.2 ⟨by rw [hfind]; rfl, fun a ha => ?_⟩
        exact Bool.eq_false_iff.2 fun hafind => haround ⟨a, ha, hafind⟩
      rw [if_pos houter]

/-- A template is tried where it matches nowhere around. -/
theorem intactAt_passed_iff : (passed file before t).intactAt file site = true ↔
    ((∀ a ∈ site.enclosing, t.find? file a = none) → ∃ m?, t.find file site = .ok m?) := by
  have hcovers := covers_passed_iff (t := t) hkeys hlist
  have hok : (t.find file site).isOk = true ↔ ∃ m?, t.find file site = .ok m? := by
    cases t.find file site <;> simp [Except.isOk, Except.toBool]
  have haround : (¬ ∃ a ∈ site.enclosing, (t.find? file a).isSome = true) ↔
      ∀ a ∈ site.enclosing, t.find? file a = none := by
    simp
  rw [intactAt, Bool.or_eq_true, hcovers, or_iff_not_imp_left, haround, ← hok]
  exact Iff.rfl

/-- **The step:** the slot holds the last outermost match again. -/
theorem advance_passed :
    (passed file before t).advance file site = passed file (before ++ [site]) t := by
  rw [advance, hit?_passed hkeys hlist]
  by_cases houter : t.isOutermost file site = true
  · obtain ⟨m, hm⟩ := Option.isSome_iff_exists.1 (isOutermost_iff.1 houter).1
    rw [if_pos houter, hm, passed, passed, List.filter_append, List.filter_cons_of_pos houter,
      List.filter_nil, List.getLast?_concat, Option.map_some]
  · rw [if_neg houter, passed, passed, List.filter_append, List.filter_cons_of_neg houter,
      List.filter_nil, List.append_nil]

/-- The slot of a template holds the node just visited exactly if the template matches there
outermost. -/
theorem key_last?_iff : ((passed file (before ++ [site]) t).last?.map Place.key = some site.key) ↔
    t.isOutermost file site = true := by
  rw [passed, List.filter_append]
  by_cases houter : t.isOutermost file site = true
  · rw [List.filter_cons_of_pos houter, List.filter_nil, List.getLast?_concat]
    exact iff_of_true rfl houter
  · rw [List.filter_cons_of_neg houter, List.filter_nil, List.append_nil]
    refine iff_of_false (fun hkey => ?_) houter
    obtain ⟨place, hplace, hkey⟩ := Option.map_eq_some_iff.1 hkey
    obtain ⟨a, ha, rfl⟩ := Option.map_eq_some_iff.1 hplace
    have hbefore := (List.mem_filter.1 (List.mem_of_getLast? ha)).1
    exact key_ne_of_listed hkeys hlist hbefore hkey

end

variable {templates : List Template} {sites : List Site}

theorem map_advance_passed (hkeys : (file.sites.map Site.key).Nodup)
    (hlist : file.sites = before ++ site :: behind) :
    (templates.map (passed file before)).map (advance file site) =
      templates.map (passed file (before ++ [site])) := by
  rw [List.map_map]
  exact List.map_congr_left fun t _ => advance_passed hkeys hlist

theorem intact_passed_iff (hkeys : (file.sites.map Site.key).Nodup)
    (hlist : file.sites = before ++ sites) :
    intact file (templates.map (passed file before)) sites = true ↔
      ∀ site ∈ sites, ∀ t ∈ templates,
        (∀ a ∈ site.enclosing, t.find? file a = none) → ∃ m?, t.find file site = .ok m? := by
  induction sites generalizing before with
  | nil => exact iff_of_true rfl fun _ hsite => absurd hsite List.not_mem_nil
  | cons site sites ih =>
    rw [intact, map_advance_passed hkeys hlist, Bool.and_eq_true, ih (by rw [hlist]; simp),
      List.forall_mem_cons, List.all_map, List.all_eq_true]
    refine and_congr_left' (forall₂_congr fun t _ => ?_)
    exact intactAt_passed_iff hkeys hlist

theorem foundFrom_passed (hkeys : (file.sites.map Site.key).Nodup)
    (hlist : file.sites = before ++ sites) :
    foundFrom file (templates.map (passed file before)) sites = sites.flatMap fun site =>
      templates.filterMap fun t =>
        if t.isOutermost file site then (t.find? file site).map (t, ·) else none := by
  induction sites generalizing before with
  | nil => rfl
  | cons site sites ih =>
    have hhits : hits file site (templates.map (passed file before)) = templates.filterMap fun t =>
        if t.isOutermost file site then (t.find? file site).map (t, ·) else none := by
      rw [hits, List.filterMap_map]
      refine List.filterMap_congr fun t _ => ?_
      rw [Function.comp_apply, hit?_passed hkeys hlist]
      split
      · rfl
      · rfl
    rw [foundFrom, hhits, map_advance_passed hkeys hlist, ih (by rw [hlist]; simp),
      List.flatMap_cons]

theorem recordedFrom_passed (hkeys : (file.sites.map Site.key).Nodup)
    (hlist : file.sites = before ++ sites) {i : Nat} (ht : templates[i]? = some t)
    (hintact : intact file (templates.map (passed file before)) sites = true) (d : Draft) :
    recordedFrom file i (templates.map (passed file before), d) sites =
      .ok (sites.filter (t.isOutermost file)) := by
  induction sites generalizing before d with
  | nil => rfl
  | cons site sites ih =>
    obtain ⟨hhere, hbehind⟩ := Bool.and_eq_true_iff.1 hintact
    rw [map_advance_passed hkeys hlist] at hbehind
    have hnext : file.sites = (before ++ [site]) ++ sites := by
      rw [hlist]
      simp
    have hslot : ((templates.map (passed file (before ++ [site])))[i]?.bind (·.last?)) =
        (passed file (before ++ [site]) t).last? := by
      rw [List.getElem?_map, ht, Option.map_some, Option.bind_some]
    rw [recordedFrom]
    simp only [visitAll_eq, if_pos hhere, map_advance_passed hkeys hlist, bind, Except.bind, pure,
      Except.pure, hslot, ih hnext hbehind]
    by_cases houter : t.isOutermost file site = true
    · rw [if_pos ((key_last?_iff hkeys hlist).2 houter), List.filter_cons_of_pos houter]
    · rw [if_neg fun h => houter ((key_last?_iff hkeys hlist).1 h),
        List.filter_cons_of_neg houter]

end Search

namespace Template

/-- The nodes at which a run of templates over a file records a match of the template with the given
number. -/
def recorded (templates : List Template) (file : SourceFile) (d : Draft) (i : Nat) :
    Except Fault (List Site) :=
  Search.recordedFrom file i (templates.map fun t => ⟨t, none⟩, d) file.sites

/-- In a resolved file no text is cut if and only if looking for a match fails at no node where a
template matches nowhere around. -/
theorem intact_iff {name text : String} {language : Language} {facts : List NodeFact}
    {scope : Scope} {file : SourceFile}
    (h : SourceFile.resolve name language text facts scope = .ok file)
    {templates : List Template} : intact templates file = true ↔
      ∀ site ∈ file.sites, ∀ t ∈ templates,
        (∀ a ∈ site.enclosing, t.find? file a = none) → ∃ m?, t.find file site = .ok m? :=
  Search.intact_passed_iff (nodup_keys_of_resolve h) (List.nil_append file.sites).symm

/-- **Templates match outermost first.**  In a resolved file, whatever has been queued, the walk
comes to its end if and only if no text is cut inside a character at a node where a template is
tried, which is each node that lies in no match of the template.  Then it has recorded the matches
of each template exactly at the nodes where it matches and matches nowhere around, in preorder.  The
changes of just these matches are offered, node by node and for each node in the order of the
templates. -/
theorem recorded_eq_outermost {name text : String} {language : Language} {facts : List NodeFact}
    {scope : Scope} {file : SourceFile}
    (h : SourceFile.resolve name language text facts scope = .ok file) (templates : List Template)
    (d : Draft) :
    ((∃ e, applyAll templates file d = .ok e) ↔
      ∀ site ∈ file.sites, ∀ t ∈ templates,
        (∀ a ∈ site.enclosing, t.find? file a = none) → ∃ m?, t.find file site = .ok m?) ∧
    ∀ e, applyAll templates file d = .ok e →
      (∀ i t, templates[i]? = some t →
        recorded templates file d i = .ok (file.sites.filter (t.isOutermost file))) ∧
      e = (file.sites.flatMap fun site => templates.filterMap fun t =>
        if t.isOutermost file site then (t.find? file site).map (t, ·) else none).foldl
          Draft.offerMatch d := by
  have hkeys := nodup_keys_of_resolve h
  have hlist : file.sites = [] ++ file.sites := rfl
  constructor
  · rw [← intact_iff h]
    constructor
    · rintro ⟨e, he⟩
      exact (applyAll_eq_ok_iff.1 he).1
    · intro hintact
      exact ⟨_, applyAll_of_intact hintact d⟩
  · intro e he
    obtain ⟨hintact, rfl⟩ := applyAll_eq_ok_iff.1 he
    constructor
    · intro i t ht
      exact Search.recordedFrom_passed hkeys hlist ht hintact d
    · rw [offerAll, found]
      exact congrArg _ (Search.foundFrom_passed hkeys hlist)

/-! ### A difference in parentheses -/

def plainName (name : String) : Tree := .node .referenceExpr [.token .ident name]

/-- The template that puts an expression in parentheses. -/
def parenthesized : Template :=
  ⟨"m", [⟨"x", none⟩], false, plainName "x", .empty, ["(", ")"]⟩

def lineOfDifference : SourceFile where
  name := ""
  language := .java
  text := "a-b"
  tree := .node .sourceFile [.node .binaryExpr [plainName "a", .token .minus "-", plainName "b"]]
  symbols := .empty
  types := .empty
  scope := ⟨.empty, .empty⟩

/-- The template matches at the difference and at both names, and is recorded at the difference. -/
theorem recorded_parenthesized :
    SourceFile.resolve "" .java "a-b" [⟨.binaryExpr, .ofWidth 0 3, none, none⟩,
      ⟨.referenceExpr, .ofWidth 0 1, none, none⟩, ⟨.referenceExpr, .ofWidth 2 1, none, none⟩]
        ⟨.empty, .empty⟩ = .ok lineOfDifference ∧
    (lineOfDifference.sites.map fun site =>
      (site.key, (parenthesized.find? lineOfDifference site).isSome)) =
      [((.sourceFile, .ofWidth 0 3), false), ((.binaryExpr, .ofWidth 0 3), true),
        ((.referenceExpr, .ofWidth 0 1), true), ((.referenceExpr, .ofWidth 2 1), true)] ∧
    (recorded [parenthesized] lineOfDifference (.ofText "a-b") 0).map (·.map Site.key) =
      .ok [(.binaryExpr, .ofWidth 0 3)] := by
  have hresolve : SourceFile.resolve "" .java "a-b" [⟨.binaryExpr, .ofWidth 0 3, none, none⟩,
      ⟨.referenceExpr, .ofWidth 0 1, none, none⟩, ⟨.referenceExpr, .ofWidth 2 1, none, none⟩]
        ⟨.empty, .empty⟩ = .ok lineOfDifference := by
    rw [SourceFile.resolve, Tree.ofDeclarations, List.mergeSort_of_pairwise (by decide)]
    rfl
  have hfind : parenthesized.find? lineOfDifference = _ := funext fun site => find?_of_hole rfl
  refine ⟨hresolve, ?_, ?_⟩
  · rw [hfind]
    decide
  · have hrecorded := recorded_eq_outermost hresolve [parenthesized] (.ofText "a-b")
    obtain ⟨e, he⟩ := hrecorded.1.2 fun site _ t ht _ => by
      rw [List.mem_singleton.1 ht]
      exact ⟨_, find_of_hole rfl⟩
    rw [(hrecorded.2 e he).1 0 parenthesized rfl]
    have houter : parenthesized.isOutermost lineOfDifference = _ :=
      funext fun site => by rw [isOutermost, hfind]
    rw [houter]
    exact congrArg Except.ok (by decide)

end Template

end SourceRename
