import SourceRename.Proofs.Edit.Apart
import SourceRename.Proofs.Edit.Free
import SourceRename.Proofs.Rename.Alone
import SourceRename.Proofs.Rename.Survival

/-!
# A walk does what each node does by itself

The walk over a Java file carries all that has been queued along, and whether a node is renamed
depends on it.  Without templates, mixin classes and Kotlin nodes this comes to one condition that
needs no state: a node is left alone if and only if a node around it is replaced as a whole.  So
the walk adds up what the other nodes do by themselves (`Context.reached`), and this is what a
run does (`Run.report_of_plain`).

The invariant is `Context.Walked`: what the nodes behind do has been done, node by node.  Why no
rename suppresses or doubles another one is in two lemmas.  What was replaced in front of a node is
an identifier, which shares nothing with the node, or a whole node around it
(`Walked.isFree_of_reached`).  And where a node around is replaced as a whole, the outermost such
node is reached, so its replacement has been queued when the walk comes to the inner one
(`Walked.exists_listed_around`).
-/

namespace SourceRename

/-- A resolved Java file without mixin classes and without the Kotlin kinds of qualified nodes, in
which nodes with a symbol are not empty. -/
structure SourceFile.PlainJava (f : SourceFile) : Prop where
  java : f.language = .java
  lossless : f.Lossless
  kinds : ∀ s ∈ f.sites, s.kind ≠ .userType ∧ s.kind ≠ .dotQualified
  mixins : ∀ s ∈ f.sites, s.kind = .classDecl → ∀ use ∈ s.annotations,
    f.denotes use Mixin.mixin = false
  wide : ∀ s ∈ f.sites, (f.symbol? s).isSome = true → s.span.start < s.span.stop

theorem SourceFile.PlainJava.isKotlin {f : SourceFile} (h : f.PlainJava) : f.isKotlin = false :=
  SourceFile.isKotlin_of_java h.java

namespace Context

variable {cx : Context} {m n site : Site} {before middle behind : List Site} {d : Draft}
  {e : Edit}

/-! ### Reached nodes -/

def replacesWhole (cx : Context) (site : Site) : Bool :=
  isJavaName site.kind && (cx.alone site).edits.hasSpan site.span

/-- The node carries a name with a symbol, and no node around it is replaced as a whole. -/
def isReached (cx : Context) (site : Site) : Bool :=
  isJavaName site.kind && (cx.file.symbol? site).isSome && !site.enclosing.any cx.replacesWhole

def reached (cx : Context) : List Site := cx.file.sites.filter cx.isReached

theorem isReached_iff : cx.isReached n = true ↔ isJavaName n.kind = true ∧
    (cx.file.symbol? n).isSome = true ∧ ∀ m ∈ n.enclosing, cx.replacesWhole m = false := by
  simp [isReached, and_assoc]

theorem isSome_of_mem_alone (h : e ∈ (cx.alone n).edits.toList) :
    (cx.file.symbol? n).isSome = true := by
  cases hsymbol : cx.file.symbol? n with
  | none =>
    rw [alone_of_no_symbol hsymbol] at h
    simp [Draft.ofText, Edits.empty] at h
  | some => rfl

/-- The outermost node around that is replaced as a whole is reached. -/
theorem exists_outermost (h : m ∈ n.enclosing) (hwhole : cx.replacesWhole m = true) :
    ∃ k ∈ n.enclosing, cx.isReached k = true ∧ cx.replacesWhole k = true := by
  obtain ⟨k, hk, hkwhole, houter⟩ :=
    Site.exists_outermost_enclosing (P := fun m => cx.replacesWhole m = true) h hwhole
  obtain ⟨hkind, hspan⟩ := Bool.and_eq_true_iff.1 hkwhole
  obtain ⟨e, he, -⟩ := Edits.hasSpan_iff.1 hspan
  exact ⟨k, hk, isReached_iff.2 ⟨hkind, isSome_of_mem_alone he,
    fun m hm => Bool.eq_false_iff.2 (houter m hm)⟩, hkwhole⟩

/-! ### What a node replaces -/

section

variable (h : cx.file.PlainJava)
include h

theorem target_of_mem_alone (he : e ∈ (cx.alone n).edits.toList) : n.Target e.span := by
  obtain ⟨w, hw, htarget, -⟩ := renameSite_eq h.isKotlin n
  rw [hw] at he
  exact htarget e (Option.mem_toList.1 he)

theorem token_or_whole (hn : n ∈ cx.file.sites) (he : e ∈ (cx.alone n).edits.toList) :
    (∃ t ∈ n.directTokens, t.span = e.span) ∨ n.span = e.span := by
  have htarget := target_of_mem_alone h he
  rcases e with ⟨s, text⟩
  cases htarget with
  | token ht => exact .inl ⟨_, ht, rfl⟩
  | whole => exact .inr rfl
  | parent hp hkind =>
    obtain ⟨huser, hdot⟩ := h.kinds _ (SourceFile.mem_of_parent? hn hp).1
    rcases hkind with hkind | hkind
    · exact absurd hkind huser
    · exact absurd hkind hdot

theorem start_lt_of_mem_alone (hn : n ∈ cx.file.sites) (he : e ∈ (cx.alone n).edits.toList) :
    e.span.start < e.span.stop := by
  rcases token_or_whole h hn he with ⟨t, ht, heq⟩ | heq
  · rw [← heq]
    exact (h.lossless.standsIn hn).token_nonempty ht
  · rw [← heq]
    exact h.wide n hn (isSome_of_mem_alone he)

theorem within_of_mem_alone (hn : n ∈ cx.file.sites) (he : e ∈ (cx.alone n).edits.toList) :
    n.span.start ≤ e.span.start ∧ e.span.stop ≤ n.span.stop := by
  rcases token_or_whole h hn he with ⟨t, ht, heq⟩ | heq
  · rw [← heq]
    exact Site.within_of_mem_directTokens ht
  · rw [← heq]
    exact ⟨Nat.le_refl _, Nat.le_refl _⟩

theorem cut_of_mem_alone (hn : n ∈ cx.file.sites) (he : e ∈ (cx.alone n).edits.toList) :
    Cut cx.file.text.toList e.span.start ∧ Cut cx.file.text.toList e.span.stop := by
  have hstands := h.lossless.standsIn hn
  rcases token_or_whole h hn he with ⟨t, ht, heq⟩ | heq
  · rw [← heq]
    exact hstands.cut_token ht
  · rw [← heq]
    exact ⟨hstands.cut_start, hstands.cut_stop⟩

end

theorem isFree_eq_false_of_enclosing (hn : n ∈ cx.file.sites)
    (hwide : n.span.start < n.span.stop) (hm : m ∈ n.enclosing)
    (hspan : d.edits.hasSpan m.span = true) : d.isFree n.span = false := by
  have hbelow := (Site.mem_enclosing_iff (SourceFile.mem_of_enclosing hn hm) hn).1 hm
  have hin := Site.within_of_mem_below hbelow
  rw [Bool.eq_false_iff]
  intro hfree
  have hapart := Edits.isFree_iff.1 hfree m.span hspan
  rw [Bool.eq_false_iff, ne_eq, Span.overlaps_iff] at hapart
  omega

/-! ### The invariant -/

/-- What the reached ones among the nodes do by themselves has been done, and nothing else. -/
structure Walked (cx : Context) (before : List Site) (d : Draft) : Prop where
  text : d.text = cx.file.text
  edits : d.edits.toList.Perm
    ((before.filter cx.isReached).flatMap fun n => (cx.alone n).edits.toList)
  diagnostics : d.diagnostics =
    (before.filter cx.isReached).flatMap fun n => (cx.alone n).diagnostics
  conflicts : d.conflicts = []

namespace Walked

theorem start (cx : Context) : cx.Walked [] (.ofText cx.file.text) := ⟨rfl, .refl _, rfl, rfl⟩

theorem mem_iff (hd : cx.Walked before d) : e ∈ d.edits.toList ↔
    ∃ m ∈ before, cx.isReached m = true ∧ e ∈ (cx.alone m).edits.toList := by
  rw [hd.edits.mem_iff, List.mem_flatMap]
  simp only [List.mem_filter, and_assoc]

variable (hsites : cx.file.sites = before ++ n :: behind) (hd : cx.Walked before d)
include hsites hd

/-- Where a node around a node to come is replaced as a whole, the outermost one has been. -/
theorem exists_listed_around (hwide : n.span.start < n.span.stop) (hm : m ∈ n.enclosing)
    (hwhole : cx.replacesWhole m = true) :
    ∃ k ∈ n.enclosing, d.edits.hasSpan k.span = true := by
  obtain ⟨k, hk, hreached, hkwhole⟩ := exists_outermost hm hwhole
  have hnf : n ∈ cx.file.sites := mem_sites_of_eq hsites
  have hkf := SourceFile.mem_of_enclosing hnf hk
  have hbelow := (Site.mem_enclosing_iff hkf hnf).1 hk
  have hbefore : k ∈ before := by
    rw [hsites] at hkf
    rcases List.mem_append.1 hkf with hkf | hkf
    · exact hkf
    · rcases List.mem_cons.1 hkf with rfl | hkf
      · exact absurd (Site.size_lt_of_mem_below hbelow) (Nat.lt_irrefl _)
      · -- what lies around the node is listed in front of it
        have hlist : cx.file.root.preorder = (before ++ [n]) ++ behind := by
          rw [List.append_assoc]
          exact hsites
        have hpair := cx.file.root.pairwise_not_below
        rw [hlist] at hpair
        have hempty := (List.pairwise_append.1 hpair).2.2 n (by simp) k hkf hbelow
        have hin := Site.within_of_mem_below hbelow
        omega
  obtain ⟨e, he, heq⟩ := Edits.hasSpan_iff.1 (Bool.and_eq_true_iff.1 hkwhole).2
  exact ⟨k, hk, Edits.hasSpan_iff.2 ⟨e, hd.mem_iff.2 ⟨k, hbefore, hreached, he⟩, heq⟩⟩

variable (h : cx.file.PlainJava)
include h

/-- Where a listed replacement shares a byte with a node to come, a node around it has been
replaced as a whole. -/
theorem exists_around (he : e ∈ d.edits.toList) (hover : e.span.overlaps n.span = true) :
    ∃ m ∈ n.enclosing, cx.replacesWhole m = true ∧ m.span = e.span := by
  obtain ⟨m, hm, hreached, he⟩ := hd.mem_iff.1 he
  have hmf : m ∈ cx.file.sites := hsites ▸ List.mem_append_left _ hm
  have hnf : n ∈ cx.file.sites := mem_sites_of_eq hsites
  have horder := Site.below_or_behind_of_listed hsites hm
  have hin := within_of_mem_alone h hmf he
  rw [Span.overlaps_iff] at hover
  rcases horder with hbelow | hbehind
  · rcases token_or_whole h hmf he with ⟨t, ht, heq⟩ | heq
    · -- an identifier shares nothing with what lies below its node
      have := Site.apart_of_mem_directTokens ht hbelow
      rw [heq] at this
      omega
    · refine ⟨m, (Site.mem_enclosing_iff hmf hnf).2 hbelow, ?_, heq⟩
      rw [replacesWhole, (isReached_iff.1 hreached).1, Bool.true_and]
      exact Edits.hasSpan_iff.2 ⟨e, he, heq.symm⟩
  · omega

/-- A reached node is free when the walk comes to it. -/
theorem isFree_of_reached (hn : cx.isReached n = true) : d.isFree n.span = true := by
  apply Edits.isFree_iff.2
  intro s hs
  obtain ⟨e, he, rfl⟩ := Edits.hasSpan_iff.1 hs
  rw [Bool.eq_false_iff]
  intro hover
  obtain ⟨m, hm, hwhole, -⟩ := hd.exists_around hsites h he hover
  rw [(isReached_iff.1 hn).2.2 m hm] at hwhole
  exact Bool.noConfusion hwhole

/-- **A node is reached** if and only if no node around it has been replaced as a whole when the
walk comes to it. -/
theorem isReached_iff_listed (hkind : isJavaName n.kind = true)
    (hsymbol : (cx.file.symbol? n).isSome = true) :
    cx.isReached n = true ↔ ∀ m ∈ n.enclosing, d.edits.hasSpan m.span = false := by
  have hwide := h.wide n (mem_sites_of_eq hsites) hsymbol
  constructor
  · intro hn m hm
    rw [Bool.eq_false_iff]
    intro hspan
    have hfree := hd.isFree_of_reached hsites h hn
    rw [isFree_eq_false_of_enclosing (mem_sites_of_eq hsites) hwide hm hspan] at hfree
    exact Bool.noConfusion hfree
  · intro hclear
    refine isReached_iff.2 ⟨hkind, hsymbol, fun m hm => ?_⟩
    rw [Bool.eq_false_iff]
    intro hwhole
    obtain ⟨k, hk, hspan⟩ := hd.exists_listed_around hsites hwide hm hwhole
    rw [hclear k hk] at hspan
    exact Bool.noConfusion hspan

/-- **One step of the walk** does what the node does by itself, or nothing. -/
theorem visit : cx.Walked (before ++ [n]) (cx.visitJava d n) := by
  have hnf : n ∈ cx.file.sites := mem_sites_of_eq hsites
  by_cases hn : cx.isReached n = true
  · have hkind := (isReached_iff.1 hn).1
    have hfree := hd.isFree_of_reached hsites h hn
    obtain ⟨w, hw, -, hadds⟩ := renameSite_eq h.isKotlin n
    have hwait : d.Awaits w := by
      rintro e rfl
      have he : e ∈ (cx.alone n).edits.toList := by rw [hw, Option.toList_some]; simp
      have hspan := Edits.isFree_of_within hfree (within_of_mem_alone h hnf he)
      exact ⟨hspan, Edits.hasSpan_eq_false hspan (start_lt_of_mem_alone h hnf he)⟩
    obtain ⟨htext, hedits, hdiagnostics, hconflicts⟩ := hadds d hd.text hwait
    have hsnoc : (before ++ [n]).filter cx.isReached = before.filter cx.isReached ++ [n] := by
      rw [List.filter_append, List.filter_cons_of_pos hn, List.filter_nil]
    rw [visitJava, if_pos (by rw [hkind, hfree]; rfl)]
    refine ⟨htext.trans hd.text, ?_, ?_, hconflicts.trans hd.conflicts⟩
    · rw [hsnoc, List.flatMap_append, List.flatMap_singleton, hw]
      exact (hedits.trans List.perm_append_comm).trans (hd.edits.append_right _)
    · rw [hsnoc, List.flatMap_append, List.flatMap_singleton, hdiagnostics, hd.diagnostics]
  · have hsnoc : (before ++ [n]).filter cx.isReached = before.filter cx.isReached := by
      rw [List.filter_append, List.filter_cons_of_neg hn, List.filter_nil, List.append_nil]
    have hskip : cx.visitJava d n = d := by
      rw [visitJava]
      split
      · next hvisit =>
        obtain ⟨hkind, hfree⟩ := Bool.and_eq_true_iff.1 hvisit
        cases hsymbol : cx.file.symbol? n with
        | none => rw [renameSite, hsymbol]
        | some symbol =>
          -- a node around it has been replaced as a whole, so it is not free
          have hsome : (cx.file.symbol? n).isSome = true := by rw [hsymbol]; rfl
          have hwide := h.wide n hnf hsome
          refine absurd ((hd.isReached_iff_listed hsites h hkind hsome).2 fun m hm => ?_) hn
          rw [Bool.eq_false_iff]
          intro hspan
          rw [isFree_eq_false_of_enclosing (mem_sites_of_eq hsites) hwide hm hspan] at hfree
          exact Bool.noConfusion hfree
      · rfl
    rw [hskip]
    exact ⟨hd.text, hsnoc ▸ hd.edits, hsnoc ▸ hd.diagnostics, hd.conflicts⟩

end Walked

theorem separate_renameJava (hjava : cx.file.isKotlin = false) (hd : d.edits.Separate) :
    (cx.renameJava d).edits.Separate := by
  obtain ⟨-, hgrows⟩ := grows_visitJava hjava cx.file.sites d rfl
  exact hgrows.separate (fun _ _ => Site.Step.isFree) hd

section

variable (h : cx.file.PlainJava)
include h

theorem walked_foldl (hsites : cx.file.sites = before ++ middle ++ behind)
    (hd : cx.Walked before d) :
    cx.Walked (before ++ middle) (middle.foldl cx.visitJava d) := by
  induction middle generalizing before d with
  | nil => rwa [List.append_nil]
  | cons n middle ih =>
    have hnode : cx.file.sites = before ++ n :: (middle ++ behind) := by simpa using hsites
    have hrest := ih (by simpa using hsites) (hd.visit hnode h)
    rwa [List.append_assoc] at hrest

/-- **The walk up to a node** has done what the reached nodes in front of it do by themselves. -/
theorem walked_of_sites (hsites : cx.file.sites = before ++ behind) :
    cx.Walked before (before.foldl cx.visitJava (.ofText cx.file.text)) :=
  walked_foldl h hsites (.start cx)

theorem walked_renameJava : cx.Walked cx.file.sites (cx.renameJava (.ofText cx.file.text)) :=
  walked_of_sites h (List.append_nil _).symm

theorem standApart_renameJava :
    StandApart (cx.renameJava (.ofText cx.file.text)).edits.toList := by
  have hd := walked_renameJava h
  have hseparate : (cx.renameJava (.ofText cx.file.text)).edits.Separate :=
    separate_renameJava h.isKotlin Edits.separate_empty
  refine hseparate.standApart fun e he => ?_
  obtain ⟨m, hm, -, he⟩ := hd.mem_iff.1 he
  exact start_lt_of_mem_alone h hm he

end

/-! ### Mixin classes -/

theorem renameMixins_eq_self (h : ∀ s ∈ cx.file.sites, s.kind = .classDecl →
    ∀ use ∈ s.annotations, cx.file.denotes use Mixin.mixin = false) (d : Draft) :
    cx.renameMixins d = (cx, d) := by
  have hfold : ∀ sites : List Site, (∀ s ∈ sites, cx.mixinUse? s = none) →
      sites.foldl (fun state site => state.1.visitClass site state.2) (cx, d) = (cx, d) := by
    intro sites hnone
    induction sites with
    | nil => rfl
    | cons s sites ih =>
      obtain ⟨hs, hsites⟩ := List.forall_mem_cons.1 hnone
      rw [List.foldl_cons, visitClass, hs]
      exact ih hsites
  refine hfold _ fun s hs => ?_
  obtain ⟨hs, hkind⟩ := List.mem_filter.1 hs
  rw [mixinUse?, List.find?_eq_none]
  intro use huse
  rw [h s hs (beq_iff_eq.1 hkind) use huse]
  exact Bool.false_ne_true

theorem renameAll_eq_renameJava (hjava : cx.file.language = .java)
    (h : ∀ s ∈ cx.file.sites, s.kind = .classDecl →
      ∀ use ∈ s.annotations, cx.file.denotes use Mixin.mixin = false) (d : Draft) :
    cx.renameAll d = cx.renameJava d := by
  rw [renameAll, hjava]
  simp only
  rw [renameMixins_eq_self h]

end Context

/-! ### Runs -/

namespace Run

variable {run : Run} {file : SourceFile}

/-- The run gives the field another name and forbids to use such a field without a qualifier, and
the node is such a use: a reference without a dot that is not in a label of a `switch`. -/
def ForbidsUse (run : Run) (site : Site) (field : Field) : Prop :=
  run.settings.forbidImplicit = true ∧
    (∃ new, (run.renames.find? field.owner.binary).bind (·.field? field.name) = some new ∧
      new ≠ field.name) ∧
    site.kind = .referenceExpr ∧ site.isQualified = false ∧ site.hasAncestor .switchLabel = false

theorem fieldProblems_cases (run : Run) (hjava : file.isKotlin = false) (site : Site)
    (field : Field) (text : String) :
    let problems := (Context.ofFile file run.renames run.settings.forbidImplicit).fieldProblems
      site field text
    (run.ForbidsUse site field ∧
        problems = [(Problem.implicitField field.name).locate text site.span.start]) ∨
      (¬ run.ForbidsUse site field ∧ problems = []) := by
  intro problems
  have hname : (Context.ofFile file run.renames run.settings.forbidImplicit).fieldName? field =
      (run.renames.find? field.owner.binary).bind (·.field? field.name) := rfl
  have hiff : ((run.renames.find? field.owner.binary).bind (·.field? field.name)).any
        (· ≠ field.name) = true ∧
      (Context.ofFile file run.renames run.settings.forbidImplicit).isImplicitUse site = true ∧
      run.settings.forbidImplicit = true ↔ run.ForbidsUse site field := by
    have hcx : (Context.ofFile file run.renames run.settings.forbidImplicit).file.isKotlin =
      false := hjava
    rw [Context.isImplicitUse, hcx, ForbidsUse, Option.any_eq_true]
    simp only [Bool.not_false, Bool.true_and, Bool.and_eq_true, beq_iff_eq, Bool.not_eq_true',
      decide_eq_true_eq]
    tauto
  by_cases hforbids : run.ForbidsUse site field
  · refine .inl ⟨hforbids, if_pos ?_⟩
    rw [hname]
    exact Bool.and_eq_true_iff.2 ((hiff.2 hforbids).imp_right Bool.and_eq_true_iff.2)
  · refine .inr ⟨hforbids, if_neg fun h => hforbids (hiff.1 ?_)⟩
    rw [hname] at h
    exact (Bool.and_eq_true_iff.1 h).imp_right Bool.and_eq_true_iff.1

/-- **A run without templates does what each reached node does by itself**, whatever the names, in
every plain Java file.  It has a report without conflicts; the replacements, which stand apart, are
those of the reached nodes, each once, and the problems are theirs in preorder; the text is that of
the file with just these replacements put in.  A node with a name and a symbol is reached if and
only if no node around it has been replaced as a whole when the walk comes to it.  Where the symbol
is a field, there is a problem if and only if the field gets another name and is used without a
qualifier outside of the labels of a `switch`, and this is forbidden. -/
theorem report_of_plain (h : file.PlainJava) (htemplates : run.templates = []) :
    let cx := Context.ofFile file run.renames run.settings.forbidImplicit
    let final := cx.renameAll (Template.offerAll run.templates file (.ofText file.text))
    ∃ text, run.report file = final.result ∧
      final.result = .ok ⟨text, cx.reached.flatMap fun n => (cx.alone n).diagnostics, []⟩ ∧
      final.edits.toList.Perm (cx.reached.flatMap fun n => (cx.alone n).edits.toList) ∧
      ((cx.reached.flatMap fun n => (cx.alone n).edits.toList).map (·.span)).Nodup ∧
      StandApart final.edits.toList ∧
      Spliced 0 file.text.toList final.edits.toList text.toList ∧
      (∀ before n behind, file.sites = before ++ n :: behind →
        Context.isJavaName n.kind = true → (file.symbol? n).isSome = true →
        (n ∈ cx.reached ↔ ∀ m ∈ n.enclosing,
          (before.foldl cx.visitJava (.ofText file.text)).edits.hasSpan m.span = false)) ∧
      ∀ n ∈ cx.reached, ∀ field, file.symbol? n = some (.field field) →
        ((∃ x, (cx.alone n).diagnostics = [x] ∧ x.severity = .error ∧ x.code = some "E0002") ↔
          run.ForbidsUse n field) ∧
        (¬ run.ForbidsUse n field → (cx.alone n).diagnostics = []) := by
  intro cx final
  have hcx : cx.file = file := rfl
  have hplain : cx.file.PlainJava := h
  have hfinal : final = cx.renameJava (.ofText file.text) := by
    show cx.renameAll _ = _
    rw [htemplates, Template.offerAll_nil, Context.renameAll_eq_renameJava h.java h.mixins]
  have hd : cx.Walked file.sites final := by
    rw [hfinal]
    exact Context.walked_renameJava hplain
  have hapart : StandApart final.edits.toList := by
    rw [hfinal]
    exact Context.standApart_renameJava hplain
  obtain ⟨text, hresult, hspliced⟩ := final.result_of_standApart hapart fun e he => by
    obtain ⟨m, hm, -, he⟩ := hd.mem_iff.1 he
    rw [hd.text]
    exact Context.cut_of_mem_alone hplain hm he
  rw [hd.text] at hspliced
  refine ⟨text, report_of_no_templates htemplates, ?_, hd.edits, ?_, hapart, hspliced, ?_, ?_⟩
  · rw [hresult, hd.diagnostics, hd.conflicts]
    rfl
  · exact ((hd.edits.map (·.span)).nodup_iff).1 final.edits.nodup_spans
  · intro before n behind hsites hkind hsymbol
    have hbefore := Context.walked_of_sites hplain hsites
    rw [Context.reached, List.mem_filter, hcx, hsites]
    exact (and_iff_right (by simp)).trans (hbefore.isReached_iff_listed hsites hplain hkind hsymbol)
  · intro n _ field hfield
    rw [Context.diagnostics_alone_field hfield]
    rcases fieldProblems_cases run h.isKotlin n field file.text with
      ⟨hforbids, hproblems⟩ | ⟨hforbids, hproblems⟩
    · rw [show cx.fieldProblems n field cx.file.text = _ from hproblems]
      exact ⟨iff_of_true ⟨_, rfl, rfl, rfl⟩ hforbids, fun hnot => absurd hforbids hnot⟩
    · rw [show cx.fieldProblems n field cx.file.text = _ from hproblems]
      exact ⟨iff_of_false (by simp) hforbids, fun _ => rfl⟩

/-! ### A method and a field in its body -/

def plainRun : Run where
  renames := sumRun.renames
  templates := []
  settings := {}

def plainContext : Context := .ofFile overriding plainRun.renames plainRun.settings.forbidImplicit

theorem plainJava_overriding : overriding.PlainJava where
  java := rfl
  lossless := ⟨_, rfl, by decide +kernel⟩
  kinds := by decide
  mixins := by decide
  wide := by decide +kernel

theorem alone_methodSite : plainContext.alone methodSite =
    (Draft.ofText overriding.text).replace ⟨4, 5, by decide⟩ "n" := by
  have hname : plainContext.methodName? overridden = some "n" := methodName?_overridden
  have hsymbol : plainContext.file.symbol? methodSite = some (.method overridden) := by
    decide +kernel
  rw [Context.alone, Context.renameSite, hsymbol]
  simp only [Context.rename, Context.renameMethod, hname]
  rfl

theorem edits_alone_methodSite :
    (plainContext.alone methodSite).edits.toList = [⟨⟨4, 5, by decide⟩, "n"⟩] := by
  rw [alone_methodSite]
  decide +kernel

theorem edits_alone_nameSite :
    (plainContext.alone nameSite).edits.toList = [⟨⟨26, 27, by decide⟩, "c"⟩] := by
  have hname : plainContext.fieldName? inherited = some "c" := fieldName?_inherited
  have hsymbol : plainContext.file.symbol? nameSite = some (.field inherited) := by
    decide +kernel
  rw [Context.alone, Context.renameSite, hsymbol]
  simp only [Context.rename, Context.renameField, hname]
  decide +kernel

theorem replacesWhole_eq_false {m : Site}
    (h : Context.isJavaName m.kind = false ∨ m = methodSite) :
    plainContext.replacesWhole m = false := by
  rw [Context.replacesWhole]
  rcases h with h | rfl
  · rw [h, Bool.false_and]
  · rw [Edits.hasSpan, edits_alone_methodSite]
    decide

/-- The name of the method is no reference to all of it, so its body is reached. -/
theorem reached_plainContext : plainContext.reached = [methodSite, nameSite] := by
  have hsites : plainContext.file.sites = overriding.sites.take 1 ++ methodSite ::
      ((overriding.sites.drop 2).take 6 ++ nameSite :: overriding.sites.drop 9) := rfl
  have hskip : ∀ s : Site, (Context.isJavaName s.kind &&
      (overriding.symbol? s).isSome) = false → ¬ plainContext.isReached s = true := by
    intro s h hreached
    obtain ⟨hkind, hsymbol, -⟩ := Context.isReached_iff.1 hreached
    rw [hkind, show (overriding.symbol? s).isSome = true from hsymbol] at h
    exact Bool.noConfusion h
  have hmethod : plainContext.isReached methodSite = true := by
    refine Context.isReached_iff.2 ⟨rfl, by decide +kernel, fun m hm => ?_⟩
    have hroot : ∀ m ∈ methodSite.enclosing, Context.isJavaName m.kind = false := by decide
    exact replacesWhole_eq_false (.inl (hroot m hm))
  have hname : plainContext.isReached nameSite = true := by
    refine Context.isReached_iff.2 ⟨rfl, by decide +kernel, fun m hm => ?_⟩
    have henclosing : nameSite.enclosing =
        nameSite.enclosing.take 3 ++ methodSite :: nameSite.enclosing.drop 4 := rfl
    have hothers : ∀ m ∈ nameSite.enclosing.take 3 ++ nameSite.enclosing.drop 4,
        Context.isJavaName m.kind = false := by decide
    rw [henclosing, List.mem_append, List.mem_cons] at hm
    refine replacesWhole_eq_false ?_
    rcases hm with hm | hm | hm
    · exact .inl (hothers m (List.mem_append_left _ hm))
    · exact .inr hm
    · exact .inl (hothers m (List.mem_append_right _ hm))
  have hnone : ∀ ss : List Site, (∀ s ∈ ss, (Context.isJavaName s.kind &&
      (overriding.symbol? s).isSome) = false) → ss.filter plainContext.isReached = [] :=
    fun ss h => List.filter_eq_nil_iff.2 fun s hs => hskip s (h s hs)
  rw [Context.reached, hsites, List.filter_append, List.filter_cons_of_pos hmethod,
    List.filter_append, List.filter_cons_of_pos hname, hnone _ (by decide +kernel),
    hnone _ (by decide +kernel), hnone _ (by decide +kernel)]
  rfl

/-- Both are renamed, and the use of the field is the one problem. -/
theorem both_renamed : overriding.PlainJava ∧ plainRun.templates = [] ∧
    plainContext.reached = [methodSite, nameSite] ∧
    ∃ text x es, plainRun.report overriding = .ok ⟨text, [x], []⟩ ∧ x.code = some "E0002" ∧
      es.Perm [⟨⟨4, 5, by decide⟩, "n"⟩, ⟨⟨26, 27, by decide⟩, "c"⟩] ∧ StandApart es ∧
      Spliced 0 overriding.text.toList es text.toList := by
  have htemplates : plainRun.templates = [] := rfl
  obtain ⟨text, hfinal, hreport, hedits, -, hapart, hspliced, -, hfields⟩ :=
    report_of_plain plainJava_overriding htemplates
  have hcx : Context.ofFile overriding plainRun.renames plainRun.settings.forbidImplicit =
      plainContext := rfl
  rw [hcx] at hfinal hreport hedits hapart hspliced hfields
  rw [reached_plainContext] at hreport hedits hfields
  have hsymbol : overriding.symbol? nameSite = some (.field inherited) := by decide +kernel
  have hforbids : plainRun.ForbidsUse nameSite inherited :=
    ⟨rfl, ⟨"c", by decide +kernel, by decide⟩, rfl, by decide, by decide⟩
  obtain ⟨x, hx, -, hcode⟩ := (hfields nameSite (by simp) inherited hsymbol).1.2 hforbids
  have hquiet : (plainContext.alone methodSite).diagnostics = [] := by
    rw [alone_methodSite]
    rfl
  refine ⟨plainJava_overriding, htemplates, reached_plainContext, text, x, _, ?_, hcode, ?_,
    hapart, hspliced⟩
  · rw [hfinal, hreport, List.flatMap_cons, List.flatMap_singleton, hx, hquiet]
    rfl
  · rwa [List.flatMap_cons, List.flatMap_singleton, edits_alone_methodSite,
      edits_alone_nameSite] at hedits

end Run

end SourceRename
