import SourceRename.Proofs.Rename.Passes
import SourceRename.Proofs.Rename.Visit
import SourceRename.Proofs.Template.Instantiate

/-!
# Which renames survive the passes in front of them

Templates and mixin classes queue replacements before the walk over a Java file starts, and the
walk leaves a node alone in which anything has been replaced.  A node may be a whole declaration,
of which only the name is to be replaced.

Let `e` be the replacement that a node gets by itself, with nothing queued in front of the walk
that shares a byte with its span or lies in it, and with no node around it replaced as a whole
(`Context.Expects`).  Then `e` is in the text returned if and only if nothing queued in front of
the walk shares a byte with **the whole node** (`Run.written_iff`).  This is all where `e` replaces
an identifier (`Context.writtenIn_iff_of_token`).  Two more conditions concern a whole reference:
the walk has not replaced anything in it before, and no empty span inside it is listed.

What lies in a node and is replaced by the walk does no harm, as nodes are visited parents first.
What is replaced around it is a place around it (`Site.Target.mem_above`).
-/

namespace SourceRename

/-- The replacement is among those listed; that of an empty span perhaps with other texts. -/
def Edit.WrittenIn (e : Edit) (es : List Edit) : Prop :=
  ∃ x ∈ es, x.span = e.span ∧ e.text.toList <:+: x.text.toList ∧
    (e.span.start < e.span.stop → x = e)

/-- By itself the node gets the replacement `e`.  What is queued in `d` in front of the walk leaves
the span of `e` alone, and so do replacements of whole nodes around this one. -/
structure Context.Expects (cx : Context) (d : Draft) (before : List Site) (site : Site)
    (e : Edit) : Prop where
  kind : isJavaName site.kind = true
  alone : ∃ symbol, cx.file.symbol? site = some symbol ∧
    (cx.rename site symbol (.ofText d.text)).edits.toList = [e]
  clear : ∀ x ∈ d.edits.toList, x.span.overlaps e.span = false ∧
    ¬ (e.span.start ≤ x.span.start ∧ x.span.stop ≤ e.span.stop)
  outside : ∀ p ∈ site.above, (before.foldl cx.visitJava d).edits.hasSpan p.span = true →
    d.edits.hasSpan p.span = true

/-! ### Nodes and what they may replace -/

variable {f : SourceFile} {site m p q : Site} {before behind : List Site} {s : Span} {es : Edits}

namespace Site.Target

/-- What a node may replace lies in a node of the file: itself, or the one around it. -/
theorem exists_within (es : Edits) (hm : m ∈ f.sites) (ht : m.Target s) : ∃ q ∈ f.sites,
    (q.span.start ≤ s.start ∧ s.stop ≤ q.span.stop) ∧
      (es.isFree m.span = true → es.isFree s = true → es.isFree q.span = true) := by
  cases ht with
  | token h => exact ⟨m, hm, within_of_mem_directTokens h, fun hfree _ => hfree⟩
  | whole => exact ⟨m, hm, ⟨Nat.le_refl _, Nat.le_refl _⟩, fun hfree _ => hfree⟩
  | @parent p hp hkind =>
    exact ⟨p, (SourceFile.mem_of_parent? hm hp).1, ⟨Nat.le_refl _, Nat.le_refl _⟩,
      fun _ hfree => hfree⟩

/-- **What is replaced in front of a node and reaches into it is a place around it.** -/
theorem mem_above (hsites : f.sites = before ++ site :: behind)
    (hkind : Context.isJavaName site.kind = true) (hm : m ∈ before) (ht : m.Target s)
    (hover : s.overlaps site.span = true) : ∃ p ∈ site.above, p.span = s := by
  have hlisted : ∀ {q : Site}, q ∈ before ++ site :: behind → q ∈ f.sites := fun h => hsites ▸ h
  have hmf : m ∈ f.sites := hlisted (List.mem_append_left _ hm)
  have hsite : site ∈ f.sites := hlisted (by simp)
  have horder := below_or_behind_of_listed hsites hm
  rw [Span.overlaps_iff] at hover
  cases ht with
  | token h =>
    have hin := within_of_mem_directTokens h
    rcases horder with hbelow | hapart
    · have := apart_of_mem_directTokens h hbelow
      omega
    · omega
  | whole =>
    rcases horder with hbelow | hapart
    · exact ⟨m.toPlace, toPlace_mem_above hbelow, rfl⟩
    · omega
  | @parent p hp hpkind =>
    obtain ⟨hpf, hmp⟩ := SourceFile.mem_of_parent? hmf hp
    have hne : p ≠ site := by
      rintro rfl
      rcases hpkind with h | h
      · rw [h] at hkind
        exact absurd hkind (by decide)
      · rw [h] at hkind
        exact absurd hkind (by decide)
    rcases below_or_apart hpf hsite hne with hbelow | hbelow | hapart | hapart
    · exact ⟨p.toPlace, toPlace_mem_above hbelow, rfl⟩
    · -- a node in front of this one does not lie in it
      have := not_below_of_listed hsites hm (below_trans hbelow (mem_below_of_mem_nodes hmp))
      omega
    · omega
    · omega

theorem isFree_of_token (hfile : f.Lossless) (hsite : site ∈ f.sites) (hm : m ∈ f.sites)
    {t : Token} (ht : t ∈ site.directTokens) (htarget : m.Target t.span)
    (hfree : es.isFree m.span = true) (hspan : es.isFree t.span = true) :
    es.isFree site.span = true := by
  have hwide := (hfile.standsIn hsite).token_nonempty ht
  have hin := within_of_mem_directTokens ht
  obtain ⟨q, hq, hqt, hqfree⟩ := exists_within es hm htarget
  have hqfree := hqfree hfree hspan
  by_cases heq : q = site
  · rwa [← heq]
  · rcases below_or_apart hq hsite heq with hbelow | hbelow | hapart | hapart
    · exact Edits.isFree_of_within hqfree (within_of_mem_below hbelow)
    · have := apart_of_mem_directTokens ht hbelow
      omega
    · omega
    · omega

end Site.Target

namespace Context

variable {cx : Context} {d : Draft} {e : Edit}

/-! ### What is free when the walk comes to a node -/

section

variable (hjava : cx.file.isKotlin = false) (hsites : cx.file.sites = before ++ site :: behind)
  (h : cx.Expects d before site e)

include hsites in
theorem mem_sites_of_eq : site ∈ cx.file.sites := by
  rw [hsites]
  exact List.mem_append_right before List.mem_cons_self

include h in
theorem Expects.not_hasSpan : d.edits.hasSpan e.span = false := by
  by_contra hs
  obtain ⟨x, hx, hspan⟩ := Edits.hasSpan_iff.1 (by simpa using hs)
  exact (h.clear x hx).2 (hspan ▸ ⟨Nat.le_refl _, Nat.le_refl _⟩)

include hjava h in
theorem Expects.queues : ∃ symbol, cx.file.symbol? site = some symbol ∧
    Queues site d.text (cx.rename site symbol) (some e) := by
  obtain ⟨symbol, hsymbol, halone⟩ := h.alone
  exact ⟨symbol, hsymbol, queues_of_alone hjava halone⟩

include hjava h in
theorem Expects.target : site.Target e.span := by
  obtain ⟨_, -, hqueues⟩ := h.queues hjava
  exact hqueues.target e rfl

include hjava hsites h in
/-- A node that is free in front of the walk is free when the walk comes to it. -/
theorem Expects.isFree_site (hfree : d.isFree site.span = true) :
    (before.foldl cx.visitJava d).isFree site.span = true := by
  obtain ⟨-, hgrows⟩ := grows_visitJava hjava before d rfl
  apply Edits.isFree_iff.2
  intro s hs
  rw [Bool.eq_false_iff]
  intro hover
  have hnot : ¬ d.edits.hasSpan s = true := fun hd =>
    Bool.noConfusion (hover.symm.trans (Edits.isFree_iff.1 hfree s hd))
  rcases hgrows.hasSpan_cases hs with hd | ⟨gs, -, m, hm, htarget, -⟩
  · exact hnot hd
  · obtain ⟨p, hp, rfl⟩ := htarget.mem_above hsites h.kind hm hover
    exact hnot (h.outside p hp hs)

include hjava hsites h in
theorem Expects.target_cases : (∃ t ∈ site.directTokens, t.span = e.span) ∨
    (site.span.start ≥ e.span.start ∧ site.span.stop ≤ e.span.stop) := by
  rcases e with ⟨s, text⟩
  cases h.target hjava with
  | token ht => exact .inl ⟨_, ht, rfl⟩
  | whole => exact .inr ⟨Nat.le_refl _, Nat.le_refl _⟩
  | parent hp hkind =>
    have hnodes := (SourceFile.mem_of_parent? (mem_sites_of_eq hsites) hp).2
    exact .inr (Site.within_of_mem_nodes hnodes)

include hjava hsites h in
/-- **A node that is not free in front of the walk is left alone**, and nothing else replaces what
it would replace. -/
theorem Expects.isFree_of_listed (hfile : cx.file.Lossless)
    (hs : (cx.renameJava d).edits.hasSpan e.span = true) : d.isFree site.span = true := by
  obtain ⟨-, hgrows⟩ := grows_visitJava hjava cx.file.sites d rfl
  rcases h.target_cases hjava hsites with ⟨t, ht, hspan⟩ | hin
  · -- another node has replaced the token, so that node was free, and this one with it
    rcases hgrows.hasSpan_cases hs with hd | ⟨gs, hgs, m, hm, htarget, hfree, hfree'⟩
    · exact Bool.noConfusion (hd.symm.trans h.not_hasSpan)
    · rw [← hspan] at htarget hfree'
      exact htarget.isFree_of_token hfile (mem_sites_of_eq hsites) hm ht (hgs.isFree hfree)
        (hgs.isFree hfree')
  · apply Edits.isFree_iff.2
    intro u hu
    obtain ⟨x, hx, rfl⟩ := Edits.hasSpan_iff.1 hu
    rw [Bool.eq_false_iff]
    exact fun hover =>
      Bool.noConfusion ((Span.overlaps_of_within hin hover).symm.trans (h.clear x hx).1)

include hjava hsites h in
/-- What is replaced in the end was free when the walk came to the node. -/
theorem Expects.isFree_span (hfree : d.isFree site.span = true)
    (hs : (cx.renameJava d).edits.hasSpan e.span = true) :
    (before.foldl cx.visitJava d).isFree e.span = true := by
  obtain ⟨-, hgrows⟩ := grows_visitJava hjava (site :: behind) (before.foldl cx.visitJava d) rfl
  rw [renameJava, hsites, List.foldl_append] at hs
  have hsite := h.isFree_site hjava hsites hfree
  rcases hgrows.hasSpan_cases hs with hlisted | ⟨gs, hgs, m, -, -, -, hspan⟩
  · rcases e with ⟨s, text⟩
    cases h.target hjava with
    | token ht => exact Edits.isFree_of_within hsite (Site.within_of_mem_directTokens ht)
    | whole => exact hsite
    | @parent p hp hkind =>
      -- the place around the node has been replaced by the walk
      have hnodes := (SourceFile.mem_of_parent? (mem_sites_of_eq hsites) hp).2
      have habove := Site.toPlace_mem_above (Site.mem_below_of_mem_nodes hnodes)
      exact Bool.noConfusion ((h.outside _ habove hlisted).symm.trans h.not_hasSpan)
  · exact hgs.isFree hspan

include hjava hsites h in
/-- No empty span inside a token is listed: nodes begin and end between tokens. -/
theorem Expects.not_inside_token (hfile : cx.file.Lossless) {t : Token}
    (ht : t ∈ site.directTokens) (hspan : t.span = e.span) (hempty : s.start = s.stop)
    (hs : (cx.renameJava d).edits.hasSpan s = true) :
    ¬ (e.span.start < s.start ∧ s.start < e.span.stop) := by
  intro hin
  obtain ⟨-, hgrows⟩ := grows_visitJava hjava cx.file.sites d rfl
  have hsite := mem_sites_of_eq hsites
  have hwithin := Site.within_of_mem_directTokens ht
  rw [hspan] at hwithin
  rcases hgrows.hasSpan_cases hs with hd | ⟨gs, -, m, hm, htarget, -⟩
  · obtain ⟨x, hx, rfl⟩ := Edits.hasSpan_iff.1 hd
    exact (h.clear x hx).2 (by omega)
  · obtain ⟨q, hq, rfl⟩ : ∃ q ∈ cx.file.sites, q.span = s := by
      cases htarget with
      | token hu =>
        have := (hfile.standsIn hm).token_nonempty hu
        omega
      | whole => exact ⟨m, hm, rfl⟩
      | @parent p hp hkind => exact ⟨p, (SourceFile.mem_of_parent? hm hp).1, rfl⟩
    have hne : q ≠ site := by
      rintro rfl
      omega
    rcases Site.below_or_apart hq hsite hne with hbelow | hbelow | hapart | hapart
    · have := Site.within_of_mem_below hbelow
      omega
    · have := Site.apart_of_mem_directTokens ht hbelow
      rw [hspan] at this
      omega
    · omega
    · omega

include hjava hsites h in
theorem Expects.stop_le (hfile : cx.file.Lossless) :
    e.span.stop ≤ cx.file.text.utf8ByteSize := by
  obtain ⟨q, hq, hin, -⟩ :=
    Site.Target.exists_within .empty (mem_sites_of_eq hsites) (h.target hjava)
  have := (hfile.standsIn hq).cut_stop.le
  rw [byteLength_toList] at this
  omega

include hjava hsites h in
/-- Where node and span are free, the replacement is queued when the walk comes to the node, and
the walk goes on with what is free. -/
theorem Expects.grows (hsite : (before.foldl cx.visitJava d).isFree site.span = true)
    (hspan : (before.foldl cx.visitJava d).isFree e.span = true) :
    Edits.Grows (fun es s => es.isFree s = true)
      ((before.foldl cx.visitJava d).edits.queue e.span e.text) (cx.renameJava d).edits := by
  obtain ⟨symbol, hsymbol, hqueues⟩ := h.queues hjava
  obtain ⟨htext, -⟩ := grows_visitJava hjava before d rfl
  have hvisit := hqueues.again e rfl _ htext hspan hsite
  have hrename : cx.visitJava (before.foldl cx.visitJava d) site =
      cx.rename site symbol (before.foldl cx.visitJava d) := by
    rw [visitJava, if_pos (by rw [h.kind, hsite]; rfl), renameSite, hsymbol]
  rw [← hrename] at hvisit
  obtain ⟨-, hrest⟩ := grows_visitJava hjava behind
    (cx.visitJava (before.foldl cx.visitJava d) site) rfl
  rw [renameJava, hsites, List.foldl_append, List.foldl_cons]
  exact (hvisit.mono fun _ _ => Site.Step.isFree).trans (hrest.mono fun _ _ => Site.Step.isFree)

end

/-! ### What is written in the end -/

theorem exists_listed {fs : Edits} (hfree : es.isFree e.span = true)
    (hgrows : Edits.Grows (fun es s => es.isFree s = true) (es.queue e.span e.text) fs) :
    ∃ x ∈ fs.toList, x.span = e.span ∧ e.text.toList <:+: x.text.toList ∧
      (e.span.start < e.span.stop → x = e) := by
  obtain ⟨x, hx, hspan, htext⟩ := hgrows.exists_listed
  refine ⟨x, hx, hspan, htext, fun hwide => ?_⟩
  -- nothing was listed there, and nothing has been added
  have hnone : es.textAt? e.span = none :=
    Edits.textAt?_eq_none_iff.2 (Edits.hasSpan_eq_false hfree hwide)
  have hqueued : (es.queue e.span e.text).textAt? e.span = some e.text := by
    rw [Edits.textAt?_queue, if_pos rfl, hnone, Option.getD_none, String.empty_append]
  have hlisted := hgrows.textAt?_eq (fun _ _ hs => hs) hqueued hwide
  refine List.inj_on_of_nodup_map fs.nodup_spans hx (Edits.mem_toList_iff.2 hlisted) hspan

theorem not_overlaps_of_listed {fs : Edits} (hfree : es.isFree e.span = true)
    (hgrows : Edits.Grows (fun es s => es.isFree s = true) (es.queue e.span e.text) fs)
    (hs : fs.hasSpan s = true) (hne : s ≠ e.span) : s.overlaps e.span = false := by
  rcases hgrows.hasSpan_cases hs with hqueued | ⟨gs, hgs, hsfree⟩
  · exact Edits.isFree_iff.1 hfree s ((Edits.hasSpan_queue.1 hqueued).resolve_left hne)
  · rw [Span.overlaps_comm]
    exact Edits.isFree_iff.1 hsfree e.span (hgs.hasSpan (Edits.hasSpan_queue.2 (.inl rfl)))

/-- **A rename survives** if and only if the whole node is free in front of the walk, the span of
the replacement when the walk comes to the node, and no empty span inside it is listed. -/
theorem writtenIn_iff (hjava : cx.file.isKotlin = false) (hfile : cx.file.Lossless)
    (hsites : cx.file.sites = before ++ site :: behind) (h : cx.Expects d before site e) :
    e.WrittenIn ((cx.renameJava d).edits.plan cx.file.text.utf8ByteSize).applied ↔
      d.isFree site.span = true ∧ (before.foldl cx.visitJava d).isFree e.span = true ∧
        ∀ z ∈ (cx.renameJava d).edits.toList, z.span.isEmpty = true →
          ¬ (e.span.start < z.span.start ∧ z.span.start < e.span.stop) := by
  have hlength := h.stop_le hjava hsites hfile
  constructor
  · rintro ⟨x, hx, hspan, -⟩
    have hlisted := Edits.mem_of_mem_applied hx
    have hs : (cx.renameJava d).edits.hasSpan e.span = true :=
      Edits.hasSpan_iff.2 ⟨x, hlisted, hspan⟩
    have hfree := h.isFree_of_listed hjava hsites hfile hs
    refine ⟨hfree, h.isFree_span hjava hsites hfree hs, ?_⟩
    intro z hz hempty hin
    -- the empty span is taken, too, but it is not apart
    have hwidth : z.span.start = z.span.stop := beq_iff_eq.1 hempty
    have htaken := Edits.mem_plan_of_isEmpty _ cx.file.text.utf8ByteSize hz (by omega) hempty
    have hne : x ≠ z := by
      rintro rfl
      rw [hspan] at hin
      omega
    have hapart := rel_or_rel_of_pairwise (Edits.standApart_plan _ _) hx htaken hne
    rw [hspan] at hapart
    omega
  · rintro ⟨hfree, hspan, hempty⟩
    have hgrows := h.grows hjava hsites (h.isFree_site hjava hsites hfree) hspan
    obtain ⟨x, hx, hxspan, htext⟩ := exists_listed hspan hgrows
    refine ⟨x, Edits.mem_plan_of_clear _ _ hx (hxspan ▸ hlength) ?_, hxspan,
      htext⟩
    intro g hg hprec
    rw [hxspan] at hprec ⊢
    have hapart := not_overlaps_of_listed hspan hgrows (Edits.hasSpan_iff.2 ⟨g, hg, rfl⟩)
      (Span.ne_of_precedes hprec).symm
    rw [Bool.eq_false_iff, ne_eq, Span.overlaps_iff] at hapart
    rw [Span.precedes_iff] at hprec
    have hg0 := g.span.start_le_stop
    by_cases hgempty : g.span.isEmpty = true
    · have := hempty g hg hgempty
      have : g.span.start = g.span.stop := beq_iff_eq.1 hgempty
      omega
    · have : g.span.start ≠ g.span.stop := fun heq => hgempty (beq_iff_eq.2 heq)
      omega

/-- Where an identifier is to be replaced, only the whole node needs to be free. -/
theorem writtenIn_iff_of_token (hjava : cx.file.isKotlin = false) (hfile : cx.file.Lossless)
    (hsites : cx.file.sites = before ++ site :: behind) (h : cx.Expects d before site e)
    (htoken : ∃ t ∈ site.directTokens, t.span = e.span) :
    e.WrittenIn ((cx.renameJava d).edits.plan cx.file.text.utf8ByteSize).applied ↔
      d.isFree site.span = true := by
  obtain ⟨t, ht, hspan⟩ := htoken
  rw [writtenIn_iff hjava hfile hsites h]
  constructor
  · exact fun hwritten => hwritten.1
  · intro hfree
    refine ⟨hfree, ?_, fun z hz hempty => ?_⟩
    · rw [← hspan]
      exact Edits.isFree_of_within (h.isFree_site hjava hsites hfree)
        (Site.within_of_mem_directTokens ht)
    · exact h.not_inside_token hjava hsites hfile ht hspan (beq_iff_eq.1 hempty)
        (Edits.hasSpan_iff.2 ⟨z, hz, rfl⟩)

end Context

/-! ### Runs -/

namespace Run

variable {run : Run} {file : SourceFile} {e : Edit}

/-- **Which renames of a Java file survive.**  There is a report if the templates cut no text inside
a character and what is taken can be cut out.  The text returned is that of the file with this put
in.  The replacement that a node gets by itself is taken if and only if nothing that templates and
mixin classes have queued shares a byte with the whole node; where a whole reference is replaced,
the walk must not have replaced anything in it before, either. -/
theorem written_iff (hjava : file.language = .java) (hfile : file.Lossless)
    (hsites : file.sites = before ++ site :: behind)
    (h : (run.beforeWalk file).1.Expects (run.beforeWalk file).2 before site e) :
    let cx := (run.beforeWalk file).1
    let queued := (run.beforeWalk file).2
    let final := cx.renameJava queued
    let applied := (final.edits.plan file.text.utf8ByteSize).applied
    ((∃ r, run.report file = .ok r) ↔
        (∃ d, Template.applyAll run.templates file (.ofText file.text) = .ok d) ∧
          ∀ x ∈ applied,
            Cut file.text.toList x.span.start ∧ Cut file.text.toList x.span.stop) ∧
      (∀ r, run.report file = .ok r → Spliced 0 file.text.toList applied r.text.toList) ∧
      (e.WrittenIn applied ↔ queued.isFree site.span = true ∧
        (before.foldl cx.visitJava queued).isFree e.span = true ∧
        ∀ z ∈ final.edits.toList, z.span.isEmpty = true →
          ¬ (e.span.start < z.span.start ∧ z.span.start < e.span.stop)) ∧
      ((∃ t ∈ site.directTokens, t.span = e.span) →
        (e.WrittenIn applied ↔ queued.isFree site.span = true)) := by
  intro cx queued final applied
  have hcx : cx.file = file := file_beforeWalk run file
  have hkotlin : cx.file.isKotlin = false := by
    rw [hcx, SourceFile.isKotlin, hjava]
    rfl
  have hdraft : run.draft file = final := draft_eq hjava
  refine ⟨?_, ?_, ?_, ?_⟩
  · have hiff : (∃ r, run.report file = .ok r) ↔ _ := exists_report_iff
    rwa [hdraft] at hiff
  · intro r hr
    have hspliced := spliced_of_report hr
    rwa [hdraft] at hspliced
  · have hiff := Context.writtenIn_iff hkotlin (hcx ▸ hfile) (hcx ▸ hsites) h
    rwa [hcx] at hiff
  · intro htoken
    have hiff := Context.writtenIn_iff_of_token hkotlin (hcx ▸ hfile) (hcx ▸ hsites) h htoken
    rwa [hcx] at hiff

/-! ### A method with a match in its body -/

open Template (differenceOfNames differenceTemplate differenceSite differenceMatch)

def overridden : Method := ⟨.ofBinary "A", "m", "(II)I", false, false, []⟩

def inherited : Field := ⟨.ofBinary "A", "a", "I"⟩

/-- A run that renames the method to `n` and the field to `c`, and turns differences into sums. -/
def sumRun : Run where
  renames := Renames.empty.declare "A" "A" fun c =>
    (c.addField "a" "c").addMethod ⟨"m", none⟩ "n"
  templates := [differenceTemplate ["", "+", ""]]
  settings := { forbidImplicit := false }

/-- The file that returns `a - b` from a method that overrides the one of `A`. -/
def overriding : SourceFile := { differenceOfNames with
  symbols := .ofList [((.methodDecl, .ofWidth 0 31), .method overridden),
    ((.referenceExpr, .ofWidth 26 1), .field inherited)] }

def methodSite : Site :=
  (overriding.sites.find? (·.kind == .methodDecl)).getD overriding.root

def nameSite : Site :=
  (overriding.sites.find? (·.kind == .referenceExpr)).getD overriding.root

def sumDraft : Draft := (Draft.ofText overriding.text).queue ⟨27, 28, by decide⟩ "+"

def sumContext : Context := .ofFile overriding sumRun.renames false

theorem found_overriding : Template.found sumRun.templates overriding =
    [(differenceTemplate ["", "+", ""], differenceMatch)] := by
  refine Template.found_of_once (overriding.sites.take 7) differenceSite
    (overriding.sites.drop 8) rfl (fun s hs => List.forall_mem_singleton.2 ?_)
    (List.forall_mem_singleton.2 (Template.find?_difference _ _))
    (fun s hs => List.forall_mem_singleton.2 (.inl ?_))
  · have hkind : (differenceTemplate ["", "+", ""]).root.kind ≠ s.kind := by
      revert s
      decide
    exact Template.find?_eq_none_of_kind rfl hkind
  · revert s
    decide

theorem changes_overriding : (differenceTemplate ["", "+", ""]).changes differenceMatch =
    [⟨⟨27, 28, by decide⟩, "+"⟩] := by
  rw [Template.changes_difference _ rfl]
  decide

theorem offerAll_overriding (d : Draft) : Template.offerAll sumRun.templates overriding d =
    d.offer [⟨⟨27, 28, by decide⟩, "+"⟩] := by
  rw [Template.offerAll, found_overriding, ← changes_overriding]
  rfl

theorem beforeWalk_overriding : sumRun.beforeWalk overriding = (sumContext, sumDraft) := by
  rw [beforeWalk, offerAll_overriding]
  rfl

theorem methodName?_overridden : sumContext.methodName? overridden = some "n" := by
  have hancestry : sumContext.file.scope.ancestry overridden.owner.binary = ["A"] := by
    rw [Scope.ancestry, Scope.reach_cons, if_pos List.mem_cons_self]
    exact congrArg _ (Scope.reach_nil _ _)
  rw [Context.methodName?, Context.inheritedName?, hancestry]
  decide +kernel

theorem fieldName?_inherited : sumContext.fieldName? inherited = some "c" := by decide +kernel

theorem rename_overridden (d : Draft) : sumContext.rename methodSite (.method overridden) d =
    d.replace ⟨4, 5, by decide⟩ "n" := by
  rw [Context.rename, Context.renameMethod, methodName?_overridden]
  rfl

theorem rename_inherited (d : Draft) : sumContext.rename nameSite (.field inherited) d =
    d.replace ⟨26, 27, by decide⟩ "c" := by
  rw [Context.rename, Context.renameField, fieldName?_inherited]
  rfl

theorem renameJava_overriding :
    sumContext.renameJava sumDraft = sumDraft.replace ⟨26, 27, by decide⟩ "c" := by
  have hsites : sumContext.file.sites =
      overriding.sites.take 8 ++ nameSite :: overriding.sites.drop 9 := rfl
  have hbefore : (overriding.sites.take 8).foldl sumContext.visitJava sumDraft = sumDraft := rfl
  have hname : sumContext.visitJava sumDraft nameSite =
      sumDraft.replace ⟨26, 27, by decide⟩ "c" := by
    rw [← rename_inherited]
    rfl
  rw [Context.renameJava, hsites, List.foldl_append, hbefore, List.foldl_cons, hname]
  rfl

theorem report_overriding : sumRun.report overriding =
    .ok ⟨"int m(int x,int y)\x7breturn c+b;\x7d", [], []⟩ := by
  have hintact : Template.intact sumRun.templates overriding = true :=
    Template.intact_of_fixed ⟨_, rfl, by decide +kernel⟩ (by decide)
  rw [report_of_intact hintact, draft_eq rfl, beforeWalk_overriding, renameJava_overriding]
  decide +kernel

/-- The captured name `a` is renamed. -/
theorem inherited_written :
    overriding.language = .java ∧ overriding.Lossless ∧
    sumRun.report overriding = .ok ⟨"int m(int x,int y)\x7breturn c+b;\x7d", [], []⟩ ∧
    overriding.sites = overriding.sites.take 8 ++ nameSite :: overriding.sites.drop 9 ∧
    (sumRun.beforeWalk overriding).1.Expects (sumRun.beforeWalk overriding).2
      (overriding.sites.take 8) nameSite ⟨⟨26, 27, by decide⟩, "c"⟩ ∧
    Edit.WrittenIn ⟨⟨26, 27, by decide⟩, "c"⟩
      (((sumRun.beforeWalk overriding).1.renameJava (sumRun.beforeWalk overriding).2).edits.plan
        overriding.text.utf8ByteSize).applied := by
  have hfile : overriding.Lossless := ⟨_, rfl, by decide +kernel⟩
  have hsites : overriding.sites =
      overriding.sites.take 8 ++ nameSite :: overriding.sites.drop 9 := rfl
  have hexpects : sumContext.Expects sumDraft (overriding.sites.take 8) nameSite
      ⟨⟨26, 27, by decide⟩, "c"⟩ := by
    refine ⟨rfl, ⟨.field inherited, by decide +kernel, ?_⟩, by decide, by decide +kernel⟩
    rw [rename_inherited]
    decide +kernel
  have h : (sumRun.beforeWalk overriding).1.Expects (sumRun.beforeWalk overriding).2
      (overriding.sites.take 8) nameSite ⟨⟨26, 27, by decide⟩, "c"⟩ := by
    rw [beforeWalk_overriding]
    exact hexpects
  refine ⟨rfl, hfile, report_overriding, hsites, h, ?_⟩
  refine ((written_iff rfl hfile hsites h).2.2.2 ?_).2 ?_
  · decide +kernel
  · rw [beforeWalk_overriding]
    rfl

/-- The method is not renamed, though the template comes nowhere near its name. -/
theorem overridden_not_written :
    overriding.language = .java ∧ overriding.Lossless ∧
    sumRun.report overriding = .ok ⟨"int m(int x,int y)\x7breturn c+b;\x7d", [], []⟩ ∧
    overriding.sites = overriding.sites.take 1 ++ methodSite :: overriding.sites.drop 2 ∧
    (sumRun.beforeWalk overriding).1.Expects (sumRun.beforeWalk overriding).2
      (overriding.sites.take 1) methodSite ⟨⟨4, 5, by decide⟩, "n"⟩ ∧
    ¬ Edit.WrittenIn ⟨⟨4, 5, by decide⟩, "n"⟩
      (((sumRun.beforeWalk overriding).1.renameJava (sumRun.beforeWalk overriding).2).edits.plan
        overriding.text.utf8ByteSize).applied := by
  have hexpects : sumContext.Expects sumDraft (overriding.sites.take 1) methodSite
      ⟨⟨4, 5, by decide⟩, "n"⟩ := by
    refine ⟨rfl, ⟨.method overridden, by decide +kernel, ?_⟩, by decide, by decide +kernel⟩
    rw [rename_overridden]
    decide +kernel
  rw [beforeWalk_overriding, renameJava_overriding]
  refine ⟨rfl, ⟨_, rfl, by decide +kernel⟩, report_overriding, rfl, hexpects, ?_⟩
  rintro ⟨x, hx, hspan, -⟩
  revert x
  decide +kernel

end Run

end SourceRename
