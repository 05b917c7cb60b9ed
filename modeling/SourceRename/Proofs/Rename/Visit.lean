import SourceRename.Proofs.Rename.Writes

/-!
# What visiting a node of a Java file does

Whatever a node stands for, renaming it replaces one of three things (`Site.Target`): an identifier
among its direct tokens, the whole node, or the whole qualified type or expression around it.  What
it replaces does not depend on what has been queued already, except that nothing is queued for a
span that is not free:  `Queues site text f w` says of the step `f` that `w` is the replacement it
queues, given a free span (`exists_queues`).

So the replacement that a node gets by itself, with an empty list, is the one it gets in a walk,
if its span is free then (`Context.queues_of_alone`), and all that a visit queues was free at its
time (`grows_visitJava`).
-/

namespace SourceRename

/-- The spans that renaming a node may replace. -/
inductive Site.Target (site : Site) : Span → Prop
  | token {t : Token} : t ∈ site.directTokens → Target site t.span
  | whole : Target site site.span
  | parent {p : Site} : site.parent? = some p → p.kind = .userType ∨ p.kind = .dotQualified →
      Target site p.span

/-- One of the nodes may replace the span; the node and the span are free. -/
def Site.Step (sites : List Site) (es : Edits) (s : Span) : Prop :=
  ∃ m ∈ sites, m.Target s ∧ es.isFree m.span = true ∧ es.isFree s = true

theorem Site.Step.isFree {sites : List Site} {es : Edits} {s : Span}
    (h : Site.Step sites es s) : es.isFree s = true := by
  obtain ⟨-, -, -, -, hfree⟩ := h
  exact hfree

theorem SourceFile.isKotlin_of_java {f : SourceFile} (h : f.language = .java) :
    f.isKotlin = false := by
  rw [isKotlin, h]
  rfl

/-- The step `f` queues the replacement `w`, if its span is free; whatever else it queues is free
and may be replaced by the node. -/
structure Queues (site : Site) (text : String) (f : Draft → Draft) (w : Option Edit) : Prop where
  text_eq : ∀ d, (f d).text = d.text
  grows : ∀ d, d.text = text → d.isFree site.span = true →
    Edits.Grows (Site.Step [site]) d.edits (f d).edits
  nothing : w = none → ∀ d, d.text = text → (f d).edits = d.edits
  target : ∀ e, w = some e → site.Target e.span
  fresh : ∀ e, w = some e → ∀ d, d.text = text → d.isFree e.span = true →
    d.edits.hasSpan e.span = false → (f d).edits = d.edits.queue e.span e.text
  again : ∀ e, w = some e → ∀ d, d.text = text → d.isFree e.span = true →
    d.isFree site.span = true →
    Edits.Grows (Site.Step [site]) (d.edits.queue e.span e.text) (f d).edits

namespace Queues

variable {site : Site} {text : String} {f g : Draft → Draft} {w v : Option Edit} {span : Span}
  {new : String}

/-! ### Single replacements -/

theorem of_edits_eq (htext : ∀ d, (f d).text = d.text)
    (hedits : ∀ d, d.text = text → (f d).edits = d.edits) : Queues site text f none where
  text_eq := htext
  grows d hd _ := (hedits d hd) ▸ .refl _
  nothing _ := hedits
  target := nofun
  fresh := nofun
  again := nofun

theorem congr (h : Queues site text f w)
    (hg : ∀ d, (g d).text = (f d).text ∧ (g d).edits = (f d).edits) : Queues site text g w where
  text_eq d := (hg d).1.trans (h.text_eq d)
  grows d hd hfree := (hg d).2 ▸ h.grows d hd hfree
  nothing hw d hd := (hg d).2.trans (h.nothing hw d hd)
  target := h.target
  fresh e he d hd hfree hs := (hg d).2.trans (h.fresh e he d hd hfree hs)
  again e he d hd hfree hsite := (hg d).2 ▸ h.again e he d hd hfree hsite

/-- A step that replaces a span which the node may replace, perhaps only where it is free. -/
theorem of_replace (hs : site.Target span) (hcases : ∀ d, f d = d ∨ f d = d.replace span new)
    (hf : ∀ d, d.isFree span = true → f d = d.replace span new)
    (hfree : ∀ d, d.isFree site.span = true → f d = d ∨ d.isFree span = true) :
    ∃ w, Queues site text f w := by
  have htext : ∀ d, (f d).text = d.text := by
    intro d
    rcases hcases d with h | h
    · rw [h]
    · rw [h, Draft.text_replace]
  by_cases hsame : slice? text.toList span = some new.toList
  · -- the text is there already
    refine ⟨none, of_edits_eq htext ?_⟩
    intro d hd
    rcases hcases d with h | h
    · rw [h]
    · rw [h, Draft.edits_replace, hd, if_pos hsame]
  · have hqueue : ∀ d, d.text = text → d.isFree span = true →
        (f d).edits = d.edits.queue span new := by
      intro d hd hspan
      rw [hf d hspan, Draft.edits_replace, hd, if_neg hsame]
    refine ⟨some ⟨span, new⟩, htext, ?_, nofun, ?_, ?_, ?_⟩
    · intro d hd hsite
      rcases hfree d hsite with h | h
      · rw [h]
        exact .refl _
      · rw [hqueue d hd h]
        exact .queue new (.refl _) ⟨site, List.mem_singleton_self _, hs, hsite, h⟩
    · rintro e ⟨⟩
      exact hs
    · rintro e ⟨⟩ d hd hspan -
      exact hqueue d hd hspan
    · rintro e ⟨⟩ d hd hspan -
      rw [hqueue d hd hspan]
      exact .refl _

/-- One step after the other, the second one only where the first one adds no entry. -/
theorem orElse (hf : Queues site text f w) (hg : Queues site text g v) :
    Queues site text (fun d => if (f d).edits.size = d.edits.size then g (f d) else f d)
      (w.or v) := by
  have hnext : ∀ d, d.text = text → (f d).text = text := fun d hd => (hf.text_eq d).trans hd
  have hsite : ∀ d, d.text = text → d.isFree site.span = true →
      (f d).edits.size = d.edits.size → (f d).isFree site.span = true := by
    intro d hd hfree hsize
    exact ((hf.grows d hd hfree).isFree_iff_of_size_eq hsize).2 hfree
  refine ⟨?_, ?_, ?_, ?_, ?_, ?_⟩
  · intro d
    split
    · rw [hg.text_eq, hf.text_eq]
    · exact hf.text_eq d
  · intro d hd hfree
    split
    · next hsize =>
      exact (hf.grows d hd hfree).trans (hg.grows _ (hnext d hd) (hsite d hd hfree hsize))
    · exact hf.grows d hd hfree
  · intro hw d hd
    obtain ⟨hw, hv⟩ := Option.or_eq_none_iff.1 hw
    have heq := hf.nothing hw d hd
    simp only [heq, if_pos, hg.nothing hv _ (hnext d hd)]
  · intro e he
    cases w with
    | none => exact hg.target e he
    | some e' => exact hf.target e he
  · intro e he d hd hspan hs
    cases w with
    | none =>
      have heq := hf.nothing rfl d hd
      have hgd := hg.fresh e he (f d) (hnext d hd) (by rwa [Draft.isFree, heq]) (by rwa [heq])
      simp only [heq, if_pos, hgd]
    | some e' =>
      -- the first step adds an entry, so it is the last one
      have heq := hf.fresh e he d hd hspan hs
      have hsize : (f d).edits.size ≠ d.edits.size := by
        rw [heq, Edits.size_queue_of_not_hasSpan hs]
        omega
      rw [if_neg hsize, heq]
  · intro e he d hd hspan hfree
    cases w with
    | none =>
      have heq := hf.nothing rfl d hd
      have hgd := hg.again e he (f d) (hnext d hd) (by rwa [Draft.isFree, heq])
        (by rwa [Draft.isFree, heq])
      simp only [heq, if_pos]
      rwa [heq] at hgd
    | some e' =>
      have hfd := hf.again e he d hd hspan hfree
      split
      · next hsize =>
        exact hfd.trans (hg.grows _ (hnext d hd) (hsite d hd hfree hsize))
      · exact hfd

end Queues

namespace Context

variable {cx : Context} {site : Site} {text : String} {d : Draft}

open Queues (of_edits_eq)

/-! ### What one node gets -/

theorem queues_id : ∃ w, Queues site text (fun d => d) w :=
  ⟨none, of_edits_eq (fun _ => rfl) fun _ _ => rfl⟩

theorem queues_token {t : Token} (ht : t ∈ site.directTokens) (new : String) :
    ∃ w, Queues site text (fun d => d.replace t.span new) w :=
  Queues.of_replace (.token ht) (fun _ => .inr rfl) (fun _ _ => rfl) fun _ hfree =>
    .inr (Edits.isFree_of_within hfree (Site.within_of_mem_directTokens ht))

theorem queues_replaceName (site : Site) (text old new : String) :
    ∃ w, Queues site text (replaceName site old new) w := by
  unfold replaceName
  cases h : nameToken? site old with
  | none => exact queues_id
  | some token => exact queues_token (mem_directTokens_of_nameToken? h) new

theorem queues_renameField (cx : Context) (site : Site) (text : String) (field : Field) :
    ∃ w, Queues site text (cx.renameField site field) w := by
  unfold renameField
  cases cx.fieldName? field with
  | none => exact queues_id
  | some new =>
    simp only
    split
    · exact queues_id
    · obtain ⟨w, hw⟩ := queues_replaceName site text field.name new
      refine ⟨w, hw.congr ?_⟩
      intro d
      -- the problem that may be reported changes neither the text nor the replacements
      split
      · exact ⟨rfl, rfl⟩
      · exact ⟨rfl, rfl⟩

theorem queues_renameQualified (cx : Context) (site : Site) (text qualified lookup : String) :
    ∃ w, Queues site text (cx.renameQualified site qualified lookup) w := by
  unfold renameQualified
  cases cx.renames.find? lookup with
  | none => exact queues_id
  | some c =>
    simp only
    split
    · exact Queues.of_replace .whole (fun _ => .inr rfl) (fun _ _ => rfl) fun _ hfree => .inr hfree
    · cases hp : site.parent?.filter fun p =>
          (p.kind == .userType || p.kind == .dotQualified) && p.text == qualified with
      | none => exact queues_replaceName site text _ _
      | some p =>
        obtain ⟨hparent, hkind⟩ := Option.filter_eq_some_iff.1 hp
        have hkind : p.kind = .userType ∨ p.kind = .dotQualified := by
          have := (Bool.and_eq_true_iff.1 hkind).1
          simpa using this
        refine Queues.of_replace (.parent hparent hkind) ?_ (fun d hfree => if_pos hfree)
          ?_
        · intro d
          by_cases hfree : d.isFree p.span = true
          · exact .inr (if_pos hfree)
          · exact .inl (if_neg hfree)
        · intro d _
          by_cases hfree : d.isFree p.span = true
          · exact .inr hfree
          · exact .inl (if_neg hfree)

theorem queues_renameMethod (hjava : cx.file.isKotlin = false) (site : Site) (text : String)
    (m : Method) : ∃ w, Queues site text (cx.renameMethod site m) w := by
  have hgetter : ∀ new d, cx.getterCall? site m new d = none := by
    intro new d
    rw [getterCall?, hjava]
    rfl
  unfold renameMethod
  simp only [hgetter]
  split
  · split
    · exact queues_renameQualified cx site text _ _
    · exact queues_id
  · cases cx.methodName? m with
    | none => exact queues_id
    | some new =>
      simp only
      split
      · exact queues_id
      · split
        · exact queues_replaceName site text _ _
        · exact queues_replaceName site text _ _

theorem queues_renameProperty (cx : Context) (site : Site) (text : String) (getter : Method) :
    ∃ w, Queues site text (cx.renameProperty site getter) w := by
  unfold renameProperty
  cases cx.methodName? getter with
  | none => exact queues_id
  | some new =>
    simp only
    split
    · exact queues_id
    · cases h : site.lastIdent? with
      | none => exact queues_id
      | some ident =>
        exact queues_token (Site.mem_directTokens_of_mem_idents (List.mem_of_getLast? h)) _

mutual

/-- **Renaming a node queues one replacement**, which its symbol decides. -/
theorem exists_queues (hjava : cx.file.isKotlin = false) (site : Site) (text : String) :
    (symbol : Symbol) → ∃ w, Queues site text (cx.rename site symbol) w
  | .field f => by simpa only [rename] using queues_renameField cx site text f
  | .method m => by simpa only [rename] using queues_renameMethod hjava site text m
  | .function m => by simpa only [rename] using queues_renameMethod hjava site text m
  | .classType name => by
    simpa only [rename, renameClass] using queues_renameQualified cx site text _ _
  | .package name => by simpa only [rename] using queues_renameQualified cx site text name name
  | .property getter => by simpa only [rename] using queues_renameProperty cx site text getter
  | .compiled overridden => by
    simpa only [rename] using exists_queues_first hjava site text overridden

theorem exists_queues_first (hjava : cx.file.isKotlin = false) (site : Site) (text : String) :
    (symbols : List Symbol) → ∃ w, Queues site text (cx.renameFirst site symbols) w
  | [] => by simpa only [renameFirst] using queues_id
  | symbol :: symbols => by
    obtain ⟨w, hw⟩ := exists_queues hjava site text symbol
    obtain ⟨v, hv⟩ := exists_queues_first hjava site text symbols
    refine ⟨w.or v, (hw.orElse hv).congr ?_⟩
    intro d
    rw [renameFirst]
    exact ⟨rfl, rfl⟩

end

/-- The replacement that a node gets by itself is the one it gets wherever its span is free. -/
theorem queues_of_alone (hjava : cx.file.isKotlin = false) {symbol : Symbol} {e : Edit}
    (h : (cx.rename site symbol (.ofText text)).edits.toList = [e]) :
    Queues site text (cx.rename site symbol) (some e) := by
  obtain ⟨w, hw⟩ := exists_queues hjava site text symbol
  cases w with
  | none =>
    rw [hw.nothing rfl _ rfl] at h
    simp [Draft.ofText, Edits.empty] at h
  | some e' =>
    rw [hw.fresh e' rfl (.ofText text) rfl (Edits.isFree_empty _) rfl] at h
    obtain rfl : e' = e := by simpa [Draft.ofText, Edits.empty, Edits.queue, Edits.insert] using h
    exact hw

/-! ### Walks -/

theorem visitJava_cases (hjava : cx.file.isKotlin = false) (site : Site) (d : Draft)
    (hd : d.text = text) : (cx.visitJava d site).text = text ∧
      Edits.Grows (Site.Step [site]) d.edits (cx.visitJava d site).edits := by
  rw [visitJava]
  split
  · next h =>
    rw [renameSite]
    cases cx.file.symbol? site with
    | none => exact ⟨hd, .refl _⟩
    | some symbol =>
      obtain ⟨w, hw⟩ := exists_queues hjava site text symbol
      exact ⟨(hw.text_eq d).trans hd, hw.grows d hd (Bool.and_eq_true_iff.1 h).2⟩
  · exact ⟨hd, .refl _⟩

/-- **A walk only queues what is free at its time** and may be replaced by one of its nodes. -/
theorem grows_visitJava (hjava : cx.file.isKotlin = false) (sites : List Site) (d : Draft)
    (hd : d.text = text) : (sites.foldl cx.visitJava d).text = text ∧
      Edits.Grows (Site.Step sites) d.edits (sites.foldl cx.visitJava d).edits := by
  induction sites generalizing d with
  | nil => exact ⟨hd, .refl _⟩
  | cons site sites ih =>
    obtain ⟨htext, hone⟩ := visitJava_cases hjava site d hd
    obtain ⟨hrest, hmore⟩ := ih (cx.visitJava d site) htext
    refine ⟨hrest, (hone.mono ?_).trans (hmore.mono ?_)⟩
    · rintro es s ⟨m, hm, hstep⟩
      exact ⟨m, by simp_all, hstep⟩
    · rintro es s ⟨m, hm, hstep⟩
      exact ⟨m, List.mem_cons_of_mem site hm, hstep⟩

end Context

end SourceRename
